/-
The `_id` that a query fixes.

`TraverseQueryDocumentAndProcess` hands the values of the conditions that all have to hold
to a callback, where `ProcessIdInQuery` keeps that of `_id`, and notes filters that the
values do not tell everything about. The walk is a fold over what it finds
(`traverse_found`).

Elements of `$all` and the only one of `$in` are taken for values, which is wrong for
patterns; and an empty `$all`, which matches nothing, is not noted. These are the two ways
in which the `_id` can be wrong (`extractedId_correct_iff`).
-/
import DocumentDb.Bson.Reference
import DocumentDb.Query.Document

namespace DocumentDb

open List Option

-- ==== the walk

section Walk

variable {σ : Type} (processValue : Bytes → Value → σ → Option σ) (processFilter : σ → σ)

/-- The only element of an array, where there is just one. -/
def processSingle (key : Bytes) (es : List Value) (s : σ) : Option σ :=
  match es with
  | [e] => processValue key e s
  | _ => some s

/-- The loop over the operators of a condition. `whole` is the condition. -/
def processOperators (key : Bytes) (whole : Value) : Fields → σ → Option σ
  | [], s => some s
  | (op, opValue) :: ops, s =>
    if op = eqOperator then do
      let s ← processValue key opValue s
      processOperators key whole ops s
    else if op = allOperator then do
      let es ← opValue.elements?
      let s ← es.foldlM (fun s e => processValue key e s) s
      processOperators key whole ops s
    else if op = inOperator then do
      let es ← opValue.elements?
      -- with more than one element the field is ignored
      let s ← processSingle processValue key es s
      processOperators key whole ops (processFilter s)
    else if op ≠ [] ∧ isOperatorKey op = false then
      -- a regular value: the entire document
      processValue key whole s
    else processOperators key whole ops (processFilter s)

def processField (key : Bytes) (value : Value) (s : σ) : Option σ :=
  match value with
  | .document [] => processValue key value s
  | .document ops => processOperators processValue processFilter key value ops s
  | .regex _ _ => some (processFilter s)
  | value => processValue key value s

mutual

/-- Without `isUpsert`. -/
def traverseQueryDocumentAndProcess : Fields → σ → Option σ
  | [], s => some s
  | (key, value) :: query, s => do
    let s ← traverseEntry key value s
    traverseQueryDocumentAndProcess query s

def traverseEntry (key : Bytes) : Value → σ → Option σ
  | .array es, s =>
    if key = norOperator then some (processFilter s)
    else if key = andOperator then traverseAndElements es s
    else if key = orOperator then (traverseOrElements es s).map processFilter
    else if key = exprOperator then some (processFilter s)
    else processField processValue processFilter key (.array es) s
  | value, s =>
    if key = norOperator then some (processFilter s)
    else if key = andOperator ∨ key = orOperator then none
    else if key = exprOperator then some (processFilter s)
    else processField processValue processFilter key value s

def traverseAndElements : List Value → σ → Option σ
  | [], s => some s
  | .document query :: es, s => do
    let s ← traverseQueryDocumentAndProcess query s
    traverseAndElements es s
  | _ :: _, _ => none

/-- A `$or` is only considered if it has a single element. -/
def traverseOrElements : List Value → σ → Option σ
  | [.document query], s => traverseQueryDocumentAndProcess query s
  | _, s => some s

end

end Walk

-- ==== what the walk finds

/-- The only element of a `$in`, and a filter. -/
def singleFound : Value → List (Option Value)
  | .array [e] => [some e, none]
  | _ => [none]

/-- What a condition on a field hands to the callbacks: the values of `$eq` and `$all`,
the only one of `$in`, and the whole condition for a name that is no operator. A note of
a filter is `none`; it also stands for an error. -/
def operatorsFound (whole : Value) : Fields → List (Option Value)
  | [] => []
  | (op, operand) :: ops =>
    if op = eqOperator then some operand :: operatorsFound whole ops
    else if op = allOperator then
      operand.elements?.elim [none] (map some) ++ operatorsFound whole ops
    else if op = inOperator then
      singleFound operand ++ operatorsFound whole ops
    else if op ≠ [] ∧ isOperatorKey op = false then [some whole]
    else none :: operatorsFound whole ops

def fieldFound : Value → List (Option Value)
  | .document [] => [some (.document [])]
  | .document ops => operatorsFound (.document ops) ops
  | .regex _ _ => [none]
  | value => [some value]

mutual

/-- What the walk finds for `_id`, in its order. A value of another field counts as a
filter. -/
def queryFound : Fields → List (Option Value)
  | [] => []
  | (key, value) :: query => entryFound key value ++ queryFound query

def entryFound (key : Bytes) : Value → List (Option Value)
  | .array es =>
    if key = andOperator then andFound es
    else if key = orOperator then orFound es ++ [none]
    else if key = idField then fieldFound (.array es)
    else [none]
  | value =>
    if key = idField then fieldFound value
    else if key = andOperator ∨ key = orOperator ∨ key = norOperator ∨ key = exprOperator
      then [none]
    else (fieldFound value).map fun _ => none

def andFound : List Value → List (Option Value)
  | [] => []
  | .document query :: es => queryFound query ++ andFound es
  | _ :: _ => [none]

def orFound : List Value → List (Option Value)
  | [.document query] => queryFound query
  | _ => []

end

/-- A query lists a value for `_id`. -/
def ListsId (query : Fields) (u : Value) : Prop := some u ∈ queryFound query

section EmptyAll

-- ==== empty $all

/-- An empty `$all`. -/
def isEmptyAll : Bytes × Value → Bool
  | (op, .array []) => op == allOperator
  | _ => false

def fieldHasEmptyAll : Value → Bool
  | .document ops => isOperatorDocument ops && ops.any isEmptyAll
  | _ => false

mutual

/-- There is an empty `$all` among the conditions that all have to hold. -/
def queryHasEmptyAll : Fields → Bool
  | [] => false
  | (key, value) :: query =>
    entryHasEmptyAll key value || queryHasEmptyAll query

def entryHasEmptyAll (key : Bytes) : Value → Bool
  | .array es => key == andOperator && andHasEmptyAll es
  | value =>
    !(key == andOperator || key == orOperator || key == norOperator
      || key == exprOperator) && fieldHasEmptyAll value

def andHasEmptyAll : List Value → Bool
  | [] => false
  | .document query :: es => queryHasEmptyAll query || andHasEmptyAll es
  | _ :: es => andHasEmptyAll es

end

variable {P : DocumentPredicates}

theorem field_not_matches_of_emptyAll (key : Bytes) {value : Value}
    (h : fieldHasEmptyAll value) : fieldMatches P key value = false := by
  cases value with
  | document ops =>
    rw [fieldHasEmptyAll, Bool.and_eq_true] at h
    obtain ⟨⟨op, operand⟩, hf, hall⟩ := List.any_eq_true.1 h.2
    rw [fieldMatches, if_pos h.1, List.all_eq_false]
    refine ⟨(op, operand), hf, ?_⟩
    unfold isEmptyAll at hall
    split at hall
    · rename_i hpair
      cases hpair
      obtain rfl := beq_iff_eq.1 hall
      exact Bool.false_ne_true
    · cases hall
  | _ => cases h

mutual

theorem not_matches_of_emptyAll (htop : ∀ op v, P.topLevel op v = false)
    (query : Fields) (h : queryHasEmptyAll query) : queryMatches P query = false := by
  match query with
  | (key, value) :: query =>
    rw [queryHasEmptyAll, Bool.or_eq_true] at h
    rw [queryMatches]
    rcases h with h | h
    · rw [entry_not_matches_of_emptyAll htop key value h, Bool.false_and]
    · rw [not_matches_of_emptyAll htop query h, Bool.and_false]

theorem entry_not_matches_of_emptyAll
    (htop : ∀ op v, P.topLevel op v = false) (key : Bytes) (value : Value)
    (h : entryHasEmptyAll key value) : entryMatches P key value = false := by
  cases value with
  | array es =>
    rw [entryHasEmptyAll, Bool.and_eq_true, beq_iff_eq] at h
    obtain ⟨rfl, h⟩ := h
    exact and_not_matches_of_emptyAll htop es h
  | document ops =>
    rw [entryHasEmptyAll, Bool.and_eq_true] at h
    · rw [entryMatches]
      · split
        · rfl
        split
        · exact htop key _
        · exact field_not_matches_of_emptyAll key h.2
      · intro es hes
        cases hes
    · intro es hes
      cases hes
  | _ => simp [entryHasEmptyAll, fieldHasEmptyAll] at h

theorem and_not_matches_of_emptyAll (htop : ∀ op v, P.topLevel op v = false)
    (es : List Value) (h : andHasEmptyAll es) : allMatch P es = false := by
  cases es with
  | nil => cases h
  | cons e es =>
    cases e with
    | document query =>
      rw [andHasEmptyAll, Bool.or_eq_true] at h
      rw [allMatch]
      rcases h with h | h
      · rw [not_matches_of_emptyAll htop query h, Bool.false_and]
      · rw [and_not_matches_of_emptyAll htop es h, Bool.and_false]
    | _ => rfl

end

end EmptyAll

-- ==== the _id

structure QueryIdContext where
  foundId : Bool := false
  idValue : Value := .undefined
  foundMultipleIds : Bool := false
  errorOnConflict : Bool
  queryHasNonIdFilters : Bool := false

section Id

variable [BidLib]

def processIdInQuery (path : Bytes) (value : Value)
    (context : QueryIdContext) : Option QueryIdContext :=
  if path ≠ idField ∨ context.foundMultipleIds = true then
    some { context with queryHasNonIdFilters := true }
  else if context.foundId && (compareBsonValueAndType value context.idValue).1 ≠ 0 then
    if context.errorOnConflict then none
    else
      some { context with
        queryHasNonIdFilters := true
        foundMultipleIds := true }
  else some { context with idValue := value, foundId := true }

def setQueryHasNonIdFilters (context : QueryIdContext) : QueryIdContext :=
  { context with queryHasNonIdFilters := true }

variable (errorOnConflict : Bool) (queryDocument : Fields)

def traverseForId : Option QueryIdContext :=
  traverseQueryDocumentAndProcess processIdInQuery setQueryHasNonIdFilters
    queryDocument { errorOnConflict := errorOnConflict }

/-- The `_id`, if one is found, and whether there are other filters. -/
def traverseQueryDocumentAndGetId : Option (Option Value × Bool) := do
  let context ← traverseForId errorOnConflict queryDocument
  return (if context.foundId && !context.foundMultipleIds
      then some context.idValue else none, context.queryHasNonIdFilters)

/-- The values that `_id` can have. -/
def validateIdField : Value → Bool
  | .array _ | .undefined | .regex _ _ => false
  | .document fs => fs.all fun f => !isOperatorKey f.1
  | _ => true

variable {c c' : QueryIdContext} {key : Bytes} {value w : Value}
  {found found' : List (Option Value)}

-- ==== the walk is a fold over what it finds

def noteAt (key : Bytes) (context : QueryIdContext) : Option Value → Option QueryIdContext
  | some value => processIdInQuery key value context
  | none => some (setQueryHasNonIdFilters context)

theorem noteAt_of_ne (hkey : key ≠ idField) (c : QueryIdContext) (e : Option Value) :
    noteAt key c e = some (setQueryHasNonIdFilters c) := by
  cases e with
  | none => rfl
  | some value => exact if_pos (.inl hkey)

theorem processOperators_found {whole : Value} {ops : Fields}
    (h : processOperators processIdInQuery setQueryHasNonIdFilters key whole ops c = some c') :
    (operatorsFound whole ops).foldlM (noteAt key) c = some c' := by
  induction ops generalizing c with
  | nil => exact h
  | cons f ops ih =>
    obtain ⟨op, operand⟩ := f
    rw [processOperators] at h
    rw [operatorsFound]
    split at h
    · rename_i heq
      obtain ⟨middle, hmiddle, h⟩ := bind_eq_some_iff.1 h
      rw [if_pos heq, foldlM_cons]
      exact bind_eq_some_iff.2 ⟨middle, hmiddle, ih h⟩
    rename_i heq
    rw [if_neg heq]
    split at h
    · rename_i hall
      obtain ⟨es, hes, h⟩ := bind_eq_some_iff.1 h
      obtain ⟨middle, hmiddle, h⟩ := bind_eq_some_iff.1 h
      rw [if_pos hall, hes, elim_some, foldlM_append, foldlM_map]
      exact bind_eq_some_iff.2 ⟨middle, hmiddle, ih h⟩
    rename_i hall
    rw [if_neg hall]
    split at h
    · rename_i hin
      obtain ⟨es, hes, hrest⟩ := bind_eq_some_iff.1 h
      obtain ⟨middle, hmiddle, hloop⟩ := bind_eq_some_iff.1 hrest
      obtain rfl := Value.eq_array_of_elements? hes
      rw [if_pos hin, foldlM_append]
      refine bind_eq_some_iff.2 ⟨setQueryHasNonIdFilters middle, ?_, ih hloop⟩
      unfold processSingle at hmiddle
      split at hmiddle
      · exact bind_eq_some_iff.2 ⟨middle, hmiddle, rfl⟩
      · cases hmiddle
        rw [singleFound]
        · rfl
        · rename_i hmany
          intro e he
          cases he
          exact hmany e rfl
    rename_i hin
    rw [if_neg hin]
    split at h
    · rename_i hname
      rw [if_pos hname]
      exact bind_eq_some_iff.2 ⟨c', h, rfl⟩
    · rename_i hname
      rw [if_neg hname]
      exact ih h

theorem processField_found
    (h : processField processIdInQuery setQueryHasNonIdFilters key value c = some c') :
    (fieldFound value).foldlM (noteAt key) c = some c' := by
  unfold processField at h
  split at h
  · exact bind_eq_some_iff.2 ⟨c', h, rfl⟩
  · rename_i ops hops
    rw [fieldFound]
    · exact processOperators_found h
    · exact hops
  · exact h
  · rename_i hdoc hops hregex
    rw [fieldFound]
    · exact bind_eq_some_iff.2 ⟨c', h, rfl⟩
    · exact hdoc
    · exact hops
    · exact hregex

theorem processField_other (hkey : key ≠ idField)
    (h : processField processIdInQuery setQueryHasNonIdFilters key value c = some c') :
    ((fieldFound value).map fun _ => none).foldlM (noteAt idField) c = some c' := by
  rw [← processField_found h, foldlM_map]
  congr 1
  funext c e
  exact (noteAt_of_ne hkey c e).symm

mutual

theorem traverse_found (query : Fields) {c c' : QueryIdContext}
    (h : traverseQueryDocumentAndProcess processIdInQuery setQueryHasNonIdFilters query c
      = some c') : (queryFound query).foldlM (noteAt idField) c = some c' := by
  match query with
  | [] => exact h
  | (key, value) :: query =>
    obtain ⟨middle, hmiddle, h⟩ := bind_eq_some_iff.1 h
    rw [queryFound, foldlM_append]
    exact bind_eq_some_iff.2
      ⟨middle, traverseEntry_found key value hmiddle, traverse_found query h⟩

theorem traverseEntry_found (key : Bytes) (value : Value) {c c' : QueryIdContext}
    (h : traverseEntry processIdInQuery setQueryHasNonIdFilters key value c = some c') :
    (entryFound key value).foldlM (noteAt idField) c = some c' := by
  cases value with
  | array es =>
    rw [traverseEntry] at h
    by_cases hand : key = andOperator
    · subst hand
      exact traverseAndElements_found es h
    by_cases hor : key = orOperator
    · subst hor
      obtain ⟨inner, hinner, h⟩ := map_eq_some_iff.1 h
      rw [entryFound, if_neg hand, if_pos rfl, foldlM_append]
      exact bind_eq_some_iff.2 ⟨inner, traverseOrElements_found es hinner, congrArg some h⟩
    rw [if_neg hand, if_neg hor] at h
    rw [entryFound, if_neg hand, if_neg hor]
    by_cases hkey : key = idField
    · subst hkey
      rw [if_neg (by decide), if_neg (by decide)] at h
      exact processField_found h
    · rw [if_neg hkey]
      split at h
      · exact h
      split at h
      · exact h
      · have hother := processField_other hkey h
        exact hother
  | _ =>
    simp only [traverseEntry] at h
    simp only [entryFound]
    by_cases hkey : key = idField
    · subst hkey
      rw [if_neg (by decide), if_neg (by decide), if_neg (by decide)] at h
      exact processField_found h
    rw [if_neg hkey]
    by_cases hnor : key = norOperator
    · rw [if_pos (.inr (.inr (.inl hnor)))]
      rwa [if_pos hnor] at h
    rw [if_neg hnor] at h
    split at h
    · cases h
    rename_i hlogic
    split at h
    · rename_i hexpr
      rwa [if_pos (.inr (.inr (.inr hexpr)))]
    · rename_i hexpr
      rw [if_neg (by tauto)]
      exact processField_other hkey h

theorem traverseAndElements_found (es : List Value) {c c' : QueryIdContext}
    (h : traverseAndElements processIdInQuery setQueryHasNonIdFilters es c = some c') :
    (andFound es).foldlM (noteAt idField) c = some c' := by
  match es with
  | [] => exact h
  | .document query :: es =>
    obtain ⟨middle, hmiddle, h⟩ := bind_eq_some_iff.1 h
    rw [andFound, foldlM_append]
    exact bind_eq_some_iff.2
      ⟨middle, traverse_found query hmiddle, traverseAndElements_found es h⟩

theorem traverseOrElements_found (es : List Value) {c c' : QueryIdContext}
    (h : traverseOrElements processIdInQuery setQueryHasNonIdFilters es c = some c') :
    (orFound es).foldlM (noteAt idField) c = some c' := by
  cases es with
  | nil => exact h
  | cons e es =>
    cases es with
    | cons e' es =>
      rw [traverseOrElements] at h
      · rw [orFound]
        · exact h
        · simp
      · simp
    | nil =>
      cases e with
      | document query => exact traverse_found query h
      | _ => exact h

end

-- ==== the value found is one of those listed

def HoldsId (context : QueryIdContext) (u : Value) : Prop :=
  context.foundId = true ∧ bsonValueEquals u context.idValue = true

/-- A part of the walk: at its end, the value found equals all that were listed, unless
several were found, and no filter is noted only if there was none. -/
structure Lists (found : List (Option Value)) (c c' : QueryIdContext) : Prop where
  multiple : c'.foundMultipleIds = false → c.foundMultipleIds = false
  keeps : c'.foundMultipleIds = false → ∀ u, HoldsId c u → HoldsId c' u
  holds : c'.foundMultipleIds = false → ∀ u, some u ∈ found → HoldsId c' u
  listed : c'.foundId = true → c.foundId = true ∨ ∃ u, some u ∈ found
  plain : c'.queryHasNonIdFilters = false → c.queryHasNonIdFilters = false ∧ none ∉ found

theorem Lists.cons {middle : QueryIdContext} {e : Option Value} (h : Lists [e] c middle)
    (h' : Lists found middle c') : Lists (e :: found) c c' where
  multiple hc' := h.multiple (h'.multiple hc')
  keeps hc' u hu := h'.keeps hc' u (h.keeps (h'.multiple hc') u hu)
  holds hc' u hu := by
    rcases mem_cons.1 hu with hu | hu
    · exact h'.keeps hc' u (h.holds (h'.multiple hc') u (mem_singleton.2 hu))
    · exact h'.holds hc' u hu
  listed hc' := by
    rcases h'.listed hc' with hmiddle | ⟨u, hu⟩
    · rcases h.listed hmiddle with hc | ⟨u, hu⟩
      · exact .inl hc
      · exact .inr ⟨u, mem_singleton.1 hu ▸ mem_cons_self⟩
    · exact .inr ⟨u, mem_cons_of_mem _ hu⟩
  plain hc' := by
    obtain ⟨hmiddle, hfound⟩ := h'.plain hc'
    obtain ⟨hc, hfirst⟩ := h.plain hmiddle
    exact ⟨hc, not_mem_cons_of_ne_of_not_mem (mem_singleton.not.1 hfirst) hfound⟩

theorem lists_noteAt {e : Option Value} (h : noteAt idField c e = some c') : Lists [e] c c' := by
  cases e with
  | none =>
    cases h
    exact ⟨id, fun _ _ => id, fun _ u hu => absurd (mem_singleton.1 hu) nofun, .inl, nofun⟩
  | some value =>
    change processIdInQuery idField value c = some c' at h
    unfold processIdInQuery at h
    by_cases hmultiple : c.foundMultipleIds
    · rw [if_pos (.inr hmultiple)] at h
      cases h
      have hnot : ¬c.foundMultipleIds = false := by simp [hmultiple]
      exact ⟨id, fun hc => absurd hc hnot, fun hc => absurd hc hnot, .inl, nofun⟩
    rw [if_neg (not_or.2 ⟨not_not.2 rfl, hmultiple⟩)] at h
    split at h
    · split at h
      · cases h
      · cases h
        exact ⟨nofun, nofun, nofun, .inl, nofun⟩
    · rename_i hsame
      cases h
      refine ⟨id, fun _ u hu => ⟨rfl, ?_⟩, fun _ u hu => ⟨rfl, ?_⟩,
        fun _ => .inr ⟨value, mem_singleton_self _⟩, fun hc => ⟨hc, by simp⟩⟩
      · have hequal : bsonValueEquals value c.idValue := by
          rw [bsonValueEquals_iff]
          by_contra hne
          apply hsame
          simp [hu.1, hne]
        exact bsonValueEquals_trans hu.2 (bsonValueEquals_symm hequal)
      · cases mem_singleton.1 hu
        exact bsonValueEquals_iff.2 (compareBsonValueAndType_self _)

theorem lists_foldlM (h : found.foldlM (noteAt idField) c = some c') : Lists found c c' := by
  induction found generalizing c with
  | nil =>
    cases h
    exact ⟨id, fun _ _ => id, fun _ _ hu => absurd hu not_mem_nil, .inl,
      fun hc => ⟨hc, not_mem_nil⟩⟩
  | cons e found ih =>
    obtain ⟨middle, hmiddle, h⟩ := bind_eq_some_iff.1 h
    exact (lists_noteAt hmiddle).cons (ih h)

-- ==== every match has the _id

theorem not_isOperatorKey_of_equals {fs : Fields} (hw : validateIdField w)
    (h : bsonValueEquals w (.document fs)) : ∀ f ∈ fs, isOperatorKey f.1 = false := by
  obtain ⟨gs, rfl, hnames⟩ := exists_document_of_bsonValueEquals h
  intro f hf
  have hname : f.1 ∈ gs.map Prod.fst := hnames ▸ List.mem_map_of_mem hf
  obtain ⟨g, hg, hfg⟩ := List.mem_map.1 hname
  rw [← hfg]
  simpa using List.all_eq_true.1 hw g hg

theorem not_isRegex_of_equals (hw : validateIdField w)
    (h : bsonValueEquals w v) : v.isRegex = false := by
  obtain ⟨hclass, -⟩ := bsonValueEquals_content h
  cases v with
  | regex pattern options =>
    cases w with
    | regex _ _ => cases hw
    | _ => cases hclass
  | _ => rfl

theorem isRegex_of_equals {u v : Value} (h : bsonValueEquals u v) (hu : u.isRegex) : v.isRegex := by
  obtain ⟨hclass, -⟩ := bsonValueEquals_content h
  cases u with
  | regex pattern options =>
    cases v with
    | regex _ _ => rfl
    | _ => cases hclass
  | _ => cases hu

/-- A value can be listed for an id: it is a pattern, or the id equals it. -/
def ValueOk (w u : Value) : Prop := u.isRegex = true ∨ bsonValueEquals w u = true

variable {P : DocumentPredicates}

/-- A valid id, which the document has. -/
structure IsIdOf (P : DocumentPredicates) (w : Value) : Prop where
  valid : validateIdField w
  has : HasValue P idField w

theorem valueOk_of_valueMatches (hid : IsIdOf P w) (h : valueMatches P idField value) :
    ValueOk w value := by
  cases value with
  | regex pattern options => exact .inl rfl
  | _ => exact .inr ((hid.has _).symm.trans h)

theorem valueOk_of_operators (hid : IsIdOf P w) {whole u : Value} {ops : Fields}
    (hops : ∀ f ∈ ops, operatorMatches P idField f.1 f.2)
    (hu : some u ∈ operatorsFound whole ops) : ValueOk w u := by
  induction ops with
  | nil => cases hu
  | cons f ops ih =>
    obtain ⟨op, operand⟩ := f
    obtain ⟨hop, hops⟩ := forall_mem_cons.1 hops
    have hrest := ih hops
    change operatorMatches P idField op operand = true at hop
    rw [operatorMatches] at hop
    rw [operatorsFound] at hu
    by_cases heq : op = eqOperator
    · rw [if_pos heq] at hop hu
      rcases mem_cons.1 hu with hu | hu
      · cases hu
        exact .inr ((hid.has _).symm.trans hop)
      · exact hrest hu
    rw [if_neg heq] at hop hu
    by_cases hall : op = allOperator
    · rw [if_neg (by rw [hall]; decide), if_pos hall] at hop
      rw [if_pos hall] at hu
      cases operand with
      | array es =>
        rcases mem_append.1 hu with hu | hu
        · obtain ⟨e, he, hvalue⟩ := List.mem_map.1 hu
          cases hvalue
          obtain ⟨-, hes⟩ := Bool.and_eq_true_iff.1 hop
          exact valueOk_of_valueMatches hid (List.all_eq_true.1 hes u he)
        · exact hrest hu
      | _ => cases hop
    rw [if_neg hall] at hu
    by_cases hin : op = inOperator
    · rw [if_pos hin] at hop hu
      rcases mem_append.1 hu with hu | hu
      · unfold singleFound at hu
        split at hu
        · rcases mem_pair.1 hu with hu | hu
          · cases hu
            have hany : [u].any (valueMatches P idField) := hop
            exact valueOk_of_valueMatches hid (by simpa using hany)
          · cases hu
        · cases mem_singleton.1 hu
      · exact hrest hu
    rw [if_neg hin, if_neg hall] at hop
    rw [if_neg hin, if_neg] at hu
    · rcases mem_cons.1 hu with hu | hu
      · cases hu
      · exact hrest hu
    · intro hname
      rw [hname.2] at hop
      cases hop

omit [BidLib] in
theorem operatorsFound_name {op : Bytes} (hop : isOperatorKey op = false) (whole operand : Value)
    (ops : Fields) : operatorsFound whole ((op, operand) :: ops)
      = if op ≠ [] then [some whole] else none :: operatorsFound whole ops := by
  have hne : ∀ {op' : Bytes}, isOperatorKey op' = true → op ≠ op' := by
    rintro op' hop' rfl
    cases hop.symm.trans hop'
  rw [operatorsFound, if_neg (hne rfl), if_neg (hne rfl), if_neg (hne rfl)]
  simp only [hop, and_true]

omit [BidLib] in
/-- Without any operator only the whole condition is listed. -/
theorem eq_whole_of_names {whole u : Value} {ops : Fields}
    (hops : ∀ f ∈ ops, isOperatorKey f.1 = false) (hu : some u ∈ operatorsFound whole ops) :
    u = whole := by
  induction ops with
  | nil => cases hu
  | cons f ops ih =>
    obtain ⟨hop, hops⟩ := forall_mem_cons.1 hops
    rw [operatorsFound_name hop] at hu
    split at hu
    · cases mem_singleton.1 hu
      rfl
    · rcases mem_cons.1 hu with hu | hu
      · cases hu
      · exact ih hops hu

theorem valueOk_of_field (hid : IsIdOf P w) {u : Value}
    (hmatch : fieldMatches P idField value) (hu : some u ∈ fieldFound value) : ValueOk w u := by
  unfold fieldFound at hu
  split at hu
  · cases mem_singleton.1 hu
    exact .inr ((hid.has _).symm.trans hmatch)
  · rename_i ops _
    rw [fieldMatches] at hmatch
    split at hmatch
    · exact valueOk_of_operators hid (List.all_eq_true.1 hmatch) hu
    · have hequal := (hid.has _).symm.trans hmatch
      rw [eq_whole_of_names (not_isOperatorKey_of_equals hid.valid hequal) hu]
      exact .inr hequal
  · cases mem_singleton.1 hu
  · rename_i hdoc hops hregex
    cases mem_singleton.1 hu
    refine .inr ((hid.has _).symm.trans ?_)
    cases value with
    | document fs => exact absurd rfl (hops fs)
    | regex pattern options => exact absurd rfl (hregex pattern options)
    | _ => exact hmatch

mutual

/-- A document that matches has the values that are listed, patterns apart. -/
theorem valueOk_of_query (hid : IsIdOf P w) (query : Fields) {u : Value}
    (hmatch : queryMatches P query) (hu : ListsId query u) : ValueOk w u := by
  match query with
  | [] => cases hu
  | (key, value) :: query =>
    rw [queryMatches, Bool.and_eq_true] at hmatch
    rcases mem_append.1 hu with hu | hu
    · exact valueOk_of_entry hid key value hmatch.1 hu
    · exact valueOk_of_query hid query hmatch.2 hu

theorem valueOk_of_entry (hid : IsIdOf P w) (key : Bytes)
    (value : Value) {u : Value} (hmatch : entryMatches P key value)
    (hu : some u ∈ entryFound key value) : ValueOk w u := by
  have hfield (hkey : key = idField) (hu : some u ∈ fieldFound value) : ValueOk w u := by
    rw [hkey, entryMatches_field P rfl] at hmatch
    exact valueOk_of_field hid hmatch hu
  cases value with
  | array es =>
    rw [entryFound] at hu
    split at hu
    · rename_i hand
      rw [hand, entryMatches_and] at hmatch
      exact valueOk_of_and hid es hmatch hu
    split at hu
    · rename_i hor
      rw [hor, entryMatches_or] at hmatch
      rcases mem_append.1 hu with hu | hu
      · exact valueOk_of_or hid es hmatch hu
      · cases mem_singleton.1 hu
    split at hu
    · exact hfield ‹_› hu
    · cases mem_singleton.1 hu
  | _ =>
    simp only [entryFound] at hu
    split at hu
    · exact hfield ‹_› hu
    split at hu
    · cases mem_singleton.1 hu
    · obtain ⟨-, -, hnone⟩ := List.mem_map.1 hu
      cases hnone

theorem valueOk_of_and (hid : IsIdOf P w) (es : List Value)
    {u : Value} (hmatch : allMatch P es) (hu : some u ∈ andFound es) : ValueOk w u := by
  match es with
  | [] => cases hu
  | .document query :: es =>
    rw [allMatch, Bool.and_eq_true] at hmatch
    rcases mem_append.1 hu with hu | hu
    · exact valueOk_of_query hid query hmatch.1 hu
    · exact valueOk_of_and hid es hmatch.2 hu

theorem valueOk_of_or (hid : IsIdOf P w) (es : List Value)
    {u : Value} (hmatch : anyMatch P es) (hu : some u ∈ orFound es) : ValueOk w u := by
  cases es with
  | nil => cases hu
  | cons e es =>
    cases es with
    | cons e' es =>
      rw [orFound] at hu
      · cases hu
      · simp
    | nil =>
      cases e with
      | document query =>
        rw [anyMatch, anyMatch, Bool.or_false] at hmatch
        exact valueOk_of_query hid query hmatch hu
      | _ => cases hu

end

-- ==== the _id is every match

/-- Nothing is found but values that the id equals. -/
def AllId (w : Value) (found : List (Option Value)) : Prop :=
  none ∉ found ∧ ∀ u, some u ∈ found → bsonValueEquals w u = true

theorem AllId.append (h : AllId w (found ++ found')) : AllId w found ∧ AllId w found' :=
  ⟨⟨fun hnone => h.1 (mem_append_left _ hnone), fun u hu => h.2 u (mem_append_left _ hu)⟩,
    fun hnone => h.1 (mem_append_right _ hnone), fun u hu => h.2 u (mem_append_right _ hu)⟩

theorem valueMatches_of_equals (hid : IsIdOf P w) (h : bsonValueEquals w value) :
    valueMatches P idField value := by
  have hregex := not_isRegex_of_equals hid.valid h
  cases value with
  | regex pattern options => cases hregex
  | _ => exact (hid.has _).trans h

/-- The operators match, or there is a name among them that is none. -/
theorem operators_of_allId (hid : IsIdOf P w) {whole : Value}
    {ops : Fields} (hempty : ops.any isEmptyAll = false) (h : AllId w (operatorsFound whole ops)) :
    (∀ f ∈ ops, operatorMatches P idField f.1 f.2) ∨ bsonValueEquals w whole := by
  induction ops with
  | nil => exact .inl fun f hf => absurd hf not_mem_nil
  | cons f ops ih =>
    obtain ⟨op, operand⟩ := f
    rw [any_cons, Bool.or_eq_false_iff] at hempty
    rw [operatorsFound] at h
    have hcons (hrest : AllId w (operatorsFound whole ops))
        (hfirst : operatorMatches P idField op operand) :
        (∀ f ∈ (op, operand) :: ops, operatorMatches P idField f.1 f.2)
          ∨ bsonValueEquals w whole :=
      (ih hempty.2 hrest).imp_left fun hops => forall_mem_cons.2 ⟨hfirst, hops⟩
    split at h
    · rename_i heq
      obtain ⟨hfirst, hrest⟩ := @AllId.append _ _ [some operand] _ h
      refine hcons hrest ?_
      rw [operatorMatches, if_pos heq]
      exact (hid.has _).trans (hfirst.2 operand mem_cons_self)
    rename_i heq
    split at h
    · rename_i hall
      obtain ⟨hfirst, hrest⟩ := h.append
      refine hcons hrest ?_
      rw [operatorMatches, if_neg heq, if_neg (by rw [hall]; decide), if_pos hall]
      cases operand with
      | array es =>
        have hmatches : es.all (valueMatches P idField) := List.all_eq_true.2 fun e he =>
          valueMatches_of_equals hid (hfirst.2 e (List.mem_map_of_mem he))
        cases es with
        | nil => simp [isEmptyAll, hall] at hempty
        | cons e es => exact hmatches
      | _ => exact absurd mem_cons_self hfirst.1
    split at h
    · refine absurd (mem_append_left _ ?_) h.1
      unfold singleFound
      split
      · exact mem_cons_of_mem _ mem_cons_self
      · exact mem_cons_self
    split at h
    · exact .inr (h.2 whole mem_cons_self)
    · exact absurd mem_cons_self h.1

theorem field_of_allId (hid : IsIdOf P w)
    (hempty : fieldHasEmptyAll value = false) (h : AllId w (fieldFound value)) :
    fieldMatches P idField value := by
  unfold fieldFound at h
  split at h
  · exact (hid.has _).trans (h.2 _ mem_cons_self)
  · rename_i ops hops
    cases ops with
    | nil => exact absurd rfl hops
    | cons f ops =>
      cases hdoc : isOperatorDocument (f :: ops) with
      | true =>
        rw [fieldHasEmptyAll, hdoc, Bool.true_and] at hempty
        rcases operators_of_allId hid hempty h with hmatch | hwhole
        · rw [fieldMatches, if_pos hdoc, List.all_eq_true]
          exact hmatch
        · -- no id equals a document of operators
          have hname := not_isOperatorKey_of_equals hid.valid hwhole f mem_cons_self
          cases hname.symm.trans hdoc
      | false =>
        rw [operatorsFound_name hdoc] at h
        split at h
        · rw [fieldMatches, if_neg (by rw [hdoc]; decide)]
          exact (hid.has _).trans (h.2 _ mem_cons_self)
        · -- the empty name is taken for an operator
          exact absurd mem_cons_self h.1
  · exact absurd mem_cons_self h.1
  · rename_i hdoc hops hregex
    have hequal := (hid.has _).trans (h.2 value mem_cons_self)
    cases value with
    | document fs => exact absurd rfl (hops fs)
    | regex pattern options => exact absurd rfl (hregex pattern options)
    | _ => exact hequal

omit [BidLib] in
/-- Every condition is found, an empty `$all` apart. -/
theorem fieldFound_ne_nil (hempty : fieldHasEmptyAll value = false) : fieldFound value ≠ [] := by
  unfold fieldFound
  split
  · exact cons_ne_nil _ _
  · rename_i ops hops
    cases ops with
    | nil => exact absurd rfl hops
    | cons f ops =>
      obtain ⟨op, operand⟩ := f
      rw [operatorsFound]
      split
      · exact cons_ne_nil _ _
      split
      · rename_i hall
        refine append_ne_nil_of_left_ne_nil ?_ _
        cases operand with
        | array es =>
          cases es with
          | nil =>
            subst hall
            cases hempty
          | cons e es => exact cons_ne_nil _ _
        | _ => exact cons_ne_nil _ _
      split
      · refine append_ne_nil_of_left_ne_nil ?_ _
        unfold singleFound
        split <;> exact cons_ne_nil _ _
      split <;> exact cons_ne_nil _ _
  · exact cons_ne_nil _ _
  · exact cons_ne_nil _ _

mutual

/-- A document matches if the query has nothing but values for `_id` that its id
equals, and no empty `$all`. -/
theorem query_of_allId (hid : IsIdOf P w) (query : Fields)
    (hempty : queryHasEmptyAll query = false) (h : AllId w (queryFound query)) :
    queryMatches P query := by
  match query with
  | [] => rfl
  | (key, value) :: query =>
    rw [queryHasEmptyAll, Bool.or_eq_false_iff] at hempty
    obtain ⟨hfirst, hrest⟩ := AllId.append h
    rw [queryMatches, entry_of_allId hid key value hempty.1 hfirst,
      query_of_allId hid query hempty.2 hrest]
    rfl

theorem entry_of_allId (hid : IsIdOf P w) (key : Bytes)
    (value : Value) (hempty : entryHasEmptyAll key value = false)
    (h : AllId w (entryFound key value)) : entryMatches P key value := by
  have hfield (hkey : key = idField) (hempty : fieldHasEmptyAll value = false)
      (h : AllId w (fieldFound value)) : entryMatches P key value := by
    rw [hkey, entryMatches_field P rfl]
    exact field_of_allId hid hempty h
  have hother (hempty : fieldHasEmptyAll value = false) :
      none ∈ (fieldFound value).map fun _ => (none : Option Value) := by
    obtain ⟨e, he⟩ := exists_mem_of_ne_nil _ (fieldFound_ne_nil hempty)
    exact List.mem_map.2 ⟨e, he, rfl⟩
  cases value with
  | array es =>
    rw [entryFound] at h
    split at h
    · rename_i hand
      subst hand
      exact and_of_allId hid es hempty h
    split at h
    · exact absurd (mem_append_right _ mem_cons_self) h.1
    split at h
    · exact hfield ‹_› rfl h
    · exact absurd mem_cons_self h.1
  | _ =>
    simp only [entryFound] at h
    split at h
    · rename_i hkey
      subst hkey
      exact hfield rfl hempty h
    split at h
    · exact absurd mem_cons_self h.1
    · rename_i hkey hlogic
      simp only [not_or] at hlogic
      exact absurd (hother (by simpa [entryHasEmptyAll, hlogic] using hempty)) h.1

theorem and_of_allId (hid : IsIdOf P w) (es : List Value)
    (hempty : andHasEmptyAll es = false) (h : AllId w (andFound es)) : allMatch P es := by
  cases es with
  | nil => rfl
  | cons e es =>
    cases e with
    | document query =>
      rw [andHasEmptyAll, Bool.or_eq_false_iff] at hempty
      obtain ⟨hfirst, hrest⟩ := AllId.append h
      rw [allMatch, query_of_allId hid query hempty.1 hfirst,
        and_of_allId hid es hempty.2 hrest]
      rfl
    | _ => exact absurd mem_cons_self h.1

end

/-- An `_id` extracted from a query is right, for every document whose `_id`
is valid: a document that matches has it, and one that has it matches where no
other filter is noted. -/
def ExtractedIdCorrect (query : Fields) (v : Value) (queryHasNonIdFilters : Bool) : Prop :=
  ∀ P w, validateIdField w = true → HasValue P idField w →
    (queryMatches P query = true → bsonValueEquals w v = true)
    ∧ (queryHasNonIdFilters = false → bsonValueEquals w v = true → queryMatches P query = true)

/-- The extracted `_id` is right exactly when the query lists no pattern for it,
unless the query matches nothing, and no empty `$all` goes unnoticed, unless no
document has all of the values that are listed. -/
theorem extractedId_correct_iff (errorOnConflict : Bool) (query : Fields)
    (v : Value) (queryHasNonIdFilters : Bool)
    (h : traverseQueryDocumentAndGetId errorOnConflict query
      = some (some v, queryHasNonIdFilters)) : ExtractedIdCorrect query v queryHasNonIdFilters
    ↔ ((∃ u, ListsId query u ∧ u.isRegex = true) → ∀ P w, validateIdField w = true →
        HasValue P idField w → queryMatches P query = false)
      ∧ (queryHasNonIdFilters = false → queryHasEmptyAll query = true →
        ∀ w, validateIdField w = true → ∃ u, ListsId query u ∧ bsonValueEquals w u = false) := by
  obtain ⟨c, hc, hresult⟩ := bind_eq_some_iff.1 h
  obtain ⟨hfound, rfl⟩ : (c.foundId = true ∧ c.foundMultipleIds = false) ∧ c.idValue = v := by
    have hid := congrArg Prod.fst (some.inj hresult)
    split at hid
    · rename_i hfound
      rw [Bool.and_eq_true, Bool.not_eq_true'] at hfound
      exact ⟨hfound, some.inj hid⟩
    · cases hid
  obtain rfl : c.queryHasNonIdFilters = queryHasNonIdFilters := congrArg Prod.snd (some.inj hresult)
  have hlists := lists_foldlM (traverse_found query hc)
  have hlisted := fun u hu => (hlists.holds hfound.2 u hu).2
  obtain ⟨listed, hmem⟩ := (hlists.listed hfound.1).resolve_left nofun
  constructor
  · intro hcorrect
    constructor
    · rintro ⟨u, hu, hregex⟩ P w hw hid
      by_contra hmatch
      rw [Bool.not_eq_false] at hmatch
      have hequal := (hcorrect P w hw hid).1 hmatch
      have hpattern := isRegex_of_equals (hlisted u hu) hregex
      rw [not_isRegex_of_equals hw hequal] at hpattern
      cases hpattern
    · intro hfilter hempty w hw
      by_contra hequal
      have hequal : bsonValueEquals w listed := by
        by_contra hne
        exact hequal ⟨listed, hmem, Bool.not_eq_true _ ▸ hne⟩
      -- a document of which nothing is known but its id
      let P : DocumentPredicates :=
        ⟨fun _ v => bsonValueEquals w v, fun _ _ _ => false, fun _ _ _ => false, fun _ _ => false⟩
      have hmatch := (hcorrect P w hw fun _ => rfl).2 hfilter
        (bsonValueEquals_trans hequal (hlisted listed hmem))
      rw [not_matches_of_emptyAll (fun _ _ => rfl) query hempty] at hmatch
      cases hmatch
  · rintro ⟨hregex, hempty⟩ P w hw hid
    constructor
    · intro hmatch
      rcases valueOk_of_query ⟨hw, hid⟩ query hmatch hmem with hpattern | hequal
      · rw [hregex ⟨listed, hmem, hpattern⟩ P w hw hid] at hmatch
        cases hmatch
      · exact bsonValueEquals_trans hequal (hlisted listed hmem)
    · intro hfilter hequal
      have hequals (u : Value) (hu : ListsId query u) : bsonValueEquals w u :=
        bsonValueEquals_trans hequal (bsonValueEquals_symm (hlisted u hu))
      cases hall : queryHasEmptyAll query with
      | true =>
        obtain ⟨u, hu, hne⟩ := hempty hfilter hall w hw
        rw [hequals u hu] at hne
        cases hne
      | false => exact query_of_allId ⟨hw, hid⟩ query hall ⟨(hlists.plain hfilter).2, hequals⟩

end Id

/-- `{$and: [{_id: {$all: [5, 5]}}, {_id: {$eq: 5}}], _id: 5}` -/
theorem id_of_equality : let _ : BidLib := BidLib.reference
    let allFive : Value := .document [(allOperator, .array [.int32 5, .int32 5])]
    let eqFive : Value := .document [(eqOperator, .int32 5)]
    let query : Fields :=
      [(andOperator, .array [.document [(idField, allFive)], .document [(idField, eqFive)]]),
        (idField, .int32 5)]
    traverseQueryDocumentAndGetId false query = some (some (.int32 5), false)
      ∧ ExtractedIdCorrect query (.int32 5) false := by
  intro _ allFive eqFive query
  have h : traverseQueryDocumentAndGetId false query = some (some (.int32 5), false) := rfl
  refine ⟨h, (extractedId_correct_iff false _ _ _ h).2 ⟨?_, ?_⟩⟩
  · rintro ⟨u, hu, hregex⟩
    have hfound : queryFound query = replicate 4 (some (.int32 5)) := rfl
    rw [ListsId, hfound] at hu
    cases eq_of_mem_replicate hu
    cases hregex
  · intro _ hempty
    cases hempty

/-- The pattern of `$in` is taken for the `_id`, and an empty `$all` on another
field is overlooked. -/
theorem pattern_and_empty_all : let _ : BidLib := BidLib.reference
    let pattern : Value := .regex [97] []
    let inPattern : Fields := [(idField, .document [(inOperator, .array [pattern])])]
    let emptyAll : Fields := [(idField, .int32 5), ([120], .document [(allOperator, .array [])])]
    (traverseQueryDocumentAndGetId false inPattern = some (some pattern, true)
      ∧ ¬ ExtractedIdCorrect inPattern pattern true)
    ∧ traverseQueryDocumentAndGetId false emptyAll = some (some (.int32 5), false)
      ∧ ¬ ExtractedIdCorrect emptyAll (.int32 5) false := by
  intro _ pattern inPattern emptyAll
  refine ⟨⟨rfl, fun h => ?_⟩, rfl, fun h => ?_⟩
  · let w : Value := .utf8 [97]
    let P : DocumentPredicates :=
      ⟨fun _ v => bsonValueEquals w v, fun _ _ _ => true, fun _ _ _ => false, fun _ _ => false⟩
    have hequal := (h P w rfl fun _ => rfl).1 rfl
    cases hequal
  · let w : Value := .int32 5
    let P : DocumentPredicates :=
      ⟨fun _ v => bsonValueEquals w v, fun _ _ _ => true, fun _ _ _ => true, fun _ _ => true⟩
    have hself : bsonValueEquals w (.int32 5) = true :=
      bsonValueEquals_iff.2 (compareBsonValueAndType_self _)
    have hmatch := (h P w rfl fun _ => rfl).2 rfl hself
    rw [queryMatches, queryMatches, Bool.and_eq_true, Bool.and_eq_true] at hmatch
    cases hmatch.2.1

end DocumentDb
