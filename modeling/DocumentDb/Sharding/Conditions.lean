/-
What a query requires of the fields of a shard key, without the walk.

The conditions that all have to hold are listed in order (`conditions`); those on a field
give the values it is required to equal and the operands of its `$in`s (`atField`). The
first phase of the filter derivation keeps the last of the former and counts the latter
(`Collected`), so it tries the `candidates` for a field.
-/
import DocumentDb.Lib.Except
import DocumentDb.Sharding.Filter

namespace DocumentDb

open MixedRadix List Option

-- ==== conditions

mutual

/-- The conditions on paths that all have to hold, `$and` included. -/
def conditions : Fields → Fields
  | [] => []
  | (key, value) :: query => entryConditions key value ++ conditions query

def entryConditions (key : Bytes) : Value → Fields
  | .array es =>
    if key = andOperator then andConditions es
    else if isOperatorKey key then []
    else [(key, .array es)]
  | value => if isOperatorKey key then [] else [(key, value)]

def andConditions : List Value → Fields
  | [] => []
  | .document query :: es => conditions query ++ andConditions es
  | _ :: es => andConditions es

end

def operandsOf (op : Bytes) (ops : Fields) : List Value :=
  ops.filterMap fun f => if f.1 = op then some f.2 else none

/-- The values that a condition requires its field to equal. -/
def requiredValues : Value → List Value
  | .document ops =>
    if isOperatorDocument ops then operandsOf eqOperator ops
    else [.document ops]
  | value => [value]

/-- The operands of `$in` in a condition. -/
def inOperands : Value → List Value
  | .document ops =>
    if isOperatorDocument ops then operandsOf inOperator ops else []
  | _ => []

variable (names : List Bytes)

/-- What the conditions on one field of the shard key give. -/
def atField (fieldIndex : Nat) (operands : Value → List Value) (conds : Fields) : List Value :=
  conds.flatMap fun c =>
    if shardKeyFieldIndex names c.1 = some fieldIndex then operands c.2 else []

/-- The values that the field can have: the one that is required last, or the
elements of its only `$in`. -/
def candidates (conds : Fields) (fieldIndex : Nat) : Option (List Value) :=
  match (atField names fieldIndex requiredValues conds).getLast? with
  | some value => some [value]
  | none =>
    match atField names fieldIndex inOperands conds with
    | [operand] => operand.elements?
    | _ => none

def candidateLists (query : Fields) : Option (List (List Value)) :=
  (List.range names.length).mapM (candidates names (conditions query))

variable (lists : List (List Value))

/-- The combinations of candidates that are tried: as many as the product of
their numbers, as an `int`. -/
def triedCombinations : List (List (Option Value)) :=
  (List.range (Int32.ofNat (lists.map List.length).prod).toInt.toNat).map (pick · lists)

theorem shardKeyCombinations_eq : shardKeyCombinations lists = triedCombinations lists := by
  have hfold (total : Int32) :
      lists.foldl (fun total values => total * Int32.ofNat values.length) total
        = total * Int32.ofNat (lists.map length).prod := by
    induction lists generalizing total with
    | nil => exact (Int32.mul_one total).symm
    | cons values lists ih =>
      rw [foldl_cons, ih, map_cons, prod_cons, Int32.ofNat_mul, Int32.mul_assoc]
  rw [shardKeyCombinations, totalShardKeys, hfold, Int32.one_mul]
  rfl

-- ==== what the walk collects

/-- One more operand of `$in`. -/
def InClause.push (c : InClause) (value : Value) : InClause := ⟨value, c.setCount + 1⟩

/-- At every field, some values are set one after the other and some operands
of `$in` are added. -/
structure Collects (required ins : Nat → List Value) (s s' : ShardKeyState) : Prop where
  fieldValues : ∀ i, s'.fieldValues[i]?
    = s.fieldValues[i]?.map ((required i).foldl fun _ v => some v)
  inClauses : ∀ i, (s'.inClauses.getD [])[i]?
    = (s.inClauses.getD [])[i]?.map ((ins i).foldl InClause.push)

variable {required required' ins ins' : Nat → List Value}
  {s s' s'' : ShardKeyState}

theorem Collects.refl (s : ShardKeyState) : Collects (fun _ => []) (fun _ => []) s s where
  fieldValues i := by
    show _ = Option.map id _
    rw [map_id_apply]
  inClauses i := by
    show _ = Option.map id _
    rw [map_id_apply]

theorem Collects.trans (h : Collects required ins s s') (h' : Collects required' ins' s' s'') :
    Collects (fun i => required i ++ required' i) (fun i => ins i ++ ins' i) s s'' where
  fieldValues i := by
    rw [h'.fieldValues, h.fieldValues, Option.map_map]
    congr 1
    funext o
    exact foldl_append.symm
  inClauses i := by
    rw [h'.inClauses, h.inClauses, Option.map_map]
    congr 1
    funext c
    exact foldl_append.symm

theorem Collects.of_eq (h : Collects required ins s s')
    (hrequired : ∀ i, required i = required' i) (hins : ∀ i, ins i = ins' i) :
    Collects required' ins' s s' := by
  rwa [← funext hrequired, ← funext hins]

theorem Collects.addOr (v : Value) : Collects (fun _ => []) (fun _ => []) s (s.addOr v) where
  fieldValues := (Collects.refl s).fieldValues
  inClauses := (Collects.refl s).inClauses

theorem Collects.setValue (j : Nat) (v : Value) (s : ShardKeyState) :
    Collects (fun i => if j = i then [v] else []) (fun _ => []) s (s.setValue j v) where
  fieldValues i := by
    show (s.fieldValues.set j (some v))[i]? = _
    rw [set_eq_modify, getElem?_modify]
    by_cases hij : j = i
    · simp [hij]
    · simp [hij]
  inClauses := (Collects.refl s).inClauses

theorem Collects.setIn (j : Nat) (v : Value) (s : ShardKeyState) :
    Collects (fun _ => []) (fun i => if j = i then [v] else []) s (s.setIn j v) where
  fieldValues := (Collects.refl s).fieldValues
  inClauses i := by
    unfold ShardKeyState.setIn
    cases s.inClauses with
    | none => rfl
    | some inClauses =>
      show (inClauses.modify j _)[i]? = _
      rw [getElem?_modify]
      by_cases hij : j = i
      · simp only [hij, if_true]
        rfl
      · simp [hij]

theorem Collects.considerOperators (j : Nat) (ops : Fields) (s : ShardKeyState) :
    Collects (fun i => if j = i then operandsOf eqOperator ops else [])
      (fun i => if j = i then operandsOf inOperator ops else []) s
      (considerOperators j ops s) := by
  induction ops generalizing s with
  | nil =>
    refine (Collects.refl s).of_eq ?_ ?_ <;> intro i <;> exact (ite_self _).symm
  | cons f ops ih =>
    obtain ⟨op, operand⟩ := f
    rw [DocumentDb.considerOperators]
    by_cases heq : op = eqOperator
    · have hin : op ≠ inOperator := by
        rw [heq]
        decide
      rw [if_pos heq]
      refine ((Collects.setValue j operand s).trans (ih _)).of_eq ?_ ?_ <;>
        intro i <;> by_cases hij : j = i <;>
        simp [operandsOf, hij, heq, heq ▸ hin]
    by_cases hin : op = inOperator
    · rw [if_neg heq, if_pos hin]
      refine ((Collects.setIn j operand s).trans (ih _)).of_eq ?_ ?_ <;>
        intro i <;> by_cases hij : j = i <;>
        simp [operandsOf, hij, hin, hin ▸ heq]
    · rw [if_neg heq, if_neg hin]
      refine (ih s).of_eq ?_ ?_ <;> intro i <;> simp [operandsOf, heq, hin]

variable {names : List Bytes} {conds conds' : Fields}

def Collected (names : List Bytes) (conds : Fields) : ShardKeyState → ShardKeyState → Prop :=
  Collects (fun i => atField names i requiredValues conds)
    (fun i => atField names i inOperands conds)

theorem Collected.trans (h : Collected names conds s s') (h' : Collected names conds' s' s'') :
    Collected names (conds ++ conds') s s'' := by
  refine (Collects.trans h h').of_eq ?_ ?_ <;> exact fun i => flatMap_append.symm

theorem Collected.considerField (key : Bytes) (value : Value) (s : ShardKeyState) :
    Collected names [(key, value)] s (considerField names key value s) := by
  unfold DocumentDb.considerField Collected atField
  cases hi : shardKeyFieldIndex names key with
  | none =>
    refine (Collects.refl s).of_eq ?_ ?_ <;> intro i <;> simp [hi]
  | some j =>
    have hset (hv : requiredValues value = [value]) (hn : inOperands value = []) :
        Collected names [(key, value)] s (s.setValue j value) := by
      refine (Collects.setValue j value s).of_eq ?_ ?_ <;> intro i <;> simp [atField, hi, hv, hn]
    cases value with
    | document ops =>
      by_cases hop : isOperatorDocument ops
      · simp only [if_pos hop]
        refine (Collects.considerOperators j ops s).of_eq ?_ ?_ <;>
          intro i <;> simp [hi, requiredValues, inOperands, hop]
      · simp only [if_neg hop]
        exact hset (if_neg hop) (if_neg hop)
    | _ => exact hset rfl rfl

mutual

theorem Collected.phase1 (query : Fields) {s s' : ShardKeyState}
    (h : findShardKeyValuesExprPhase1 names query s = some s') :
    Collected names (conditions query) s s' := by
  match query with
  | [] =>
    cases h
    exact Collects.refl s
  | (key, value) :: query =>
    obtain ⟨inner, hinner, hrest⟩ := bind_eq_some_iff.1 h
    exact (Collected.entry key value hinner).trans (Collected.phase1 query hrest)

theorem Collected.entry (key : Bytes) (value : Value) {s s' : ShardKeyState}
    (h : phase1Entry names key value s = some s') :
    Collected names (entryConditions key value) s s' := by
  -- a key that is neither `$and` nor `$or`
  have hfield (hother : (if isOperatorKey key = true then some s
      else some (DocumentDb.considerField names key value s)) = some s') :
      Collected names (if isOperatorKey key then [] else [(key, value)]) s s' := by
    by_cases hkey : isOperatorKey key
    · rw [if_pos hkey] at hother ⊢
      cases hother
      exact Collects.refl s
    · rw [if_neg hkey] at hother ⊢
      cases hother
      exact Collected.considerField key value s
  have hor (v : Value) (hkey : key = orOperator) :
      Collected names (if isOperatorKey key then [] else [(key, value)]) s (s.addOr v) := by
    rw [if_pos (by rw [hkey]; rfl)]
    exact Collects.addOr v
  cases value with
  | array es =>
    simp only [phase1Entry, entryConditions] at h ⊢
    by_cases hand : key = andOperator
    · rw [if_pos hand] at h ⊢
      exact Collected.and es h
    by_cases hkey : key = orOperator
    · rw [if_neg hand, if_pos hkey] at h
      rw [if_neg hand]
      cases h
      exact hor (.array es) hkey
    · rw [if_neg hand, if_neg hkey] at h
      rw [if_neg hand]
      exact hfield h
  | _ =>
    simp only [phase1Entry, entryConditions] at h ⊢
    by_cases hand : key = andOperator
    · rw [if_pos hand] at h
      cases h
    by_cases hkey : key = orOperator
    · rw [if_neg hand, if_pos hkey] at h
      cases h
      exact hor _ hkey
    · rw [if_neg hand, if_neg hkey] at h
      exact hfield h

theorem Collected.and (es : List Value) {s s' : ShardKeyState}
    (h : phase1And names es s = some s') : Collected names (andConditions es) s s' := by
  match es with
  | [] =>
    cases h
    exact Collects.refl s
  | e :: es =>
    cases e with
    | document query =>
      obtain ⟨inner, hinner, hrest⟩ := bind_eq_some_iff.1 h
      exact (Collected.phase1 query hinner).trans (Collected.and es hrest)
    | _ => cases h

end

theorem foldl_some_eq (vs : List Value) (o : Option Value) :
    vs.foldl (fun _ v => some v) o = vs.getLast?.or o := by
  induction vs generalizing o with
  | nil => rfl
  | cons v vs ih =>
    rw [foldl_cons, ih, getLast?_cons]
    cases vs.getLast? <;> rfl

theorem Collected.fieldValues_eq (h : Collected names conds (.init names) s) :
    s.fieldValues = (List.range names.length).map fun i =>
      (atField names i requiredValues conds).getLast? := by
  apply ext_getElem?
  intro i
  have hvalues := h.fieldValues i
  simp only [ShardKeyState.init, getElem?_map] at hvalues
  rw [hvalues, getElem?_map]
  by_cases hi : i < names.length
  · simp [hi, foldl_some_eq]
  · simp [Nat.le_of_not_lt hi]

theorem Collected.inClauses_eq (h : Collected names conds (.init names) s) :
    s.inClauses.getD [] = (List.range names.length).map fun i =>
      (atField names i inOperands conds).foldl InClause.push {} := by
  apply ext_getElem?
  intro i
  have hins := h.inClauses i
  simp only [ShardKeyState.init, getD_some, getElem?_map] at hins
  rw [hins, getElem?_map]
  by_cases hi : i < names.length
  · simp [hi]
  · simp [Nat.le_of_not_lt hi]

theorem foldl_push_setCount (operands : List Value) (c : InClause) :
    (operands.foldl InClause.push c).setCount = c.setCount + operands.length := by
  induction operands generalizing c with
  | nil => rfl
  | cons v operands ih =>
    rw [foldl_cons, ih, length_cons]
    show c.setCount + 1 + operands.length = _
    omega

theorem shardKeyInLists_map {α : Type} {f : α → Option Value × InClause}
    {g : α → Option (List Value)} {l : List α} (h : ∀ a ∈ l, shardKeyInValues (f a) = some (g a)) :
    shardKeyInLists (l.map f) = some (l.mapM g) := by
  induction l with
  | nil => rfl
  | cons a l ih =>
    obtain ⟨ha, hl⟩ := forall_mem_cons.1 h
    rw [map_cons, shardKeyInLists, ha, ih hl, mapM_cons]
    cases g a with
    | none => rfl
    | some values =>
      cases l.mapM g <;> rfl

theorem forall₂_of_mapM_eq_some {α β : Type} {f : α → Option β} {as : List α}
    {bs : List β} (h : as.mapM f = some bs) : List.Forall₂ (fun a b => f a = some b) as bs := by
  rw [mapM_eq_some_iff, ← forall₂_eq_eq_eq, forall₂_map_left_iff, forall₂_map_right_iff] at h
  exact h

theorem candidateLists_getElem {query : Fields} {lists : List (List Value)}
    (h : candidateLists names query = some lists) :
    lists.length = names.length ∧ ∀ i (hi : i < lists.length),
      candidates names (conditions query) i = some lists[i] := by
  have hlists := forall₂_of_mapM_eq_some h
  have hlen := hlists.length_eq
  rw [length_range] at hlen
  refine ⟨hlen.symm, fun i hi => ?_⟩
  have hget := hlists.get (i := i) (by rw [length_range]; omega) hi
  simpa using hget

end DocumentDb
