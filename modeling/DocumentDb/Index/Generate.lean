/-
The generation of index terms: `GenerateTerms`, `GenerateTermsCore`, `GenerateTermPath` and
`GenerateArrayPath`.

The walk goes over the whole document; the options of the index say of each path whether it
is indexed, leads to an indexed path, or neither. Array elements are walked below their
position and below the path of the array. Every function returns what it adds (`Generated`),
with the terms as elements. For an index on a single path without wildcard they are the
values at the path (`generateTermsCore_iff`).
-/
import DocumentDb.Bson.Path
import DocumentDb.Index.Term

namespace DocumentDb

open Dotted ThreeWay List

-- ==== the options

inductive IndexTraverseOption where
  | invalid | recurse | match | matchAndRecurse
  deriving DecidableEq

def getSinglePathIndexTraverseOptionCore (indexPath currentPath : Bytes)
    (isWildcard : Bool) : IndexTraverseOption :=
  let strncmp (n : Nat) := strcmp (indexPath.take n) (currentPath.take n)
  if indexPath.length = 0 ∧ isWildcard then .matchAndRecurse
  else if indexPath.length < currentPath.length ∧ strncmp indexPath.length = 0 then
    if isWildcard ∧ currentPath[indexPath.length]? = some dot then
      .matchAndRecurse
    else .invalid
  else if indexPath.length = currentPath.length ∧ strncmp indexPath.length = 0 then
    if isWildcard then .matchAndRecurse else .match
  else if currentPath.length < indexPath.length ∧ strncmp currentPath.length = 0 then .recurse
  else .invalid

structure BsonGinSinglePathOptions where
  version : Nat
  indexTermTruncateLimit : Int
  wildcardIndexTruncatedPathLimit : Nat
  path : Bytes
  isWildcard : Bool
  generateNotFoundTerm : Bool
  useReducedWildcardTerms : Bool

/-- For a single path. Version 1 does not support the not found term. -/
def getIndexTermMetadata (options : BsonGinSinglePathOptions) : Option IndexTermCreateMetadata :=
  if 1 ≤ options.version ∨ 0 < options.indexTermTruncateLimit then
    if 1 ≤ options.version ∧ options.generateNotFoundTerm then none
    else some
      { indexTermSizeLimit := options.indexTermTruncateLimit
        wildcardIndexTruncatedPathLimit :=
          if options.wildcardIndexTruncatedPathLimit = 0 then 2 ^ 32 - 1
          else options.wildcardIndexTruncatedPathLimit
        pathPrefix := options.path
        isWildcard := options.isWildcard
        isWildcardProjection := false }
  else some
    { indexTermSizeLimit := 0
      wildcardIndexTruncatedPathLimit := 2 ^ 32 - 1
      pathPrefix := []
      isWildcard := false
      isWildcardProjection := false }

/-- The part that is only read. -/
structure GenerateTermsContext where
  traverseOptionsFunc : Bytes → BsonType → IndexTraverseOption
  generateNotFoundTerm : Bool
  skipGeneratedPathUndefinedTermOnLiteralNull : Bool
  skipGenerateTopLevelArrayTerm : Bool
  generatePathBasedUndefinedTerms : Bool
  useReducedWildcardTerms : Bool
  termMetadata : IndexTermCreateMetadata

-- ==== the walk

structure TermSource where
  path : Bytes
  value : Value
  metadata : IndexTermMetadata

def generatePathUndefinedTerm : TermSource := ⟨[], .null, .noMetadata⟩

structure Generated where
  terms : List TermSource := []
  hasArrayAncestors : Bool := false
  hasArrayPartialTermExistence : Bool := false

namespace Generated

def append (g h : Generated) : Generated where
  terms := g.terms ++ h.terms
  hasArrayAncestors := g.hasArrayAncestors || h.hasArrayAncestors
  hasArrayPartialTermExistence := g.hasArrayPartialTermExistence || h.hasArrayPartialTermExistence

instance : Append Generated := ⟨append⟩

@[simp] theorem terms_append (g h : Generated) : (g ++ h).terms = g.terms ++ h.terms := rfl

/-- The elements of an array together: some may have added terms and others
not. -/
def ofArray (gs : List Generated) : Generated where
  terms := gs.flatMap terms
  hasArrayAncestors := gs.any hasArrayAncestors
  hasArrayPartialTermExistence :=
    gs.any hasArrayPartialTermExistence
      || (gs.any (fun g => !g.terms.isEmpty)
        && gs.any (fun g => g.terms.isEmpty))

end Generated

section Walk

variable (context : GenerateTermsContext)

/-- The switch of `GenerateTermPath`: what is added at a path that is not
invalid. -/
def generateTermAt (option : IndexTraverseOption) (path : Bytes) (inArrayContext isArrayTerm
      isCheckForArrayTermsWithNestedDocument : Bool) (v : Value) : Generated :=
  match option with
  | .invalid => {}
  | .recurse =>
    { hasArrayAncestors := inArrayContext || v.type = .array }
  | .match | .matchAndRecurse =>
    if isCheckForArrayTermsWithNestedDocument then {}
    else
      let undefinedTerms := if context.generateNotFoundTerm
          && !context.skipGeneratedPathUndefinedTermOnLiteralNull
          && (v.type = .null || v.type = .undefined) then
        [generatePathUndefinedTerm] else []
      match v with
      | .array es =>
        if context.skipGenerateTopLevelArrayTerm && !isArrayTerm then
          -- an empty array is marked as undefined, another one skipped
          { terms := if es.isEmpty then [⟨path, .undefined, .noMetadata⟩]
              else [] }
        else { terms := [⟨path, v, .noMetadata⟩] }
      | v => { terms := ⟨path, v, .noMetadata⟩ :: undefinedTerms }

/-- `GenerateTermPath`, from where the path is known, without the recursion
into documents and arrays. -/
def generateTermPathWith (path : Bytes)
    (inArrayContext isArrayTerm isCheckForArrayTermsWithNestedDocument : Bool) (v : Value)
    (container : IndexTraverseOption → Generated) : Generated :=
  if isCheckForArrayTermsWithNestedDocument && v.type ≠ .document then {}
  else
    let option := context.traverseOptionsFunc path v.type
    if option = .invalid then {}
    else
      generateTermAt context option path inArrayContext isArrayTerm
          isCheckForArrayTermsWithNestedDocument v
        ++ container option

mutual

/-- From where the path is known. -/
def generateTermPath (path : Bytes)
    (inArrayContext isArrayTerm isCheckForArrayTermsWithNestedDocument : Bool) : Value → Generated
  | .document fs =>
    generateTermPathWith context path inArrayContext isArrayTerm
      isCheckForArrayTermsWithNestedDocument (.document fs) fun option =>
        -- below an exact match nothing matches, except in arrays
        if !inArrayContext && option = .match then {}
        else
          { hasArrayAncestors := inArrayContext && option ≠ .recurse } ++ generateTermsCore path fs
  | .array es =>
    generateTermPathWith context path inArrayContext isArrayTerm
      isCheckForArrayTermsWithNestedDocument (.array es) fun option =>
        if isArrayTerm then {}
        else
          { hasArrayAncestors :=
              inArrayContext && option = .matchAndRecurse }
            ++ .ofArray (generateArrayPath path inArrayContext (option = .matchAndRecurse) 0 es)
  | v =>
    generateTermPathWith context path inArrayContext isArrayTerm
      isCheckForArrayTermsWithNestedDocument v fun _ => {}

/-- The fields of a document below a path. -/
def generateTermsCore (basePath : Bytes) : Fields → Generated
  | [] => {}
  | (k, v) :: fs =>
    generateTermPath (extend dot basePath k) false false false v ++ generateTermsCore basePath fs

/-- The loop of `GenerateArrayPath`: every element below its position, and
below the path of the array. -/
def generateArrayPath (pathToInsert : Bytes) (inArrayContext isPathMatchedRecursively : Bool) :
    Nat → List Value → List Generated
  | _, [] => []
  | i, e :: es =>
    let atPosition :=
      if context.useReducedWildcardTerms && isPathMatchedRecursively
          && !inArrayContext && e.type ≠ .array then {}
      else
        generateTermPath (extend dot pathToInsert (arrayKey i)) true false false e
    let atArray :=
      generateTermPath pathToInsert true true
        (inArrayContext && !context.skipGenerateTopLevelArrayTerm) e
    (atPosition ++ atArray)
      :: generateArrayPath pathToInsert inArrayContext isPathMatchedRecursively (i + 1) es

end

end Walk

-- ==== the terms

section Terms

variable [BidLib]

/-- `SerializeBsonIndexTermCore` on the parts of an element. -/
def TermSource.serialize (createMetadata : IndexTermCreateMetadata)
    (t : TermSource) : Option BsonIndexTermSerialized :=
  if h : namesOkFields [(t.path, t.value)] = true
      ∧ (encodeDoc [(t.path, t.value)]).length < 2 ^ 31 then
    serializeBsonIndexTermCore createMetadata ⟨t.path, t.value, h.1, h.2⟩ t.metadata
  else none

/-- The terms of `GenerateTerms` for paths that do not exist. -/
def undefinedTerms (context : GenerateTermsContext) (generated : Generated) : List TermSource :=
  let hasNoTerms := generated.terms.isEmpty
  (if hasNoTerms && context.generateNotFoundTerm then
      [generatePathUndefinedTerm] else [])
    ++ if context.generatePathBasedUndefinedTerms then
        (if hasNoTerms then
          [⟨context.termMetadata.pathPrefix, .undefined, .undefinedValue⟩]
        else [])
        ++ if generated.hasArrayPartialTermExistence then
            [⟨context.termMetadata.pathPrefix, .undefined, .partialUndefinedValue⟩]
          else []
      else []

/-- The root terms of `GenerateTerms`. -/
def rootTerms (enableGenerateNonExistsTerm hasNoTerms hasTruncatedTerms
    hasArrayAncestors : Bool) : List TermSource :=
  (if !enableGenerateNonExistsTerm then ⟨[], .minKey, .noMetadata⟩
    else if !hasNoTerms then ⟨[], .bool true, .isMetadata⟩
    else ⟨[], .undefined, .isMetadata⟩)
    :: (if hasTruncatedTerms then [⟨[], .maxKey, .truncated⟩] else [])
    ++ if hasArrayAncestors then [⟨[], .array [], .isMetadata⟩] else []

variable (enableGenerateNonExistsTerm : Bool)

/-- The serialized terms of a document. -/
def generateTerms (context : GenerateTermsContext) (bson : Fields) (addRootTerm : Bool) :
    Option (List Bytes) := do
  let generated := generateTermsCore context [] bson
  let terms ← generated.terms.mapM (·.serialize context.termMetadata)
  let hasTruncatedTerms := terms.any (·.isIndexTermTruncated)
  let others ← (undefinedTerms context generated ++ if addRootTerm then
        rootTerms enableGenerateNonExistsTerm generated.terms.isEmpty
          hasTruncatedTerms generated.hasArrayAncestors
      else []).mapM (·.serialize context.termMetadata)
  some ((terms ++ others).map (·.indexTermVal))

variable (options : BsonGinSinglePathOptions)

/-- The context that `GenerateSinglePathTermsCore` sets up. -/
def BsonGinSinglePathOptions.context
    (termMetadata : IndexTermCreateMetadata) : GenerateTermsContext where
  traverseOptionsFunc currentPath _ :=
    getSinglePathIndexTraverseOptionCore options.path currentPath options.isWildcard
  generateNotFoundTerm := options.generateNotFoundTerm
  skipGeneratedPathUndefinedTermOnLiteralNull := false
  skipGenerateTopLevelArrayTerm := false
  generatePathBasedUndefinedTerms := false
  useReducedWildcardTerms := options.isWildcard && options.useReducedWildcardTerms
  termMetadata := termMetadata

def generateSinglePathTermsCore (bson : Fields) : Option (List Bytes) := do
  let termMetadata ← getIndexTermMetadata options
  generateTerms enableGenerateNonExistsTerm (options.context termMetadata) bson true

end Terms

-- ==== the terms of a path

theorem getSinglePathIndexTraverseOptionCore_eq {p c : Bytes} (hp : 0 ∉ p) (hc : 0 ∉ c) :
    getSinglePathIndexTraverseOptionCore p c false
      = if c = p then .match else if c <+: p then .recurse else .invalid := by
  have hcmp : ∀ n, strcmp (p.take n) (c.take n) = 0 ↔ p.take n = c.take n := fun n =>
    strcmp_eq_zero (fun h => hp (mem_of_mem_take h)) fun h => hc (mem_of_mem_take h)
  simp only [getSinglePathIndexTraverseOptionCore, hcmp]
  by_cases heq : c = p
  · subst heq
    simp
  rw [if_neg heq]
  by_cases hpre : c <+: p
  · have hlen : c.length < p.length :=
      lt_of_le_of_ne hpre.length_le fun h => heq (hpre.eq_of_length h)
    have htake : p.take c.length = c.take c.length := by
      rw [take_length, ← prefix_iff_eq_take.1 hpre]
    simp [hpre, hlen, htake, hlen.ne', hlen.not_gt]
  · have hno : ¬(c.length < p.length ∧ p.take c.length = c.take c.length) := by
      rintro ⟨-, h⟩
      rw [take_length] at h
      exact hpre (prefix_iff_eq_take.2 h.symm)
    have hno' : ¬(p.length = c.length ∧ p.take p.length = c.take p.length) := by
      rintro ⟨hlen, h⟩
      rw [take_length, hlen, take_length] at h
      exact heq h.symm
    simp only [Bool.false_eq_true, and_false, false_and, if_false, hno', hno, hpre, ite_self]

section SinglePath

variable {context : GenerateTermsContext} {p : Bytes}

/-- The context of an index on one path without wildcard. -/
structure OnPath (context : GenerateTermsContext) (p : Bytes) : Prop where
  ne_nil : p ≠ []
  noZero : 0 ∉ p
  option : ∀ c t, context.traverseOptionsFunc c t = getSinglePathIndexTraverseOptionCore p c false
  noSkip : context.skipGenerateTopLevelArrayTerm = false
  noReduce : context.useReducedWildcardTerms = false

/-- The term of a value at the path of the index. -/
private abbrev termOf (p : Bytes) (w : Value) : TermSource := ⟨p, w, .noMetadata⟩

variable {check inArray isArray : Bool}
  {container : IndexTraverseOption → Generated} {path : Bytes} {v w : Value}
  {cs : List Bytes} {fs : Fields} {es : List Value}

theorem mem_generateTermPathWith (hc : OnPath context p) (hpath : 0 ∉ path) :
    termOf p w ∈ (generateTermPathWith context path inArray isArray check v container).terms
      ↔ (check → v.type = .document) ∧ path <+: p ∧ (path = p ∧ check = false ∧ w = v
          ∨ termOf p w ∈ (container (if path = p then .match else .recurse)).terms) := by
  have hne := hc.ne_nil
  unfold generateTermPathWith
  by_cases hcheck : check → v.type = .document
  swap
  · obtain ⟨rfl, hno⟩ := Classical.not_imp.1 hcheck
    simp [hno]
  have hgo : (check && decide (v.type ≠ .document)) = false := by
    cases check <;> simp_all
  rw [hgo, and_iff_right hcheck]
  simp only [Bool.false_eq_true, if_false, hc.option,
    getSinglePathIndexTraverseOptionCore_eq hc.noZero hpath]
  by_cases heq : path = p
  · subst heq
    simp only [if_true, reduceCtorEq, if_false, Generated.terms_append,
      mem_append, prefix_rfl, true_and]
    refine or_congr_left ?_
    cases check with
    | true => simp [generateTermAt]
    | false =>
      have hundef : generatePathUndefinedTerm ≠ termOf path w := by
        intro h
        exact hne (TermSource.mk.inj h).1.symm
      cases v <;> simp [generateTermAt, hc.noSkip, Ne.symm hundef]
  · simp only [heq, if_false, false_and, false_or]
    by_cases hpre : path <+: p
    · simp [hpre, generateTermAt]
    · simp [hpre]

-- ---- paths and their names

/-- The names a path is built from: field names and positions. -/
private def AreNames (cs : List Bytes) : Prop := ∀ s ∈ cs, s ≠ [] ∧ dot ∉ s ∧ 0 ∉ s

variable {k base : Bytes} {P : List Bytes → Prop}

theorem AreNames.snoc (h : AreNames cs) (hk : k ≠ [] ∧ dot ∉ k ∧ 0 ∉ k) : AreNames (cs ++ [k]) := by
  intro s hs
  rcases mem_append.1 hs with hs | hs
  · exact h s hs
  · rwa [mem_singleton.1 hs]

theorem arrayKey_isName (i : Nat) : arrayKey i ≠ [] ∧ dot ∉ arrayKey i ∧ 0 ∉ arrayKey i :=
  ⟨arrayKey_ne_nil i, dot_notMem_arrayKey i, fun h => absurd (arrayKey_digit h).1 (by decide)⟩

theorem AreNames.zero_notMem (h : AreNames cs) : 0 ∉ join dot cs := by
  intro hmem
  rcases mem_join hmem with heq | ⟨s, hs, hmem⟩
  · exact absurd heq (by decide)
  · exact (h s hs).2.2 hmem

theorem AreNames.extend (h : AreNames cs) (k : Bytes) :
    extend dot (join dot cs) k = join dot (cs ++ [k]) :=
  extend_join (fun s hs => (h s hs).1) k

theorem AreNames.join_eq_iff (h : AreNames cs) (hne : cs ≠ []) :
    join dot cs = p ↔ segments dot p = cs := by
  constructor
  · rintro rfl
    exact segments_join dot hne fun s hs => (h s hs).2.1
  · rintro rfl
    exact join_segments dot p

theorem join_prefix_of_segments {rest : List Bytes}
    (h : segments dot p = cs ++ rest) : join dot cs <+: p := by
  have := @join_isPrefix _ dot cs rest
  rwa [← h, join_segments] at this

-- ---- what is generated

variable (context : GenerateTermsContext) (p : Bytes)

/-- The terms below a path, from a value that was reached by name or by its
position. -/
private def GeneratesAt (v : Value) : Prop :=
  ∀ cs inArray w, cs ≠ [] → AreNames cs →
    (termOf p w ∈ (generateTermPath context (join dot cs) inArray false false v).terms
      ↔ ∃ rest, segments dot p = cs ++ rest ∧ Reach inArray rest v w)

/-- The terms below the path of an array, from one of its elements. -/
private def GeneratesElem (v : Value) : Prop :=
  ∀ cs check w, cs ≠ [] → AreNames cs →
    (termOf p w ∈ (generateTermPath context (join dot cs) true true check v).terms
      ↔ check = false ∧ segments dot p = cs ∧ w = v ∨ ∃ s rest fs, segments dot p = cs ++ s :: rest
            ∧ v = .document fs ∧ Reach false (s :: rest) v w)

/-- The terms below a path, from the fields of a document there. -/
private def GeneratesFields (fs : Fields) : Prop :=
  ∀ cs w, AreNames cs → (termOf p w ∈ (generateTermsCore context (join dot cs) fs).terms
      ↔ ∃ s rest, segments dot p = cs ++ s :: rest ∧ Reach false (s :: rest) (.document fs) w)

variable {p} {context}

theorem generatesFields (ih : ∀ f ∈ fs, GeneratesAt context p f.2)
    (hnames : ∀ f ∈ fs, f.1 ≠ [] ∧ dot ∉ f.1 ∧ 0 ∉ f.1) : GeneratesFields context p fs := by
  intro cs w hcs
  have hfield : termOf p w ∈ (generateTermsCore context (join dot cs) fs).terms
      ↔ ∃ f ∈ fs, ∃ rest, segments dot p = (cs ++ [f.1]) ++ rest ∧ Reach false rest f.2 w := by
    induction fs with
    | nil => simp [generateTermsCore]
    | cons f fs ihfs =>
      obtain ⟨k, v⟩ := f
      have hhead := ih (k, v) (by simp) (cs ++ [k]) false w (by simp)
        (hcs.snoc (hnames (k, v) (by simp)))
      rw [generateTermsCore, Generated.terms_append, mem_append,
        hcs.extend, hhead, ihfs (fun f hf => ih f (by simp [hf]))
          (fun f hf => hnames f (by simp [hf]))]
      simp
  rw [hfield]
  simp only [reach_document_iff]
  constructor
  · rintro ⟨⟨k, v⟩, hmem, rest, hseg, hr⟩
    exact ⟨k, rest, by simpa using hseg, v, hmem, hr⟩
  · rintro ⟨s, rest, hseg, v, hmem, hr⟩
    exact ⟨(s, v), hmem, rest, by simpa using hseg, hr⟩

theorem mem_generateArrayPath (hc : OnPath context p) (ih : ∀ e ∈ es, GeneratesAt context p e)
    (ihe : ∀ e ∈ es, GeneratesElem context p e) (hne : cs ≠ []) (hcs : AreNames cs)
    (inArray : Bool) (w : Value) (i : Nat) :
    (∃ g ∈ generateArrayPath context (join dot cs) inArray false i es, termOf p w ∈ g.terms)
      ↔ (∃ j e, es[j]? = some e ∧ ∃ rest,
          segments dot p = cs ++ arrayKey (i + j) :: rest ∧ Reach true rest e w)
        ∨ ∃ e ∈ es, inArray = false ∧ segments dot p = cs ∧ w = e
          ∨ ∃ s rest fs, segments dot p = cs ++ s :: rest
              ∧ e = .document fs ∧ Reach false (s :: rest) e w := by
  induction es generalizing i with
  | nil => simp [generateArrayPath]
  | cons e es ihes =>
    have hpos := ih e (by simp) (cs ++ [arrayKey i]) true w (by simp) (hcs.snoc (arrayKey_isName i))
    have helem := ihe e (by simp) cs inArray w hne hcs
    have hrest := ihes (fun e he => ih e (by simp [he])) (fun e he => ihe e (by simp [he])) (i + 1)
    have hidx : ∀ P : Nat → Value → Prop, (∃ j e', (e :: es)[j]? = some e' ∧ P (i + j) e')
          ↔ P i e ∨ ∃ j e', es[j]? = some e' ∧ P (i + 1 + j) e' := by
      intro P
      constructor
      · rintro ⟨j, e', he', hP⟩
        cases j with
        | zero =>
          cases he'
          exact Or.inl hP
        | succ j =>
          exact Or.inr ⟨j, e', he', by
            rwa [show i + 1 + j = i + (j + 1) by omega]⟩
      · rintro (hP | ⟨j, e', he', hP⟩)
        · exact ⟨0, e, rfl, hP⟩
        · exact ⟨j + 1, e', he', by
            rwa [show i + (j + 1) = i + 1 + j by omega]⟩
    rw [hidx fun n e' => ∃ rest, segments dot p = cs ++ arrayKey n :: rest ∧ Reach true rest e' w]
    simp only [generateArrayPath, hc.noReduce, hc.noSkip, Bool.false_and, Bool.false_eq_true,
      if_false, Bool.not_false, Bool.and_true, mem_cons, exists_eq_or_imp, Generated.terms_append,
      mem_append, hcs.extend, hpos, helem, hrest, append_assoc, cons_append, nil_append]
    rw [or_or_or_comm]

theorem exists_rest_iff (hno : segments dot p ≠ cs) : (∃ rest, segments dot p = cs ++ rest ∧ P rest)
      ↔ ∃ s rest, segments dot p = cs ++ s :: rest ∧ P (s :: rest) := by
  constructor
  · rintro ⟨rest, hseg, hP⟩
    cases rest with
    | nil => exact absurd (by simpa using hseg) hno
    | cons s rest => exact ⟨s, rest, hseg, hP⟩
  · rintro ⟨s, rest, hseg, hP⟩
    exact ⟨s :: rest, hseg, hP⟩

theorem exists_rest_self (heq : segments dot p = cs) :
    (∃ rest, segments dot p = cs ++ rest ∧ P rest) ↔ P [] := by
  subst heq
  simp

theorem not_exists_rest (heq : segments dot p = cs) {P : Bytes → List Bytes → Prop} :
    ¬∃ s rest, segments dot p = cs ++ s :: rest ∧ P s rest := by
  subst heq
  simp

theorem generateTermPath_scalar (hd : v.type ≠ .document)
    (ha : v.type ≠ .array) (path : Bytes) (inArray isArray check : Bool) :
    generateTermPath context path inArray isArray check v
      = generateTermPathWith context path inArray isArray check v fun _ => {} := by
  cases v with
  | document fs => exact absurd rfl hd
  | array es => exact absurd rfl ha
  | _ => rfl

section

variable (hc : OnPath context p)

include hc

theorem mem_generateTermPathWith_self (hne : cs ≠ [])
    (hcs : AreNames cs) (hself : segments dot p = cs) :
    termOf p w ∈ (generateTermPathWith context (join dot cs) inArray
        isArray check v container).terms
      ↔ (check → v.type = .document)
        ∧ (check = false ∧ w = v ∨ termOf p w ∈ (container .match).terms) := by
  have hjoin : join dot cs = p := (hcs.join_eq_iff hne).2 hself
  rw [mem_generateTermPathWith hc hcs.zero_notMem]
  simp only [hjoin, prefix_rfl, true_and, if_true]

theorem mem_generateTermPathWith_ne (hne : cs ≠ [])
    (hcs : AreNames cs) (hno : segments dot p ≠ cs) :
    termOf p w ∈ (generateTermPathWith context (join dot cs) inArray
        isArray check v container).terms
      ↔ (check → v.type = .document) ∧ join dot cs <+: p
        ∧ termOf p w ∈ (container .recurse).terms := by
  have hjoin : join dot cs ≠ p := fun h => hno ((hcs.join_eq_iff hne).1 h)
  rw [mem_generateTermPathWith hc hcs.zero_notMem]
  simp only [hjoin, false_and, false_or, if_false]

theorem generates_document (hfs : GeneratesFields context p fs) :
    GeneratesAt context p (.document fs) ∧ GeneratesElem context p (.document fs) := by
  have hinner : ∀ {cs : List Bytes} {inArray isArray check : Bool}
      {w : Value}, cs ≠ [] → AreNames cs →
      (termOf p w ∈ (generateTermPath context (join dot cs) inArray
          isArray check (.document fs)).terms
        ↔ segments dot p = cs ∧ check = false ∧ w = .document fs
          ∨ ∃ s rest, segments dot p = cs ++ s :: rest
              ∧ Reach false (s :: rest) (.document fs) w) := by
    intro cs inArray isArray check w hne hcs
    have hbelow := hfs cs w hcs
    rw [generateTermPath]
    by_cases hself : segments dot p = cs
    · rw [mem_generateTermPathWith_self hc hne hcs hself]
      have hnone := hbelow.not.2 (not_exists_rest hself)
      cases inArray <;> simp [Value.type, hself, hnone]
    · rw [mem_generateTermPathWith_ne hc hne hcs hself]
      simp only [Value.type, implies_true, true_and, hself, false_and, false_or, reduceCtorEq,
        decide_false, Bool.and_false, Bool.false_eq_true, if_false, Generated.terms_append,
        nil_append, hbelow]
      refine and_iff_right_of_imp ?_
      rintro ⟨s, rest, hseg, -⟩
      exact join_prefix_of_segments hseg
  constructor
  · intro cs inArray w hne hcs
    rw [hinner hne hcs]
    by_cases hself : segments dot p = cs
    · rw [exists_rest_self hself, reach_nil_iff, or_iff_left (not_exists_rest hself)]
      simp [hself]
    · rw [exists_rest_iff hself]
      simp only [hself, false_and, false_or, reach_document_iff]
  · intro cs check w hne hcs
    rw [hinner hne hcs]
    constructor
    · rintro (⟨h, h', h''⟩ | ⟨s, rest, h, h'⟩)
      · exact Or.inl ⟨h', h, h''⟩
      · exact Or.inr ⟨s, rest, fs, h, rfl, h'⟩
    · rintro (⟨h, h', h''⟩ | ⟨s, rest, fs', h, -, h'⟩)
      · exact Or.inl ⟨h', h, h''⟩
      · exact Or.inr ⟨s, rest, h, h'⟩

theorem generatesElem_of_ne_document (hd : v.type ≠ .document) : GeneratesElem context p v := by
  intro cs check w hne hcs
  have hno : ¬∃ s rest fs, segments dot p = cs ++ s :: rest
      ∧ v = .document fs ∧ Reach false (s :: rest) v w := by
    rintro ⟨s, rest, fs, -, rfl, -⟩
    exact hd rfl
  rw [or_iff_left hno]
  have hpath : generateTermPath context (join dot cs) true true check v
      = generateTermPathWith context (join dot cs) true true check v fun _ => {} := by
    by_cases ha : v.type = .array
    · cases v with
      | array es => rfl
      | _ => simp [Value.type] at ha
    · exact generateTermPath_scalar hd ha _ _ _ _
  rw [hpath]
  by_cases hself : segments dot p = cs
  · rw [mem_generateTermPathWith_self hc hne hcs hself]
    cases check <;> simp [hd, hself]
  · rw [mem_generateTermPathWith_ne hc hne hcs hself]
    simp [hself]

theorem generatesAt_scalar (hd : v.type ≠ .document)
    (ha : v.type ≠ .array) : GeneratesAt context p v := by
  intro cs inArray w hne hcs
  rw [generateTermPath_scalar hd ha]
  by_cases hself : segments dot p = cs
  · rw [mem_generateTermPathWith_self hc hne hcs hself, exists_rest_self hself, reach_nil_iff]
    have hno : ¬∃ es, v = .array es ∧ w ∈ es := by
      rintro ⟨es, rfl, -⟩
      exact ha rfl
    simp [hno]
  · rw [mem_generateTermPathWith_ne hc hne hcs hself, exists_rest_iff hself]
    simp [not_reach_scalar hd ha]

theorem generatesAt_array (ih : ∀ e ∈ es, GeneratesAt context p e)
    (ihe : ∀ e ∈ es, GeneratesElem context p e) : GeneratesAt context p (.array es) := by
  intro cs inArray w hne hcs
  have hloop := mem_generateArrayPath hc ih ihe hne hcs inArray w 0
  simp only [Nat.zero_add] at hloop
  rw [generateTermPath]
  by_cases hself : segments dot p = cs
  · rw [mem_generateTermPathWith_self hc hne hcs hself, exists_rest_self hself, reach_nil_iff]
    have helems : (∃ g ∈ generateArrayPath context (join dot cs) inArray
        false 0 es, termOf p w ∈ g.terms) ↔ inArray = false ∧ w ∈ es := by
      rw [hloop]
      constructor
      · rintro (⟨j, e, -, rest, hseg, -⟩ | ⟨e, he, ⟨h, -, rfl⟩
          | ⟨s, rest, fs, hseg, -⟩⟩)
        · rw [hself] at hseg
          simp at hseg
        · exact ⟨h, he⟩
        · rw [hself] at hseg
          simp at hseg
      · rintro ⟨h, he⟩
        exact Or.inr ⟨w, he, Or.inl ⟨h, hself, rfl⟩⟩
    simp [Value.type, Generated.ofArray, helems]
  · rw [mem_generateTermPathWith_ne hc hne hcs hself, exists_rest_iff hself]
    simp only [Bool.false_eq_true, false_imp_iff, true_and, reduceCtorEq, decide_false,
      Bool.and_false, if_false, Generated.terms_append, nil_append, Generated.ofArray,
      mem_flatMap, hloop, reach_array_iff]
    constructor
    · rintro ⟨-, ⟨j, e, he, rest, hseg, hr⟩ | ⟨e, he, ⟨-, h, -⟩
        | ⟨s, rest, fs, hseg, rfl, hr⟩⟩⟩
      · exact ⟨_, rest, hseg, Or.inl ⟨j, e, he, rfl, hr⟩⟩
      · exact absurd h hself
      · exact ⟨s, rest, hseg, Or.inr ⟨fs, he, hr⟩⟩
    · rintro ⟨s, rest, hseg, ⟨j, e, he, rfl, hr⟩ | ⟨fs, he, hr⟩⟩
      · exact ⟨join_prefix_of_segments hseg, Or.inl ⟨j, e, he, rest, hseg, hr⟩⟩
      · exact ⟨join_prefix_of_segments hseg, Or.inr ⟨_, he, Or.inr ⟨s, rest, fs, hseg, rfl, hr⟩⟩⟩

theorem generates (v : Value) (hv : v.wellNamed) (hn : v.namesOk) :
    GeneratesAt context p v ∧ GeneratesElem context p v
      ∧ ∀ fs, v = .document fs → GeneratesFields context p fs := by
  induction v using Value.induction with
  | document fs ih =>
    simp only [Value.wellNamed, Bool.and_eq_true] at hv
    have hnames := namesOkFields_iff.1 hn
    have hwell := wellNamedFields_iff.1 hv.2
    have hfields : GeneratesFields context p fs := generatesFields
      (fun f hf => (ih f hf (hwell f hf).2.2 (hnames f hf).2).1)
      fun f hf => ⟨(hwell f hf).1, (hwell f hf).2.1, (hnames f hf).1⟩
    obtain ⟨hat, helem⟩ := generates_document hc hfields
    refine ⟨hat, helem, ?_⟩
    rintro _ heq
    obtain rfl := Value.document.inj heq
    exact hfields
  | array es ih =>
    have hwell := wellNamedElems_iff.1 hv
    have hnames := namesOkElems_iff.1 hn
    have hes := fun e he => ih e he (hwell e he) (hnames e he)
    exact ⟨generatesAt_array hc (fun e he => (hes e he).1) fun e he => (hes e he).2.1,
      generatesElem_of_ne_document hc (by simp [Value.type]), by simp⟩
  | codeWScope c fs _ =>
    exact ⟨generatesAt_scalar hc (by simp [Value.type])
      (by simp [Value.type]),
      generatesElem_of_ne_document hc (by simp [Value.type]), by simp⟩
  | scalar v hs =>
    have hd : v.type ≠ .document := by
      cases v <;> simp [Value.isScalar, Value.type] at hs ⊢
    have ha : v.type ≠ .array := by
      cases v <;> simp [Value.isScalar, Value.type] at hs ⊢
    refine ⟨generatesAt_scalar hc hd ha, generatesElem_of_ne_document hc hd, ?_⟩
    rintro fs rfl
    exact absurd rfl hd

theorem generateTermsCore_iff (hfs : (Value.document fs).wellNamed) (hn : namesOkFields fs) :
    ⟨p, v, .noMetadata⟩ ∈ (generateTermsCore context [] fs).terms ↔ ValueAt p fs v := by
  have hroot := (generates hc (.document fs) hfs hn).2.2 fs rfl [] v (by simp [AreNames])
  have hjoin : join dot [] = ([] : Bytes) := rfl
  rw [hjoin] at hroot
  rw [hroot, ValueAt]
  constructor
  · rintro ⟨s, rest, hseg, hr⟩
    rwa [hseg]
  · intro h
    obtain ⟨s, rest, hseg⟩ : ∃ s rest, segments dot p = s :: rest :=
      exists_cons_of_ne_nil (by
        intro hnil
        have := join_segments dot p
        rw [hnil] at this
        exact hc.ne_nil this.symm)
    exact ⟨s, rest, hseg, hseg ▸ h⟩

end

-- ---- no other terms

/-- The terms of an index on one path: the ones of the path, and the marker
for a value that is null. -/
def TermSource.IsOn (p : Bytes) (t : TermSource) : Prop :=
  t.path = p ∧ t.metadata = .noMetadata ∨ t = generatePathUndefinedTerm

theorem isOn_generateTermPathWith (hc : OnPath context p) (hpath : 0 ∉ path)
    (hcont : ∀ option, ∀ t ∈ (container option).terms, t.IsOn p) :
    ∀ t ∈ (generateTermPathWith context path inArray isArray check v
      container).terms, t.IsOn p := by
  intro t ht
  unfold generateTermPathWith at ht
  simp only [hc.option, getSinglePathIndexTraverseOptionCore_eq hc.noZero hpath] at ht
  split_ifs at ht with hcheck hself hno hpre hno hinvalid
  · simp at ht
  · simp at ht
  · rw [Generated.terms_append, mem_append] at ht
    rcases ht with ht | ht
    · subst hself
      cases check with
      | true => simp [generateTermAt] at ht
      | false =>
        cases v <;> simp [generateTermAt, hc.noSkip] at ht <;> rcases ht with rfl | ⟨-, rfl⟩ <;>
          first
            | exact Or.inl ⟨rfl, rfl⟩
            | exact Or.inr rfl
    · exact hcont _ t ht
  · simp at ht
  · rw [Generated.terms_append, mem_append] at ht
    rcases ht with ht | ht
    · simp [generateTermAt] at ht
    · exact hcont _ t ht
  · simp at ht
  · exact absurd rfl hinvalid

theorem zero_notMem_extend (hb : 0 ∉ base) (hk : 0 ∉ k) : 0 ∉ extend dot base k := by
  unfold extend
  split_ifs
  · exact hk
  · simp [hb, hk, dot]

theorem isOn_generateTermsCore (ih : ∀ f ∈ fs, ∀ path inArray isArray check, 0 ∉ path →
      ∀ t ∈ (generateTermPath context path inArray isArray check
        f.2).terms, t.IsOn p) (hnames : ∀ f ∈ fs, 0 ∉ f.1)
    (hbase : 0 ∉ base) : ∀ t ∈ (generateTermsCore context base fs).terms, t.IsOn p := by
  induction fs with
  | nil => simp [generateTermsCore]
  | cons f fs ihfs =>
    obtain ⟨k, v⟩ := f
    intro t ht
    rw [generateTermsCore, Generated.terms_append, mem_append] at ht
    rcases ht with ht | ht
    · exact ih (k, v) (by simp) _ _ _ _ (zero_notMem_extend hbase (hnames (k, v) (by simp))) t ht
    · exact ihfs (fun f hf => ih f (by simp [hf])) (fun f hf => hnames f (by simp [hf])) t ht

theorem isOn_generateArrayPath (ih : ∀ e ∈ es, ∀ path inArray isArray check, 0 ∉ path →
      ∀ t ∈ (generateTermPath context path inArray isArray check
        e).terms, t.IsOn p) (hpath : 0 ∉ path) {recursively : Bool} (i : Nat) :
    ∀ g ∈ generateArrayPath context path inArray recursively i es, ∀ t ∈ g.terms, t.IsOn p := by
  induction es generalizing i with
  | nil => simp [generateArrayPath]
  | cons e es ihes =>
    intro g hg t ht
    rcases mem_cons.1 hg with rfl | hg
    · rw [Generated.terms_append, mem_append] at ht
      rcases ht with ht | ht
      · split_ifs at ht
        · simp at ht
        · exact ih e (by simp) _ _ _ _ (zero_notMem_extend hpath (arrayKey_isName i).2.2) t ht
      · exact ih e (by simp) _ _ _ _ hpath t ht
    · exact ihes (fun e he => ih e (by simp [he])) _ g hg t ht

theorem isOn_generateTermPath (hc : OnPath context p) (v : Value) (hn : v.namesOk) :
    ∀ path inArray isArray check, 0 ∉ path →
      ∀ t ∈ (generateTermPath context path inArray isArray check v).terms, t.IsOn p := by
  induction v using Value.induction with
  | document fs ih =>
    intro path inArray isArray check hpath
    have hnames := namesOkFields_iff.1 hn
    refine isOn_generateTermPathWith hc hpath fun option t ht => ?_
    split_ifs at ht
    · simp at ht
    · rw [Generated.terms_append, nil_append] at ht
      exact isOn_generateTermsCore (fun f hf => ih f hf (hnames f hf).2)
        (fun f hf => (hnames f hf).1) hpath t ht
  | array es ih =>
    intro path inArray isArray check hpath
    have hnames := namesOkElems_iff.1 hn
    refine isOn_generateTermPathWith hc hpath fun option t ht => ?_
    split_ifs at ht
    · simp at ht
    · rw [Generated.terms_append, nil_append, Generated.ofArray, mem_flatMap] at ht
      obtain ⟨g, hg, ht⟩ := ht
      exact isOn_generateArrayPath (fun e he => ih e he (hnames e he)) hpath 0 g hg t ht
  | codeWScope c fs _ =>
    intro path inArray isArray check hpath
    exact isOn_generateTermPathWith hc hpath fun option t ht => by
      simp at ht
  | scalar v hs =>
    intro path inArray isArray check hpath
    rw [generateTermPath_scalar (by cases v <;> simp [Value.isScalar,
      Value.type] at hs ⊢) (by cases v <;> simp [Value.isScalar, Value.type] at hs ⊢)]
    exact isOn_generateTermPathWith hc hpath fun option t ht => by
      simp at ht

theorem isOn_of_mem_generateTermsCore (hc : OnPath context p)
    (hn : namesOkFields fs) {t : TermSource}
    (ht : t ∈ (generateTermsCore context [] fs).terms) : t.IsOn p :=
  have hnames := namesOkFields_iff.1 hn
  isOn_generateTermsCore (fun f hf => isOn_generateTermPath hc f.2 (hnames f hf).2)
    (fun f hf => (hnames f hf).1) (by simp) t ht

end SinglePath

end DocumentDb
