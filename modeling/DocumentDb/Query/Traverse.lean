/-
The traversal of a document along a path: `TraverseBsonCore`.

The traversal calls the functions of its caller on what it meets and threads their state. A
visit that answers false ends the current level, and after every array the caller is asked
whether to go on. `bson_iter_find` is folded into the walk over the fields.

A traversal sees exactly the values at its path (`Reach`): for callers that stop only when
they have found what they look for (`Observes`), the state tells whether one of them was
looked for.
-/
import DocumentDb.Bson.Path
import DocumentDb.Query.Match

namespace DocumentDb

open Dotted List

-- ==== the model

inductive TraverseBsonResult where
  | pathNotFound | typeMismatch
  deriving DecidableEq

/-- Elements are passed as name and value; the visits answer whether to continue. -/
structure TraverseBsonExecutionFuncs (σ : Type) where
  continueProcessIntermediateArray : σ → Value → Bool
  setTraverseResult : TraverseBsonResult → σ → σ
  visitArrayField : Bytes × Value → Bytes → Nat → σ → Bool × σ
  visitTopLevelField : Bytes × Value → Bytes → σ → Bool × σ
  setIntermediateArrayIndex : Nat → σ → σ
  handleIntermediateArrayPathNotFound : Nat → Bytes → σ → σ
  setIntermediateArrayStartEnd : Bool → σ → σ

def stringViewFindPrefix (view : Bytes) (upToCharacter : UInt8) : Option Bytes :=
  if upToCharacter ∈ view then some (view.takeWhile (· ≠ upToCharacter))
  else none

/-- For an offset inside of the view. -/
def stringViewSubstring (source : Bytes) (offset : Nat) : Bytes := source.drop offset

def traverseKey (traversePath : Bytes) : Bytes :=
  (stringViewFindPrefix traversePath dot).getD traversePath

def startsWithDigit (path : Bytes) : Bool :=
  match path with
  | [] => false
  | c :: _ => 48 ≤ c && c ≤ 57

section Traverse

variable {σ : Type} (executionFunctions : TraverseBsonExecutionFuncs σ)
  (skipBsonArrayTraverseOptimization : Bool)

/-- The loop over the elements of an array at the end of the path; false if
the caller stopped it. -/
def visitArrayFields (traversePath : Bytes) : Nat → List Value → σ → Bool × σ
  | _, [], state => (true, state)
  | arrayIndex, e :: es, state =>
    match executionFunctions.visitArrayField (arrayKey arrayIndex, e)
      traversePath arrayIndex state with
    | (false, state) => (false, state)
    | (true, state) => visitArrayFields traversePath (arrayIndex + 1) es state

def visitField (traversePath : Bytes) (inArrayContext : Bool)
    (element : Bytes × Value) (state : σ) : σ :=
  match executionFunctions.visitTopLevelField element traversePath state with
  | (false, state) => state
  | (true, state) =>
    match element.2, inArrayContext with
    | .array es, false =>
      match visitArrayFields executionFunctions traversePath 0 es state with
      | (false, state) => state
      | (true, state) =>
        executionFunctions.setTraverseResult .typeMismatch state
    | _, _ => executionFunctions.setTraverseResult .typeMismatch state

mutual

/-- On the fields of a document: true if the path was not found. -/
def traverseBsonCore (traversePath : Bytes) (inArrayContext : Bool) : Fields → σ → Bool × σ
  | [], state =>
    (true, executionFunctions.setTraverseResult .pathNotFound state)
  | (k, v) :: fs, state =>
    if k = traverseKey traversePath then
      traverseFound traversePath inArrayContext k v state
    else traverseBsonCore traversePath inArrayContext fs state

/-- `TraverseBsonCore` on the elements of an array, by their positions. -/
def traverseByPosition (traversePath : Bytes) : Nat → List Value → σ → Bool × σ
  | _, [], state =>
    (true, executionFunctions.setTraverseResult .pathNotFound state)
  | i, e :: es, state =>
    if arrayKey i = traverseKey traversePath then
      traverseFound traversePath true (arrayKey i) e state
    else traverseByPosition traversePath (i + 1) es state

/-- `TraverseBsonCore` once the iterator is at the field. -/
def traverseFound (traversePath : Bytes) (inArrayContext : Bool) (k : Bytes) : Value → σ → Bool × σ
  | v, state =>
    match stringViewFindPrefix traversePath dot with
    | none =>
      (false, visitField executionFunctions traversePath inArrayContext (k, v) state)
    | some dotKey =>
      let remainingPath := stringViewSubstring traversePath (dotKey.length + 1)
      match v with
      | .document fs => traverseBsonCore remainingPath false fs state
      | .array es =>
        -- the array as a document first, if the name may be a position
        let byPosition := skipBsonArrayTraverseOptimization
          || startsWithDigit remainingPath
        let found := if byPosition then
          traverseByPosition remainingPath 0 es state else (true, state)
        if byPosition && !executionFunctions.continueProcessIntermediateArray found.2
              (.array es) then (false, found.2)
        else
          match traverseElements remainingPath 0 false es
            (executionFunctions.setIntermediateArrayStartEnd true found.2) with
          | (none, state) => (false, state)
          | (some arrayElementsHasPathNotFound, state) =>
            let state := executionFunctions.setIntermediateArrayStartEnd false state
            if found.1 && arrayElementsHasPathNotFound then
              (true, executionFunctions.setTraverseResult .pathNotFound state)
            else
              (false, executionFunctions.setTraverseResult .typeMismatch state)
      | _ => (false, executionFunctions.setTraverseResult .pathNotFound state)

/-- The loop over the elements of an array that are documents: whether the
path was not found in one of them, or none if the caller stopped it. -/
def traverseElements (remainingPath : Bytes) : Nat → Bool → List Value → σ → Option Bool × σ
  | _, notFound, [], state => (some notFound, state)
  | i, notFound, .document fs :: es, state =>
    let inner := traverseBsonCore remainingPath false fs
      (executionFunctions.setIntermediateArrayIndex i state)
    if !executionFunctions.continueProcessIntermediateArray inner.2
        (.document fs) then (none, inner.2)
    else
      traverseElements remainingPath (i + 1) (notFound || inner.1) es (if inner.1 then
          executionFunctions.handleIntermediateArrayPathNotFound i remainingPath inner.2
        else inner.2)
  | i, notFound, _ :: es, state =>
    traverseElements remainingPath (i + 1) notFound es
      (executionFunctions.handleIntermediateArrayPathNotFound i remainingPath state)

end

def traverseBson (fs : Fields) (traversalPath : Bytes) (state : σ) : σ :=
  (traverseBsonCore executionFunctions skipBsonArrayTraverseOptimization
    traversalPath false fs state).2

end Traverse

-- ==== the path

theorem segments_eq_traverseKey (path : Bytes) :
    segments dot path = traverseKey path :: (segments dot path).tail := by
  unfold traverseKey stringViewFindPrefix
  split_ifs with h
  · rw [segments_of_mem dot h]
    rfl
  · rw [segments_of_notMem dot h]
    rfl

theorem segments_tail_of_none {path : Bytes} (h : stringViewFindPrefix path dot = none) :
    (segments dot path).tail = [] := by
  unfold stringViewFindPrefix at h
  split_ifs at h with hmem
  rw [segments_of_notMem dot hmem]
  rfl

theorem segments_tail_of_some {path dotKey : Bytes}
    (h : stringViewFindPrefix path dot = some dotKey) :
    (segments dot path).tail = segments dot (stringViewSubstring path (dotKey.length + 1)) := by
  unfold stringViewFindPrefix at h
  split_ifs at h with hmem
  cases h
  rw [segments_of_mem dot hmem]
  rfl

theorem startsWithDigit_of_traverseKey {path : Bytes} {i : Nat}
    (h : arrayKey i = traverseKey path) : startsWithDigit path := by
  have hprefix : traverseKey path <+: path := by
    unfold traverseKey stringViewFindPrefix
    split_ifs
    · exact takeWhile_prefix _
    · exact prefix_rfl
  rw [← h] at hprefix
  obtain ⟨c, cs, hc⟩ := exists_cons_of_ne_nil (arrayKey_ne_nil i)
  have hdigit := arrayKey_digit (hc ▸ mem_cons_self : c ∈ arrayKey i)
  rw [hc] at hprefix
  obtain ⟨rest, rfl⟩ := hprefix
  simp only [cons_append, startsWithDigit, Bool.and_eq_true,
    decide_eq_true_eq, UInt8.le_iff_toNat_le]
  exact hdigit

-- ==== what is observed

/-- A caller that looks for values: it stops only when it has found one, and
forgets nothing before it stops. -/
structure Observes {σ : Type} (f : TraverseBsonExecutionFuncs σ)
    (wanted : Value → Prop) (stopped found : σ → Prop) : Prop where
  found_of_stopped : ∀ s, stopped s → found s
  continue_iff : ∀ s v, f.continueProcessIntermediateArray s v = true ↔ ¬stopped s
  visitTopLevelField : ∀ e path s, ¬stopped s → ((f.visitTopLevelField e path s).1 = true
        ↔ ¬stopped (f.visitTopLevelField e path s).2)
      ∧ (found (f.visitTopLevelField e path s).2 ↔ found s ∨ wanted e.2)
  visitArrayField : ∀ e path i s, ¬stopped s → ((f.visitArrayField e path i s).1 = true
        ↔ ¬stopped (f.visitArrayField e path i s).2)
      ∧ (found (f.visitArrayField e path i s).2 ↔ found s ∨ wanted e.2)
  setTraverseResult : ∀ r s, ¬stopped s →
    ¬stopped (f.setTraverseResult r s) ∧ (found (f.setTraverseResult r s) ↔ found s)
  setIntermediateArrayIndex : ∀ i s, ¬stopped s →
    ¬stopped (f.setIntermediateArrayIndex i s) ∧ (found (f.setIntermediateArrayIndex i s) ↔ found s)
  handleIntermediateArrayPathNotFound : ∀ i path s, ¬stopped s →
    ¬stopped (f.handleIntermediateArrayPathNotFound i path s)
      ∧ (found (f.handleIntermediateArrayPathNotFound i path s) ↔ found s)
  setIntermediateArrayStartEnd : ∀ b s, ¬stopped s → ¬stopped (f.setIntermediateArrayStartEnd b s)
      ∧ (found (f.setIntermediateArrayStartEnd b s) ↔ found s)

section Observe

variable {σ : Type} {f : TraverseBsonExecutionFuncs σ} {skip : Bool}
  {wanted : Value → Prop} {stopped found : σ → Prop} {s t : σ} {v : Value} {fs : Fields}

theorem exists_reach_document {inArray : Bool} {k : Bytes} {segs : List Bytes}
    : (∃ v w, (k, v) ∈ fs ∧ Reach false segs v w ∧ wanted w)
      ↔ ∃ w, Reach inArray (k :: segs) (.document fs) w ∧ wanted w := by
  simp only [reach_document_iff]
  constructor
  · rintro ⟨v, w, hv, hr, hw⟩
    exact ⟨w, ⟨v, hv, hr⟩, hw⟩
  · rintro ⟨w, ⟨v, hv, hr⟩, hw⟩
    exact ⟨v, w, hv, hr, hw⟩

variable (hf : Observes f wanted stopped found)
include hf

theorem continue_of_stopped (ht : stopped t) : f.continueProcessIntermediateArray t v = false := by
  rw [← Bool.not_eq_true, hf.continue_iff, not_not]
  exact ht

theorem found_of_visit (hcont : false ↔ ¬stopped t)
    (hfound : found t ↔ found s ∨ wanted v) : stopped t ∧ found t ∧ (found s ∨ wanted v) := by
  have ht : stopped t := by
    by_contra hno
    exact absurd (hcont.2 hno) (by simp)
  have hft := hf.found_of_stopped t ht
  exact ⟨ht, hft, hfound.1 hft⟩

theorem visitArrayFields_observes (path : Bytes) (es : List Value) (i : Nat) (hs : ¬stopped s) :
    ((visitArrayFields f path i es s).1 ↔ ¬stopped (visitArrayFields f path i es s).2)
      ∧ (found (visitArrayFields f path i es s).2 ↔ found s ∨ ∃ e ∈ es, wanted e) := by
  induction es generalizing i s with
  | nil => simp [visitArrayFields, hs]
  | cons e es ih =>
    obtain ⟨hcont, hfound⟩ := hf.visitArrayField (arrayKey i, e) path i s hs
    rw [visitArrayFields]
    cases hv : f.visitArrayField (arrayKey i, e) path i s with
    | mk continues t =>
      rw [hv] at hcont hfound
      cases continues with
      | false =>
        obtain ⟨ht, hft, h⟩ := found_of_visit hf hcont hfound
        exact ⟨by simpa using ht, iff_of_true hft (h.imp_right fun h => ⟨e, by simp, h⟩)⟩
      | true =>
        obtain ⟨hc, hfd⟩ := ih (i + 1) (hcont.1 rfl)
        refine ⟨hc, hfd.trans ?_⟩
        rw [hfound]
        simp [or_assoc]

theorem visitField_observes (path k : Bytes) (inArray : Bool) (v : Value) (hs : ¬stopped s) :
    found (visitField f path inArray (k, v) s)
      ↔ found s ∨ ∃ w, Reach inArray [] v w ∧ wanted w := by
  have hreach : (∃ w, Reach inArray [] v w ∧ wanted w)
      ↔ wanted v ∨ inArray = false ∧ ∃ es, v = .array es ∧ ∃ e ∈ es, wanted e := by
    simp only [reach_nil_iff]
    constructor
    · rintro ⟨w, rfl | ⟨h, es, rfl, he⟩, hw⟩
      · exact Or.inl hw
      · exact Or.inr ⟨h, es, rfl, w, he, hw⟩
    · rintro (hw | ⟨h, es, rfl, w, he, hw⟩)
      · exact ⟨v, Or.inl rfl, hw⟩
      · exact ⟨w, Or.inr ⟨h, es, rfl, he⟩, hw⟩
  rw [hreach]
  obtain ⟨hcont, hfound⟩ := hf.visitTopLevelField (k, v) path s hs
  unfold visitField
  cases hv : f.visitTopLevelField (k, v) path s with
  | mk continues t =>
    rw [hv] at hcont hfound
    cases continues with
    | false =>
      obtain ⟨-, hft, h⟩ := found_of_visit hf hcont hfound
      exact iff_of_true hft (h.imp_right Or.inl)
    | true =>
      have ht := hcont.1 rfl
      have hset := (hf.setTraverseResult .typeMismatch t ht).2
      by_cases harray : inArray = false ∧ ∃ es, v = .array es
      · obtain ⟨rfl, es, rfl⟩ := harray
        obtain ⟨hc, hfd⟩ := visitArrayFields_observes hf path es 0 ht
        have hrhs : (found s ∨ wanted (.array es) ∨ false = false
            ∧ ∃ es', Value.array es = .array es' ∧ ∃ e ∈ es', wanted e)
            ↔ found (visitArrayFields f path 0 es t).2 := by
          rw [hfd, hfound]
          simp [or_assoc]
        rw [hrhs]
        cases hloop : visitArrayFields f path 0 es t with
        | mk continues u =>
          rw [hloop] at hc
          simp only [hloop]
          cases continues with
          | false => exact Iff.rfl
          | true =>
            exact (hf.setTraverseResult .typeMismatch u (hc.1 rfl)).2
      · have hrhs : (found s ∨ wanted v ∨ inArray = false
            ∧ ∃ es, v = .array es ∧ ∃ e ∈ es, wanted e) ↔ found t := by
          rw [hfound]
          constructor
          · rintro (h | h | ⟨h, es, hes, -⟩)
            · exact Or.inl h
            · exact Or.inr h
            · exact absurd ⟨h, es, hes⟩ harray
          · rintro (h | h)
            · exact Or.inl h
            · exact Or.inr (Or.inl h)
        rw [hrhs, ← hset]
        cases v with
        | array es =>
          cases inArray with
          | true => exact Iff.rfl
          | false => exact absurd ⟨rfl, es, rfl⟩ harray
        | _ => exact Iff.rfl

/-- A traversal that is at a value sees what is reached from there. -/
private def Sees (f : TraverseBsonExecutionFuncs σ) (skip : Bool)
    (wanted : Value → Prop) (stopped found : σ → Prop) (v : Value) : Prop :=
  ∀ path inArray k s, ¬stopped s → (found (traverseFound f skip path inArray k v s).2
      ↔ found s ∨ ∃ w, Reach inArray (segments dot path).tail v w ∧ wanted w)

/-- A traversal of a document sees what is reached by the first name. -/
private def SeesFields (f : TraverseBsonExecutionFuncs σ) (skip : Bool)
    (wanted : Value → Prop) (stopped found : σ → Prop) (fs : Fields) : Prop :=
  ∀ path inArray s, ¬stopped s → (found (traverseBsonCore f skip path inArray fs s).2
      ↔ found s ∨ ∃ v w, (traverseKey path, v) ∈ fs
          ∧ Reach inArray (segments dot path).tail v w ∧ wanted w)

theorem seesFields (ih : ∀ g ∈ fs, Sees f skip wanted stopped found g.2)
    (hnodup : (fs.map Prod.fst).Nodup) : SeesFields f skip wanted stopped found fs := by
  intro path inArray s hs
  induction fs with
  | nil =>
    rw [traverseBsonCore]
    simpa using (hf.setTraverseResult .pathNotFound s hs).2
  | cons g fs ihfs =>
    obtain ⟨k, v⟩ := g
    simp only [map_cons, nodup_cons] at hnodup
    rw [traverseBsonCore]
    split_ifs with hk
    · rw [ih (k, v) (by simp) path inArray k s hs]
      refine or_congr_right ?_
      constructor
      · rintro ⟨w, hw⟩
        exact ⟨v, w, by simp [hk], hw⟩
      · rintro ⟨v', w, hmem, hw⟩
        rcases mem_cons.1 hmem with heq | hmem
        · obtain ⟨-, rfl⟩ := Prod.mk.inj heq
          exact ⟨w, hw⟩
        · exact absurd (mem_map_of_mem hmem) (hk ▸ hnodup.1)
    · rw [ihfs (fun g hg => ih g (by simp [hg])) hnodup.2]
      simp [Ne.symm hk]

variable {es : List Value}

theorem seesPosition
    (ih : ∀ e ∈ es, Sees f skip wanted stopped found e) (path : Bytes) (i : Nat) (hs : ¬stopped s) :
    found (traverseByPosition f skip path i es s).2 ↔ found s ∨ ∃ j e w, es[j]? = some e
          ∧ traverseKey path = arrayKey (i + j)
          ∧ Reach true (segments dot path).tail e w ∧ wanted w := by
  induction es generalizing i with
  | nil =>
    rw [traverseByPosition]
    simpa using (hf.setTraverseResult .pathNotFound s hs).2
  | cons e es ihes =>
    rw [traverseByPosition]
    split_ifs with hk
    · rw [ih e (by simp) path true _ s hs]
      refine or_congr_right ?_
      constructor
      · rintro ⟨w, hw⟩
        exact ⟨0, e, w, rfl, hk.symm, hw⟩
      · rintro ⟨j, e', w, he', hj, hw⟩
        have hj0 : i + j = i := arrayKey_injective (hj.symm.trans hk.symm)
        obtain rfl : j = 0 := by omega
        cases he'
        exact ⟨w, hw⟩
    · rw [ihes (fun e he => ih e (by simp [he]))]
      refine or_congr_right ?_
      constructor
      · rintro ⟨j, e', w, he', hj, hw⟩
        exact ⟨j + 1, e', w, he', by rw [hj]; congr 1; omega, hw⟩
      · rintro ⟨j, e', w, he', hj, hw⟩
        cases j with
        | zero => exact absurd hj.symm hk
        | succ j =>
          exact ⟨j, e', w, he', by rw [hj]; congr 1; omega, hw⟩

theorem seesElements (ih : ∀ fs, Value.document fs ∈ es → SeesFields f skip wanted stopped found fs)
    (path : Bytes) (i : Nat) (notFound : Bool) (hs : ¬stopped s) :
    ((traverseElements f skip path i notFound es s).1 ≠ none →
        ¬stopped (traverseElements f skip path i notFound es s).2)
      ∧ (found (traverseElements f skip path i notFound es s).2
        ↔ found s ∨ ∃ fs v w, Value.document fs ∈ es ∧ (traverseKey path, v) ∈ fs
            ∧ Reach false (segments dot path).tail v w ∧ wanted w) := by
  induction es generalizing i notFound s with
  | nil =>
    rw [traverseElements]
    exact ⟨fun _ => hs, by simp⟩
  | cons e es ihes =>
    have ihes := fun i notFound s hs =>
      @ihes s (fun fs hfs => ih fs (by simp [hfs])) i notFound hs
    cases e with
    | document fs =>
      rw [traverseElements]
      obtain ⟨hs', hfs'⟩ := hf.setIntermediateArrayIndex i s hs
      have hsees := ih fs (by simp) path false _ hs'
      rw [hfs'] at hsees
      generalize traverseBsonCore f skip path false fs
        (f.setIntermediateArrayIndex i s) = inner at hsees
      obtain ⟨nf, t⟩ := inner
      by_cases ht : stopped t
      · -- found in this element
        simp only [continue_of_stopped hf ht, Bool.not_false, if_true]
        have hft := hf.found_of_stopped t ht
        refine ⟨fun h => absurd rfl h, iff_of_true hft ?_⟩
        rcases hsees.1 hft with h | ⟨v, w, h⟩
        · exact Or.inl h
        · exact Or.inr ⟨fs, v, w, by simp, h⟩
      · simp only [(hf.continue_iff t (.document fs)).2 ht,
          Bool.not_true, Bool.false_eq_true, if_false]
        have hnext : ¬stopped (if nf then
            f.handleIntermediateArrayPathNotFound i path t else t)
            ∧ (found (if nf then
              f.handleIntermediateArrayPathNotFound i path t else t)
              ↔ found t) := by
          split_ifs
          · exact hf.handleIntermediateArrayPathNotFound i path t ht
          · exact ⟨ht, Iff.rfl⟩
        obtain ⟨hc, hfd⟩ := ihes (i + 1) (notFound || nf) _ hnext.1
        refine ⟨hc, hfd.trans ?_⟩
        rw [hnext.2, hsees, or_assoc]
        refine or_congr_right ?_
        constructor
        · rintro (⟨v, w, h⟩ | ⟨fs', v, w, hmem, h⟩)
          · exact ⟨fs, v, w, by simp, h⟩
          · exact ⟨fs', v, w, by simp [hmem], h⟩
        · rintro ⟨fs', v, w, hmem, h⟩
          rcases mem_cons.1 hmem with heq | hmem
          · obtain rfl := Value.document.inj heq
            exact Or.inl ⟨v, w, h⟩
          · exact Or.inr ⟨fs', v, w, hmem, h⟩
    | _ =>
      rw [traverseElements]
      swap
      · nofun
      obtain ⟨hs', hfs'⟩ := hf.handleIntermediateArrayPathNotFound i path s hs
      obtain ⟨hc, hfd⟩ := ihes (i + 1) notFound _ hs'
      refine ⟨hc, hfd.trans ?_⟩
      rw [hfs']
      simp

theorem sees_array (ih : ∀ e ∈ es, Sees f skip wanted stopped found e)
    (ihd : ∀ fs, Value.document fs ∈ es → SeesFields f skip wanted stopped found fs) :
    Sees f skip wanted stopped found (.array es) := by
  intro path inArray k s hs
  rw [traverseFound]
  cases hfind : stringViewFindPrefix path dot with
  | none =>
    rw [segments_tail_of_none hfind]
    exact visitField_observes hf path k inArray _ hs
  | some dotKey =>
    rw [segments_tail_of_some hfind]
    simp only
    generalize stringViewSubstring path (dotKey.length + 1) = remaining
    generalize hby : (skip || startsWithDigit remaining) = byPosition
    generalize hfirst : (if byPosition then
      traverseByPosition f skip remaining 0 es s else (true, s)) = first
    -- the positions, whether they are searched or not
    have hpos : found first.2 ↔ found s ∨ ∃ j e w, es[j]? = some e
        ∧ traverseKey remaining = arrayKey j
        ∧ Reach true (segments dot remaining).tail e w ∧ wanted w := by
      rw [← hfirst]
      split_ifs with hsearch
      · simpa using seesPosition hf ih remaining 0 hs
      · refine ⟨Or.inl, ?_⟩
        rintro (h | ⟨j, e, w, -, hj, -⟩)
        · exact h
        · rw [← hby, startsWithDigit_of_traverseKey hj.symm, Bool.or_true] at hsearch
          exact absurd rfl hsearch
    have hreach : (∃ w, Reach inArray (segments dot remaining) (.array es) w ∧ wanted w)
        ↔ (∃ j e w, es[j]? = some e ∧ traverseKey remaining = arrayKey j
            ∧ Reach true (segments dot remaining).tail e w ∧ wanted w)
          ∨ ∃ fs v w, Value.document fs ∈ es ∧ (traverseKey remaining, v) ∈ fs
            ∧ Reach false (segments dot remaining).tail v w
            ∧ wanted w := by
      rw [segments_eq_traverseKey remaining]
      simp only [tail_cons, reach_array_iff, reach_document_iff]
      constructor
      · rintro ⟨w, ⟨j, e, he, hj, hr⟩ | ⟨fs, hmem, v, hv, hr⟩, hw⟩
        · exact Or.inl ⟨j, e, w, he, hj, hr, hw⟩
        · exact Or.inr ⟨fs, v, w, hmem, hv, hr, hw⟩
      · rintro (⟨j, e, w, he, hj, hr, hw⟩ | ⟨fs, v, w, hmem, hv, hr, hw⟩)
        · exact ⟨w, Or.inl ⟨j, e, he, hj, hr⟩, hw⟩
        · exact ⟨w, Or.inr ⟨fs, hmem, v, hv, hr⟩, hw⟩
    rw [hreach, ← or_assoc, ← hpos]
    by_cases hstop : stopped first.2
    · -- found at a position
      have hsearch : byPosition := by
        by_contra hno
        rw [if_neg hno] at hfirst
        rw [← hfirst] at hstop
        exact hs hstop
      simp only [hsearch, continue_of_stopped hf hstop, Bool.not_false, Bool.and_self, if_true]
      exact (or_iff_left_of_imp fun _ =>
        hf.found_of_stopped _ hstop).symm
    · simp only [(hf.continue_iff first.2 (.array es)).2 hstop,
        Bool.not_true, Bool.and_false, Bool.false_eq_true, if_false]
      obtain ⟨hstart, hstartf⟩ := hf.setIntermediateArrayStartEnd true first.2 hstop
      obtain ⟨hgo, hloop⟩ := seesElements hf ihd remaining 0 false hstart
      rw [← hstartf, ← hloop]
      cases hrun : traverseElements f skip remaining 0 false es
        (f.setIntermediateArrayStartEnd true first.2) with
      | mk result t =>
        rw [hrun] at hgo
        cases result with
        | none => exact Iff.rfl
        | some nf =>
          have ht := hgo (by simp)
          obtain ⟨hend, hendf⟩ := hf.setIntermediateArrayStartEnd false t ht
          simp only
          split_ifs
          · exact (hf.setTraverseResult .pathNotFound _ hend).2.trans hendf
          · exact (hf.setTraverseResult .typeMismatch _ hend).2.trans hendf

theorem sees_scalar (hd : v.type ≠ .document) (ha : v.type ≠ .array) :
    Sees f skip wanted stopped found v := by
  intro path inArray k s hs
  rw [traverseFound]
  cases hfind : stringViewFindPrefix path dot with
  | none =>
    rw [segments_tail_of_none hfind]
    exact visitField_observes hf path k inArray _ hs
  | some dotKey =>
    rw [segments_tail_of_some hfind, segments_eq_traverseKey]
    have hnone : ∀ w, ¬Reach inArray (traverseKey (stringViewSubstring path (dotKey.length + 1))
          :: (segments dot (stringViewSubstring path (dotKey.length + 1))).tail) v w :=
      fun w => not_reach_scalar hd ha
    have hset := (hf.setTraverseResult .pathNotFound s hs).2
    cases v with
    | document fs => exact absurd rfl hd
    | array es => exact absurd rfl ha
    | _ => simpa [hnone] using hset

theorem sees_document (ih : SeesFields f skip wanted stopped found fs) :
    Sees f skip wanted stopped found (.document fs) := by
  intro path inArray k s hs
  rw [traverseFound]
  cases hfind : stringViewFindPrefix path dot with
  | none =>
    rw [segments_tail_of_none hfind]
    exact visitField_observes hf path k inArray _ hs
  | some dotKey =>
    rw [segments_tail_of_some hfind, segments_eq_traverseKey]
    exact (ih _ false s hs).trans (or_congr_right exists_reach_document)

/-- The induction is over the value; a document is seen from above, where
it is at a name, and from inside, where it is an element of an array. -/
theorem sees (v : Value) (hv : v.wellNamed) : Sees f skip wanted stopped found v
      ∧ ∀ fs, v = .document fs → SeesFields f skip wanted stopped found fs := by
  induction v using Value.induction with
  | document fs ih =>
    simp only [Value.wellNamed, Bool.and_eq_true, decide_eq_true_eq] at hv
    have hfields : SeesFields f skip wanted stopped found fs :=
      seesFields hf (fun g hg => (ih g hg (wellNamedFields_iff.1 hv.2 g hg).2.2).1) hv.1
    refine ⟨sees_document hf hfields, ?_⟩
    rintro _ heq
    obtain rfl := Value.document.inj heq
    exact hfields
  | array es ih =>
    have hes := wellNamedElems_iff.1 hv
    exact ⟨sees_array hf (fun e he => (ih e he (hes e he)).1)
      fun fs hfs => (ih _ hfs (hes _ hfs)).2 fs rfl, nofun⟩
  | codeWScope c fs _ =>
    exact ⟨sees_scalar hf (by simp [Value.type]) (by simp [Value.type]), nofun⟩
  | scalar v hs =>
    refine ⟨sees_scalar hf ?_ ?_, ?_⟩
    · cases v <;> simp [Value.isScalar, Value.type] at hs ⊢
    · cases v <;> simp [Value.isScalar, Value.type] at hs ⊢
    · rintro fs rfl
      simp [Value.isScalar] at hs

/-- For a caller that looks for values, the state after a traversal tells
whether one of the values at the path was looked for. -/
theorem traverseBson_observes (hfs : (Value.document fs).wellNamed)
    (path : Bytes) (hs : ¬stopped s) :
    found (traverseBson f skip fs path s) ↔ found s ∨ ∃ v, ValueAt path fs v ∧ wanted v := by
  have hsees : SeesFields f skip wanted stopped found fs := (sees hf _ hfs).2 fs rfl
  unfold ValueAt
  rw [segments_eq_traverseKey]
  exact (hsees path false s hs).trans (or_congr_right exists_reach_document)

end Observe

-- ==== two callers

/-- A caller that keeps what it visits and never reports a match. -/
def collectFuncs : TraverseBsonExecutionFuncs (List Value) where
  continueProcessIntermediateArray _ _ := true
  setTraverseResult _ visited := visited
  visitArrayField element _ _ visited := (true, visited ++ [element.2])
  visitTopLevelField element _ visited := (true, visited ++ [element.2])
  setIntermediateArrayIndex _ visited := visited
  handleIntermediateArrayPathNotFound _ _ visited := visited
  setIntermediateArrayStartEnd _ visited := visited

/-- The values that a traversal visits if nothing matches. -/
def visitedValues (skipBsonArrayTraverseOptimization : Bool) (fs : Fields)
    (path : Bytes) : List Value :=
  traverseBson collectFuncs skipBsonArrayTraverseOptimization fs path []

theorem mem_visitedValues_iff {skip : Bool} {fs : Fields}
    (hfs : (Value.document fs).wellNamed) {path : Bytes} {v : Value} :
    v ∈ visitedValues skip fs path ↔ ValueAt path fs v := by
  have hobs : Observes collectFuncs (· = v) (fun _ => False) (v ∈ ·) := by
    constructor <;> simp [collectFuncs, eq_comm]
  have hmem : v ∈ visitedValues skip fs path
      ↔ v ∈ ([] : List Value) ∨ ∃ w, ValueAt path fs w ∧ w = v :=
    traverseBson_observes hobs hfs path not_false
  simpa using hmem

inductive CompareResult where
  | pathNotFound | mismatch | match
  deriving DecidableEq

/-- Also `CompareNullExecutionFuncs` for a filter that is null. The functions of a match
get the value and whether it is the first element of an array. -/
def compareExecutionFuncs (matchFunc : Value → Bool → Bool)
    (forNulls : Bool) : TraverseBsonExecutionFuncs CompareResult where
  continueProcessIntermediateArray compareResult _ := compareResult ≠ .match
  setTraverseResult traverseResult compareResult :=
    match traverseResult with
    | .pathNotFound => .pathNotFound
    | .typeMismatch => if forNulls then compareResult else .mismatch
  visitArrayField element _ arrayIndex compareResult :=
    if matchFunc element.2 (arrayIndex = 0) then (false, .match)
    else (true, compareResult)
  visitTopLevelField element _ _ :=
    if matchFunc element.2 false then (false, .match) else (true, .mismatch)
  setIntermediateArrayIndex _ compareResult := compareResult
  handleIntermediateArrayPathNotFound _ _ compareResult := compareResult
  setIntermediateArrayStartEnd _ compareResult := compareResult

/-- Without collation. -/
def compareBsonAgainstQuery (useLegacyNullEqualityBehavior skipBsonArrayTraverseOptimization : Bool)
    (element : Fields) (filter : Bytes × Value)
    (compareFunc : Value → Bool → Bool) (isFilterNull : Bool) : Bool :=
  let forNulls := isFilterNull && !useLegacyNullEqualityBehavior
  let compareResult :=
    traverseBson (compareExecutionFuncs compareFunc forNulls)
      skipBsonArrayTraverseOptimization element filter.1
      (if forNulls then .mismatch else .pathNotFound)
  if isFilterNull then compareResult ≠ .mismatch
  else compareResult = .match

def bsonDollarEq [BidLib] (useLegacyNullEqualityBehavior skipBsonArrayTraverseOptimization : Bool)
    (document : Fields) (filter : Bytes × Value) : Bool :=
  compareBsonAgainstQuery useLegacyNullEqualityBehavior
    skipBsonArrayTraverseOptimization document filter
    (fun v _ => compareEqualMatch v filter.2) (filter.2.type = .null)

theorem bsonDollarEq_iff [BidLib] {useLegacy skip : Bool} {fs : Fields}
    (hfs : (Value.document fs).wellNamed) {path : Bytes} {q : Value} (hq : q.type ≠ .null) :
    bsonDollarEq useLegacy skip fs (path, q) ↔ ∃ v, ValueAt path fs v ∧ bsonValueEquals v q := by
  have hobs : Observes (compareExecutionFuncs (fun v _ => compareEqualMatch v q) false)
      (fun v => compareEqualMatch v q) (· = .match) (· = .match) := by
    constructor
    case visitTopLevelField =>
      intro e path s hs
      by_cases hm : compareEqualMatch e.2 q = true <;> simp [compareExecutionFuncs, hm, hs]
    case visitArrayField =>
      intro e path i s hs
      by_cases hm : compareEqualMatch e.2 q = true <;> simp [compareExecutionFuncs, hm, hs]
    case setTraverseResult =>
      intro r s hs
      cases r <;> simp [compareExecutionFuncs, hs]
    all_goals simp [compareExecutionFuncs]
  have hmatch : traverseBson
      (compareExecutionFuncs (fun v _ => compareEqualMatch v q) false) skip fs
        path .pathNotFound = .match
      ↔ CompareResult.pathNotFound = .match ∨ ∃ v, ValueAt path fs v ∧ compareEqualMatch v q :=
    traverseBson_observes hobs hfs path (by simp)
  simp only [reduceCtorEq, false_or, compareEqualMatch_eq] at hmatch
  rw [← hmatch]
  simp [bsonDollarEq, compareBsonAgainstQuery, hq, compareEqualMatch_eq]

end DocumentDb
