/-
Index terms of arrays keep the order of the arrays.

Two arrays with one path and limit are written in step: equal elements have equal sizes, so
both loops see the same room. At the first element that differs the smaller array writes a
smaller one, or both write the same and stop there. An array that ends where another one
goes on stays smaller unless the other one is not written any further; then it ends behind
the soft limit and is flagged like one that was cut.
-/
import DocumentDb.Index.Monotone

namespace DocumentDb

open Wire ThreeWay Option

mutual

def Value.isPlainArray : Value → Bool
  | .array es => arePlainArrays es
  | v => v.isPlain

def arePlainArrays : List Value → Bool
  | [] => true
  | v :: es => v.isPlainArray && arePlainArrays es

end

section ArrayOrder

variable [BidLib]

theorem compareArrayIter_cons (v w : Value) (xs ys : List Value) :
    compareArrayIter (v :: xs) (w :: ys)
      = andThen (compareBsonValueAndType v w).1 (compareArrayIter xs ys) := by
  simp only [compareArrayIter, compareBsonValueAndType_fst, andThen_assoc]

-- ==== one element

variable {t : Bool} {v : Value} {dataSize hardLimit : Int} {i : Nat}

theorem plainArray_entry {budget len : Int} {x : Value} {f : Bool} (hx : x.isPlainArray)
    (h : truncateNestedEntry budget len x = some (v, t, f)) :
    v.sortOrderType = x.sortOrderType ∧ f = false := by
  cases x with
  | array es =>
    rw [truncateNestedEntry_array, map_eq_some_iff] at h
    obtain ⟨r, -, hr⟩ := h
    obtain ⟨rfl, -, rfl⟩ := hr
    exact ⟨rfl, rfl⟩
  | document fs => simp [Value.isPlainArray, Value.isPlain, Value.isInteger, Value.isFixed] at hx
  | _ => exact truncateNestedScalar_plain budget len hx h

/-- The induction hypothesis on an element: it is in order with all
others. -/
private def ElementKeeps (x : Value) : Prop :=
  ∀ y sizeBudget currentLength v t f w t' f', x.isPlainArray = true → y.isPlainArray = true →
    truncateNestedEntry sizeBudget currentLength x = some (v, t, f) →
    truncateNestedEntry sizeBudget currentLength y = some (w, t', f') →
    Keeps sizeBudget currentLength (compareBsonValueAndType x y).1 v t w t'

theorem arrayTail_full {soft n : Int} {es : List Value} (h : soft < n + dataSize) :
    arrayTail dataSize soft hardLimit false n i es = some ([], true) := by
  cases es <;> simp [arrayTail, h]

-- ==== the loops

theorem tail_keeps {xs : List Value} (ih : ∀ x ∈ xs, ElementKeeps x) (ys : List Value) (n : Int)
    (i : Nat) (hxs : arePlainArrays xs) (hys : arePlainArrays ys) {xs' ys' : List Value} {t' : Bool}
    (h : arrayTail dataSize (hardLimit - 21) hardLimit false n i xs = some (xs', t))
    (h' : arrayTail dataSize (hardLimit - 21) hardLimit false n i ys = some (ys', t')) :
    LoopOutcome compareArrayIter (fun l => (encodeElems i l).length)
      (compareArrayIter xs ys) false (xs', t) (ys', t') := by
  induction xs generalizing ys n i xs' ys' t t' with
  | nil =>
    simp only [arrayTail, some.injEq, Prod.mk.injEq, Bool.not_false, Bool.and_true] at h
    obtain ⟨rfl, rfl⟩ := h
    cases ys with
    | nil =>
      simp only [arrayTail, some.injEq, Prod.mk.injEq, Bool.not_false, Bool.and_true] at h'
      obtain ⟨rfl, rfl⟩ := h'
      exact ⟨fun _ => ⟨rfl, rfl, rfl, rfl⟩, fun hl => absurd hl (by
        simp [compareArrayIter]), by simp⟩
    | cons y ys =>
      refine ⟨fun hz => absurd hz (by simp [compareArrayIter]), fun _ _ => ?_, by simp⟩
      rcases arrayTail_cons h' with ⟨hsoft, hr⟩ | ⟨-, w, u, g, -, hr⟩
      · cases hr
        exact Or.inr ⟨rfl, rfl, by simpa using hsoft, rfl⟩
      · obtain ⟨l, rfl⟩ := WrittenFirst.head hr
        exact Or.inl (by simp [compareArrayIter])
  | cons x xs ihxs =>
    cases ys with
    | nil =>
      exact ⟨fun hz => absurd hz (by simp [compareArrayIter]),
        fun hl => absurd hl (by simp [compareArrayIter]), by simp⟩
    | cons y ys =>
      simp only [arePlainArrays, Bool.and_eq_true] at hxs hys
      rcases arrayTail_cons h with ⟨hsoft, hr⟩ | ⟨hsoft, v, u, f, hv, hr⟩
      · -- there is no room for either
        rw [arrayTail, if_pos hsoft, some.injEq] at h'
        rw [hr, ← h']
        exact .same rfl
      rcases arrayTail_cons h' with ⟨hno, -⟩ | ⟨-, w, u', g, hw, hr'⟩
      · exact absurd hsoft (not_le.2 hno)
      obtain rfl := (plainArray_entry hxs.1 hv).2
      obtain rfl := (plainArray_entry hys.1 hw).2
      have hkeeps := ih x (by simp) y _ _ _ _ _ _ _ _ hxs.1 hys.1 hv hw
      have hroom {z : Value} {b : Bool} (hfull : Full (hardLimit - dataSize - 4) n z b)
          (hb : b = false) : hardLimit - 21 < n + elemSize i z + dataSize := by
        rcases hfull with hfull | hfull
        · cases hb.symm.trans hfull
        · unfold elemSize
          omega
      have hsize (hs : (encodeValue v).length = (encodeValue w).length) (l r : List Value)
          (hrest : (encodeElems (i + 1) l).length = (encodeElems (i + 1) r).length) :
          (encodeElems i (v :: l)).length = (encodeElems i (w :: r)).length := by
        simp only [encodeElems, List.length_cons, List.length_append, hs, hrest]
      rw [compareArrayIter_cons]
      refine LoopOutcome.step (compareArrayIter_cons v w) rfl hsize hkeeps.outcome hr hr'
        (fun hf hu => arrayTail_full (hroom hf hu))
        (fun hf hu => arrayTail_full (hroom hf hu)) (fun hs r r' hrun hrun' => ?_)
        (show false = if _ then !u && false else false by simp)
      have hsame : elemSize i w = elemSize i v := by simp only [elemSize, hs]
      rw [hsame] at hrun'
      exact ihxs (fun x hx => ih x (by simp [hx])) ys _ _ hxs.2 hys.2 hrun hrun'

theorem elementKeeps (x : Value) : ElementKeeps x := by
  have hclass : ∀ {x y v w : Value} {budget len : Int}
      {t f t' f' : Bool}, x.isPlainArray → y.isPlainArray →
      truncateNestedEntry budget len x = some (v, t, f) →
      truncateNestedEntry budget len y = some (w, t', f') →
      x.sortOrderType ≠ y.sortOrderType →
      Keeps budget len (compareBsonValueAndType x y).1 v t w t' :=
    fun hx hy h h' => keeps_of_class_ne (plainArray_entry hx h).1 (plainArray_entry hy h').1
  induction x using Value.induction with
  | array es ih =>
    intro y budget len v t f w t' f' hx hy h h'
    by_cases hne : (Value.array es).sortOrderType = y.sortOrderType
    swap
    · exact hclass hx hy h h' hne
    have hcases := y.class_cases
    rw [← hne] at hcases
    obtain ⟨es', rfl⟩ := hcases
    rw [truncateNestedEntry_array, map_eq_some_iff] at h h'
    obtain ⟨⟨xs, t⟩, hr, hv⟩ := h
    obtain ⟨⟨ys, t'⟩, hr', hw⟩ := h'
    obtain ⟨rfl, rfl, -⟩ := hv
    obtain ⟨rfl, rfl, -⟩ := hw
    have hkeeps := tail_keeps ih es' 5 0 hx hy hr hr'
    refine ⟨fun hz => ?_, fun hl => ?_⟩
    · obtain ⟨-, hc, hs, ht⟩ := hkeeps.eq hz
      exact ⟨hc, by simp only [encodeValue, length_frame, hs], ht⟩
    · refine (hkeeps.lt hl rfl).imp_right ?_
      rintro ⟨hc, hs, ht, ht'⟩
      exact ⟨hc, by simp only [encodeValue, length_frame, hs], Or.inl ht, Or.inl ht'⟩
  | document fs _ | codeWScope c fs _ =>
    intro y budget len v t f w t' f' hx
    simp [Value.isPlainArray, Value.isPlain, Value.isInteger, Value.isFixed] at hx
  | scalar x hs =>
    intro y budget len v t f w t' f' hx hy h h'
    have hxp : x.isPlain := by
      cases x <;> first | exact hx | simp [Value.isScalar] at hs
    by_cases hne : x.sortOrderType = y.sortOrderType
    swap
    · exact hclass hx hy h h' hne
    have hys := isScalar_of_class hne hs
    have hyp : y.isPlain := by
      cases y <;> first | exact hy | simp [Value.isScalar] at hys
    have hentry : ∀ {z : Value}, z.isScalar →
        truncateNestedEntry budget len z = truncateNestedScalar budget len z := by
      intro z hz
      cases z <;> first | rfl | simp [Value.isScalar] at hz
    rw [hentry hs] at h
    rw [hentry hys] at h'
    exact plain_keeps _ _ hxp hyp h h'

-- ==== terms

/-- Arrays of plain values and of such arrays keep their order when they are
written as index terms: the term of an array that is not greater is not
greater. -/
theorem compareBsonIndexTerm_array_mono {termMetadata : IndexTermCreateMetadata}
    {a b : PgbsonElement} {es es' : List Value} (ha : a.bsonValue = .array es)
    (hb : b.bsonValue = .array es') (hpath : a.path = b.path) (hes : arePlainArrays es = true)
    (hes' : arePlainArrays es' = true)
    (hcmp : (compareBsonValueAndType a.bsonValue b.bsonValue).1 ≤ 0) {s t : BsonIndexTermSerialized}
    (hs : serializeBsonIndexTerm termMetadata a = some s)
    (ht : serializeBsonIndexTerm termMetadata b = some t) :
    ∃ left right : BsonIndexTerm PgbsonElement,
      initializeBsonIndexTerm s.indexTermVal = some left.raw
        ∧ initializeBsonIndexTerm t.indexTermVal = some right.raw
        ∧ compareBsonIndexTerm left right ≤ 0 := by
  have hout := @compareBsonIndexTerm_of_outcome _ termMetadata a b false hpath hcmp
    (by rw [ha]; exact ⟨rfl, rfl⟩) (by rw [hb]; exact ⟨rfl, rfl⟩)
  simp only [Bool.and_false, iff_true] at hout
  refine hout (fun path v u w u' _ hv hw => ?_) hs ht
  rw [ha, serializeTermValue_array, map_eq_some_iff] at hv
  rw [hb, serializeTermValue_array, map_eq_some_iff] at hw
  obtain ⟨⟨xs, u⟩, hrun, hv⟩ := hv
  obtain ⟨⟨ys, u'⟩, hrun', hw⟩ := hw
  cases hv
  cases hw
  have hkeeps := tail_keeps (fun x _ => elementKeeps x) es' 5 0 hes hes' hrun hrun'
  rw [ha, hb]
  exact ⟨rfl, rfl, _, hkeeps⟩

end ArrayOrder

/-- The array `["ab", 1]`, below `a`. -/
def smallerArray : PgbsonElement where
  path := [97]
  bsonValue := .array [.utf8 [97, 98], .int32 1]
  namesOk := by decide
  size_lt := by decide

/-- The array `["ac"]`, below `a`. -/
def greaterArray : PgbsonElement where
  path := [97]
  bsonValue := .array [.utf8 [97, 99]]
  namesOk := by decide
  size_lt := by decide

/-- The terms have room for one letter of the two; the order is kept. -/
theorem small_array_terms_ordered : ∃ left right : BsonIndexTerm PgbsonElement,
      initializeBsonIndexTerm ((@serializeBsonIndexTerm BidLib.reference (indexOnA 34)
            smallerArray).get (by decide +kernel)).indexTermVal
          = some left.raw
        ∧ initializeBsonIndexTerm ((@serializeBsonIndexTerm BidLib.reference (indexOnA 34)
            greaterArray).get (by decide +kernel)).indexTermVal
          = some right.raw
        ∧ @compareBsonIndexTerm BidLib.reference left right ≤ 0 :=
  @compareBsonIndexTerm_array_mono BidLib.reference (indexOnA 34) smallerArray
    greaterArray _ _ rfl rfl rfl (by decide +kernel) (by decide +kernel)
    (by decide +kernel) _ _ (some_get _).symm
    (some_get _).symm

end DocumentDb
