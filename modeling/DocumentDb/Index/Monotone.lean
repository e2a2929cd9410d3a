/-
What two values keep of their order when they are written into a container with the same
room.

Equal values are written as equal values of one size, with one flag. A smaller value is
written as a smaller one, or as an equal one of the same size with nothing behind either of
them: both are flagged, or both fill the room (`Keeps`). Here are the values without further
values; arrays and documents follow.
-/
import DocumentDb.Index.Rewrite
import DocumentDb.Index.Writer

namespace DocumentDb

open Wire ThreeWay

section Monotone

variable [BidLib]

-- ==== the relation

/-- A value behind which nothing can follow: it is flagged, or it fills the
room, up to the type byte that is counted twice. -/
def Full (sizeBudget currentLength : Int) (v : Value) (truncated : Bool) : Prop :=
  truncated = true ∨ sizeBudget - currentLength - 1 ≤ (encodeValue v).length

structure Keeps (sizeBudget currentLength cmp : Int) (v : Value)
    (truncated : Bool) (w : Value) (truncated' : Bool) : Prop where
  eq : cmp = 0 → (compareBsonValueAndType v w).1 = 0
    ∧ (encodeValue v).length = (encodeValue w).length
    ∧ truncated = truncated'
  lt : cmp < 0 → (compareBsonValueAndType v w).1 < 0 ∨ (compareBsonValueAndType v w).1 = 0
      ∧ (encodeValue v).length = (encodeValue w).length
      ∧ Full sizeBudget currentLength v truncated
      ∧ Full sizeBudget currentLength w truncated'

/-- What two values, or two loops, keep of a comparison when they write: `full` says
that nothing can follow, `reordered` that the order is turned around. -/
structure Outcome (cmp : Int) (reordered : Bool) (cmp' : Int)
    (sameSize sameFlag full : Prop) : Prop where
  eq : cmp = 0 → reordered = false ∧ cmp' = 0 ∧ sameSize ∧ sameFlag
  lt : cmp < 0 → reordered = false → cmp' < 0 ∨ cmp' = 0 ∧ sameSize ∧ full
  gt : cmp < 0 → reordered = true → 0 < cmp'

variable {len budget : Int} {t t' f : Bool} {v w x y : Value}

theorem Keeps.outcome {cmp : Int} (h : Keeps budget len cmp v t w t') :
    Outcome cmp false (compareBsonValueAndType v w).1
      ((encodeValue v).length = (encodeValue w).length) (t = t')
      (Full budget len v t ∧ Full budget len w t') :=
  ⟨fun hz => ⟨rfl, h.eq hz⟩, fun hl _ => h.lt hl, fun _ hre => nomatch hre⟩

theorem keeps_of_class_ne (hv : v.sortOrderType = x.sortOrderType)
    (hw : w.sortOrderType = y.sortOrderType) (hne : x.sortOrderType ≠ y.sortOrderType) :
    Keeps budget len (compareBsonValueAndType x y).1 v t w t' := by
  have hclass : compareBsonSortOrderType v w = compareBsonSortOrderType x y := by
    simp only [compareBsonSortOrderType, hv, hw]
  have hne' : compareBsonSortOrderType x y ≠ 0 := by
    simp only [compareBsonSortOrderType]
    omega
  have hfst : (compareBsonValueAndType v w).1 = (compareBsonValueAndType x y).1 := by
    simp only [compareBsonValueAndType_fst, andThen, hclass, if_pos hne']
  have hcmp : (compareBsonValueAndType x y).1 ≠ 0 := by
    rw [compareBsonValueAndType_fst, Ne, andThen_eq_zero]
    exact fun h => hne' h.1
  exact ⟨fun h => absurd h hcmp, fun h => Or.inl (by rwa [hfst])⟩

-- ==== strings

omit [BidLib] in
theorem truncateStringOrBinaryTerm_spec {dataSize limit : Int} {n r : Nat}
    (h : truncateStringOrBinaryTerm dataSize limit n = some (r, t)) :
    0 ≤ limit - dataSize - 5 ∧ r = min n (limit - dataSize - 5).toNat
      ∧ t = decide (limit - dataSize - 5 < n) := by
  unfold truncateStringOrBinaryTerm at h
  simp only at h
  split_ifs at h with hlong hnone
  · cases h
    refine ⟨by omega, by omega, ?_⟩
    rw [eq_comm, decide_eq_true_eq]
    omega
  · cases h
    refine ⟨by omega, by omega, ?_⟩
    rw [eq_comm, decide_eq_false_iff_not]
    omega

theorem truncateNestedScalar_string {mk : Bytes → Value} (hmk : mk = .utf8 ∨ mk = .symbol)
    {s : Bytes} {r : Value × Bool × Bool} (h : truncateNestedScalar budget len (mk s) = some r) :
    0 ≤ budget - len - 6 ∧ r = (mk (s.take (budget - len - 6).toNat),
          decide (budget - len - 6 < s.length), false) := by
  have hroom : budget - len - 1 - 5 = budget - len - 6 := by omega
  have hcut : ∀ p : Nat × Bool, truncateStringOrBinaryTerm 1 (budget - len) s.length
        = some p → 0 ≤ budget - len - 6 ∧ (mk (s.take p.1), p.2, false)
            = (mk (s.take (budget - len - 6).toNat),
              decide (budget - len - 6 < s.length), false) := by
    rintro ⟨n, t⟩ hp
    obtain ⟨hpos, hn, ht⟩ := truncateStringOrBinaryTerm_spec hp
    rw [hroom] at hpos hn ht
    refine ⟨hpos, ?_⟩
    rw [hn, ht, Nat.min_comm, ← List.take_take, List.take_length]
  rcases hmk with rfl | rfl
  all_goals
    simp only [truncateNestedScalar, truncateStringValue, Option.map_map,
      Option.map_eq_some_iff] at h
    obtain ⟨p, hp, rfl⟩ := h
    exact hcut p hp

theorem string_keeps {mk mk' : Bytes → Value}
    (hmk : mk = .utf8 ∨ mk = .symbol) (hmk' : mk' = .utf8 ∨ mk' = .symbol)
    {s s' : Bytes} {f' : Bool} (h : truncateNestedScalar budget len (mk s) = some (v, t, f))
    (h' : truncateNestedScalar budget len (mk' s') = some (w, t', f')) :
    Keeps budget len (compareBsonValueAndType (mk s) (mk' s')).1 v t w t' := by
  obtain ⟨hroom, hv⟩ := truncateNestedScalar_string hmk h
  obtain ⟨-, hw⟩ := truncateNestedScalar_string hmk' h'
  obtain ⟨rfl, rfl, rfl⟩ := hv
  obtain ⟨rfl, rfl, rfl⟩ := hw
  have hcmp : ∀ a b, (compareBsonValueAndType (mk a) (mk' b)).1 = lex a b := by
    intro a b
    rw [← compareStrings_eq]
    rcases hmk with rfl | rfl <;> rcases hmk' with rfl | rfl <;> rfl
  have hlen : ∀ a : Bytes, (encodeValue (mk a)).length = a.length + 5
      ∧ (encodeValue (mk' a)).length = a.length + 5 := by
    intro a
    rcases hmk with rfl | rfl <;> rcases hmk' with rfl | rfl <;> simp [encodeValue]
  rw [hcmp]
  refine ⟨fun heq => ?_, fun hlt => ?_⟩
  · obtain rfl := lex_eq_zero.1 heq
    rw [hcmp, lex_eq_zero, (hlen _).1, (hlen _).2]
    exact ⟨rfl, rfl, rfl⟩
  · rw [hcmp]
    refine (lex_take (budget - len - 6).toNat hlt).imp_right ?_
    rintro ⟨heq, hs, hs'⟩
    -- both strings fill the room
    have hfull : ∀ a : Bytes, (budget - len - 6).toNat
        ≤ a.length → ((a.take (budget - len - 6).toNat).length : Int) = budget - len - 6 := by
      intro a ha
      rw [List.length_take]
      omega
    have hfs := hfull s hs
    have hfs' := hfull s' hs'
    refine ⟨lex_eq_zero.2 heq, ?_, Or.inr ?_, Or.inr ?_⟩
    · rw [(hlen _).1, (hlen _).2, heq]
    · rw [(hlen _).1]
      omega
    · rw [(hlen _).2]
      omega

-- ==== integers

def Value.isInteger : Value → Bool
  | .int32 _ | .int64 _ => true
  | _ => false

omit [BidLib] in
theorem isNumber_of_isInteger (h : v.isInteger) : v.isNumber := by
  cases v <;> first | rfl | exact h

theorem rewriteNumber_int64 (n : Int64) : rewriteNumber (.int64 n)
      = if -2 ^ 31 ≤ n.toInt ∧ n.toInt < 2 ^ 31 then .int32 n.toInt32
        else .int64 n := by
  unfold rewriteNumber
  simp only [isBsonValue32BitInteger, decide_eq_true_eq, bsonValueAsInt32]
  rfl

omit [BidLib] in
theorem int32_eq_toInt32 {m : Int32} {n : Int64} (h : m.toInt = n.toInt) : n.toInt32 = m := by
  have hlo := m.le_toInt
  have hhi := m.toInt_lt
  refine Int32.toInt_inj.1 ?_
  rw [Int64.toInt_toInt32, ← h, Int.bmod_eq_of_le (by omega) (by omega)]

theorem rewriteNumber_congr (hx : x.isInteger) (hy : y.isInteger)
    (h : numberKey x = numberKey y) : rewriteNumber x = rewriteNumber y := by
  have hmixed : ∀ (m : Int32) (n : Int64), numberKey (.int32 m) = numberKey (.int64 n) →
      rewriteNumber (.int32 m) = rewriteNumber (.int64 n) := by
    intro m n hmn
    rw [numberKey_int32, numberKey_int64, Num.fin.injEq] at hmn
    have hmn : m.toInt = n.toInt := by exact_mod_cast hmn
    have hlo := m.le_toInt
    have hhi := m.toInt_lt
    rw [rewriteNumber_int64, if_pos (by omega), int32_eq_toInt32 hmn]
    rfl
  cases x <;> simp [Value.isInteger] at hx <;> cases y <;> simp [Value.isInteger] at hy
  case int32.int32 m n =>
    rw [numberKey_int32, numberKey_int32, Num.fin.injEq] at h
    rw [Int32.toInt_inj.1 (by exact_mod_cast h : m.toInt = n.toInt)]
  case int32.int64 m n => exact hmixed m n h
  case int64.int32 m n => exact (hmixed n m h.symm).symm
  case int64.int64 m n =>
    rw [numberKey_int64, numberKey_int64, Num.fin.injEq] at h
    rw [Int64.toInt_inj.1 (by exact_mod_cast h : m.toInt = n.toInt)]

theorem integer_keeps (hx : x.isInteger) (hy : y.isInteger) :
    Keeps budget len (compareBsonValueAndType x y).1
      (rewriteNumber x) false (rewriteNumber y) false := by
  have hxn := isNumber_of_isInteger hx
  have hyn := isNumber_of_isInteger hy
  have hkept : ∀ {v : Value}, v.isInteger → numberKept v := by
    intro v hv
    cases v <;> first | rfl | simp [Value.isInteger] at hv
  refine ⟨fun heq => ?_, fun hlt => Or.inl ?_⟩
  · have hkey := (bsonValueEquals_number hxn hyn).1 (bsonValueEquals_iff.2 heq)
    rw [rewriteNumber_congr hx hy hkey]
    exact ⟨compareBsonValueAndType_self _, rfl, rfl⟩
  · exact compareBsonValueAndType_lt_congr ((rewriteNumber_equals_iff hxn).2 (hkept hx))
      ((rewriteNumber_equals_iff hyn).2 (hkept hy)) hlt

-- ==== scalars

/-- The values of a fixed size that are written as they are. -/
def Value.isFixed : Value → Bool
  | .bool _ | .dateTime _ | .oid _ | .timestamp _ _ | .null | .minKey
  | .maxKey => true
  | _ => false

/-- The strings, symbols, integers and values of a fixed size. -/
def Value.isPlain : Value → Bool
  | .utf8 _ | .symbol _ => true
  | v => v.isInteger || v.isFixed

theorem fixed_keeps (hx : x.isFixed) (hy : y.isFixed) (hclass : x.sortOrderType = y.sortOrderType) :
    Keeps budget len (compareBsonValueAndType x y).1 x false y
      false := by
  refine ⟨fun heq => ⟨heq, ?_, rfl⟩, Or.inl⟩
  have hcases := y.class_cases
  rw [← hclass] at hcases
  cases x with
  | bool b =>
    have hnum : y.isNumberOrBool := hcases
    cases y <;> simp [Value.isFixed, Value.isNumberOrBool, Value.isNumber] at hy hnum
    rfl
  | dateTime ms =>
    obtain ⟨ms', rfl⟩ := hcases
    simp [encodeValue]
  | oid o =>
    obtain ⟨o', rfl⟩ := hcases
    simp [encodeValue, Oid.length_eq]
  | timestamp seconds increment =>
    obtain ⟨seconds', increment', rfl⟩ := hcases
    simp [encodeValue]
  | null =>
    obtain rfl | rfl := hcases
    · simp [Value.isFixed] at hy
    · rfl
  | minKey => rw [show y = .minKey from hcases]
  | maxKey => rw [show y = .maxKey from hcases]
  | _ => simp [Value.isFixed] at hx

omit [BidLib] in
theorem Value.isPlain_cases (h : v.isPlain) :
    (∃ mk s, (mk = utf8 ∨ mk = symbol) ∧ v = mk s) ∨ v.isInteger ∨ v.isFixed := by
  cases v with
  | utf8 s => exact Or.inl ⟨_, s, Or.inl rfl, rfl⟩
  | symbol s => exact Or.inl ⟨_, s, Or.inr rfl, rfl⟩
  | _ => exact Or.inr (by simpa [isPlain] using h)

theorem truncateNestedScalar_integer (hv : v.isInteger) (budget len : Int) :
    truncateNestedScalar budget len v = some (rewriteNumber v, false, false) := by
  cases v <;> first | rfl | simp [Value.isInteger] at hv

theorem truncateNestedScalar_fixed (hv : v.isFixed) (budget len : Int) :
    truncateNestedScalar budget len v = some (v, false, false) := by
  cases v <;> first | rfl | simp [Value.isFixed] at hv

theorem truncateNestedScalar_plain (budget len : Int) (hx : x.isPlain)
    (h : truncateNestedScalar budget len x = some (v, t, f)) :
    v.sortOrderType = x.sortOrderType ∧ f = false := by
  rcases Value.isPlain_cases hx with ⟨mk, s, hmk, rfl⟩ | hint | hfix
  · obtain ⟨-, hr⟩ := truncateNestedScalar_string hmk h
    obtain ⟨rfl, -, rfl⟩ := hr
    rcases hmk with rfl | rfl <;> exact ⟨rfl, rfl⟩
  · rw [truncateNestedScalar_integer hint] at h
    obtain ⟨rfl, -, rfl⟩ := h
    refine ⟨?_, rfl⟩
    have heq := (rewriteNumber_equals_iff (isNumber_of_isInteger hint)).2
      (by cases x <;> first | rfl | simp [Value.isInteger] at hint)
    exact (bsonValueEquals_content heq).1
  · rw [truncateNestedScalar_fixed hfix] at h
    obtain ⟨rfl, -, rfl⟩ := h
    exact ⟨rfl, rfl⟩

theorem plain_keeps (budget len : Int) {f' : Bool} (hx : x.isPlain) (hy : y.isPlain)
    (h : truncateNestedScalar budget len x = some (v, t, f))
    (h' : truncateNestedScalar budget len y = some (w, t', f')) :
    Keeps budget len (compareBsonValueAndType x y).1 v t w t' := by
  by_cases hclass : x.sortOrderType = y.sortOrderType
  swap
  · exact keeps_of_class_ne (truncateNestedScalar_plain _ _ hx h).1
      (truncateNestedScalar_plain _ _ hy h').1 hclass
  rcases Value.isPlain_cases hx with ⟨mk, s, hmk, rfl⟩ | hint | hfix
  · rcases Value.isPlain_cases hy with ⟨mk', s', hmk', rfl⟩ | hint' | hfix'
    · exact string_keeps hmk hmk' h h'
    · rcases hmk with rfl | rfl <;> cases y <;>
        simp [Value.isInteger, Value.sortOrderType] at hint' hclass
    · rcases hmk with rfl | rfl <;> cases y <;>
        simp [Value.isFixed, Value.sortOrderType] at hfix' hclass
  · rcases Value.isPlain_cases hy with ⟨mk', s', hmk', rfl⟩ | hint' | hfix'
    · rcases hmk' with rfl | rfl <;> cases x <;>
        simp [Value.isInteger, Value.sortOrderType] at hint hclass
    · rw [truncateNestedScalar_integer hint] at h
      rw [truncateNestedScalar_integer hint'] at h'
      obtain ⟨rfl, rfl, -⟩ := h
      obtain ⟨rfl, rfl, -⟩ := h'
      exact integer_keeps hint hint'
    · cases x <;> cases y <;> simp [Value.isInteger, Value.isFixed,
        Value.sortOrderType] at hint hfix' hclass
  · rcases Value.isPlain_cases hy with ⟨mk', s', hmk', rfl⟩ | hint' | hfix'
    · rcases hmk' with rfl | rfl <;> cases x <;>
        simp [Value.isFixed, Value.sortOrderType] at hfix hclass
    · cases x <;> cases y <;> simp [Value.isInteger, Value.isFixed,
        Value.sortOrderType] at hint' hfix hclass
    · rw [truncateNestedScalar_fixed hfix] at h
      rw [truncateNestedScalar_fixed hfix'] at h'
      obtain ⟨rfl, rfl, -⟩ := h
      obtain ⟨rfl, rfl, -⟩ := h'
      exact fixed_keeps hfix hfix' hclass

-- ==== two loops in step

section Loops

omit [BidLib]

/-- What a loop has written that writes an entry first: a flagged entry is the last
one. -/
def WrittenFirst {Entry : Type} (a : Entry) (flagged : Bool)
    (rest : Option (List Entry × Bool)) (r : List Entry × Bool) : Prop :=
  flagged = true ∧ r = ([a], true) ∨ flagged = false ∧ ∃ r', rest = some r' ∧ r = (a :: r'.1, r'.2)

/-- What two loops from one state do, in a comparison and a size of what they write. -/
abbrev LoopOutcome {Entry : Type} (compare : List Entry → List Entry → Int)
    (size : List Entry → Nat) (cmp : Int) (reordered : Bool)
    (xs : List Entry × Bool) (ys : List Entry × Bool) : Prop :=
  Outcome cmp reordered (compare xs.1 ys.1) (size xs.1 = size ys.1) (xs.2 = ys.2)
    (xs.2 = true ∧ ys.2 = true)

variable {Entry : Type} {a b : Entry} {u u' : Bool} {xs ys : List Entry × Bool}
  {rest rest' : Option (List Entry × Bool)} {compare : List Entry → List Entry → Int}
  {size restSize : List Entry → Nat} {cmp : Int}

theorem WrittenFirst.head (h : WrittenFirst a u rest xs) : ∃ l, xs.1 = a :: l := by
  rcases h with ⟨-, rfl⟩ | ⟨-, r', -, rfl⟩
  · exact ⟨_, rfl⟩
  · exact ⟨_, rfl⟩

theorem WrittenFirst.full (h : WrittenFirst a u rest xs)
    (hrest : u = false → rest = some ([], true)) : xs = ([a], true) := by
  rcases h with ⟨-, rfl⟩ | ⟨hu, r', hr', rfl⟩
  · rfl
  · cases (hrest hu).symm.trans hr'
    rfl

theorem LoopOutcome.same {l : List Entry} (h : compare l l = 0) :
    LoopOutcome compare size cmp false (l, true) (l, true) :=
  ⟨fun _ => ⟨rfl, h, rfl, rfl⟩, fun _ _ => Or.inr ⟨h, rfl, rfl, rfl⟩, fun _ hre => nomatch hre⟩

theorem LoopOutcome.cons {reordered : Bool} (hcmp : ∀ l r, compare (a :: l) (b :: r) = compare l r)
    (hsize : ∀ l r, restSize l = restSize r → size (a :: l) = size (b :: r))
    (h : LoopOutcome compare restSize cmp reordered xs ys) :
    LoopOutcome compare size cmp reordered (a :: xs.1, xs.2) (b :: ys.1, ys.2) := by
  refine ⟨fun hz => ?_, fun hl hno => ?_, fun hl hyes => ?_⟩
  · obtain ⟨hr, hc, hs, ht⟩ := h.eq hz
    exact ⟨hr, (hcmp _ _).trans hc, hsize _ _ hs, ht⟩
  · exact (h.lt hl hno).imp (hcmp _ _).trans_lt
      fun ⟨hc, hs, ht⟩ => ⟨(hcmp _ _).trans hc, hsize _ _ hs, ht⟩
  · exact (h.gt hl hyes).trans_eq (hcmp _ _).symm

theorem LoopOutcome.step {c c' cmpRest : Int} {re reRest reordered : Bool}
    {sameSize full full' : Prop}
    (hcmp : ∀ l r, compare (a :: l) (b :: r) = andThen c' (compare l r)) (hnil : compare [] [] = 0)
    (hsize : sameSize → ∀ l r, restSize l = restSize r → size (a :: l) = size (b :: r))
    (hval : Outcome c re c' sameSize (u = u') (full ∧ full'))
    (hr : WrittenFirst a u rest xs) (hr' : WrittenFirst b u' rest' ys)
    (hfull : full → u = false → rest = some ([], true))
    (hfull' : full' → u' = false → rest' = some ([], true))
    (hrest : sameSize → ∀ r r', rest = some r → rest' = some r' →
      LoopOutcome compare restSize cmpRest reRest r r')
    (hre : reordered = if c = 0 then !u && reRest else re) :
    LoopOutcome compare size (andThen c cmpRest) reordered xs ys := by
  subst hre
  by_cases heq : c = 0
  · obtain ⟨-, hc, hs, rfl⟩ := hval.eq heq
    have hcons : ∀ l r, compare (a :: l) (b :: r) = compare l r := by
      intro l r
      rw [hcmp, hc, andThen_zero_left]
    rw [if_pos heq, heq, andThen_zero_left]
    rcases hr with ⟨rfl, rfl⟩ | ⟨rfl, r, hrun, rfl⟩
    · -- the entry is cut in both
      rcases hr' with ⟨-, rfl⟩ | ⟨hno, -⟩
      · have hempty : LoopOutcome compare restSize cmpRest false ([], true) ([], true) :=
          .same hnil
        exact hempty.cons hcons (hsize hs)
      · cases hno
    · rcases hr' with ⟨hno, -⟩ | ⟨-, r', hrun', rfl⟩
      · cases hno
      · exact .cons hcons (hsize hs) (hrest hs r r' hrun hrun')
  · have hlt (hl : andThen c cmpRest < 0) : c < 0 := by
      rw [andThen_lt_zero] at hl
      omega
    rw [if_neg heq]
    refine ⟨fun hz => absurd (andThen_eq_zero.1 hz).1 heq, fun hl hno => ?_, fun hl hyes => ?_⟩
    · rcases hval.lt (hlt hl) hno with hc | ⟨hc, hs, hf, hf'⟩
      · left
        obtain ⟨l, hxs⟩ := hr.head
        obtain ⟨r, hys⟩ := hr'.head
        rw [hxs, hys, hcmp, andThen_lt_zero]
        exact Or.inl hc
      · right
        rw [hr.full (hfull hf), hr'.full (hfull' hf')]
        refine ⟨?_, hsize hs [] [] rfl, rfl, rfl⟩
        rw [hcmp, hc, andThen_zero_left, hnil]
    · obtain ⟨l, hxs⟩ := hr.head
      obtain ⟨r, hys⟩ := hr'.head
      rw [hxs, hys, hcmp, andThen_pos]
      exact Or.inl (hval.gt (hlt hl) hyes)

end Loops

theorem compareBsonIndexTerm_of_outcome {md : IndexTermCreateMetadata}
    {a b : PgbsonElement} {reordered : Bool} (hpath : a.path = b.path)
    (hcmp : (compareBsonValueAndType a.bsonValue b.bsonValue).1 ≤ 0)
    (ha : appendValue a.bsonValue = a.bsonValue ∧ a.bsonValue.unsafeDecode = some a.bsonValue)
    (hb : appendValue b.bsonValue = b.bsonValue ∧ b.bsonValue.unsafeDecode = some b.bsonValue)
    (hout : ∀ path v u w u', md.termPath a.path = some path →
      serializeTermValue md.indexTermSizeLimit (5 + path.length + 2) a.bsonValue = some (v, u) →
      serializeTermValue md.indexTermSizeLimit (5 + path.length + 2) b.bsonValue = some (w, u') →
      v.unsafeDecode = some v ∧ w.unsafeDecode = some w ∧ ∃ sameSize,
        Outcome (compareBsonValueAndType a.bsonValue b.bsonValue).1 reordered
          (compareBsonValueAndType v w).1 sameSize (u = u') (u ∧ u'))
    {s t : BsonIndexTermSerialized} (hs : serializeBsonIndexTerm md a = some s)
    (ht : serializeBsonIndexTerm md b = some t) : ∃ left right : BsonIndexTerm PgbsonElement,
      initializeBsonIndexTerm s.indexTermVal = some left.raw
        ∧ initializeBsonIndexTerm t.indexTermVal = some right.raw
        ∧ (compareBsonIndexTerm left right ≤ 0
          ↔ (0 < md.indexTermSizeLimit && reordered) = false) := by
  obtain ⟨path, v, w, hwa, hwb, hterms⟩ := compareBsonIndexTerm_serialized hpath hs ht
  obtain ⟨hterm, hv⟩ := serializeTermToWriter_cases hwa
  obtain ⟨-, hw⟩ := serializeTermToWriter_cases hwb
  rcases hv with ⟨hlimit, rfl, hsf⟩ | ⟨hlimit, hv⟩
  · rcases hw with ⟨-, rfl, htf⟩ | ⟨hno, -⟩
    swap
    · omega
    rw [ha.1, hb.1] at hterms
    obtain ⟨left, right, hl, hr, hcmp'⟩ := hterms ha.2 hb.2
    refine ⟨left, right, hl, hr, ?_⟩
    rw [hcmp', hsf, htf, andThen_le_zero]
    simp only [not_lt.2 hlimit, decide_false, Bool.false_and, iff_true]
    exact hcmp.lt_or_eq.imp_right fun heq => ⟨heq, by simp⟩
  · rcases hw with ⟨hno, -⟩ | ⟨-, hw⟩
    · omega
    obtain ⟨hdv, hdw, _, hout⟩ := hout path v _ w _ hterm hv hw
    obtain ⟨left, right, hl, hr, hcmp'⟩ := hterms hdv hdw
    refine ⟨left, right, hl, hr, ?_⟩
    rw [hcmp', andThen_le_zero, decide_eq_true hlimit, Bool.true_and]
    rcases hcmp.lt_or_eq with hlt | heq
    · constructor
      · intro hle
        by_contra hre
        have hgt := hout.gt hlt (Bool.eq_true_of_not_eq_false hre)
        omega
      · intro hre
        exact (hout.lt hlt hre).imp_right fun ⟨hc, _, hf, hf'⟩ =>
          ⟨hc, by rw [hf, hf']; simp⟩
    · obtain ⟨hre, hc, -, hf⟩ := hout.eq heq
      exact iff_of_true (Or.inr ⟨hc, by rw [hf]; simp⟩) hre

end Monotone

end DocumentDb
