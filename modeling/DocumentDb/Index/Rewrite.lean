/-
How numbers are rewritten inside of a container.

So that equal containers are cut at one place, a number is written in the narrowest type
that can hold it. The tests are those of the aggregation operators: the test for 64-bit
integers rounds a double to 15 digits, and a decimal is written as the double next to it
when the conversion raises no flag. `NumberKept` is what survives
(`rewriteNumber_equals_iff`); `rewriteNested` rewrites a whole value, without limits.
-/
import DocumentDb.Bson.Reference
import DocumentDb.Index.Term

namespace DocumentDb

open Wire ThreeWay Rounding

section Rewrite

variable [BidLib]

-- ==== numbers

/-- A test for the numbers that keep their value when they are written inside of a
container (`numberKept_iff`). -/
def numberKept : Value → Bool
  | .double bits =>
    match binary64Num bits with
    | .fin q =>
      !isBsonValue64BitInteger true (.double bits)
        || ((⌊q⌋ : ℚ) = q ∧ -2 ^ 63 ≤ q ∧ q < 2 ^ 63 : Bool)
    | _ => true
  | .decimal128 d =>
    isBsonValue64BitInteger true (.decimal128 d)
      || !isDecimal128InDoubleRange d
      || (BidLib.binary64ToBid128 (bsonDecimal128AsDouble d)).num = d.num
  | _ => true

/-- The numbers that keep their value: a double that passes the test with 15 digits
has to be an integer of 64 bits itself, and a decimal that is written as a double has
to equal some double. -/
def NumberKept : Value → Prop
  | .decimal128 d =>
    isBsonValue64BitInteger true (.decimal128 d) = true ∨ isDecimal128InDoubleRange d = false
      ∨ ∃ bits, bsonValueEquals (.double bits) (.decimal128 d) = true
  | v => numberKept v = true

variable {v v' : Value} {n dataSize limit : Int}

theorem bsonValueEquals_number {w : Value} (hv : v.isNumber) (hw : w.isNumber) :
    bsonValueEquals v w ↔ numberKey v = numberKey w := by
  have hclass : compareBsonSortOrderType v w = 0 := by
    cases v <;> simp [Value.isNumber] at hv <;> cases w <;> simp [Value.isNumber] at hw <;> rfl
  have hscalar : v.isScalar := by
    cases v <;> simp [Value.isNumber] at hv <;> rfl
  have hv' := Value.isNumberOrBool_of_isNumber hv
  have hw' := Value.isNumberOrBool_of_isNumber hw
  rw [bsonValueEquals_iff, compareBsonValueAndType_fst, hclass,
    andThen_zero_left, compareBsonValue_scalar hscalar,
    compareScalar_number hv', compareNumbers_fst hv' hw', ofOrder_eq_zero]

variable (bits : UInt64)

theorem numberKey_double : numberKey (.double bits) = (binary64Num bits).mapFin (toDigits 34) :=
  numberKey_eq_mapFin rfl (by simp)

theorem numberKey_int32 (n : Int32) : numberKey (.int32 n) = .fin (n.toInt : ℚ) :=
  Decimal128.num_ofInt (by have := n.toInt_lt; have := n.le_toInt; omega)

theorem numberKey_int64 (n : Int64) : numberKey (.int64 n) = .fin (n.toInt : ℚ) :=
  Decimal128.num_ofInt (by have := n.toInt_lt; have := n.le_toInt; omega)

/-- A decimal that some double equals is written as that double. -/
theorem double_of_decimal {d : Decimal128} (h : isDecimal128InDoubleRange d)
    (hd : d.num = (BidLib.binary64ToBid128 bits).num) :
    binary64Num (bsonDecimal128AsDouble d) = binary64Num bits := by
  have hnear := BidLib.nearest_bid128ToBinary64 d
    (by simpa [isDecimal128InDoubleRange] using h)
  rw [hd, BidLib.num_binary64ToBid128] at hnear
  show binary64Num (BidLib.bid128ToBinary64 _).1 = _
  cases hb : binary64Num bits with
  | fin q =>
    rw [hb, Num.mapFin] at hnear
    obtain ⟨p, hp, hmin⟩ := hnear
    have hle := hmin bits q hb
    rw [hp, eq_of_abs_sub_toDigits_le (w := 53) (p := 34) (by norm_num)
      (binary64Num_hasBits hb) (binary64Num_hasBits hp) hle]
  | nan | posInf | negInf =>
    rw [hb] at hnear
    exact hnear

theorem fin_eq_numberKey_double (hlo : -2 ^ 63 ≤ n) (hhi : n < 2 ^ 63) (bits : UInt64) :
    Num.fin (n : ℚ) = numberKey (.double bits) ↔ binary64Num bits = .fin n := by
  constructor
  · intro h
    exact bsonNumberAsLongDouble_of_key_int (v := .double bits) rfl (by simp) hlo hhi h.symm
  · intro h
    rw [numberKey_double, h, Num.mapFin,
      toDigits_of_digits (c := n) (k := 0) (by rw [abs_lt]; constructor <;>
        omega) (by simp)]

theorem odd_equals_iff (hv : v.isNumber) : bsonValueEquals
        (if isDecimal128InDoubleRange (getBsonValueAsDecimal128 v) then
          .double (bsonDecimal128AsDouble (getBsonValueAsDecimal128 v))
        else .decimal128 (getBsonValueAsDecimal128 v)) v
      ↔ isDecimal128InDoubleRange (getBsonValueAsDecimal128 v) = false ∨ numberKey (.double
            (bsonDecimal128AsDouble (getBsonValueAsDecimal128 v)))
          = numberKey v := by
  split_ifs with h
  · rw [bsonValueEquals_number rfl hv]
    simp [h]
  · rw [bsonValueEquals_number rfl hv]
    simp only [h, true_or, iff_true]
    rfl

theorem odd_double_kept :
    isDecimal128InDoubleRange (getBsonValueAsDecimal128 (.double bits)) = false
      ∨ numberKey (.double (bsonDecimal128AsDouble (getBsonValueAsDecimal128 (.double bits))))
        = numberKey (.double bits) := by
  cases hr : isDecimal128InDoubleRange (getBsonValueAsDecimal128 (.double bits)) with
  | false => exact Or.inl rfl
  | true =>
    right
    rw [numberKey_double, numberKey_double]
    exact congrArg _ (double_of_decimal bits hr rfl)

theorem numberKept_iff (v : Value) : numberKept v ↔ NumberKept v := by
  cases v with
  | decimal128 d =>
    simp only [numberKept, NumberKept, Bool.or_eq_true, Bool.not_eq_true', decide_eq_true_eq,
      or_assoc]
    refine or_congr_right ?_
    cases hrange : isDecimal128InDoubleRange d with
    | false => simp
    | true =>
      refine or_congr_right ⟨fun h => ?_, ?_⟩
      · exact ⟨_, (bsonValueEquals_number rfl rfl).2 h⟩
      · rintro ⟨bits, h⟩
        have hkey : numberKey (.double bits) = d.num := (bsonValueEquals_number rfl rfl).1 h
        have hbits := double_of_decimal bits hrange hkey.symm
        rw [numberKey_double, ← hbits, ← numberKey_double] at hkey
        exact hkey
  | _ => exact Iff.rfl

theorem numberKept_double {bits : UInt64} {q : ℚ} (hq : binary64Num bits = .fin q) :
    numberKept (.double bits) ↔ isBsonValue64BitInteger true (.double bits) = false
        ∨ ((⌊q⌋ : ℚ) = q ∧ -2 ^ 63 ≤ q ∧ q < 2 ^ 63) := by
  simp [numberKept, hq]

theorem rewrite_double_equals_iff :
    bsonValueEquals (rewriteNumber (.double bits)) (.double bits) ↔ numberKept (.double bits) := by
  unfold rewriteNumber
  by_cases h32 : isBsonValue32BitInteger true (.double bits)
  · rw [if_pos h32, bsonValueEquals_number rfl rfl, numberKey_int32]
    cases hq : binary64Num bits with
    | fin q =>
      simp only [isBsonValue32BitInteger, hq, reduceCtorEq, false_or, decide_eq_true_eq] at h32
      obtain ⟨hhi, hlo, hint⟩ := h32
      obtain ⟨n, rfl⟩ : ∃ n : Int, q = n := ⟨⌊q⌋, hint.symm⟩
      have hlo' : -2 ^ 31 ≤ n := by exact_mod_cast hlo
      have hhi' : n ≤ 2 ^ 31 - 1 := by exact_mod_cast hhi
      simp only [bsonValueAsInt32, hq, truncate_intCast]
      rw [Int32.toInt_ofInt_of_le hlo' (by omega),
        fin_eq_numberKey_double (by omega) (by omega), numberKept_double hq]
      refine iff_of_true hq (Or.inr ⟨hint, ?_, ?_⟩)
      · exact_mod_cast (by omega : -2 ^ 63 ≤ n)
      · exact_mod_cast (by omega : n < 2 ^ 63)
    | _ => simp [isBsonValue32BitInteger, hq] at h32
  rw [if_neg h32]
  by_cases h64 : isBsonValue64BitInteger true (.double bits)
  · obtain ⟨q, hq⟩ := finite_of_is64 (v := .double bits) rfl (by simp) h64
    have hq : binary64Num bits = .fin q := hq
    rw [if_pos h64, bsonValueEquals_number rfl rfl, numberKey_int64,
      fin_eq_numberKey_double (Int64.le_toInt _) (Int64.toInt_lt _), numberKept_double hq, h64, hq]
    simp only [bsonValueAsInt64, hq, reduceCtorEq, false_or, Num.fin.injEq]
    set m := (Int64.ofInt (truncate q)).toInt with hm
    constructor
    · intro h
      have hlo := Int64.le_toInt (Int64.ofInt (truncate q))
      have hhi := Int64.toInt_lt (Int64.ofInt (truncate q))
      rw [h, Int.floor_intCast]
      refine ⟨rfl, ?_, ?_⟩
      · exact_mod_cast hlo
      · exact_mod_cast hhi
    · rintro ⟨hint, hlo, hhi⟩
      obtain ⟨n, rfl⟩ : ∃ n : Int, q = n := ⟨⌊q⌋, hint.symm⟩
      rw [hm, truncate_intCast,
        Int64.toInt_ofInt_of_le (by exact_mod_cast hlo) (by exact_mod_cast hhi)]
  · rw [if_neg h64]
    refine iff_of_true ((odd_equals_iff rfl).2 (odd_double_kept bits)) ?_
    cases hq : binary64Num bits with
    | fin q => exact (numberKept_double hq).2 (Or.inl (by simpa using h64))
    | _ => simp [numberKept, hq]

theorem decimal_int_of_is32 {d : Decimal128} (h : isBsonValue32BitInteger true (.decimal128 d)) :
    ∃ n : Int, -2 ^ 31 ≤ n ∧ n < 2 ^ 31 ∧ d.num = .fin n
      ∧ bsonValueAsInt32 (.decimal128 d) = Int32.ofInt n
      ∧ isBsonValue64BitInteger true (.decimal128 d) := by
  simp only [isBsonValue32BitInteger, Bool.not_true, Bool.false_or, Bool.and_eq_true] at h
  obtain ⟨n, hlo, hhi, hn⟩ := (Decimal128.isAFixedInteger_iff d).1 h.2
  have hx : d.toIntXint 32 = Decimal128.checkWidth 32 n := by
    simp only [Decimal128.toIntXint, hn, truncate_intCast]
  have hsome := h.1
  rw [Decimal128.isInIntRange, hx, Decimal128.checkWidth, Bool.and_eq_true] at hsome
  have hr : -2 ^ 31 ≤ n ∧ n < 2 ^ 31 := by
    by_contra hr
    have := hsome.2
    rw [if_neg hr] at this
    exact absurd this (by simp)
  refine ⟨n, hr.1, hr.2, hn, ?_, ?_⟩
  · rw [bsonValueAsInt32, hx, Decimal128.checkWidth, if_pos hr]
    rfl
  · simp [isBsonValue64BitInteger, h.2, Decimal128.isInIntRange_of_int hn hlo hhi]

theorem rewrite_decimal_equals_iff (d : Decimal128) :
    bsonValueEquals (rewriteNumber (.decimal128 d)) (.decimal128 d)
      ↔ numberKept (.decimal128 d) := by
  unfold rewriteNumber
  by_cases h32 : isBsonValue32BitInteger true (.decimal128 d)
  · obtain ⟨n, hlo, hhi, hn, hcast, h64⟩ := decimal_int_of_is32 h32
    rw [if_pos h32, bsonValueEquals_number rfl rfl, numberKey_int32, hcast,
      Int32.toInt_ofInt_of_le hlo hhi]
    exact iff_of_true hn.symm (by simp [numberKept, h64])
  rw [if_neg h32]
  by_cases h64 : isBsonValue64BitInteger true (.decimal128 d)
  · obtain ⟨n, hlo, hhi, hn, hcast⟩ := decimal_int_of_is64 h64
    rw [if_pos h64, bsonValueEquals_number rfl rfl, numberKey_int64, hcast,
      Int64.toInt_ofInt_of_le hlo hhi]
    exact iff_of_true hn.symm (by simp [numberKept, h64])
  · rw [if_neg h64]
    refine (odd_equals_iff rfl).trans ?_
    simp only [numberKept, h64, Bool.false_or, Bool.or_eq_true,
      Bool.not_eq_true', decide_eq_true_eq]
    rfl

/-- A number inside of a container is written as an equal number exactly if
it is one of those that keep their value. -/
theorem rewriteNumber_equals_iff (hv : v.isNumber) :
    bsonValueEquals (rewriteNumber v) v ↔ numberKept v := by
  cases v with
  | double bits => exact rewrite_double_equals_iff bits
  | decimal128 d => exact rewrite_decimal_equals_iff d
  | int32 n =>
    refine iff_of_true ?_ rfl
    exact (bsonValueEquals_number rfl rfl).2 rfl
  | int64 n =>
    refine iff_of_true ?_ rfl
    unfold rewriteNumber
    split_ifs with h32
    · simp only [isBsonValue32BitInteger, decide_eq_true_eq] at h32
      rw [bsonValueEquals_number rfl rfl, numberKey_int32, numberKey_int64,
        bsonValueAsInt32, Int64.toInt_toInt32, Int.bmod_eq_of_le (by omega)
          (by omega)]
    · exact (bsonValueEquals_number rfl rfl).2 rfl
    all_goals exact absurd rfl ‹¬isBsonValue64BitInteger _ _ = true›
  | _ => simp [Value.isNumber] at hv

/-- A number. -/
abbrev NumberValue := {v : Value // v.isNumber = true}

theorem truncateNestedEntry_number (budget len : Int) (v : NumberValue) :
    truncateNestedEntry budget len v = some (rewriteNumber v, false, false) := by
  obtain ⟨v, hv⟩ := v
  cases v <;> first | rfl | cases hv

theorem isNumber_rewriteNumber (v : Value) : (rewriteNumber v).isNumber := by
  unfold rewriteNumber
  split_ifs
  · rfl
  · rfl
  · show (ite _ _ _ : Value).isNumber
    split_ifs <;> rfl

variable (sizeBudget currentLength sizeBudget' currentLength' : Int)

/-- `TruncateNestedEntry` writes two numbers, wherever they stand, as equal numbers, and
if what it writes of them is equal then so are they. -/
def KeepsNumbers (v w : NumberValue) : Prop :=
  ∃ v' w', truncateNestedEntry sizeBudget currentLength v = some (v', false, false)
    ∧ truncateNestedEntry sizeBudget' currentLength' w = some (w', false, false)
    ∧ (compareBsonValueAndType v' v).1 = 0
    ∧ (compareBsonValueAndType w' w).1 = 0
    ∧ ((compareBsonValueAndType v' w').1 = 0 → (compareBsonValueAndType v.1 w).1 = 0)

/-- Two numbers are written as equal ones, and told apart, exactly if both keep
their value. -/
theorem keepsNumbers_iff (v w : NumberValue) :
    KeepsNumbers sizeBudget currentLength sizeBudget' currentLength' v w
      ↔ NumberKept v ∧ NumberKept w := by
  have hkept : ∀ v : NumberValue,
      (compareBsonValueAndType (rewriteNumber v) v).1 = 0 ↔ NumberKept v :=
    fun v => (bsonValueEquals_iff.symm.trans (rewriteNumber_equals_iff v.2)).trans
      (numberKept_iff v)
  unfold KeepsNumbers
  simp only [truncateNestedEntry_number, Option.some.injEq, Prod.mk.injEq, and_true]
  constructor
  · rintro ⟨v', w', rfl, rfl, hv, hw, -⟩
    exact ⟨(hkept v).1 hv, (hkept w).1 hw⟩
  · rintro ⟨hv, hw⟩
    refine ⟨_, _, rfl, rfl, (hkept v).2 hv, (hkept w).2 hw, fun hvw => ?_⟩
    have hkey : ∀ {a b : Value}, a.isNumber = true → b.isNumber = true →
        ((compareBsonValueAndType a b).1 = 0 ↔ numberKey a = numberKey b) :=
      fun ha hb => bsonValueEquals_iff.symm.trans (bsonValueEquals_number ha hb)
    have hv' := isNumber_rewriteNumber v
    have hw' := isNumber_rewriteNumber w
    rw [hkey v.2 w.2]
    calc numberKey v.1 = numberKey (rewriteNumber v) :=
          ((hkey hv' v.2).1 ((hkept v).2 hv)).symm
      _ = numberKey (rewriteNumber w) := (hkey hv' hw').1 hvw
      _ = numberKey w.1 := (hkey hw' w.2).1 ((hkept w).2 hw)

omit [BidLib] in
/-- The double next to one is written as the integer one. -/
theorem near_one_written_as_one :
    ¬ @KeepsNumbers BidLib.reference 100 5 100 5 ⟨.double 0x3FF0000000000001, rfl⟩ ⟨.int32 1, rfl⟩
      ∧ @truncateNestedEntry BidLib.reference 100 5 (.double 0x3FF0000000000001)
        = some (.int64 1, false, false) := by
  have hwritten : @truncateNestedEntry BidLib.reference 100 5 (.double 0x3FF0000000000001)
      = some (.int64 1, false, false) := by
    have hint32 : @isBsonValue32BitInteger true (.double 0x3FF0000000000001) = false := by
      decide +kernel
    have hint64 : @isBsonValue64BitInteger BidLib.reference true
        (.double 0x3FF0000000000001) = true := by decide +kernel
    have hone : @bsonValueAsInt64 (.double 0x3FF0000000000001) = 1 := by decide +kernel
    show some (@rewriteNumber BidLib.reference _, false, false) = _
    simp only [rewriteNumber, hint32, hint64, hone, Bool.false_eq_true, if_false, if_true]
  have hdiffers : (@compareBsonValueAndType BidLib.reference (.int64 1)
      (.double 0x3FF0000000000001)).1 ≠ 0 := by decide +kernel
  refine ⟨?_, hwritten⟩
  rintro ⟨v', w', hv, -, hkeeps, -⟩
  cases hwritten.symm.trans hv
  exact hdiffers hkeeps

-- ==== whole values

/-- What is written of a value without further values, if it is not cut. -/
def rewriteScalar (v : Value) : Value := if v.isNumber then rewriteNumber v else appendValue v

mutual

/-- What is written of a value inside of a container, if it is not cut. -/
def rewriteNested : Value → Value
  | .document fs => .document (rewriteFields fs)
  | .array es => .array (rewriteElems es)
  | v => rewriteScalar v

def rewriteFields : Fields → Fields
  | [] => []
  | (k, v) :: fs => (k, rewriteNested v) :: rewriteFields fs

def rewriteElems : List Value → List Value
  | [] => []
  | v :: es => rewriteNested v :: rewriteElems es

end

-- ==== values that are not cut

omit [BidLib] in
theorem truncateStringOrBinaryTerm_kept {stringLen n : Nat}
    (h : truncateStringOrBinaryTerm dataSize limit stringLen
      = some (n, false)) : n = stringLen := by
  unfold truncateStringOrBinaryTerm at h
  simp only at h
  split_ifs at h <;> simp_all

omit [BidLib] in
theorem truncateStringValue_kept
    (h : truncateStringValue dataSize limit v = some (v', false)) : v' = appendValue v := by
  cases v <;> simp only [truncateStringValue, Option.map_eq_some_iff,
    reduceCtorEq, Prod.mk.injEq] at h
  all_goals
    obtain ⟨⟨n, t⟩, hn, rfl, rfl⟩ := h
    simp only [truncateStringOrBinaryTerm_kept hn, List.take_length, appendValue]

theorem truncateNestedScalar_kept (budget len : Int) {force : Bool}
    (h : truncateNestedScalar budget len v = some (v', false, force)) : v' = rewriteScalar v := by
  unfold truncateNestedScalar at h
  split at h
  all_goals first
    | (simp only [Option.map_eq_some_iff, Prod.mk.injEq] at h
       obtain ⟨⟨w, t⟩, hw, rfl, rfl, -⟩ := h
       exact truncateStringValue_kept hw)
    | (simp only [Option.some.injEq, Prod.mk.injEq] at h
       obtain ⟨rfl, -⟩ := h
       first
        | rfl
        | (cases v <;> first | rfl | simp_all))

end Rewrite

end DocumentDb
