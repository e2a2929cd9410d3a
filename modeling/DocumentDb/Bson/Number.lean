/-
Numeric values: conversion to decimal, the integer tests, and the comparison of numbers of
different types.

Two numbers are compared as decimals, as `long double` or as 64-bit integers, depending on
their types. All three agree with the order of the numbers that the conversions to decimal
denote (`numberKey`): a double is rounded to 34 digits, but no two different doubles or
integers become equal or change places (`toDigits_lt`).
-/
import DocumentDb.Bson.Decimal

namespace DocumentDb

open Rounding ThreeWay

namespace Decimal128

-- ==== comparing decimals

/-- `CompareBsonDecimal128`: the verdict, and whether the comparison is
valid. It is not when exactly one operand is NaN, which is then the lesser. -/
def compare (left right : Decimal128) : Int × Bool :=
  if left.isNaN && right.isNaN then (0, true)
  else if left.isNaN || right.isNaN then
    (if left.isNaN then -1 else 1, false)
  else if left.quietEqual right then (0, true)
  else (if left.quietGreater right then 1 else -1, true)

theorem compare_fst (x y : Decimal128) : (compare x y).1 = ofOrder x.num y.num := by
  unfold compare quietEqual quietGreater
  by_cases hx : x.num = .nan
  · have hx' := (isNaN_iff x).2 hx
    by_cases hy : y.num = .nan
    · simp [hx', (isNaN_iff y).2 hy, hx, hy]
    · have hy' : y.isNaN = false := by
        simpa [← Bool.not_eq_true, isNaN_iff] using hy
      simp [hx', hy', hx, Num.ofOrder_nan_left hy]
  · have hx' : x.isNaN = false := by
      simpa [← Bool.not_eq_true, isNaN_iff] using hx
    by_cases hy : y.num = .nan
    · simp [hx', (isNaN_iff y).2 hy, hy, Num.ofOrder_nan_right hx]
    · have hy' : y.isNaN = false := by
        simpa [← Bool.not_eq_true, isNaN_iff] using hy
      rcases lt_trichotomy x.num y.num with h | h | h
      · simp [hx', hy', hx, hy, ofOrder, h.ne, h.not_gt]
      · simp [hx', hy', hy, h]
      · simp [hx', hy', hx, hy, ofOrder, h.ne', h]

theorem compare_snd {x y : Decimal128} (h : (compare x y).1 = 0) : (compare x y).2 := by
  unfold compare at h ⊢
  split_ifs at h ⊢ <;> first | rfl | simp at h

-- ==== the integer tests on decimals

/-- `IsDecimal128InInt64Range` and `IsDecimal128InInt32Range`: truncation
fits into `w` bits. -/
def isInIntRange (w : Nat) (d : Decimal128) : Bool := d.isFinite && (d.toIntXint w).isSome

/-- `IsDecimal128AFixedInteger`: the floor fits into 64 bits and is the
number itself. -/
def isAFixedInteger (d : Decimal128) : Bool :=
  match d.toInt64Floor with
  | none => false
  | some n => (compare d (ofInt n)).1 = 0

theorem toIntXint_of_int {d : Decimal128} {n : Int} (hd : d.num = .fin n)
    (hlo : -2 ^ 63 ≤ n) (hhi : n < 2 ^ 63) : d.toIntXint 64 = some n := by
  simp only [toIntXint, hd, checkWidth, truncate_intCast]
  exact if_pos ⟨hlo, hhi⟩

theorem isAFixedInteger_iff (d : Decimal128) :
    d.isAFixedInteger ↔ ∃ n : Int, -2 ^ 63 ≤ n ∧ n < 2 ^ 63 ∧ d.num = .fin n := by
  have hcmp : ∀ n : Int, -2 ^ 63 ≤ n → n < 2 ^ 63 →
      ((compare d (ofInt n)).1 = 0 ↔ d.num = .fin n) := by
    intro n hlo hhi
    rw [compare_fst, ofOrder_eq_zero, num_ofInt (by omega)]
  unfold isAFixedInteger toInt64Floor checkWidth
  cases hd : d.num with
  | fin q =>
    simp only
    split_ifs with hr
    · simp only [decide_eq_true_eq, hcmp _ hr.1 hr.2, hd]
      constructor
      · intro h
        exact ⟨_, hr.1, hr.2, h⟩
      · rintro ⟨n, -, -, h⟩
        obtain rfl := Num.fin.inj h
        simp
    · simp only [false_iff, not_exists, not_and]
      intro n hlo hhi h
      obtain rfl := Num.fin.inj h
      exact hr ⟨by simpa using hlo, by simpa using hhi⟩
  | _ => simp

theorem isInIntRange_of_int {d : Decimal128} {n : Int} (hd : d.num = .fin n)
    (hlo : -2 ^ 63 ≤ n) (hhi : n < 2 ^ 63) : d.isInIntRange 64 := by
  rw [isInIntRange, toIntXint_of_int hd hlo hhi, (isFinite_iff d).2 ⟨_, hd⟩]
  rfl

end Decimal128

-- ==== conversion to decimal

namespace Value

/-- `BsonTypeIsNumber`. -/
def isNumber : Value → Bool
  | double _ | int32 _ | int64 _ | decimal128 _ => true
  | _ => false

/-- `BsonTypeIsNumberOrBool`. -/
def isNumberOrBool : Value → Bool
  | bool _ => true
  | v => v.isNumber

theorem isNumberOrBool_of_isNumber {v : Value} (h : v.isNumber) : v.isNumberOrBool := by
  cases v <;> first | rfl | exact h

end Value

section Convert

variable [BidLib]

/-- The double case of `GetBsonValueAsDecimal128Core` with quantization: the
digits after the fifteenth are rounded away. The exponent `exp` is the least
power of ten not below the double, which is the ceiling of the logarithm. A
logarithm that `log10` rounds to a neighbouring integer is corrected by the
second step, which then quantizes to the same place. -/
def quantizeDouble (bits : UInt64) : Decimal128 :=
  let inexact := BidLib.binary64ToBid128 bits
  match binary64Num bits with
  | .fin q =>
    let exp : Int := if q = 0 then 0 else Int.clog 10 |q|
    let d := inexact.quantize (Decimal128.ofParts false 1 (exp - 15))
    if 10 ^ 15 - 1 < d.low.toNat then
      inexact.quantize (Decimal128.ofParts false 1 (exp - 14))
    else d
  | _ => inexact

/-- `GetBsonValueAsDecimal128`, and `GetBsonValueAsDecimal128Quantized` when
`shouldQuantizeDouble` is set. Values that are neither numbers nor bools are
refused with an error there; no caller below passes one. -/
def getBsonValueAsDecimal128Core (shouldQuantizeDouble : Bool) : Value → Decimal128
  | .int32 n => .ofInt n.toInt
  | .int64 n => .ofInt n.toInt
  | .bool b => .ofInt b.toNat
  | .double bits =>
    if shouldQuantizeDouble then quantizeDouble bits
    else BidLib.binary64ToBid128 bits
  | .decimal128 d => d
  | _ => .quietNaN

def getBsonValueAsDecimal128 : Value → Decimal128 := getBsonValueAsDecimal128Core false

def getBsonValueAsDecimal128Quantized : Value → Decimal128 := getBsonValueAsDecimal128Core true

-- ==== integer tests

variable (checkFixedInteger : Bool)

/-- A double is quantized before the test. -/
def isBsonValue64BitInteger : Value → Bool
  | .int32 _ | .int64 _ => true
  | .double bits =>
    let d := getBsonValueAsDecimal128Quantized (.double bits)
    d.isInIntRange 64 && (!checkFixedInteger || d.isAFixedInteger)
  | .decimal128 d =>
    d.isInIntRange 64 && (!checkFixedInteger || d.isAFixedInteger)
  | _ => false

/-- A double is tested as it is. -/
def isBsonValue32BitInteger : Value → Bool
  | .int32 _ => true
  | .double bits =>
    match binary64Num bits with
    | .fin q => q ≤ 2 ^ 31 - 1 ∧ -2 ^ 31 ≤ q ∧ (checkFixedInteger = false ∨ (⌊q⌋ : ℚ) = q)
    | _ => false
  | .int64 n => -2 ^ 31 ≤ n.toInt ∧ n.toInt < 2 ^ 31
  | .decimal128 d =>
    d.isInIntRange 32 && (!checkFixedInteger || d.isAFixedInteger)
  | _ => false

/-- The cast of a double truncates; outside of the range of `int64_t` it is undefined in C
and the number wraps here. A decimal outside of the range raises an error there and is
zero here: callers test the range first. -/
def bsonValueAsInt64 : Value → Int64
  | .bool b => Int64.ofNat b.toNat
  | .double bits =>
    match binary64Num bits with
    | .fin q => Int64.ofInt (truncate q)
    | _ => Int64.minValue
  | .int64 n => n
  | .dateTime ms => ms
  | .int32 n => n.toInt64
  | .decimal128 d => Int64.ofInt ((d.toIntXint 64).getD 0)
  | _ => 0

/-- With the conventions of `bsonValueAsInt64`. -/
def bsonValueAsInt32 : Value → Int32
  | .bool b => Int32.ofNat b.toNat
  | .double bits =>
    match binary64Num bits with
    | .fin q => Int32.ofInt (truncate q)
    | _ => Int32.minValue
  | .int64 n => n.toInt32
  | .int32 n => n
  | .decimal128 d => Int32.ofInt ((d.toIntXint 32).getD 0)
  | _ => 0

/-- The conversion raises none of the invalid, overflow and underflow flags. -/
def isDecimal128InDoubleRange (d : Decimal128) : Bool := !(BidLib.bid128ToBinary64 d).2

/-- `GetBsonDecimal128AsDouble`, on decimals in range. -/
def bsonDecimal128AsDouble (d : Decimal128) : UInt64 := (BidLib.bid128ToBinary64 d).1

theorem isBsonValue64BitInteger_zero {bits : UInt64} (h : binary64Num bits = .fin 0) :
    isBsonValue64BitInteger true (.double bits) := by
  have hnum : (quantizeDouble bits).num = .fin ((0 : Int) : ℚ) := by
    have hin := BidLib.num_binary64ToBid128 bits
    rw [h, Num.mapFin, toDigits_zero] at hin
    -- the coefficient of a decimal zero is zero, and stays so
    obtain ⟨neg, e, hd⟩ : ∃ neg e, (BidLib.binary64ToBid128 bits).datum = .finite neg 0 e := by
      rw [Decimal128.num] at hin
      cases hd : (BidLib.binary64ToBid128 bits).datum with
      | nan => simp [hd, Datum.num] at hin
      | inf neg => cases neg <;> simp [hd, Datum.num] at hin
      | finite neg c e =>
        refine ⟨neg, e, ?_⟩
        have hs := (scale_pos (by norm_num : 0 < 10) e).ne'
        cases neg <;> simp [hd, Datum.num, hs] at hin <;> rw [hin]
    have hq : (BidLib.binary64ToBid128 bits).quantize
        (Decimal128.ofParts false 1 (0 - 15)) = Decimal128.ofParts neg 0 (0 - 15) := by
      rw [Decimal128.quantize, hd, Decimal128.datum_ofParts (by norm_num)
        (by norm_num) (by norm_num)]
      have : halfEven 0 = 0 := by simpa using halfEven_intCast 0
      simp [this, Decimal128.coeffBound]
    simp only [quantizeDouble, h, if_true, hq]
    rw [if_neg (by cases neg <;> decide),
      Decimal128.num_ofParts (by norm_num) (by norm_num) (by norm_num)]
    simp
  simp only [isBsonValue64BitInteger, getBsonValueAsDecimal128Quantized,
    getBsonValueAsDecimal128Core, if_true, Bool.not_true, Bool.false_or, Bool.and_eq_true]
  exact ⟨Decimal128.isInIntRange_of_int hnum (by norm_num) (by norm_num),
    (Decimal128.isAFixedInteger_iff _).2 ⟨0, by norm_num, by norm_num, hnum⟩⟩

-- ==== CompareNumbers

/-- 64 bits of significand hold every double and every integer exactly. (A decimal never
reaches it.) -/
def bsonNumberAsLongDouble : Value → Num
  | .bool b => .fin b.toNat
  | .double bits => binary64Num bits
  | .int32 n => .fin n.toInt
  | .int64 n => .fin n.toInt
  | _ => .fin 0

/-- The verdict, and whether the comparison is valid. -/
def compareNumbers (left right : Value) : Int × Bool :=
  match left, right with
  | .decimal128 _, _ | _, .decimal128 _ =>
    (getBsonValueAsDecimal128 left).compare (getBsonValueAsDecimal128 right)
  | .double _, _ | _, .double _ =>
    let leftVal := bsonNumberAsLongDouble left
    let rightVal := bsonNumberAsLongDouble right
    if leftVal = .nan ∧ rightVal = .nan then (0, true)
    else if leftVal = .nan then (-1, false)
    else if rightVal = .nan then (1, false)
    else (ofOrder leftVal rightVal, true)
  | _, _ =>
    (ofOrder (bsonValueAsInt64 left).toInt (bsonValueAsInt64 right).toInt, true)

end Convert

-- ==== one order behind the three

theorem int64_natAbs_lt (n : Int64) : n.toInt.natAbs < 10 ^ 34 := by
  have h₁ := n.le_toInt
  have h₂ := n.toInt_lt
  omega

theorem int32_natAbs_lt (n : Int32) : n.toInt.natAbs < 10 ^ 34 := by
  have h₁ := n.le_toInt
  have h₂ := n.toInt_lt
  omega

theorem toDigits_int {n : Int} (h : n.natAbs < 10 ^ 34) : toDigits 34 (n : ℚ) = n :=
  toDigits_of_digits (c := n) (k := 0) (by rw [abs_lt]; omega) (by simp)

theorem bsonNumberAsLongDouble_hasBits {v : Value} {q : ℚ}
    (h : bsonNumberAsLongDouble v = .fin q) : HasBits 64 q := by
  have hint : ∀ n : Int, -2 ^ 63 ≤ n → n < 2 ^ 63 → HasBits 64 (n : ℚ) := by
    intro n h₁ h₂
    exact HasBits.intCast (by rw [abs_lt]; constructor <;> omega)
  cases v with
  | double bits =>
    obtain ⟨m, e, hm, hq⟩ := binary64Num_hasBits h
    exact ⟨m, e, hm.trans (by norm_num), hq⟩
  | int32 n =>
    obtain rfl := Num.fin.inj h
    have h₁ := n.le_toInt
    have h₂ := n.toInt_lt
    exact hint _ (by omega) (by omega)
  | int64 n =>
    obtain rfl := Num.fin.inj h
    exact hint _ n.le_toInt n.toInt_lt
  | bool b =>
    obtain rfl := Num.fin.inj h
    have := hint (b.toNat : Int) (by omega) (by cases b <;> decide)
    simpa using this
  | _ =>
    obtain rfl := Num.fin.inj h
    simpa using hint 0 (by omega) (by omega)

theorem longDouble_verdict (x y : Num) : (if x = .nan ∧ y = .nan then ((0 : Int), true)
      else if x = .nan then (-1, false)
      else if y = .nan then (1, false)
      else (ofOrder x y, true)).1 = ofOrder x y := by
  split_ifs with h₁ h₂ h₃
  · simp [h₁.1, h₁.2]
  · rw [h₂, Num.ofOrder_nan_left fun hy => h₁ ⟨h₂, hy⟩]
  · rw [h₃, Num.ofOrder_nan_right h₂]
  · rfl

theorem bsonNumberAsLongDouble_eq_int {v : Value}
    (hv : v.isNumberOrBool) (hd : ∀ d, v ≠ .decimal128 d) (hb : ∀ b, v ≠ .double b) :
    bsonNumberAsLongDouble v = .fin ((bsonValueAsInt64 v).toInt : ℚ) := by
  cases v with
  | int32 n => simp [bsonNumberAsLongDouble, bsonValueAsInt64]
  | int64 n => rfl
  | bool b => cases b <;> rfl
  | double bits => exact absurd rfl (hb bits)
  | decimal128 d => exact absurd rfl (hd d)
  | _ => simp [Value.isNumberOrBool, Value.isNumber] at hv

section Key

variable [BidLib]

def numberKey (v : Value) : Num := (getBsonValueAsDecimal128 v).num

variable {v l r : Value}

theorem numberKey_eq_mapFin (hv : v.isNumberOrBool) (hd : ∀ d, v ≠ .decimal128 d) :
    numberKey v = (bsonNumberAsLongDouble v).mapFin (toDigits 34) := by
  cases v with
  | int32 n =>
    show (Decimal128.ofInt n.toInt).num = _
    rw [Decimal128.num_ofInt (int32_natAbs_lt n)]
    simp only [bsonNumberAsLongDouble, Num.mapFin, toDigits_int (int32_natAbs_lt n)]
  | int64 n =>
    show (Decimal128.ofInt n.toInt).num = _
    rw [Decimal128.num_ofInt (int64_natAbs_lt n)]
    simp only [bsonNumberAsLongDouble, Num.mapFin, toDigits_int (int64_natAbs_lt n)]
  | bool b =>
    have hb : (b.toNat : Int).natAbs < 10 ^ 34 := by cases b <;> decide
    show (Decimal128.ofInt b.toNat).num = _
    rw [Decimal128.num_ofInt hb]
    have h := toDigits_int hb
    simp only [Int.cast_natCast] at h
    simp only [bsonNumberAsLongDouble, Num.mapFin, h, Int.cast_natCast]
  | double bits => exact BidLib.num_binary64ToBid128 bits
  | decimal128 d => exact absurd rfl (hd d)
  | _ => simp [Value.isNumberOrBool, Value.isNumber] at hv

theorem ofOrder_numberKey (hl : l.isNumberOrBool)
    (hr : r.isNumberOrBool) (hdl : ∀ d, l ≠ .decimal128 d) (hdr : ∀ d, r ≠ .decimal128 d) :
    ofOrder (numberKey l) (numberKey r)
      = ofOrder (bsonNumberAsLongDouble l) (bsonNumberAsLongDouble r) := by
  rw [numberKey_eq_mapFin hl hdl, numberKey_eq_mapFin hr hdr]
  have hwp : 2 ^ 64 + 1 < 10 ^ 34 / 10 := by norm_num
  refine Num.ofOrder_mapFin ?_ ?_
  · intro p q hp hq hlt
    exact toDigits_lt hwp (bsonNumberAsLongDouble_hasBits hp)
      (bsonNumberAsLongDouble_hasBits hq) hlt
  · intro p q hp hq hlt
    exact toDigits_lt hwp (bsonNumberAsLongDouble_hasBits hq)
      (bsonNumberAsLongDouble_hasBits hp) hlt

theorem compareNumbers_fst (hl : l.isNumberOrBool) (hr : r.isNumberOrBool) :
    (compareNumbers l r).1 = ofOrder (numberKey l) (numberKey r) := by
  unfold compareNumbers
  split
  · exact Decimal128.compare_fst _ _
  · exact Decimal128.compare_fst _ _
  · rename_i hdr
    rw [longDouble_verdict, ofOrder_numberKey hl hr (by simp) hdr]
  · rename_i hdl _
    rw [longDouble_verdict, ofOrder_numberKey hl hr hdl (by simp)]
  · rename_i hdl hbl hdr hbr
    rw [ofOrder_numberKey hl hr hdl hdr, bsonNumberAsLongDouble_eq_int hl hdl hbl,
      bsonNumberAsLongDouble_eq_int hr hdr hbr, Num.ofOrder_fin]
    exact (ofOrder_map (f := Int.cast) Int.cast_lt.2 Int.cast_lt.2).symm

theorem compareNumbers_snd (h : (compareNumbers l r).1 = 0) : (compareNumbers l r).2 := by
  unfold compareNumbers at h ⊢
  split at h
  · exact Decimal128.compare_snd h
  · exact Decimal128.compare_snd h
  · simp only at h ⊢
    split_ifs at h ⊢ <;> first | rfl | simp at h
  · simp only at h ⊢
    split_ifs at h ⊢ <;> first | rfl | simp at h
  · rfl

-- ==== equal numbers as integers

omit [BidLib] in
theorem bsonValueAsInt64_eq_cast (hv : v.isNumber)
    (hd : ∀ d, v ≠ .decimal128 d) {q : ℚ} (hq : bsonNumberAsLongDouble v = .fin q) :
    bsonValueAsInt64 v = Int64.ofInt (truncate q) := by
  cases v with
  | double bits =>
    have hq' : binary64Num bits = .fin q := hq
    simp only [bsonValueAsInt64, hq']
  | int32 n | int64 n =>
    obtain rfl := Num.fin.inj hq
    simp [bsonValueAsInt64, truncate_intCast]
  | decimal128 d => exact absurd rfl (hd d)
  | _ => simp [Value.isNumber] at hv

theorem decimal_int_of_is64 {d : Decimal128} (h : isBsonValue64BitInteger true (.decimal128 d)) :
    ∃ n : Int, -2 ^ 63 ≤ n ∧ n < 2 ^ 63 ∧ d.num = .fin n
      ∧ bsonValueAsInt64 (.decimal128 d) = Int64.ofInt n := by
  simp only [isBsonValue64BitInteger, Bool.not_true, Bool.false_or, Bool.and_eq_true] at h
  obtain ⟨n, hlo, hhi, hd⟩ := (Decimal128.isAFixedInteger_iff d).1 h.2
  refine ⟨n, hlo, hhi, hd, ?_⟩
  simp [bsonValueAsInt64, Decimal128.toIntXint_of_int hd hlo hhi]

theorem finite_of_is64 (hv : v.isNumber) (hd : ∀ d, v ≠ .decimal128 d)
    (h : isBsonValue64BitInteger true v) : ∃ q, bsonNumberAsLongDouble v = .fin q := by
  cases v with
  | double bits =>
    -- an infinity or NaN is not quantized and fails the range test
    cases hb : binary64Num bits with
    | fin q => exact ⟨q, hb⟩
    | _ =>
      have hnum := BidLib.num_binary64ToBid128 bits
      simp [isBsonValue64BitInteger, getBsonValueAsDecimal128Quantized,
        getBsonValueAsDecimal128Core, quantizeDouble, hb, Decimal128.isInIntRange,
        Decimal128.toIntXint, hnum, Num.mapFin] at h
  | int32 n | int64 n => exact ⟨_, rfl⟩
  | decimal128 d => exact absurd rfl (hd d)
  | _ => simp [Value.isNumber] at hv

theorem bsonNumberAsLongDouble_of_key_int {n : Int} (hv : v.isNumber)
    (hd : ∀ d, v ≠ .decimal128 d) (hlo : -2 ^ 63 ≤ n) (hhi : n < 2 ^ 63)
    (hkey : numberKey v = .fin n) : bsonNumberAsLongDouble v = .fin n := by
  rw [numberKey_eq_mapFin (Value.isNumberOrBool_of_isNumber hv) hd] at hkey
  cases hq : bsonNumberAsLongDouble v with
  | fin q =>
    rw [hq, Num.mapFin, Num.fin.injEq] at hkey
    have hint : toDigits 34 (n : ℚ) = n := toDigits_int (by omega)
    have hbits : HasBits 64 (n : ℚ) := HasBits.intCast (by rw [abs_lt]; constructor <;> omega)
    have hq64 := bsonNumberAsLongDouble_hasBits hq
    have hwp : 2 ^ 64 + 1 < 10 ^ 34 / 10 := by norm_num
    rcases lt_trichotomy q n with hlt | heq | hgt
    · have := toDigits_lt hwp hq64 hbits hlt
      rw [hkey, hint] at this
      exact absurd this (lt_irrefl _)
    · rw [heq]
    · have := toDigits_lt hwp hbits hq64 hgt
      rw [hkey, hint] at this
      exact absurd this (lt_irrefl _)
  | _ => simp [hq, Num.mapFin] at hkey

theorem bsonValueAsInt64_of_key_int {n : Int} (hv : v.isNumber)
    (hd : ∀ d, v ≠ .decimal128 d) (hlo : -2 ^ 63 ≤ n) (hhi : n < 2 ^ 63)
    (hkey : numberKey v = .fin n) : bsonValueAsInt64 v = Int64.ofInt n := by
  rw [bsonValueAsInt64_eq_cast hv hd (bsonNumberAsLongDouble_of_key_int hv hd hlo hhi hkey),
    truncate_intCast]

theorem bsonValueAsInt64_congr {a b : Value} (ha : a.isNumber)
    (hb : b.isNumber) (ha64 : isBsonValue64BitInteger true a)
    (hb64 : isBsonValue64BitInteger true b) (hkey : numberKey a = numberKey b) :
    bsonValueAsInt64 a = bsonValueAsInt64 b := by
  by_cases hda : ∃ d, a = .decimal128 d
  · obtain ⟨d, rfl⟩ := hda
    obtain ⟨n, hlo, hhi, hdn, hcast⟩ := decimal_int_of_is64 ha64
    have hkn : numberKey b = .fin n := by rw [← hkey]; exact hdn
    by_cases hdb : ∃ d, b = .decimal128 d
    · obtain ⟨d', rfl⟩ := hdb
      obtain ⟨n', -, -, hdn', hcast'⟩ := decimal_int_of_is64 hb64
      have hnn : (n' : ℚ) = n := Num.fin.inj (hdn'.symm.trans hkn)
      rw [hcast, hcast', Int.cast_injective hnn]
    · rw [hcast, bsonValueAsInt64_of_key_int hb (by simpa using hdb) hlo hhi hkn]
  · have hda' : ∀ d, a ≠ .decimal128 d := by simpa using hda
    by_cases hdb : ∃ d, b = .decimal128 d
    · obtain ⟨d, rfl⟩ := hdb
      obtain ⟨n, hlo, hhi, hdn, hcast⟩ := decimal_int_of_is64 hb64
      rw [hcast, bsonValueAsInt64_of_key_int ha hda' hlo hhi (hkey.trans hdn)]
    · have hdb' : ∀ d, b ≠ .decimal128 d := by simpa using hdb
      obtain ⟨p, hp⟩ := finite_of_is64 ha hda' ha64
      obtain ⟨q, hq⟩ := finite_of_is64 hb hdb' hb64
      have hpq : ofOrder (numberKey a) (numberKey b) = 0 := by
        rw [hkey, ofOrder_self]
      rw [ofOrder_numberKey (Value.isNumberOrBool_of_isNumber ha)
        (Value.isNumberOrBool_of_isNumber hb) hda' hdb', hp, hq, ofOrder_eq_zero,
        Num.fin.injEq] at hpq
      rw [bsonValueAsInt64_eq_cast ha hda' hp, bsonValueAsInt64_eq_cast hb hdb' hq, hpq]

theorem int_of_is64 (hv : v.isNumber) (hd : ∀ bits, v ≠ .double bits)
    (h : isBsonValue64BitInteger true v) :
    ∃ n : Int, -2 ^ 63 ≤ n ∧ n < 2 ^ 63 ∧ numberKey v = .fin n
      ∧ bsonValueAsInt64 v = Int64.ofInt n := by
  cases v with
  | double bits => exact absurd rfl (hd bits)
  | int32 n =>
    have hn := n.toInt_lt
    have hn' := n.le_toInt
    refine ⟨n.toInt, by omega, by omega, Decimal128.num_ofInt (int32_natAbs_lt n), ?_⟩
    simp [bsonValueAsInt64]
  | int64 n =>
    refine ⟨n.toInt, n.le_toInt, n.toInt_lt, Decimal128.num_ofInt (int64_natAbs_lt n), ?_⟩
    simp [bsonValueAsInt64]
  | decimal128 d => exact decimal_int_of_is64 h
  | _ => simp [Value.isNumber] at hv

theorem isBsonValue64BitInteger_decimal {d d' : Decimal128} (h : d.num = d'.num) (b : Bool) :
    isBsonValue64BitInteger b (.decimal128 d) = isBsonValue64BitInteger b (.decimal128 d') := by
  have hfix : d.isAFixedInteger = d'.isAFixedInteger := by
    rw [Bool.eq_iff_iff, Decimal128.isAFixedInteger_iff, Decimal128.isAFixedInteger_iff, h]
  have hfin : d.isFinite = d'.isFinite := by
    rw [Bool.eq_iff_iff, Decimal128.isFinite_iff, Decimal128.isFinite_iff, h]
  simp only [isBsonValue64BitInteger, Decimal128.isInIntRange, Decimal128.toIntXint, hfix, hfin, h]

end Key

end DocumentDb
