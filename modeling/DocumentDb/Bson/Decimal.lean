/-
Doubles and 128-bit decimals: the number (`Num`) that a bit pattern denotes, and the
operations of the decimal library. NaN is below everything.

The library is not part of the repository. Comparison, the conversions from and to integers
and `quantize` are determined by the standard and are definitions here. The conversions
between binary64 and decimal are determined up to the pattern of equal values and NaN; they
are the class `BidLib`, and `BidLib.reference` is one such library.
-/
import DocumentDb.Bson.Value
import DocumentDb.Lib.Rounding
import DocumentDb.Lib.ThreeWay
import Mathlib.Data.Prod.Lex
import Mathlib.Tactic.IntervalCases

namespace DocumentDb

open Rounding ThreeWay Nat

-- ==== extended numbers

/-- What a numeric pattern denotes. -/
inductive Num where
  | nan
  | negInf
  | fin (q : ℚ)
  | posInf
  deriving DecidableEq

namespace Num

/-- The position of a number: its kind first, then its value. -/
def position : Num → Nat ×ₗ ℚ
  | nan => toLex (0, 0)
  | negInf => toLex (1, 0)
  | fin q => toLex (2, q)
  | posInf => toLex (3, 0)

theorem position_injective : Function.Injective position := by
  intro a b h
  cases a <;> cases b <;> simp_all [position]

/-- NaN, the negative infinity, the rationals, the positive infinity. -/
instance : LinearOrder Num := LinearOrder.lift' position position_injective

theorem fin_lt_fin {p q : ℚ} : fin p < fin q ↔ p < q := by
  show position (fin p) < position (fin q) ↔ p < q
  simp [position, Prod.Lex.toLex_lt_toLex]

variable {x : Num}

theorem nan_lt (h : x ≠ nan) : nan < x := by
  show position nan < position x
  cases x with
  | nan => exact absurd rfl h
  | _ => simp [position, Prod.Lex.toLex_lt_toLex]

theorem ofOrder_nan_left (h : x ≠ nan) : ofOrder nan x = -1 := by
  simp [ofOrder, (nan_lt h).not_gt, h.symm]

theorem ofOrder_nan_right (h : x ≠ nan) : ofOrder x nan = 1 := by
  simp [ofOrder, nan_lt h]

/-- Apply a function to a finite number; the others stay. -/
def mapFin (f : ℚ → ℚ) : Num → Num
  | fin q => fin (f q)
  | x => x

theorem ofOrder_mapFin {f : ℚ → ℚ} {a b : Num}
    (hlt : ∀ p q, a = fin p → b = fin q → p < q → f p < f q)
    (hgt : ∀ p q, a = fin p → b = fin q → q < p → f q < f p) :
    ofOrder (a.mapFin f) (b.mapFin f) = ofOrder a b := by
  cases a with
  | fin p =>
    cases b with
    | fin q =>
      refine ofOrder_map (f := mapFin f) ?_ ?_
      · intro h
        exact fin_lt_fin.2 (hlt p q rfl rfl (fin_lt_fin.1 h))
      · intro h
        exact fin_lt_fin.2 (hgt p q rfl rfl (fin_lt_fin.1 h))
    | _ => rfl
  | _ => cases b <;> rfl

theorem ofOrder_fin (p q : ℚ) : ofOrder (fin p) (fin q) = ofOrder p q :=
  ofOrder_map (f := fin) fin_lt_fin.2 fin_lt_fin.2

end Num

-- ==== binary64

/-- The number a double denotes: one sign bit, eleven bits of exponent with
bias 1023 (all ones for infinities and NaN, all zeros for the subnormals)
and 52 bits of fraction. -/
def binary64Num (bits : UInt64) : Num :=
  let neg := bits.toNat / 2 ^ 63 = 1
  let exponent : Nat := bits.toNat / 2 ^ 52 % 2 ^ 11
  let fraction : Nat := bits.toNat % 2 ^ 52
  if exponent = 2047 then
    if fraction ≠ 0 then .nan else if neg then .negInf else .posInf
  else
    let significand : Int := if exponent = 0 then fraction
      else 2 ^ 52 + fraction
    let e : Int := (if exponent = 0 then 1 else exponent) - 1075
    .fin ((if neg then -significand else significand : Int) * scale 2 e)

variable {bits : UInt64} {q : ℚ}

theorem binary64Num_finite (h : binary64Num bits = .fin q) :
    ∃ m e : Int, |m| < 2 ^ 53 ∧ -1074 ≤ e ∧ e ≤ 971 ∧ q = m * (2 : ℚ) ^ e := by
  unfold binary64Num at h
  simp only at h
  split_ifs at h with h₁ h₂ h₃ h₄ h₅ h₅
  all_goals
    simp only [Num.fin.injEq, scale_eq] at h
    exact ⟨_, _, by rw [abs_lt]; constructor <;> omega, by omega, by omega, h.symm⟩

theorem binary64Num_hasBits (h : binary64Num bits = .fin q) : HasBits 53 q := by
  obtain ⟨m, e, hm, -, -, hq⟩ := binary64Num_finite h
  exact ⟨m, e, hm, hq⟩

theorem binary64Num_fields (h : binary64Num bits = .fin q) :
    ∃ s e f m k : Nat, bits.toNat = s * 2 ^ 63 + e * 2 ^ 52 + f ∧ s ≤ 1
      ∧ f < 2 ^ 52 ∧ m = (if e = 0 then f else 2 ^ 52 + f)
      ∧ k = (if e = 0 then 1 else e)
      ∧ q = (if s = 1 then -(m : Int) else m : Int) * (2 : ℚ) ^ ((k : Int) - 1075) := by
  refine ⟨bits.toNat / 2 ^ 63, bits.toNat / 2 ^ 52 % 2 ^ 11,
    bits.toNat % 2 ^ 52, _, _, ?_, ?_, ?_, rfl, rfl, ?_⟩
  · omega
  · have := bits.toNat_lt
    omega
  · omega
  · unfold binary64Num at h
    by_cases hexp : bits.toNat / 2 ^ 52 % 2 ^ 11 = 2047
    · rw [if_pos hexp] at h
      split_ifs at h
    · rw [if_neg hexp, Num.fin.injEq, scale_eq] at h
      rw [← h]
      simp only [cast_ite, cast_one, cast_add, cast_pow, cast_ofNat]

theorem significand_eq {m m' k k' : Nat} (hm : m < 2 ^ 53)
    (hm' : 1 < k' → 2 ^ 52 ≤ m') (hk : 1 ≤ k) (hle : k ≤ k')
    (h : (m : ℚ) * 2 ^ ((k : Int) - 1075) = m' * 2 ^ ((k' : Int) - 1075)) : k = k' ∧ m = m' := by
  obtain ⟨d, rfl⟩ := Nat.exists_eq_add_of_le hle
  have hmul : m = m' * 2 ^ d := by
    have hpow : (2 : ℚ) ^ (((k + d : Nat) : Int) - 1075) = 2 ^ d * 2 ^ ((k : Int) - 1075) := by
      rw [← zpow_natCast, ← zpow_add₀ (by norm_num)]
      congr 1
      push_cast
      ring
    rw [hpow, ← mul_assoc] at h
    have := mul_right_cancel₀ (by positivity) h
    exact_mod_cast this
  rcases Nat.eq_zero_or_pos d with rfl | hd
  · simpa using hmul
  · exfalso
    have h52 : 2 ^ 52 ≤ m' := hm' (by omega)
    have h2 : 2 ^ 1 ≤ 2 ^ d := Nat.pow_le_pow_right (by norm_num) hd
    have : 2 ^ 52 * 2 ^ 1 ≤ m' * 2 ^ d := Nat.mul_le_mul h52 h2
    omega

theorem binary64Num_eq_zero (h : binary64Num bits = .fin 0) :
    bits = 0 ∨ bits = 0x8000000000000000 := by
  obtain ⟨s, e, f, m, k, hb, hs, hf, hm, -, hval⟩ := binary64Num_fields h
  have hpos : (0 : ℚ) < 2 ^ ((k : Int) - 1075) := by positivity
  have hm0 : m = 0 := by
    have hz := (mul_eq_zero.1 hval.symm).resolve_right hpos.ne'
    split_ifs at hz <;> simpa using hz
  have he : e = 0 := by
    by_contra he
    rw [if_neg he, hm0] at hm
    exact absurd hm.symm (by positivity)
  have hnat : bits.toNat = s * 2 ^ 63 := by
    rw [if_pos he, hm0] at hm
    rw [hb, he, ← hm, Nat.zero_mul, Nat.add_zero]
  rcases le_one_iff_eq_zero_or_eq_one.1 hs with rfl | rfl
  · exact Or.inl (UInt64.toNat_inj.1 (by simpa using hnat))
  · exact Or.inr (UInt64.toNat_inj.1 (by simpa using hnat))

theorem binary64Num_inj_finite {b b' : UInt64} (h : binary64Num b = .fin q)
    (h' : binary64Num b' = .fin q) (hq : q ≠ 0) : b = b' := by
  obtain ⟨s, e, f, m, k, hb, hs, hf, hm, hk, hval⟩ := binary64Num_fields h
  obtain ⟨s', e', f', m', k', hb', hs', hf', hm', hk', hval'⟩ := binary64Num_fields h'
  have hpos : ∀ j : Nat, (0 : ℚ) < 2 ^ ((j : Int) - 1075) := fun j => by
    positivity
  -- the sign of the number is the sign bit
  have hsign : ∀ (s m k : Nat), s ≤ 1 → q = (if s = 1 then -(m : Int)
      else m : Int) * (2 : ℚ) ^ ((k : Int) - 1075) →
      |q| = m * 2 ^ ((k : Int) - 1075) ∧ (s = 1 ↔ q < 0) := by
    intro s m k hs hv
    have hk := hpos k
    have hm0 : (0 : ℚ) < m := by
      rcases Nat.eq_zero_or_pos m with rfl | hm
      · simp at hv
        exact absurd hv hq
      · exact_mod_cast hm
    have hp : 0 < (m : ℚ) * 2 ^ ((k : Int) - 1075) := mul_pos hm0 hk
    rcases (by omega : s = 0 ∨ s = 1) with rfl | rfl
    · have hv' : q = m * (2 : ℚ) ^ ((k : Int) - 1075) := by simpa using hv
      rw [hv', abs_of_pos hp]
      simp [hp.le]
    · have hv' : q = -(m * (2 : ℚ) ^ ((k : Int) - 1075)) := by
        simpa using hv
      rw [hv', abs_neg, abs_of_pos hp]
      simp [hp]
  obtain ⟨habs, hneg⟩ := hsign s m k hs hval
  obtain ⟨habs', hneg'⟩ := hsign s' m' k' hs' hval'
  have heq := habs.symm.trans habs'
  have hkm : k = k' ∧ m = m' := by
    rcases le_total k k' with hle | hle
    · refine significand_eq ?_ ?_ ?_ hle heq
      all_goals split_ifs at hm hk hm' hk' <;> omega
    · have := significand_eq ?_ ?_ ?_ hle heq.symm
      · exact ⟨this.1.symm, this.2.symm⟩
      all_goals split_ifs at hm hk hm' hk' <;> omega
  obtain ⟨hkk, hmm⟩ := hkm
  have hss : s = s' := by
    have : s = 1 ↔ s' = 1 := hneg.trans hneg'.symm
    omega
  refine UInt64.toNat_inj.1 ?_
  split_ifs at hm hk hm' hk' <;> omega

theorem binary64Num_infinite : (binary64Num bits = .posInf → bits.toNat = 2047 * 2 ^ 52)
      ∧ (binary64Num bits = .negInf → bits.toNat = 4095 * 2 ^ 52) := by
  have hlt := bits.toNat_lt
  unfold binary64Num
  simp only
  split_ifs <;> simp <;> omega

theorem binary64Num_inj {b b' : UInt64} (h : binary64Num b = binary64Num b')
    (hnan : binary64Num b ≠ .nan) (hzero : binary64Num b ≠ .fin 0) : b = b' := by
  cases hb : binary64Num b with
  | nan => exact absurd hb hnan
  | fin q =>
    rw [hb] at h hzero
    exact binary64Num_inj_finite hb h.symm fun hq => hzero (by rw [hq])
  | posInf =>
    rw [hb] at h
    exact UInt64.toNat_inj.1 ((binary64Num_infinite.1 hb).trans
      (binary64Num_infinite.1 h.symm).symm)
  | negInf =>
    rw [hb] at h
    exact UInt64.toNat_inj.1 ((binary64Num_infinite.2 hb).trans
      (binary64Num_infinite.2 h.symm).symm)

theorem exponent_of_int {e f N : Nat} (hf : f < 2 ^ 52) (hN : 0 < N) (hN' : N < 2 ^ 64)
    (h : (if e = 0 then f else 2 ^ 52 + f) * 2 ^ (if e = 0 then 1 else e)
      = N * 2 ^ 1075) : 1023 ≤ e ∧ e ≤ 1086 ∧ (2 ^ 52 + f) * 2 ^ (e - 1023) = N * 2 ^ 52 := by
  have hsmall : (if e = 0 then f else 2 ^ 52 + f) < 2 ^ 53 := by
    split_ifs <;> omega
  have hlo : 1023 ≤ e := by
    by_contra hlt
    have hk : (if e = 0 then 1 else e) ≤ 1022 := by split_ifs <;> omega
    have : (if e = 0 then f else 2 ^ 52 + f) * 2 ^ (if e = 0 then 1 else e) < 2 ^ 53 * 2 ^ 1022 :=
      Nat.mul_lt_mul_of_lt_of_le hsmall (Nat.pow_le_pow_right (by norm_num) hk) (Nat.two_pow_pos _)
    omega
  rw [if_neg (by omega), if_neg (by omega)] at h
  have hhi : e ≤ 1086 := by
    by_contra hgt
    have : 2 ^ 52 * 2 ^ 1087 ≤ (2 ^ 52 + f) * 2 ^ e :=
      Nat.mul_le_mul (by omega) (Nat.pow_le_pow_right (by norm_num) (by omega))
    have hlt : N * 2 ^ 1075 < 2 ^ 64 * 2 ^ 1075 := Nat.mul_lt_mul_of_pos_right hN' (by positivity)
    omega
  refine ⟨hlo, hhi, ?_⟩
  obtain ⟨j, rfl⟩ := Nat.exists_eq_add_of_le hlo
  refine eq_of_mul_eq_mul_right (by positivity : 0 < 2 ^ 1023) ?_
  calc (2 ^ 52 + f) * 2 ^ (1023 + j - 1023) * 2 ^ 1023 = (2 ^ 52 + f) * 2 ^ (1023 + j) := by
        rw [Nat.add_sub_cancel_left, pow_add, mul_assoc, mul_comm (2 ^ j)]
    _ = N * 2 ^ 1075 := h
    _ = N * 2 ^ 52 * 2 ^ 1023 := by rw [mul_assoc, ← pow_add]

theorem exponents_apart {s e f N : Nat} (hs : s ≤ 1) (hf : f < 2 ^ 52)
    (hlo : 1023 ≤ e) (hhi : e ≤ 1086) (hN : (2 ^ 52 + f) * 2 ^ (e - 1023) = N * 2 ^ 52)
    (hb : s * 2 ^ 63 + e * 2 ^ 52 + f = if s = 1 then 2 ^ 64 - N else N) : False := by
  have hs01 : s = 0 ∨ s = 1 := by omega
  rcases hs01 with rfl | rfl
  · rw [if_neg (by norm_num)] at hb
    interval_cases e <;> omega
  · rw [if_pos rfl] at hb
    interval_cases e <;> omega

/-- No pattern of a double is the integer that the double is: the exponents
that a 64-bit integer can have are tried one after another. -/
theorem pattern_ne_int {n : Int} (h : binary64Num bits = .fin n) (hn : n ≠ 0)
    (hlo : -2 ^ 63 ≤ n) (hhi : n < 2 ^ 63) : (bits.toNat : Int) ≠ n % 2 ^ 64 := by
  obtain ⟨s, e, f, m, k, hb, hs, hf, hm, hk, hval⟩ := binary64Num_fields h
  have hsign : n = if s = 1 then -(n.natAbs : Int) else n.natAbs := by
    have hk := zpow_pos (by norm_num : (0 : ℚ) < 2) ((k : Int) - 1075)
    split_ifs at hval ⊢ with hs1
    · have : (n : ℚ) ≤ 0 := by
        rw [hval]
        exact mul_nonpos_of_nonpos_of_nonneg (by simp) hk.le
      have : n ≤ 0 := by exact_mod_cast this
      omega
    · have : (0 : ℚ) ≤ n := by
        rw [hval]
        exact mul_nonneg (by simp) hk.le
      have : 0 ≤ n := by exact_mod_cast this
      omega
  have habs : (m : ℚ) * 2 ^ ((k : Int) - 1075) = n.natAbs := by
    rw [hsign] at hval
    rw [cast_natAbs, Int.cast_abs]
    split_ifs at hval <;> push_cast at hval <;> linarith
  have hnat : m * 2 ^ k = n.natAbs * 2 ^ 1075 := by
    rw [zpow_sub₀ (by norm_num), mul_div_assoc', div_eq_iff (by positivity)] at habs
    exact_mod_cast habs
  rw [hm, hk] at hnat
  obtain ⟨he, he', hN⟩ := exponent_of_int hf (by omega) (by omega) hnat
  intro hpat
  refine exponents_apart hs hf he he' hN ?_
  split_ifs at hsign ⊢ <;> omega

-- ==== the words of a decimal

/-- The parts of a decimal pattern. -/
inductive Datum where
  | nan
  | inf (neg : Bool)
  | finite (neg : Bool) (coeff : Nat) (exp : Int)
  deriving DecidableEq

def Datum.num : Datum → Num
  | nan => .nan
  | inf true => .negInf
  | inf false => .posInf
  | finite neg coeff exp =>
    .fin ((if neg then -(coeff : Int) else coeff : Int) * scale 10 exp)

namespace Decimal128

def coeffBound : Nat := 10 ^ 34

variable (d : Decimal128)

/-- The parts of a pattern in the binary integer encoding. The five bits
below the sign tell NaN, infinity and the long form apart; a coefficient of
more than 34 digits is not canonical and counts as zero, and the long form
has no other. -/
def datum : Datum :=
  let high := d.high.toNat
  let neg : Bool := high / 2 ^ 63 = 1
  let combination := high / 2 ^ 58 % 2 ^ 5
  if combination = 31 then .nan
  else if combination = 30 then .inf neg
  else if 24 ≤ combination then
    .finite neg 0 ((high / 2 ^ 47 % 2 ^ 14 : Nat) - 6176)
  else
    let coeff := high % 2 ^ 49 * 2 ^ 64 + d.low.toNat
    .finite neg (if coeff < coeffBound then coeff else 0) ((high / 2 ^ 49 % 2 ^ 14 : Nat) - 6176)

def num : Num := d.datum.num

/-- The pattern with the given parts: sign, exponent with bias 6176 from bit
49 of the high word on, coefficient below. -/
def ofParts (neg : Bool) (coeff : Nat) (exp : Int) : Decimal128 where
  high := UInt64.ofNat ((if neg then 2 ^ 63 else 0) + (exp + 6176).toNat * 2 ^ 49 + coeff / 2 ^ 64)
  low := UInt64.ofNat (coeff % 2 ^ 64)

theorem datum_ofParts {neg : Bool} {coeff : Nat} {exp : Int}
    (hc : coeff < 10 ^ 34) (hlo : -6176 ≤ exp) (hhi : exp ≤ 6111) :
    (ofParts neg coeff exp).datum = .finite neg coeff exp := by
  obtain ⟨e, he⟩ := Int.eq_ofNat_of_zero_le (by omega : 0 ≤ exp + 6176)
  set s : Nat := if neg then 1 else 0 with hs
  have hs1 : s ≤ 1 := by cases neg <;> simp [hs]
  have hsign : (if neg then 2 ^ 63 else 0 : Nat) = s * 2 ^ 63 := by
    cases neg <;> simp [hs]
  have hhigh : (ofParts neg coeff exp).high.toNat = s * 2 ^ 63 + e * 2 ^ 49 + coeff / 2 ^ 64 := by
    simp only [ofParts, hsign, he, Int.toNat_natCast, UInt64.toNat_ofNat']
    omega
  have hlow : (ofParts neg coeff exp).low.toNat = coeff % 2 ^ 64 := by
    simp only [ofParts, UInt64.toNat_ofNat']
    omega
  have hneg : decide ((s * 2 ^ 63 + e * 2 ^ 49 + coeff / 2 ^ 64) / 2 ^ 63 = 1) = neg := by
    cases neg <;> simp [hs] <;> omega
  simp only [datum, hhigh, hlow, coeffBound]
  rw [if_neg (by omega), if_neg (by omega), if_neg (by omega), hneg, if_pos (by omega)]
  congr 1 <;> omega

theorem num_ofParts {neg : Bool} {coeff : Nat} {exp : Int}
    (hc : coeff < 10 ^ 34) (hlo : -6176 ≤ exp) (hhi : exp ≤ 6111) :
    (ofParts neg coeff exp).num = .fin ((if neg then -(coeff : Int) else coeff : Int)
          * scale 10 exp) := by
  rw [num, datum_ofParts hc hlo hhi]
  rfl

-- ==== the operations of the decimal library

/-- `bid128_isNaN`. -/
def isNaN : Bool := d.datum = .nan

/-- `bid128_isInf`. -/
def isInf : Bool := d.datum = .inf true ∨ d.datum = .inf false

/-- `bid128_isFinite`. -/
def isFinite : Bool := !d.isNaN && !d.isInf

theorem isNaN_iff : d.isNaN ↔ d.num = .nan := by
  unfold isNaN num
  rcases d.datum with _ | neg | ⟨neg, c, e⟩
  · simp [Datum.num]
  · cases neg <;> simp [Datum.num]
  · simp [Datum.num]

theorem isFinite_iff : d.isFinite ↔ ∃ q, d.num = .fin q := by
  unfold isFinite isNaN isInf num
  rcases d.datum with _ | neg | ⟨neg, c, e⟩
  · simp [Datum.num]
  · cases neg <;> simp [Datum.num]
  · simp [Datum.num]

variable (x y : Decimal128)

/-- `bid128_quiet_equal`: NaN equals nothing. -/
def quietEqual : Bool := x.num ≠ .nan ∧ x.num = y.num

/-- `bid128_quiet_greater`: NaN is greater than nothing. -/
def quietGreater : Bool := x.num ≠ .nan ∧ y.num ≠ .nan ∧ y.num < x.num

/-- `bid128_from_int64` (and, on smaller numbers, `bid128_from_int32`). -/
def ofInt (n : Int) : Decimal128 := ofParts (n < 0) n.natAbs 0

theorem num_ofInt {n : Int} (h : n.natAbs < 10 ^ 34) : (ofInt n).num = .fin n := by
  rw [ofInt, num_ofParts h (by omega) (by omega)]
  congr 1
  have hn : (if decide (n < 0) = true then -(n.natAbs : Int) else n.natAbs) = n := by
    split_ifs with hneg <;> simp at hneg <;> omega
  rw [hn]
  simp [scale]

def quietNaN : Decimal128 where
  high := 0x7c00000000000000
  low := 0

/-- `bid128_quantize`: the number of `x`, rounded to a multiple of the last
place of `y`, with the exponent of `y`; NaN when it has no 34 digits. -/
def quantize : Decimal128 :=
  match x.datum, y.datum with
  | .finite neg c e, .finite _ _ f =>
    let c' := (halfEven (c * scale 10 (e - f))).toNat
    if c' < coeffBound then ofParts neg c' f else quietNaN
  | .inf _, .inf _ => x
  | _, _ => quietNaN

/-- An integer that fits into `w` bits; `none` is the invalid flag. -/
def checkWidth (w : Nat) (n : Int) : Option Int :=
  if -2 ^ (w - 1) ≤ n ∧ n < 2 ^ (w - 1) then some n else none

/-- `bid128_to_int32_xint` and `bid128_to_int64_xint`: truncation. -/
def toIntXint (w : Nat) (d : Decimal128) : Option Int :=
  match d.num with
  | .fin q => checkWidth w (truncate q)
  | _ => none

/-- `bid128_to_int64_floor`. -/
def toInt64Floor : Option Int :=
  match d.num with
  | .fin q => checkWidth 64 ⌊q⌋
  | _ => none

end Decimal128

/-- `y` is the number of the double nearest to `x`. -/
def NearestBinary64 (x y : Num) : Prop :=
  match x with
  | .fin q => ∃ p, y = .fin p ∧ ∀ bits p', binary64Num bits = .fin p' →
      |p - q| ≤ |p' - q|
  | _ => y = x

/-- The conversions of the decimal library that the standard leaves open up
to the pattern chosen for a number. -/
class BidLib where
  /-- `binary64_to_bid128`, to nearest even. -/
  binary64ToBid128 : UInt64 → Decimal128
  /-- `bid128_to_binary64`, to nearest even, and whether it raised one of
  the invalid, overflow and underflow flags. -/
  bid128ToBinary64 : Decimal128 → UInt64 × Bool
  num_binary64ToBid128 : ∀ bits,
    (binary64ToBid128 bits).num = (binary64Num bits).mapFin (toDigits 34)
  nearest_bid128ToBinary64 : ∀ d, (bid128ToBinary64 d).2 = false →
    NearestBinary64 d.num (binary64Num (bid128ToBinary64 d).1)

end DocumentDb
