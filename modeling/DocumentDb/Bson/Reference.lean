/-
A decimal library: conversions between binary64 and decimal that satisfy the
laws of `BidLib`, so that the model can be run.

Both conversions round the exact rational once and pack the result. Packing
renormalises when rounding carries into a new digit.
-/
import DocumentDb.Bson.Decimal

namespace DocumentDb.Reference

open Rounding Nat Int

-- ==== to binary64

def packBinary64 (neg : Bool) (m : Nat) (e : Int) : UInt64 :=
  UInt64.ofNat ((if neg then 2 ^ 63 else 0)
    + if m < 2 ^ 52 then m else (e + 1075).toNat * 2 ^ 52 + (m - 2 ^ 52))

theorem binary64Num_pack {neg : Bool} {m : Nat} {e : Int} (hm : m < 2 ^ 53)
    (hsub : m < 2 ^ 52 → e = -1074) (hlo : -1074 ≤ e) (hhi : e ≤ 971) :
    binary64Num (packBinary64 neg m e)
      = .fin ((if neg then -(m : Int) else m : Int) * scale 2 e) := by
  obtain ⟨k, hk⟩ := eq_ofNat_of_zero_le (by omega : 0 ≤ e + 1075)
  set s : Nat := if neg then 1 else 0 with hs
  have hs1 : s ≤ 1 := by cases neg <;> simp [hs]
  have hsign : (if neg then 2 ^ 63 else 0 : Nat) = s * 2 ^ 63 := by
    cases neg <;> simp [hs]
  set body : Nat := if m < 2 ^ 52 then m else k * 2 ^ 52 + (m - 2 ^ 52) with hbody
  have hb : body < 2 ^ 63 := by
    rw [hbody]
    split_ifs <;> omega
  have hbits : (packBinary64 neg m e).toNat = s * 2 ^ 63 + body := by
    simp only [packBinary64, hsign, hk, toNat_natCast, ← hbody, UInt64.toNat_ofNat']
    omega
  have hneg : ((s * 2 ^ 63 + body) / 2 ^ 63 = 1) ↔ neg := by
    cases neg <;> simp [hs] <;> omega
  unfold binary64Num
  simp only [hbits, hneg]
  by_cases hsm : m < 2 ^ 52
  · rw [if_pos hsm] at hbody
    have h₁ : (s * 2 ^ 63 + body) / 2 ^ 52 % 2 ^ 11 = 0 := by omega
    have h₂ : (s * 2 ^ 63 + body) % 2 ^ 52 = m := by omega
    simp only [h₁, h₂, hsub hsm]
    norm_num
  · rw [if_neg hsm] at hbody
    have h₁ : (s * 2 ^ 63 + body) / 2 ^ 52 % 2 ^ 11 = k := by omega
    have h₂ : (s * 2 ^ 63 + body) % 2 ^ 52 = m - 2 ^ 52 := by omega
    have h₃ : (2 ^ 52 : Int) + ((m - 2 ^ 52 : Nat) : Int) = m := by omega
    have h₄ : (k : Int) - 1075 = e := by omega
    have h₅ : ¬ k = 2047 := by omega
    have h₆ : ¬ k = 0 := by omega
    simp only [h₁, h₂, h₅, h₆, if_false, h₃, h₄]

variable (q : ℚ)

/-- The exponent of the last bit kept of a number; zero has the least. -/
def binExp : Int := if q = 0 then -1074 else lastBit 53 (-1074) q

/-- The significand of the rounded number, `2 ^ 53` after a carry. -/
def binSig : Int := halfEven (q / scale 2 (binExp q))

theorem halfEven_zero : halfEven 0 = 0 := halfEven_intCast 0

theorem toBits_eq : toBits 53 (-1074) q = binSig q * scale 2 (binExp q) := by
  by_cases hq : q = 0
  · simp [toBits, binSig, hq, halfEven_zero]
  · simp [toBits, binSig, binExp, hq]

theorem binExp_of_ne {q : ℚ} (hq : q ≠ 0) : binExp q = lastBit 53 (-1074) q := if_neg hq

/-- The double nearest to a number, and whether the rounding overflows, or
loses digits below the range of full precision. -/
def roundBinary64 : UInt64 × Bool :=
  let m := (binSig q).natAbs
  let e := binExp q
  if 971 < e ∨ (e = 971 ∧ m = 2 ^ 53) then
    (packBinary64 (q < 0) (2 ^ 52) 972, true)
  else
    (if m = 2 ^ 53 then packBinary64 (q < 0) (2 ^ 52) (e + 1)
      else packBinary64 (q < 0) m e,
      |q| < scale 2 (-1022) ∧ toBits 53 (-1074) q ≠ q)

theorem abs_lt_binade :
    |q| < 2 ^ 53 * scale 2 (binExp q) := by
  rcases eq_or_ne q 0 with rfl | hq
  · have hpos : 0 < scale 2 (binExp 0) := scale_pos (by norm_num) _
    simpa using hpos
  have hlog : |q| < (2 : ℚ) ^ (Int.log 2 |q| + 1) := by
    exact_mod_cast lt_zpow_succ_log_self (b := 2) (by norm_num) |q|
  have hle : Int.log 2 |q| + 1 ≤ 53 + binExp q := by
    rw [binExp_of_ne hq, lastBit]
    omega
  calc |q| < (2 : ℚ) ^ (Int.log 2 |q| + 1) := hlog
    _ ≤ (2 : ℚ) ^ (53 + binExp q) :=
        zpow_le_zpow_right₀ (by norm_num) hle
    _ = 2 ^ 53 * scale 2 (binExp q) := by
        rw [scale_eq, zpow_add₀ (by norm_num)]
        norm_num

theorem natAbs_binSig_le : (binSig q).natAbs ≤ 2 ^ 53 := by
  have hpos : 0 < scale 2 (binExp q) := scale_pos (by norm_num) _
  refine natAbs_halfEven ?_
  rw [abs_div, abs_of_pos hpos, div_le_iff₀ hpos]
  exact_mod_cast (abs_lt_binade q).le

theorem binExp_of_binSig_lt {q : ℚ} (h : (binSig q).natAbs < 2 ^ 52) : binExp q = -1074 := by
  by_contra hne
  have hpos : 0 < scale 2 (binExp q) := scale_pos (by norm_num) _
  have hq : q ≠ 0 := fun h0 => hne (if_pos h0)
  have hexp : binExp q = Int.log 2 |q| - 52 := by
    rw [binExp_of_ne hq, lastBit] at hne ⊢
    omega
  -- above the least exponent the significand has all its bits
  have hlow : (2 : ℚ) ^ 52 ≤ |q / scale 2 (binExp q)| := by
    have hlog : (2 : ℚ) ^ Int.log 2 |q| ≤ |q| := by
      exact_mod_cast zpow_log_le_self (b := 2) (by norm_num) (abs_pos.2 hq)
    rw [abs_div, abs_of_pos hpos, le_div_iff₀ hpos, scale_eq, hexp]
    refine le_trans (le_of_eq ?_) hlog
    rw [← zpow_natCast, ← Nat.cast_ofNat (R := ℚ), ← zpow_add₀ (by norm_num)]
    congr 1
    omega
  rcases le_abs'.1 hlow with hneg | hp
  · have := halfEven_le (n := -2 ^ 52) (q := q / scale 2 (binExp q)) (by push_cast; linarith)
    unfold binSig at h
    omega
  · have := le_halfEven (n := 2 ^ 52) (q := q / scale 2 (binExp q)) (by push_cast; linarith)
    unfold binSig at h
    omega

theorem signed_halfEven {unit : ℚ} (hpos : 0 < unit) :
    (if decide (q < 0) = true then -((halfEven (q / unit)).natAbs : Int)
      else (halfEven (q / unit)).natAbs) = halfEven (q / unit) := by
  split_ifs with h
  · have : halfEven (q / unit) ≤ 0 := halfEven_le (by
      exact div_nonpos_of_nonpos_of_nonneg (of_decide_eq_true h).le hpos.le)
    omega
  · have : 0 ≤ halfEven (q / unit) := le_halfEven (by
      exact div_nonneg (not_lt.1 fun h' => h (decide_eq_true h')) hpos.le)
    omega

theorem signed_binSig : (if decide (q < 0) = true then -((binSig q).natAbs : Int)
      else (binSig q).natAbs) = binSig q := signed_halfEven q (scale_pos (by norm_num) _)

theorem binary64Num_roundBinary64 {q : ℚ} (h : (roundBinary64 q).2 = false) :
    binary64Num (roundBinary64 q).1 = .fin (toBits 53 (-1074) q) := by
  have hle := natAbs_binSig_le q
  have hlo : -1074 ≤ binExp q := by
    unfold binExp lastBit
    split_ifs <;> omega
  have hsg := signed_binSig q
  unfold roundBinary64 at h ⊢
  simp only at h ⊢
  split_ifs at h ⊢ with hov hcarry
  · rw [binary64Num_pack (by norm_num) (by omega) (by omega) (by omega), toBits_eq]
    have hscale : scale 2 (binExp q + 1) = 2 * scale 2 (binExp q) := by
      rw [scale_eq, scale_eq, zpow_add₀ (by norm_num)]
      norm_num [mul_comm]
    rw [hscale, ← hsg, hcarry]
    split_ifs <;> push_cast <;> ring_nf
  · rw [binary64Num_pack (by omega) (fun hs => binExp_of_binSig_lt hs)
      (by omega) (by omega), toBits_eq, hsg]

/-- `bid128_to_binary64`. -/
def toBinary64 (d : Decimal128) : UInt64 × Bool :=
  match d.num with
  | .fin q => roundBinary64 q
  | .posInf => (0x7ff0000000000000, false)
  | .negInf => (0xfff0000000000000, false)
  | .nan => (0x7ff8000000000000, false)

theorem nearest_toBinary64 (d : Decimal128) (h : (toBinary64 d).2 = false) :
    NearestBinary64 d.num (binary64Num (toBinary64 d).1) := by
  unfold toBinary64 at h ⊢
  cases hd : d.num with
  | fin q =>
    rw [hd] at h
    refine ⟨_, binary64Num_roundBinary64 h, ?_⟩
    intro bits p' hp'
    obtain ⟨m, e, hm, he, -, rfl⟩ := binary64Num_finite hp'
    exact abs_toBits_sub_le hm he
  | posInf =>
    show binary64Num 0x7ff0000000000000 = .posInf
    decide +kernel
  | negInf =>
    show binary64Num 0xfff0000000000000 = .negInf
    decide +kernel
  | nan =>
    show binary64Num 0x7ff8000000000000 = .nan
    decide +kernel

-- ==== from binary64

/-- The exponent of the last of the 34 digits kept of a number. -/
def decExp : Int := lastDigit 34 q

/-- The coefficient of the rounded number, `10 ^ 34` after a carry. -/
def decCoeff : Int := halfEven (q / scale 10 (decExp q))

def roundDecimal : Decimal128 :=
  let c := (decCoeff q).natAbs
  if c = 10 ^ 34 then Decimal128.ofParts (q < 0) (10 ^ 33) (decExp q + 1)
  else Decimal128.ofParts (q < 0) c (decExp q)

theorem natAbs_decCoeff_le : (decCoeff q).natAbs ≤ 10 ^ 34 := by
  have hpos : 0 < scale 10 (decExp q) := scale_pos (by norm_num) _
  refine natAbs_halfEven ?_
  rw [abs_div, abs_of_pos hpos, div_le_iff₀ hpos]
  have hlog : |q| < (10 : ℚ) ^ (Int.log 10 |q| + 1) := by
    exact_mod_cast lt_zpow_succ_log_self (b := 10) (by norm_num) |q|
  refine hlog.le.trans (le_of_eq ?_)
  rw [scale_ten, decExp, lastDigit, Nat.cast_pow, Nat.cast_ofNat,
    ← zpow_natCast, ← zpow_add₀ (by norm_num)]
  congr 1
  omega

theorem signed_decCoeff : (if decide (q < 0) = true then -((decCoeff q).natAbs : Int)
      else (decCoeff q).natAbs) = decCoeff q := signed_halfEven q (scale_pos (by norm_num) _)

theorem num_roundDecimal {q : ℚ} (hlo : -6000 ≤ Int.log 10 |q|) (hhi : Int.log 10 |q| ≤ 6000) :
    (roundDecimal q).num = .fin (toDigits 34 q) := by
  have hle := natAbs_decCoeff_le q
  have hsg := signed_decCoeff q
  have hexp : decExp q = Int.log 10 |q| - 33 := by
    unfold decExp lastDigit
    omega
  have hval : toDigits 34 q = decCoeff q * scale 10 (decExp q) := rfl
  unfold roundDecimal
  simp only
  split_ifs with hcarry
  · rw [Decimal128.num_ofParts (by norm_num) (by omega) (by omega), hval]
    have hscale : scale 10 (decExp q + 1) = 10 * scale 10 (decExp q) := by
      rw [scale_ten, scale_ten, zpow_add₀ (by norm_num)]
      norm_num [mul_comm]
    rw [hscale, ← hsg, hcarry]
    split_ifs <;> push_cast <;> ring_nf
  · rw [Decimal128.num_ofParts (by omega) (by omega) (by omega), hval, hsg]

theorem log_binary64 {bits : UInt64} {q : ℚ} (h : binary64Num bits = .fin q) :
    -6000 ≤ Int.log 10 |q| ∧ Int.log 10 |q| ≤ 6000 := by
  rcases eq_or_ne q 0 with rfl | hq
  · simp
  obtain ⟨m, e, hm, hlo, hhi, rfl⟩ := binary64Num_finite h
  have hq' : 0 < |(m : ℚ) * 2 ^ e| := abs_pos.2 hq
  have hm0 : m ≠ 0 := by
    rintro rfl
    simp at hq
  have hm1 : (1 : ℚ) ≤ |(m : ℚ)| := by exact_mod_cast one_le_abs hm0
  have hm2 : |(m : ℚ)| ≤ 2 ^ 53 := by exact_mod_cast hm.le
  have hpow : (0 : ℚ) < 2 ^ e := by positivity
  rw [abs_mul, abs_of_pos hpow] at hq' ⊢
  constructor
  · rw [← zpow_le_iff_le_log (by norm_num) hq']
    calc ((10 : Nat) : ℚ) ^ (-6000 : Int) ≤ (10 : ℚ) ^ (-1074 : Int) := by
          exact zpow_le_zpow_right₀ (by norm_num) (by norm_num)
      _ ≤ (2 : ℚ) ^ (-1074 : Int) := by
          rw [zpow_neg, zpow_neg]
          refine inv_anti₀ (by positivity) ?_
          exact zpow_le_zpow_left₀ (by norm_num) (by norm_num) (by norm_num)
      _ ≤ 2 ^ e := zpow_le_zpow_right₀ (by norm_num) hlo
      _ ≤ |(m : ℚ)| * 2 ^ e := le_mul_of_one_le_left hpow.le hm1
  · refine Int.le_of_lt_add_one ?_
    rw [← lt_zpow_iff_log_lt (by norm_num) hq']
    calc |(m : ℚ)| * 2 ^ e ≤ 2 ^ 53 * 2 ^ (971 : Int) := by
          gcongr
          norm_num
      _ = (2 : ℚ) ^ (1024 : Int) := by
          rw [← zpow_natCast, ← zpow_add₀ (by norm_num)]
          norm_num
      _ < (10 : ℚ) ^ (1024 : Int) :=
          zpow_lt_zpow_left₀ (by norm_num) (by norm_num) (by norm_num)
      _ ≤ ((10 : Nat) : ℚ) ^ (6000 + 1 : Int) := by
          exact zpow_le_zpow_right₀ (by norm_num) (by norm_num)

/-- `binary64_to_bid128`. -/
def ofBinary64 (bits : UInt64) : Decimal128 :=
  match binary64Num bits with
  | .fin q => roundDecimal q
  | .posInf => ⟨0x7800000000000000, 0⟩
  | .negInf => ⟨0xf800000000000000, 0⟩
  | .nan => .quietNaN

theorem num_ofBinary64 (bits : UInt64) :
    (ofBinary64 bits).num = (binary64Num bits).mapFin (toDigits 34) := by
  unfold ofBinary64
  cases hb : binary64Num bits with
  | fin q =>
    obtain ⟨hlo, hhi⟩ := log_binary64 hb
    exact num_roundDecimal hlo hhi
  | posInf | negInf | nan => decide +kernel

end DocumentDb.Reference

namespace DocumentDb

@[reducible] def BidLib.reference : BidLib where
  binary64ToBid128 := Reference.ofBinary64
  bid128ToBinary64 := Reference.toBinary64
  num_binary64ToBid128 := Reference.num_ofBinary64
  nearest_bid128ToBinary64 := Reference.nearest_toBinary64

end DocumentDb
