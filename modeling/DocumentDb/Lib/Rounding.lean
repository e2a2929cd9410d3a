/-
Rounding a rational to a fixed number of decimal digits, ties to even, and why no two short
binary fractions are rounded to the same decimal.

Binary numbers with `w` significant bits are apart by at least the `2^w`-th part of their
size, and rounding to `p` digits moves a number by at most half of its `10^(p-1)`-th part.
With `2^w` well below `10^(p-1)` the rounded numbers keep their strict order.
-/
import Mathlib.Algebra.Order.Field.Power
import Mathlib.Data.Int.Log
import Mathlib.Data.Rat.Floor
import Mathlib.Tactic.Positivity

namespace Rounding

open Int

-- ==== rounding to an integer

/-- The nearest integer, the even one of two equally near. -/
def halfEven (q : ℚ) : Int :=
  let f := ⌊q⌋
  if q - f < 1 / 2 then f
  else if 1 / 2 < q - f then f + 1
  else if f % 2 = 0 then f
  else f + 1

theorem halfEven_intCast (n : Int) : halfEven (n : ℚ) = n := by
  simp [halfEven]

theorem abs_halfEven_sub_le (q : ℚ) : |(halfEven q : ℚ) - q| ≤ 1 / 2 := by
  have h₀ : (⌊q⌋ : ℚ) ≤ q := floor_le q
  have h₁ : q < ⌊q⌋ + 1 := lt_floor_add_one q
  simp only [halfEven]
  split_ifs with hlt hgt heven <;> rw [abs_le] <;> push_cast <;> constructor <;> linarith

theorem abs_halfEven_sub_le_int (q : ℚ) (n : Int) :
    |(halfEven q : ℚ) - q| ≤ |(n : ℚ) - q| := by
  rcases eq_or_ne (halfEven q) n with rfl | hne
  · exact le_rfl
  have h₁ := abs_halfEven_sub_le q
  have h₂ : (1 : ℚ) ≤ |(halfEven q : ℚ) - n| := by
    exact_mod_cast one_le_abs (sub_ne_zero.2 hne)
  have htri : |(halfEven q : ℚ) - n| ≤ |(halfEven q : ℚ) - q| + |(n : ℚ) - q| := by
    have := abs_sub_le (halfEven q : ℚ) q n
    rwa [abs_sub_comm q n] at this
  linarith

variable {n : Int} {q a b : ℚ} {p w : Nat}

/-- A quotient of integers is rounded by its remainder. -/
theorem halfEven_div (n : Int) {d : Nat} (hd : 0 < d) : halfEven ((n : ℚ) / d) =
    if 2 * (n % d) < d then n / d else if d < 2 * (n % d) then n / d + 1
    else if n / d % 2 = 0 then n / d else n / d + 1 := by
  have hpos : (0 : ℚ) < d := by exact_mod_cast hd
  have hrest : (n : ℚ) / d - ((n / d : Int) : ℚ) = ((n % d : Int) : ℚ) / d := by
    have hsum : (n : ℚ) = d * ((n / d : Int) : ℚ) + ((n % d : Int) : ℚ) := by
      exact_mod_cast (Int.mul_ediv_add_emod n d).symm
    rw [eq_div_iff hpos.ne', sub_mul, div_mul_cancel₀ _ hpos.ne']
    linarith
  have hlt : ((n % d : Int) : ℚ) / d < 1 / 2 ↔ 2 * (n % d) < d := by
    rw [div_lt_div_iff₀ hpos (by norm_num), one_mul, mul_comm]
    exact_mod_cast Iff.rfl
  have hgt : 1 / 2 < ((n % d : Int) : ℚ) / d ↔ (d : Int) < 2 * (n % d) := by
    rw [div_lt_div_iff₀ (by norm_num) hpos, one_mul, mul_comm]
    exact_mod_cast Iff.rfl
  simp only [halfEven, Rat.floor_intCast_div_natCast, hrest, hlt, hgt]

/-- A number near an integer is rounded to it. -/
theorem halfEven_of_near (h : |q - n| < 1 / 2) : halfEven q = n := by
  have hround := abs_le.1 (abs_halfEven_sub_le q)
  have hnear := abs_lt.1 h
  have hlow : (n : ℚ) - 1 < halfEven q := by linarith
  have hhigh : (halfEven q : ℚ) < n + 1 := by linarith
  have hlow : n - 1 < halfEven q := by exact_mod_cast hlow
  have hhigh : halfEven q < n + 1 := by exact_mod_cast hhigh
  omega

theorem halfEven_le (h : q ≤ n) : halfEven q ≤ n := by
  by_contra hgt
  have hn : (n : ℚ) + 1 ≤ halfEven q := by exact_mod_cast not_le.1 hgt
  have hnear := abs_halfEven_sub_le_int q n
  rw [abs_of_nonneg (by linarith), abs_of_nonneg (by linarith)] at hnear
  linarith

theorem le_halfEven (h : (n : ℚ) ≤ q) : n ≤ halfEven q := by
  by_contra hlt
  have hn : (halfEven q : ℚ) + 1 ≤ n := by exact_mod_cast not_le.1 hlt
  have hnear := abs_halfEven_sub_le_int q n
  rw [abs_of_nonpos (by linarith), abs_of_nonpos (by linarith)] at hnear
  linarith

theorem natAbs_halfEven {n : Nat} (h : |q| ≤ n) : (halfEven q).natAbs ≤ n := by
  obtain ⟨hlo, hhi⟩ := abs_le.1 h
  have h₁ : halfEven q ≤ n := halfEven_le (by exact_mod_cast hhi)
  have h₂ : -(n : Int) ≤ halfEven q := le_halfEven (by exact_mod_cast hlo)
  omega

-- ==== rounding to decimal digits

/-- `b ^ e`, for either sign of the exponent. -/
def scale (b : Nat) (e : Int) : ℚ :=
  if 0 ≤ e then ((b ^ e.toNat : Nat) : ℚ)
  else 1 / ((b ^ (-e).toNat : Nat) : ℚ)

theorem scale_eq (b : Nat) (e : Int) : scale b e = (b : ℚ) ^ e := by
  unfold scale
  split_ifs with h
  · obtain ⟨n, rfl⟩ := eq_ofNat_of_zero_le h
    simp
  · obtain ⟨n, hn⟩ := eq_ofNat_of_zero_le (by omega : 0 ≤ -e)
    obtain rfl : e = -n := by omega
    simp

theorem scale_pos {b : Nat} (hb : 0 < b) (e : Int) : 0 < scale b e := by
  rw [scale_eq]
  exact zpow_pos (by exact_mod_cast hb) e

theorem scale_ten (e : Int) : scale 10 e = (10 : ℚ) ^ e := scale_eq 10 e

/-- The exponent of the last of the `p` digits kept of `q`. -/
def lastDigit (p : Nat) (q : ℚ) : Int := Int.log 10 |q| + 1 - p

/-- `q` rounded to `p` significant decimal digits, ties to even. -/
def toDigits (p : Nat) (q : ℚ) : ℚ :=
  halfEven (q / scale 10 (lastDigit p q)) * scale 10 (lastDigit p q)

@[simp] theorem toDigits_zero (p : Nat) : toDigits p 0 = 0 := by
  have h : halfEven 0 = 0 := halfEven_intCast 0
  simp [toDigits, h]

theorem scale_lastDigit_le (hq : q ≠ 0) : scale 10 (lastDigit p q) * 10 ^ p ≤ 10 * |q| := by
  have hlog : (10 : ℚ) ^ log 10 |q| ≤ |q| := by
    simpa using zpow_log_le_self (b := 10) (by norm_num) (abs_pos.2 hq)
  have hexp : scale 10 (lastDigit p q) * 10 ^ p = 10 * (10 : ℚ) ^ log 10 |q| := by
    rw [scale_ten, lastDigit, ← zpow_natCast, ← zpow_add₀ (by norm_num),
      ← zpow_one_add₀ (by norm_num)]
    congr 1
    omega
  rw [hexp]
  linarith

/-- Rounding to `p` digits moves a number by at most half a unit of its
last digit, hence by at most the `2 * 10^(p-1)`-th part of its size. -/
theorem abs_toDigits_sub_le (p : Nat) (q : ℚ) :
    |toDigits p q - q| * 10 ^ p ≤ 5 * |q| := by
  rcases eq_or_ne q 0 with rfl | hq
  · simp
  set s := scale 10 (lastDigit p q) with hs
  have hspos : 0 < s := scale_pos (by norm_num) _
  have hmove : |toDigits p q - q| ≤ s / 2 := by
    have hfac : toDigits p q - q = (halfEven (q / s) - q / s) * s := by
      rw [toDigits, ← hs]
      field_simp
    rw [hfac, abs_mul, abs_of_pos hspos]
    have := abs_halfEven_sub_le (q / s)
    nlinarith
  have hsize : s * 10 ^ p ≤ 10 * |q| := scale_lastDigit_le hq
  calc |toDigits p q - q| * 10 ^ p ≤ s / 2 * 10 ^ p := by gcongr
    _ = s * 10 ^ p / 2 := by ring
    _ ≤ 5 * |q| := by linarith

theorem toDigits_of_digits {c k : Int} (hc : |c| < 10 ^ p) (hq : q = c * (10 : ℚ) ^ k) :
    toDigits p q = q := by
  rcases eq_or_ne q 0 with rfl | hq0
  · simp
  -- the last digit kept is not above the last digit written
  have hle : lastDigit p q ≤ k := by
    have hlt : |q| < (10 : ℚ) ^ (k + p) := by
      rw [hq, abs_mul, abs_of_pos (by positivity : (0 : ℚ) < 10 ^ k),
        zpow_add₀ (by norm_num), mul_comm, zpow_natCast]
      have : (|(c : ℚ)|) < 10 ^ p := by exact_mod_cast hc
      gcongr
    have hlog : log 10 |q| < k + p := by
      rw [← lt_zpow_iff_log_lt (by norm_num) (abs_pos.2 hq0)]
      exact_mod_cast hlt
    unfold lastDigit
    omega
  obtain ⟨n, hn⟩ := eq_ofNat_of_zero_le (by omega : 0 ≤ k - lastDigit p q)
  have hint : q / scale 10 (lastDigit p q) = ((c * 10 ^ n : Int) : ℚ) := by
    rw [scale_ten, div_eq_iff (by positivity)]
    conv_lhs => rw [hq]
    push_cast
    rw [mul_assoc, ← zpow_natCast, ← zpow_add₀ (by norm_num)]
    congr 2
    omega
  rw [toDigits, hint, halfEven_intCast, ← hint]
  exact div_mul_cancel₀ _ (scale_pos (by norm_num) _).ne'

-- ==== binary fractions

/-- The numbers with at most `w` significant bits. -/
def HasBits (w : Nat) (q : ℚ) : Prop := ∃ m e : Int, |m| < 2 ^ w ∧ q = m * (2 : ℚ) ^ e

theorem HasBits.intCast (h : |n| < 2 ^ w) : HasBits w n := ⟨n, 0, h, by simp⟩

/-- The size of the number with the smaller exponent is a bound for the
distance: the distance is a positive multiple of that exponent's power. -/
theorem abs_le_gap {m e f : Int} (hef : e ≤ f) (hm : |m| < 2 ^ w)
    (hne : (m : ℚ) * 2 ^ e ≠ n * 2 ^ f) :
    |(m : ℚ) * 2 ^ e| ≤ 2 ^ w * |(m : ℚ) * 2 ^ e - n * 2 ^ f| := by
  obtain ⟨k, hk⟩ := eq_ofNat_of_zero_le (by omega : 0 ≤ f - e)
  have he : (0 : ℚ) < 2 ^ e := by positivity
  have hf : (2 : ℚ) ^ f = 2 ^ k * 2 ^ e := by
    rw [← zpow_natCast, ← zpow_add₀ (by norm_num)]
    congr 1
    omega
  have hdiff : (m : ℚ) * 2 ^ e - n * 2 ^ f = ((m - n * 2 ^ k : Int) : ℚ) * 2 ^ e := by
    rw [hf]
    push_cast
    ring
  have hint : (m - n * 2 ^ k : Int) ≠ 0 := by
    intro h0
    exact hne (sub_eq_zero.1 (by rw [hdiff, h0]; simp))
  have hone : (1 : ℚ) ≤ |((m - n * 2 ^ k : Int) : ℚ)| := by
    exact_mod_cast one_le_abs hint
  have hmw : |(m : ℚ)| ≤ 2 ^ w := by exact_mod_cast hm.le
  rw [hdiff, abs_mul, abs_mul, abs_of_pos he]
  calc |(m : ℚ)| * 2 ^ e ≤ 2 ^ w * 2 ^ e := by gcongr
    _ ≤ 2 ^ w * (|((m - n * 2 ^ k : Int) : ℚ)| * 2 ^ e) := by
        gcongr
        exact le_mul_of_one_le_left he.le hone

theorem HasBits.abs_le_gap (ha : HasBits w a) (hb : HasBits w b) (hne : a ≠ b) :
    |a| ≤ (2 ^ w + 1) * |a - b| := by
  obtain ⟨m, e, hm, rfl⟩ := ha
  obtain ⟨n, f, hn, rfl⟩ := hb
  set a := (m : ℚ) * 2 ^ e with ha
  set b := (n : ℚ) * 2 ^ f with hb
  have hpos : 0 ≤ |a - b| := abs_nonneg _
  rcases le_total e f with hef | hfe
  · have := Rounding.abs_le_gap hef hm hne
    linarith
  · -- `b` has the bound, and `a` is no further from it than the distance
    have h := Rounding.abs_le_gap hfe hn hne.symm
    rw [← ha, ← hb, abs_sub_comm] at h
    have htri : |a| ≤ |b| + |a - b| := by
      have := abs_sub_abs_le_abs_sub a b
      linarith
    linarith

-- ==== rounding keeps the order

/-- Numbers with `w` bits keep their strict order when they are rounded to
`p` digits, if `p` is large enough for `w`. -/
theorem toDigits_lt (hwp : 2 ^ w + 1 < 10 ^ p / 10) (ha : HasBits w a)
    (hb : HasBits w b) (hab : a < b) : toDigits p a < toDigits p b := by
  have hgap : |a - b| = b - a := by
    rw [abs_of_neg (sub_neg.2 hab)]
    ring
  have hsa : |a| ≤ (2 ^ w + 1) * (b - a) := by
    rw [← hgap]
    exact ha.abs_le_gap hb hab.ne
  have hsb : |b| ≤ (2 ^ w + 1) * (b - a) := by
    rw [← hgap, abs_sub_comm]
    exact hb.abs_le_gap ha hab.ne'
  have hp : ((2 ^ w + 1) * 10 : ℚ) < 10 ^ p := by
    have : (2 ^ w + 1) * 10 < 10 ^ p := by omega
    exact_mod_cast this
  have hea := abs_toDigits_sub_le p a
  have heb := abs_toDigits_sub_le p b
  have hp0 : (0 : ℚ) < 10 ^ p := by positivity
  -- both errors together are less than the gap
  have hmove : |toDigits p a - a| + |toDigits p b - b| < b - a := by
    have hsum : (|toDigits p a - a| + |toDigits p b - b|) * 10 ^ p < (b - a) * 10 ^ p := by
      calc (|toDigits p a - a| + |toDigits p b - b|) * 10 ^ p ≤ 5 * |a| + 5 * |b| := by linarith
        _ ≤ (2 ^ w + 1) * 10 * (b - a) := by linarith
        _ < (b - a) * 10 ^ p := by nlinarith
    exact lt_of_mul_lt_mul_right hsum hp0.le
  have h₁ := le_abs_self (toDigits p a - a)
  have h₂ := neg_abs_le (toDigits p b - b)
  linarith

theorem eq_of_abs_sub_toDigits_le (hwp : 2 ^ w + 1 < 10 ^ p / 10) (ha : HasBits w a)
    (hb : HasBits w b) (h : |b - toDigits p a| ≤ |a - toDigits p a|) : b = a := by
  by_contra hne
  have hpos : 0 < |a - b| := abs_pos.2 (sub_ne_zero.2 (Ne.symm hne))
  have hgap : |a| ≤ (2 ^ w + 1) * |a - b| := ha.abs_le_gap hb (Ne.symm hne)
  have hp : ((2 ^ w + 1) * 10 : ℚ) < 10 ^ p := by
    have : (2 ^ w + 1) * 10 < 10 ^ p := by omega
    exact_mod_cast this
  have herr := abs_toDigits_sub_le p a
  rw [abs_sub_comm] at herr
  have htri : |a - b| ≤ |a - toDigits p a| + |b - toDigits p a| := by
    have := abs_sub_le a (toDigits p a) b
    rwa [abs_sub_comm (toDigits p a) b] at this
  have hp0 : (0 : ℚ) < 10 ^ p := by positivity
  have : |a - b| * 10 ^ p < |a - b| * 10 ^ p :=
    calc |a - b| * 10 ^ p ≤ 2 * (|a - toDigits p a| * 10 ^ p) := by nlinarith
      _ ≤ 10 * |a| := by linarith
      _ ≤ (2 ^ w + 1) * 10 * |a - b| := by linarith
      _ < |a - b| * 10 ^ p := by nlinarith
  exact lt_irrefl _ this

-- ==== rounding to binary digits

/-- The exponent of the last of the `w` bits kept of `q`, not below
`emin`. -/
def lastBit (w : Nat) (emin : Int) (q : ℚ) : Int := max (Int.log 2 |q| + 1 - w) emin

/-- `q` rounded to `w` significant bits, ties to even; numbers below the
range of full precision are rounded to a multiple of `2 ^ emin`. -/
def toBits (w : Nat) (emin : Int) (q : ℚ) : ℚ :=
  halfEven (q / scale 2 (lastBit w emin q)) * scale 2 (lastBit w emin q)

variable {w : Nat} {emin : Int} {q : ℚ}

theorem abs_toBits_sub_le_multiple (n : Int) :
    |toBits w emin q - q| ≤ |(n : ℚ) * (2 : ℚ) ^ lastBit w emin q - q| := by
  set s : ℚ := (2 : ℚ) ^ lastBit w emin q with hs
  have hscale : scale 2 (lastBit w emin q) = s := by
    rw [scale_eq]
    rfl
  have hpos : 0 < s := by positivity
  have hfac : ∀ x : ℚ, |x * s - q| = |x - q / s| * s := by
    intro x
    rw [← abs_of_pos hpos, ← abs_mul, abs_of_pos hpos]
    congr 1
    field_simp
  rw [toBits, hscale, hfac, hfac]
  exact mul_le_mul_of_nonneg_right (abs_halfEven_sub_le_int _ n) hpos.le

theorem abs_toBits_sub_le {m f : Int} (hm : |m| < 2 ^ w) (hf : emin ≤ f) :
    |toBits w emin q - q| ≤ |(m : ℚ) * 2 ^ f - q| := by
  rcases le_or_gt (lastBit w emin q) f with hle | hlt
  · -- a multiple of the last bit kept
    obtain ⟨k, hk⟩ := eq_ofNat_of_zero_le (by omega : 0 ≤ f - lastBit w emin q)
    have hmul : (m : ℚ) * 2 ^ f = ((m * 2 ^ k : Int) : ℚ) * 2 ^ lastBit w emin q := by
      push_cast
      rw [mul_assoc, ← zpow_natCast, ← zpow_add₀ (by norm_num)]
      congr 2
      omega
    rw [hmul]
    exact abs_toBits_sub_le_multiple _
  · -- a number of a lower binade: the foot of the binade of `q` is nearer
    have hlog : lastBit w emin q = log 2 |q| + 1 - w := by
      unfold lastBit at hlt ⊢
      omega
    rcases eq_or_ne q 0 with rfl | hq
    · have hz : toBits w emin 0 = 0 := by
        have h0 : halfEven 0 = 0 := halfEven_intCast 0
        simp [toBits, h0]
      rw [hz, sub_zero, abs_zero]
      exact abs_nonneg _
    rcases Nat.eq_zero_or_pos w with rfl | hw
    · have hm0 : m = 0 := by
        simpa using hm
      simpa [hm0] using @abs_toBits_sub_le_multiple 0 emin q 0
    obtain ⟨w', rfl⟩ : ∃ w', w = w' + 1 := ⟨w - 1, by omega⟩
    set foot : ℚ := (2 : ℚ) ^ log 2 |q| with hfoot
    have hlow : foot ≤ |q| := by
      have := zpow_log_le_self (b := 2) (by norm_num) (abs_pos.2 hq)
      exact_mod_cast this
    have hsmall : |(m : ℚ) * 2 ^ f| ≤ foot := by
      have hm' : |(m : ℚ)| ≤ 2 ^ (w' + 1) := by exact_mod_cast hm.le
      rw [abs_mul, abs_of_pos (by positivity : (0 : ℚ) < 2 ^ f)]
      calc |(m : ℚ)| * 2 ^ f ≤ 2 ^ (w' + 1) * 2 ^ f := by gcongr
        _ = (2 : ℚ) ^ (((w' + 1 : Nat) : Int) + f) := by
            rw [zpow_add₀ (by norm_num), zpow_natCast]
        _ ≤ foot := by
            exact zpow_le_zpow_right₀ (by norm_num) (by omega)
    -- the foot with the sign of `q` is a multiple of the last bit kept
    have hmult : ∀ sg : Int, (sg : ℚ) * foot
        = ((sg * 2 ^ w' : Int) : ℚ) * 2 ^ lastBit (w' + 1) emin q := by
      intro sg
      push_cast
      rw [mul_assoc, ← zpow_natCast, ← zpow_add₀ (by norm_num), hfoot]
      congr 2
      omega
    have habs := abs_le.1 hsmall
    rcases lt_or_gt_of_ne hq with hneg | hpos
    · rw [abs_of_neg hneg] at hlow
      have h := @abs_toBits_sub_le_multiple (w' + 1) emin q (-1 * 2 ^ w')
      rw [← hmult (-1)] at h
      refine h.trans ?_
      push_cast
      rw [abs_of_nonneg (by linarith), abs_of_nonneg (by linarith)]
      linarith
    · rw [abs_of_pos hpos] at hlow
      have h := @abs_toBits_sub_le_multiple (w' + 1) emin q (1 * 2 ^ w')
      rw [← hmult 1] at h
      refine h.trans ?_
      push_cast
      rw [abs_of_nonpos (by linarith), abs_of_nonpos (by linarith)]
      linarith

theorem le_toBits {m f : Int} (hm : |m| < 2 ^ w)
    (hf : emin ≤ f) (h : (m : ℚ) * 2 ^ f ≤ q) : (m : ℚ) * 2 ^ f ≤ toBits w emin q := by
  have hdist := @abs_toBits_sub_le w emin q m f hm hf
  rw [abs_of_nonpos (sub_nonpos.2 h), abs_le] at hdist
  linarith [hdist.1]

theorem toBits_le {m f : Int} (hm : |m| < 2 ^ w)
    (hf : emin ≤ f) (h : q ≤ (m : ℚ) * 2 ^ f) : toBits w emin q ≤ (m : ℚ) * 2 ^ f := by
  have hdist := @abs_toBits_sub_le w emin q m f hm hf
  rw [abs_of_nonneg (sub_nonneg.2 h), abs_le] at hdist
  linarith [hdist.2]

/-- A number with few bits is left as it is. -/
theorem toBits_of_bits {m f : Int} (hm : |m| < 2 ^ w) (hf : emin ≤ f) :
    toBits w emin ((m : ℚ) * 2 ^ f) = (m : ℚ) * 2 ^ f :=
  le_antisymm (toBits_le hm hf le_rfl) (le_toBits hm hf le_rfl)

/-- The last bit kept of a number in a known binade. -/
theorem toBits_of_binade {k : Int} (hlow : (2 : ℚ) ^ k ≤ |q|) (hhigh : |q| < 2 ^ (k + 1))
    (hk : emin ≤ k + 1 - w) :
    toBits w emin q = halfEven (q / 2 ^ (k + 1 - w)) * 2 ^ (k + 1 - w) := by
  have hpos : 0 < |q| := lt_of_lt_of_le (by positivity) hlow
  have hlog : log 2 |q| = k := by
    have hle : k ≤ log 2 |q| := (zpow_le_iff_le_log (by norm_num) hpos).1 (by exact_mod_cast hlow)
    have hlt : log 2 |q| < k + 1 := (lt_zpow_iff_log_lt (by norm_num) hpos).1 (by exact_mod_cast hhigh)
    omega
  have hlast : lastBit w emin q = k + 1 - w := by
    rw [lastBit, hlog, max_eq_left hk]
  rw [toBits, hlast, scale_eq]
  norm_num

/-- Rounding to `w` bits moves a number by at most `2 ^ (-w)` of itself, and by half
of the smallest unit below the range of full precision. -/
theorem abs_toBits_sub_le_relative :
    |toBits w emin q - q| ≤ |q| * 2 ^ (-(w : Int)) + 2 ^ (emin - 1) := by
  rcases eq_or_ne q 0 with rfl | hq
  · have hzero : halfEven 0 = 0 := halfEven_intCast 0
    simp only [toBits, zero_div, hzero, Int.cast_zero, zero_mul, sub_zero, abs_zero, zero_add]
    positivity
  set s : ℚ := (2 : ℚ) ^ lastBit w emin q with hs
  have hpos : 0 < s := by positivity
  have hhalf : |toBits w emin q - q| ≤ s / 2 := by
    have hscale : scale 2 (lastBit w emin q) = s := by
      rw [scale_eq]
      rfl
    have hfac : toBits w emin q - q = (halfEven (q / s) - q / s) * s := by
      rw [toBits, hscale]
      field_simp
    rw [hfac, abs_mul, abs_of_pos hpos]
    linarith [mul_le_mul_of_nonneg_right (abs_halfEven_sub_le (q / s)) hpos.le]
  have hlog : (2 : ℚ) ^ log 2 |q| ≤ |q| := by
    have := zpow_log_le_self (b := 2) (by norm_num) (abs_pos.2 hq)
    exact_mod_cast this
  refine hhalf.trans ?_
  have hunit : s / 2 = (2 : ℚ) ^ (lastBit w emin q - 1) := by
    rw [zpow_sub₀ (by norm_num), zpow_one]
  rw [hunit]
  rcases le_total (log 2 |q| + 1 - w) emin with hle | hle
  · rw [lastBit, max_eq_right hle]
    exact le_add_of_nonneg_left (by positivity)
  · rw [lastBit, max_eq_left hle]
    have hexp : log 2 |q| + 1 - w - 1 = log 2 |q| + -(w : Int) := by ring
    rw [hexp, zpow_add₀ (by norm_num)]
    exact le_add_of_le_of_nonneg (mul_le_mul_of_nonneg_right hlog (by positivity)) (by positivity)

-- ==== integers

/-- `q` without its fraction. -/
def truncate (q : ℚ) : Int := if 0 ≤ q then ⌊q⌋ else ⌈q⌉

theorem truncate_intCast (n : Int) : truncate (n : ℚ) = n := by
  simp [truncate]

/-- A number near an integer loses one if it is the nearer to zero. -/
theorem truncate_of_near (h : |q - n| < 1) :
    truncate q = n - if |q| < |(n : ℚ)| then n.sign else 0 := by
  obtain ⟨hlow, hhigh⟩ := abs_lt.1 h
  unfold truncate
  rcases lt_trichotomy n 0 with hn | rfl | hn
  · have hn' : (n : ℚ) ≤ -1 := by exact_mod_cast (by omega : n ≤ -1)
    have hq : q < 0 := by linarith
    rw [if_neg (not_le.2 hq), abs_of_neg hq, abs_of_neg (by linarith : (n : ℚ) < 0),
      Int.sign_eq_neg_one_of_neg hn, Int.ceil_eq_iff]
    split_ifs <;> push_cast <;> constructor <;> linarith
  · have habs : ¬|q| < |((0 : Int) : ℚ)| := by simp
    rw [if_neg habs]
    split_ifs with hq
    · rw [Int.floor_eq_iff]
      push_cast at *
      constructor <;> linarith
    · rw [Int.ceil_eq_iff]
      push_cast at *
      constructor <;> linarith
  · have hn' : (1 : ℚ) ≤ n := by exact_mod_cast hn
    have hq : 0 ≤ q := by linarith
    rw [if_pos hq, abs_of_nonneg hq, abs_of_pos (by linarith : (0 : ℚ) < n),
      Int.sign_eq_one_of_pos hn, Int.floor_eq_iff]
    split_ifs <;> push_cast <;> constructor <;> linarith

end Rounding
