/-
Arithmetic on numbers: `AddNumberToBsonValue`, `SubtractNumberFromBsonValue` and
`MultiplyWithFactorAndUpdate`.

Integers wrap in 64 bits, and the code looks for overflows itself: for a sum before, for a
product afterwards, by dividing, so that a product that wraps to zero goes unnoticed and the
least integer divided by -1 traps. A difference is a sum with the negated subtrahend, and
the least integer of a type is its own negation.
-/
import DocumentDb.Bson.Number
import DocumentDb.Bson.Reference

namespace DocumentDb

open Int

-- ==== the functions

structure ArithmeticLib where
  /-- The cast of an integer to a double. -/
  doubleOfInt : Int → UInt64
  addDouble : UInt64 → UInt64 → UInt64
  multiplyDouble : UInt64 → UInt64 → UInt64
  negateDouble : UInt64 → UInt64
  addDecimal128Numbers : Decimal128 → Decimal128 → Decimal128
  subtractDecimal128Numbers : Decimal128 → Decimal128 → Decimal128
  multiplyDecimal128Numbers : Decimal128 → Decimal128 → Decimal128

section Functions

variable [BidLib] (lib : ArithmeticLib)

/-- A decimal outside of the range raises an error there. -/
def bsonValueAsDouble : Value → UInt64
  | .double bits => bits
  | .bool b => lib.doubleOfInt b.toNat
  | .int32 n => lib.doubleOfInt n.toInt
  | .int64 n => lib.doubleOfInt n.toInt
  | .dateTime milliseconds => lib.doubleOfInt milliseconds.toInt
  | .decimal128 d => bsonDecimal128AsDouble d
  | _ => 0

variable (current : Value)

def addDoubleToValue (value : UInt64) : Value :=
  match current with
  | .decimal128 d =>
    .decimal128 (lib.addDecimal128Numbers d (getBsonValueAsDecimal128Quantized (.double value)))
  | _ => .double (lib.addDouble (bsonValueAsDouble lib current) value)

/-- With `overflowedFromInt64`. -/
def addInt64ToValue (value : Int64) : Value × Bool :=
  match current with
  | .double _ => (addDoubleToValue lib current (lib.doubleOfInt value.toInt), false)
  | .decimal128 d =>
    (.decimal128 (lib.addDecimal128Numbers d
      (getBsonValueAsDecimal128Quantized (.int64 value))), false)
  | _ =>
    let currentSum := bsonValueAsInt64 current
    if (0 < value ∧ Int64.maxValue - value < currentSum)
        ∨ (value < 0 ∧ currentSum < Int64.minValue - value) then
      (addDoubleToValue lib current (lib.doubleOfInt value.toInt), true)
    else (.int64 (currentSum + value), false)

/-- `AddInt32ToValue`; `overflowedFromInt64` stays as it is, unless
`AddInt64ToValue` sets it. -/
def addInt32ToValue (value : Int32) (overflowedFromInt64 : Bool) : Value × Bool :=
  match current with
  | .double _ =>
    (addDoubleToValue lib current (lib.doubleOfInt value.toInt), overflowedFromInt64)
  | .int64 _ => addInt64ToValue lib current value.toInt64
  | .decimal128 d =>
    (.decimal128 (lib.addDecimal128Numbers d
      (getBsonValueAsDecimal128Quantized (.int32 value))), overflowedFromInt64)
  | _ =>
    let currentValue := bsonValueAsInt64 current + value.toInt64
    if Int32.maxValue.toInt64 < currentValue ∨ currentValue < Int32.minValue.toInt64 then
      (.int64 currentValue, overflowedFromInt64)
    else (.int32 currentValue.toInt32, overflowedFromInt64)

/-- `AddNumberToBsonValue`; there is no result where it returns false. -/
def addNumberToBsonValue (state number : Value) (overflowedFromInt64 : Bool) :
    Option (Value × Bool) :=
  if !state.isNumberOrBool then none
  else
    match number with
    | .int64 n => some (addInt64ToValue lib state n)
    | .int32 n => some (addInt32ToValue lib state n overflowedFromInt64)
    | .double bits => some (addDoubleToValue lib state bits, overflowedFromInt64)
    | .decimal128 d =>
      some (.decimal128 (lib.addDecimal128Numbers (getBsonValueAsDecimal128Quantized state) d),
        overflowedFromInt64)
    | _ => none

def subtractNumberFromBsonValue (state subtrahend : Value) (overflowedFromInt64 : Bool) :
    Option (Value × Bool) :=
  if !state.isNumberOrBool then none
  else
    match subtrahend with
    | .int64 n => some (addInt64ToValue lib state (-n))
    | .int32 n => some (addInt32ToValue lib state (-n) overflowedFromInt64)
    | .double bits =>
      some (addDoubleToValue lib state (lib.negateDouble bits), overflowedFromInt64)
    | .decimal128 d =>
      some (.decimal128 (lib.subtractDecimal128Numbers (getBsonValueAsDecimal128Quantized state) d),
        overflowedFromInt64)
    | _ => none

/-- What `MultiplyWithFactorAndUpdate` does. -/
inductive Multiplied where
  | traps
  | refused
  | stored (state : Value)

/-- The branch for `int64`: `overflow` is what it does for an overflow that it
sees. -/
def multiplyInt64 (state factor : Int64) (overflow : Multiplied) : Multiplied :=
  let product := state * factor
  if product = 0 then .stored (.int64 product)
  else if product = Int64.minValue ∧ factor = -1 then .traps
  else if state ≠ product / factor then overflow
  else .stored (.int64 product)

def multiplyWithFactorAndUpdate (state factor : Value) (convertInt64OverflowToDouble : Bool) :
    Multiplied :=
  let doubles := lib.multiplyDouble (bsonValueAsDouble lib state) (bsonValueAsDouble lib factor)
  if !state.isNumber || !factor.isNumber then .refused
  else
    match state, factor with
    | .decimal128 _, _ | _, .decimal128 _ =>
      .stored (.decimal128 (lib.multiplyDecimal128Numbers
        (getBsonValueAsDecimal128Quantized state) (getBsonValueAsDecimal128Quantized factor)))
    | .double _, _ | _, .double _ => .stored (.double doubles)
    | .int64 _, _ | _, .int64 _ =>
      multiplyInt64 (bsonValueAsInt64 state) (bsonValueAsInt64 factor)
        (if convertInt64OverflowToDouble then .stored (.double doubles) else .refused)
    | _, _ =>
      let product := bsonValueAsInt64 state * bsonValueAsInt64 factor
      if product < Int32.minValue.toInt64 ∨ Int32.maxValue.toInt64 < product then
        .stored (.int64 product)
      else .stored (.int32 product.toInt32)

end Functions

-- ==== integers

/-- An operand that is an integer. -/
inductive IntOperand where
  | int32 (n : Int32)
  | int64 (n : Int64)

namespace IntOperand

def toValue : IntOperand → Value
  | .int32 n => .int32 n
  | .int64 n => .int64 n

def toInt : IntOperand → Int
  | .int32 n => n.toInt
  | .int64 n => n.toInt

def isMin : IntOperand → Prop
  | .int32 n => n = Int32.minValue
  | .int64 n => n = Int64.minValue

def neg : IntOperand → IntOperand
  | .int32 n => .int32 (-n)
  | .int64 n => .int64 (-n)

theorem neg_of_isMin {x : IntOperand} (h : x.isMin) : x.neg = x ∧ x.toInt < 0 := by
  cases x <;> cases h <;> exact ⟨rfl, by decide⟩

theorem toInt_neg {x : IntOperand} (h : ¬ x.isMin) : x.neg.toInt = -x.toInt := by
  cases x with
  | int32 n =>
    have hne := mt Int32.toInt_inj.1 h
    rw [Int32.toInt_minValue] at hne
    have := n.le_toInt
    have := n.toInt_lt
    exact (Int32.toInt_neg n).trans (bmod_eq_of_le (by omega) (by omega))
  | int64 n =>
    have hne := mt Int64.toInt_inj.1 h
    rw [Int64.toInt_minValue] at hne
    have := n.le_toInt
    have := n.toInt_lt
    exact (Int64.toInt_neg n).trans (bmod_eq_of_le (by omega) (by omega))

end IntOperand

def Value.integer? : Value → Option Int
  | .int32 n => some n.toInt
  | .int64 n => some n.toInt
  | _ => none

/-- An integer of 64 bits. -/
abbrev FitsInt64 (n : Int) : Prop := -2 ^ 63 ≤ n ∧ n < 2 ^ 63

theorem IntOperand.fitsInt64 (x : IntOperand) : FitsInt64 x.toInt := by
  cases x with
  | int32 n =>
    have := n.le_toInt
    have := n.toInt_lt
    constructor <;> simp only [toInt] <;> omega
  | int64 n => exact ⟨n.le_toInt, n.toInt_lt⟩

-- ==== sums

/-- The sum of an integer and `d` is stored, or the double sum with the flag
set where it does not fit. -/
structure StoresSum (lib : ArithmeticLib) (state : IntOperand) (d : Int)
    (result : Option (Value × Bool)) : Prop where
  exact : FitsInt64 (state.toInt + d) →
    ∃ v flag, result = some (v, flag) ∧ v.integer? = some (state.toInt + d)
  promoted : ¬ FitsInt64 (state.toInt + d) → result
    = some (.double (lib.addDouble (lib.doubleOfInt state.toInt) (lib.doubleOfInt d)), true)

section Sums

variable {lib : ArithmeticLib} {state : IntOperand}

theorem overflows_iff {sum value : Int64} :
    (0 < value ∧ Int64.maxValue - value < sum) ∨ (value < 0 ∧ sum < Int64.minValue - value)
      ↔ ¬ FitsInt64 (sum.toInt + value.toInt) := by
  have hsum := sum.le_toInt
  have hsum' := sum.toInt_lt
  have hvalue := value.le_toInt
  have hvalue' := value.toInt_lt
  have hmax (h : 0 < value.toInt) : (Int64.maxValue - value).toInt = 2 ^ 63 - 1 - value.toInt := by
    rw [Int64.toInt_sub, Int64.toInt_maxValue]
    exact bmod_eq_of_le (by omega) (by omega)
  have hmin (h : value.toInt < 0) : (Int64.minValue - value).toInt = -2 ^ 63 - value.toInt := by
    rw [Int64.toInt_sub, Int64.toInt_minValue]
    exact bmod_eq_of_le (by omega) (by omega)
  simp only [Int64.lt_iff_toInt_lt, Int64.toInt_zero, FitsInt64]
  rcases Int.lt_trichotomy value.toInt 0 with h | h | h
  · rw [hmin h]
    omega
  · omega
  · rw [hmax h]
    omega

variable [BidLib]

theorem addInt64ToValue_storesSum (value : Int64) :
    StoresSum lib state value.toInt (some (addInt64ToValue lib state.toValue value)) := by
  have hstate : ∃ n : Int64, n.toInt = state.toInt ∧ addInt64ToValue lib state.toValue value
        = if (0 < value ∧ Int64.maxValue - value < n)
              ∨ (value < 0 ∧ n < Int64.minValue - value) then
            (.double (lib.addDouble (lib.doubleOfInt state.toInt)
              (lib.doubleOfInt value.toInt)), true)
          else (.int64 (n + value), false) := by
    cases state with
    | int32 n => exact ⟨n.toInt64, Int32.toInt_toInt64 n, rfl⟩
    | int64 n => exact ⟨n, rfl, rfl⟩
  obtain ⟨n, hn, hadd⟩ := hstate
  have hoverflows := @overflows_iff n value
  rw [hn] at hoverflows
  rw [hadd]
  constructor
  · intro hfits
    rw [if_neg fun h => hoverflows.1 h hfits]
    refine ⟨_, _, rfl, congrArg some ?_⟩
    rw [Int64.toInt_add, hn]
    exact bmod_eq_of_le hfits.1 hfits.2
  · intro hfits
    rw [if_pos (hoverflows.2 hfits)]

theorem addInt32ToValue_storesSum (value : Int32) (flag : Bool) :
    StoresSum lib state value.toInt (some (addInt32ToValue lib state.toValue value flag)) := by
  cases state with
  | int64 n =>
    rw [← Int32.toInt_toInt64]
    exact @addInt64ToValue_storesSum lib (.int64 n) _ value.toInt64
  | int32 n =>
    have hn := n.le_toInt
    have hn' := n.toInt_lt
    have hvalue := value.le_toInt
    have hvalue' := value.toInt_lt
    have hsum : (n.toInt64 + value.toInt64).toInt = n.toInt + value.toInt := by
      rw [Int64.toInt_add, Int32.toInt_toInt64, Int32.toInt_toInt64]
      exact bmod_eq_of_le (by omega) (by omega)
    constructor
    · intro _
      simp only [addInt32ToValue, IntOperand.toValue, bsonValueAsInt64, Int64.lt_iff_toInt_lt, hsum]
      split_ifs with hrange
      · exact ⟨_, _, rfl, congrArg some hsum⟩
      · refine ⟨_, _, rfl, congrArg some ?_⟩
        rw [Int64.toInt_toInt32, hsum]
        simp only [Int32.toInt_toInt64, Int32.toInt_maxValue, Int32.toInt_minValue] at hrange
        exact bmod_eq_of_le (by omega) (by omega)
    · intro hfits
      refine absurd ?_ hfits
      simp only [FitsInt64, IntOperand.toInt]
      omega

omit [BidLib] in
theorem StoresSum.not_neg {d : Int} {result : Option (Value × Bool)} (hneg : d < 0)
    (hd : -2 ^ 63 ≤ d) (h : StoresSum lib state d result) : ¬ StoresSum lib state (-d) result := by
  intro h'
  by_cases hfits : FitsInt64 (state.toInt + d)
  · obtain ⟨v, flag, rfl, hv⟩ := h.exact hfits
    by_cases hfits' : FitsInt64 (state.toInt + -d)
    · obtain ⟨v', flag', hsame, hv'⟩ := h'.exact hfits'
      cases hsame
      rw [hv] at hv'
      have := Option.some.inj hv'
      omega
    · cases h'.promoted hfits'
      cases hv
  · have hresult := h.promoted hfits
    by_cases hfits' : FitsInt64 (state.toInt + -d)
    · obtain ⟨v, flag, rfl, hv⟩ := h'.exact hfits'
      cases hresult
      cases hv
    · have hstate := state.fitsInt64
      omega

theorem addNumberToBsonValue_storesSum (number : IntOperand) (flag : Bool) :
    StoresSum lib state number.toInt
      (addNumberToBsonValue lib state.toValue number.toValue flag) := by
  have hnumber : state.toValue.isNumberOrBool := by
    cases state <;> rfl
  unfold addNumberToBsonValue
  rw [hnumber]
  cases number with
  | int32 n => exact addInt32ToValue_storesSum n flag
  | int64 n => exact addInt64ToValue_storesSum n

/-- Sums and differences of integers are exact or promoted, except for the
difference with the least integer of a type. -/
theorem sums_exact_iff (lib : ArithmeticLib) (state number : IntOperand) (flag : Bool) :
    StoresSum lib state number.toInt (addNumberToBsonValue lib state.toValue number.toValue flag)
      ∧ StoresSum lib state (-number.toInt)
        (subtractNumberFromBsonValue lib state.toValue number.toValue flag)
      ↔ ¬ number.isMin := by
  have hsubtract : subtractNumberFromBsonValue lib state.toValue number.toValue flag
      = addNumberToBsonValue lib state.toValue number.neg.toValue flag := by
    cases number <;> rfl
  rw [hsubtract]
  refine (and_iff_right (addNumberToBsonValue_storesSum number flag)).trans ?_
  have hadd := @addNumberToBsonValue_storesSum lib state _ number.neg flag
  by_cases hmin : number.isMin
  · obtain ⟨hneg, hlt⟩ := IntOperand.neg_of_isMin hmin
    refine iff_of_false ?_ (not_not.2 hmin)
    rw [hneg] at hadd ⊢
    exact hadd.not_neg hlt number.fitsInt64.1
  · rw [IntOperand.toInt_neg hmin] at hadd
    exact iff_of_true hadd hmin

end Sums

-- ==== products

/-- The product of two integers is stored; or it does not fit, and then the
product of the doubles is, or nothing. -/
def MultipliesExactly (lib : ArithmeticLib) (state factor : IntOperand) (convert : Bool) :
    Multiplied → Prop
  | .traps => False
  | .refused => ¬ FitsInt64 (state.toInt * factor.toInt) ∧ convert = false
  | .stored v => v.integer? = some (state.toInt * factor.toInt)
    ∨ ¬ FitsInt64 (state.toInt * factor.toInt) ∧ convert = true
      ∧ v = .double (lib.multiplyDouble (lib.doubleOfInt state.toInt)
        (lib.doubleOfInt factor.toInt))

theorem tdiv_eq_iff {a b p k : Int} (hb : b ≠ 0) (hb' : b.natAbs ≤ 2 ^ 63)
    (hp : p = a * b + k * 2 ^ 64) : p.tdiv b = a ↔ k = 0 := by
  constructor
  · intro hdiv
    have hmod := mul_tdiv_add_tmod p b
    have hlt : (p.tmod b).natAbs < b.natAbs := by
      rw [natAbs_tmod]
      exact Nat.mod_lt _ (natAbs_pos.2 hb)
    rw [hdiv, Int.mul_comm b a] at hmod
    omega
  · rintro rfl
    rw [hp, Int.zero_mul, Int.add_zero]
    exact mul_tdiv_cancel a hb

section Products

variable {lib : ArithmeticLib} {state factor : IntOperand} {convert : Bool}

theorem multiplyInt64_exact_iff {a b : Int64} (ha : a.toInt = state.toInt)
    (hb : b.toInt = factor.toInt) : MultipliesExactly lib state factor convert (multiplyInt64 a b
        (if convert then .stored (.double (lib.multiplyDouble (lib.doubleOfInt state.toInt)
          (lib.doubleOfInt factor.toInt))) else .refused))
      ↔ ¬ (state.toInt = -2 ^ 63 ∧ factor.toInt = -1)
        ∧ ((2 ^ 64 : Int) ∣ state.toInt * factor.toInt → state.toInt * factor.toInt = 0) := by
  obtain ⟨k, hk⟩ : ∃ k, (a * b).toInt = state.toInt * factor.toInt + k * 2 ^ 64 := by
    rw [Int64.toInt_mul, ha, hb, bmod_eq_self_sub_bdiv_mul]
    exact ⟨-(state.toInt * factor.toInt).bdiv (2 ^ 64), by omega⟩
  have hle := (a * b).le_toInt
  have hlt := (a * b).toInt_lt
  have hstate := state.fitsInt64
  have hfits : FitsInt64 (state.toInt * factor.toInt) ↔ k = 0 := by
    unfold FitsInt64
    omega
  unfold FitsInt64 at hstate
  unfold multiplyInt64
  by_cases hzero : a * b = 0
  · -- nothing is tested
    rw [if_pos hzero]
    rw [hzero, Int64.toInt_zero] at hk
    have hproduct : state.toInt * factor.toInt = -k * 2 ^ 64 := by omega
    have hexact : MultipliesExactly lib state factor convert (.stored (.int64 (a * b)))
        ↔ state.toInt * factor.toInt = 0 := by
      simp [MultipliesExactly, Value.integer?, hzero, eq_comm]
    rw [hexact]
    constructor
    · intro h
      refine ⟨?_, fun _ => h⟩
      rintro ⟨hs, hf⟩
      rw [hs, hf] at h
      omega
    · intro h
      exact h.2 ⟨-k, by rw [hproduct, Int.mul_comm]⟩
  rw [if_neg hzero]
  have hone : b = -1 ↔ factor.toInt = -1 := by
    rw [← hb, ← Int64.toInt_inj]
    rfl
  have hmin : a * b = Int64.minValue ↔ state.toInt * factor.toInt + k * 2 ^ 64 = -2 ^ 63 := by
    rw [← hk, ← Int64.toInt_inj, Int64.toInt_minValue]
  by_cases htrap : a * b = Int64.minValue ∧ b = -1
  · rw [if_pos htrap]
    obtain ⟨hproduct, hfactor⟩ := htrap
    rw [hmin, hone.1 hfactor] at hproduct
    exact iff_of_false id fun h => h.1 ⟨by omega, hone.1 hfactor⟩
  rw [if_neg htrap]
  have hcondition : ¬ (state.toInt = -2 ^ 63 ∧ factor.toInt = -1)
      ∧ ((2 ^ 64 : Int) ∣ state.toInt * factor.toInt → state.toInt * factor.toInt = 0) := by
    constructor
    · rintro ⟨hs, hf⟩
      rw [hs, hf] at hk
      refine htrap ⟨hmin.2 ?_, hone.2 hf⟩
      rw [hs, hf]
      omega
    · rintro ⟨c, hc⟩
      refine absurd (Int64.toInt_inj.1 ?_) hzero
      rw [hk, hc, Int64.toInt_zero]
      omega
  have hne : b.toInt ≠ 0 := by
    intro h
    apply hzero
    rw [Int64.toInt_inj.1 (h.trans Int64.toInt_zero.symm), Int64.mul_zero]
  have hdiv : ((a * b) / b).toInt = (a * b).toInt.tdiv b.toInt := by
    by_cases hleft : a * b = Int64.minValue
    · exact Int64.toInt_div_of_ne_right _ _ fun h => htrap ⟨hleft, h⟩
    · exact Int64.toInt_div_of_ne_left _ _ hleft
  have hquotient : a = (a * b) / b ↔ k = 0 := by
    rw [← Int64.toInt_inj, hdiv, eq_comm, ha]
    refine tdiv_eq_iff hne ?_ (hb ▸ hk)
    have := b.le_toInt
    have := b.toInt_lt
    omega
  refine iff_of_true ?_ hcondition
  by_cases hk0 : k = 0
  · rw [if_neg (not_not.2 (hquotient.2 hk0))]
    left
    simp [Value.integer?, hk, hk0]
  · rw [if_pos (mt hquotient.1 hk0)]
    cases convert with
    | true => exact Or.inr ⟨mt hfits.1 hk0, rfl, rfl⟩
    | false => exact ⟨mt hfits.1 hk0, rfl⟩

variable [BidLib]

/-- Products of integers are exact or promoted, except for the least integer
with -1 and for products that are a multiple of 2 ^ 64. -/
theorem products_exact_iff (lib : ArithmeticLib) (state factor : IntOperand) (convert : Bool) :
    MultipliesExactly lib state factor convert
        (multiplyWithFactorAndUpdate lib state.toValue factor.toValue convert)
      ↔ ¬ (state.toInt = -2 ^ 63 ∧ factor.toInt = -1)
        ∧ ((2 ^ 64 : Int) ∣ state.toInt * factor.toInt → state.toInt * factor.toInt = 0) := by
  cases state with
  | int64 a =>
    cases factor with
    | int64 b => exact multiplyInt64_exact_iff rfl rfl
    | int32 b => exact multiplyInt64_exact_iff rfl (Int32.toInt_toInt64 b)
  | int32 a =>
    cases factor with
    | int64 b => exact multiplyInt64_exact_iff (Int32.toInt_toInt64 a) rfl
    | int32 b =>
      have ha := a.le_toInt
      have ha' := a.toInt_lt
      have hbound : (a.toInt * b.toInt).natAbs ≤ 2 ^ 31 * 2 ^ 31 := by
        rw [natAbs_mul]
        have := b.le_toInt
        have := b.toInt_lt
        exact Nat.mul_le_mul (by omega) (by omega)
      have hproduct : (a.toInt64 * b.toInt64).toInt = a.toInt * b.toInt := by
        rw [Int64.toInt_mul, Int32.toInt_toInt64, Int32.toInt_toInt64]
        exact bmod_eq_of_le (by omega) (by omega)
      refine iff_of_true ?_ ⟨fun h => ?_, fun ⟨c, hc⟩ => ?_⟩
      · show MultipliesExactly lib _ _ convert (if _ then _ else _)
        split_ifs with hrange
        · exact Or.inl (congrArg some hproduct)
        · refine Or.inl (congrArg some ?_)
          simp only [bsonValueAsInt64, IntOperand.toValue, Int64.lt_iff_toInt_lt, hproduct,
            Int32.toInt_toInt64, Int32.toInt_maxValue, Int32.toInt_minValue] at hrange
          simp only [bsonValueAsInt64, IntOperand.toValue, Int64.toInt_toInt32, hproduct]
          exact bmod_eq_of_le (by omega) (by omega)
      · have : a.toInt = -2 ^ 63 := h.1
        omega
      · have : a.toInt * b.toInt = 2 ^ 64 * c := hc
        omega

end Products

-- ==== the exceptions

/-- Some arithmetic on doubles and decimals; the integers below do not use it. -/
def ArithmeticLib.trivial : ArithmeticLib :=
  ⟨fun _ => 0, fun x _ => x, fun x _ => x, id, fun x _ => x, fun x _ => x, fun x _ => x⟩

/-- The difference of zero and the least `int32` is stored as that `int32`. -/
theorem difference_with_min_not_exact : let : BidLib := BidLib.reference
    ¬ StoresSum .trivial (.int32 0) (-Int32.minValue.toInt)
      (subtractNumberFromBsonValue .trivial (.int32 0) (.int32 Int32.minValue) false) := by
  intro _ h
  obtain ⟨v, flag, hv, hexact⟩ := h.exact (by decide)
  cases hv
  exact absurd hexact (by decide)

/-- The square of 2 ^ 32 is stored as zero. -/
theorem product_wraps_to_zero : let : BidLib := BidLib.reference
    ¬ MultipliesExactly .trivial (.int64 (2 ^ 32)) (.int64 (2 ^ 32)) true
      (multiplyWithFactorAndUpdate .trivial (.int64 (2 ^ 32)) (.int64 (2 ^ 32)) true) := by
  intro _ h
  rcases h with h | ⟨-, -, h⟩
  · exact absurd h (by decide)
  · cases h

end DocumentDb
