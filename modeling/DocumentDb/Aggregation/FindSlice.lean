/-
`$slice` in the projection of a find.

Arguments outside of `int32` become the largest `int32`, whatever their sign, so a start
before the range becomes one behind the end; and the smallest `int32` is its own negation.
Elements that are code with a zero are cut (`isSlice_iff`).
-/
import DocumentDb.Bson.Element
import DocumentDb.Bson.Number

namespace DocumentDb.FindSlice

open List Int

-- ==== the source

structure SliceProjectionData where
  numToSkip : Int32
  numToReturn : Int32
  isArgumentNullOrUndefined : Bool := false

/-- The errors of `HandleSliceInputData`. -/
inductive SliceError where
  /-- "$slice takes 2 arguments, but %d were passed in." -/
  | arguments (sliceArrayLength : Nat)
  /-- "First argument to $slice must be an number, but is of type: %s" -/
  | firstArgument (type : BsonType)
  /-- "Second argument to $slice must be a positive number, but is of type: %s" -/
  | secondArgument (type : BsonType)
  /-- "Second argument to $slice must be a positive number" -/
  | notPositive

/-- The number of a double or a decimal; for `IsBsonValueNaN` and
`IsBsonValueInfinity`. -/
def specialNum : Value → Num
  | .double bits => binary64Num bits
  | .decimal128 d => d.num
  | _ => .fin 0

/-- A number as an `int32`, or the largest one. -/
def saturated (v : Value) : Int32 :=
  if isBsonValue32BitInteger false v then bsonValueAsInt32 v else Int32.maxValue

def isNullOrUndefined (v : Value) : Bool := v.type = .null || v.type = .undefined

def readNumToReturn (numToSkip : Int32) (v : Value) : Except SliceError SliceProjectionData :=
  if isNullOrUndefined v then .ok ⟨numToSkip, 0, true⟩
  else if !v.isNumber || specialNum v = .nan || specialNum v = .negInf then
    .error (.secondArgument v.type)
  else
    let numToReturn := if specialNum v = .posInf then Int32.maxValue else saturated v
    if numToReturn ≤ 0 then .error .notPositive else .ok { numToSkip, numToReturn }

def handleSliceInputData (sliceOperatorValue : Value) : Except SliceError SliceProjectionData :=
  match sliceOperatorValue with
  | .array [first, second] =>
    if isNullOrUndefined first then .ok ⟨0, 0, true⟩
    else if !first.isNumber then .error (.firstArgument first.type)
    else
      readNumToReturn (if specialNum first = .nan || specialNum first = .negInf then 0
          else if specialNum first = .posInf then Int32.maxValue
          else saturated first) second
  | .array arguments => .error (.arguments arguments.length)
  | v =>
    if v.isNumber then
      match specialNum v with
      | .nan => .ok { numToSkip := Int32.maxValue, numToReturn := 0 }
      | .posInf | .negInf => .ok { numToSkip := 0, numToReturn := Int32.maxValue }
      | .fin _ => .ok { numToSkip := 0, numToReturn := saturated v }
    else .error (.firstArgument v.type)

def writeNewArrayForDollarSlice (numToSkip numToReturn : Int32) (elements : List Value) :
    List Value :=
  ((elements.drop numToSkip.toInt.toNat).take numToReturn.toInt.toNat).map appendValue

/-- The array case of `SliceHandlerFunc`. -/
def sliceArray (data : SliceProjectionData) (elements : List Value) : List Value :=
  let sourceArrayLength := Int32.ofNat elements.length
  let numToReturn := if data.numToReturn < 0 then -data.numToReturn else data.numToReturn
  let numToSkip :=
    if data.numToReturn < 0 then
      if numToReturn < sourceArrayLength then sourceArrayLength - numToReturn else 0
    else if data.numToSkip < 0 then
      if -data.numToSkip < sourceArrayLength then sourceArrayLength + data.numToSkip else 0
    else data.numToSkip
  if numToSkip < sourceArrayLength then
    writeNewArrayForDollarSlice numToSkip numToReturn elements
  else []

/-- The value that is written. -/
def sliceHandlerFunc (data : SliceProjectionData) (isInNestedArray : Bool) : Value → Value
  | .array elements =>
    if data.isArgumentNullOrUndefined then .null
    else if isInNestedArray then appendValue (.array elements)
    else .array (sliceArray data elements)
  | sourceValue => if data.isArgumentNullOrUndefined then .null else appendValue sourceValue

-- ==== the purpose

/-- An integer as a value. -/
inductive IntegerValue where
  | int32 (n : Int32)
  | int64 (n : Int64)

namespace IntegerValue

def toValue : IntegerValue → Value
  | int32 n => .int32 n
  | int64 n => .int64 n

def toInt : IntegerValue → Int
  | int32 n => n.toInt
  | int64 n => n.toInt

end IntegerValue

/-- The arguments: a count, or a window with a start and a positive length. -/
inductive SliceArgument where
  | count (k : IntegerValue)
  | window (s k : IntegerValue) (pos : 0 < k.toInt)

namespace SliceArgument

def toValue : SliceArgument → Value
  | count k => k.toValue
  | window s k _ => .array [s.toValue, k.toValue]

def slice (elements : List Value) : SliceArgument → List Value
  | count k =>
    if 0 ≤ k.toInt then elements.take k.toInt.toNat
    else elements.drop (elements.length - (-k.toInt).toNat)
  | window s k _ =>
    let start := if 0 ≤ s.toInt then s.toInt.toNat else (elements.length + s.toInt).toNat
    (elements.drop start).take k.toInt.toNat

/-- The arguments for which the `int32` arithmetic is right. -/
def InRange : SliceArgument → Prop
  | count k => k.toInt ≠ -2 ^ 31
  | window s _ _ => -2 ^ 31 ≤ s.toInt

end SliceArgument

-- ==== `int32` arithmetic

theorem toInt_saturated (k : IntegerValue) : (saturated k.toValue).toInt
    = if -2 ^ 31 ≤ k.toInt ∧ k.toInt < 2 ^ 31 then k.toInt else 2 ^ 31 - 1 := by
  cases k with
  | int32 n =>
    rw [if_pos ⟨n.le_toInt, n.toInt_lt⟩]
    rfl
  | int64 n =>
    show (ite (decide (-2 ^ 31 ≤ n.toInt ∧ n.toInt < 2 ^ 31)) n.toInt32
      Int32.maxValue).toInt = ite (-2 ^ 31 ≤ n.toInt ∧ n.toInt < 2 ^ 31) n.toInt _
    simp only [decide_eq_true_eq]
    split_ifs with hrange
    · rw [Int64.toInt_toInt32, bmod_eq_of_le (by omega) (by omega)]
    · rfl

section SliceArray

variable {elements : List Value} {data : SliceProjectionData}

theorem sliceArray_of_neg (hlength : elements.length < 2 ^ 31)
    (hneg : data.numToReturn.toInt < 0) (hmin : data.numToReturn.toInt ≠ -2 ^ 31) :
    sliceArray data elements
      = (elements.drop (elements.length - (-data.numToReturn.toInt).toNat)).map appendValue := by
  have hle := data.numToReturn.le_toInt
  have hofNat : (Int32.ofNat elements.length).toInt = elements.length :=
    Int32.toInt_ofNat_of_lt hlength
  have hnegate : (-data.numToReturn).toInt = -data.numToReturn.toInt := by
    rw [Int32.toInt_neg, bmod_eq_of_le (by omega) (by omega)]
  unfold sliceArray writeNewArrayForDollarSlice
  simp only [Int32.lt_iff_toInt_lt, Int32.toInt_zero, if_pos hneg, hofNat, hnegate]
  by_cases hlong : -data.numToReturn.toInt < elements.length
  · have hskip : (Int32.ofNat elements.length - -data.numToReturn).toInt
        = elements.length + data.numToReturn.toInt := by
      rw [Int32.toInt_sub, hofNat, hnegate, bmod_eq_of_le (by omega) (by omega)]
      omega
    rw [if_pos hlong, hskip, if_pos (by omega), take_of_length_le (by rw [length_drop]; omega)]
    congr 2
    omega
  · rw [if_neg hlong, Int32.toInt_zero, toNat_zero, drop_zero,
      Nat.sub_eq_zero_of_le (by omega), drop_zero]
    split_ifs with hempty
    · rw [take_of_length_le (by omega)]
    · rw [eq_nil_of_length_eq_zero (show elements.length = 0 by omega), map_nil]

theorem sliceArray_min (hmin : data.numToReturn = Int32.minValue) :
    sliceArray data elements = [] := by
  have hneg : (Int32.minValue : Int32) < 0 := by decide
  have hnegate : -Int32.minValue = (Int32.minValue : Int32) := by decide
  have htake : (Int32.minValue : Int32).toInt.toNat = 0 := by decide
  unfold sliceArray writeNewArrayForDollarSlice
  simp only [hmin, if_pos hneg, hnegate, htake, take_zero, map_nil, ite_self]

theorem sliceArray_of_nonneg (hlength : elements.length < 2 ^ 31)
    (hreturn : 0 ≤ data.numToReturn.toInt) : sliceArray data elements
      = ((elements.drop (if 0 ≤ data.numToSkip.toInt then data.numToSkip.toInt.toNat
          else (elements.length + data.numToSkip.toInt).toNat)).take
        data.numToReturn.toInt.toNat).map appendValue := by
  have hle := data.numToSkip.le_toInt
  have hofNat : (Int32.ofNat elements.length).toInt = elements.length :=
    Int32.toInt_ofNat_of_lt hlength
  unfold sliceArray writeNewArrayForDollarSlice
  simp only [Int32.lt_iff_toInt_lt, Int32.toInt_zero, if_neg (not_lt.2 hreturn)]
  have hshort : ∀ skip : Int, (elements.length : Int) ≤ skip →
      ((elements.drop skip.toNat).take data.numToReturn.toInt.toNat).map appendValue = [] := by
    intro skip hskip
    rw [drop_eq_nil_of_le (by omega), take_nil, map_nil]
  rcases lt_or_ge data.numToSkip.toInt 0 with hskip | hskip
  · rw [if_neg (not_le.2 hskip), if_pos hskip]
    have hback : (Int32.ofNat elements.length + data.numToSkip).toInt
        = elements.length + data.numToSkip.toInt := by
      rw [Int32.toInt_add, hofNat, bmod_eq_of_le (by omega) (by omega)]
    by_cases hlong : (-data.numToSkip).toInt < elements.length
    · rw [hofNat, if_pos hlong, hback, if_pos (by omega)]
    · -- the smallest start is its own negation and would be short
      have hmin : data.numToSkip.toInt ≠ -2 ^ 31 := by
        intro hmin
        rw [Int32.toInt_neg, hmin] at hlong
        exact hlong ((by decide : (- -2 ^ 31 : Int).bmod (2 ^ 32) < 0).trans_le (by omega))
      have hnegate : (-data.numToSkip).toInt = -data.numToSkip.toInt := by
        rw [Int32.toInt_neg, bmod_eq_of_le (by omega) (by omega)]
      rw [hofNat, if_neg hlong, Int32.toInt_zero, toNat_zero,
        toNat_of_nonpos (show elements.length + data.numToSkip.toInt ≤ 0 by omega)]
      split_ifs with hempty
      · rfl
      · exact (hshort 0 (by omega)).symm
  · rw [if_pos hskip, if_neg (not_lt.2 hskip), hofNat]
    split_ifs with hlong
    · rfl
    · exact (hshort _ (not_lt.1 hlong)).symm

end SliceArray

-- ==== the whole

namespace SliceArgument

def data : SliceArgument → SliceProjectionData
  | count k => { numToSkip := 0, numToReturn := saturated k.toValue }
  | window s k _ => { numToSkip := saturated s.toValue, numToReturn := saturated k.toValue }

variable (argument : SliceArgument)

theorem data_notNull : argument.data.isArgumentNullOrUndefined = false := by
  cases argument <;> rfl

theorem handleSliceInputData_toValue :
    handleSliceInputData argument.toValue = .ok argument.data := by
  cases argument with
  | count k => cases k <;> rfl
  | window s k pos =>
    have hpos : ¬ saturated k.toValue ≤ 0 := by
      rw [Int32.le_iff_toInt_le, toInt_saturated, Int32.toInt_zero]
      split_ifs <;> omega
    cases s <;> cases k <;> exact if_neg hpos

end SliceArgument

/-- A `$slice` of an array. -/
structure Slicing where
  argument : SliceArgument
  elements : List Value
  elements_fit : (encodeElems 0 elements).length < 2 ^ 31
  isInNestedArray : Bool

namespace Slicing

variable (slicing : Slicing)

def IsSlice : Prop :=
  ∃ data, handleSliceInputData slicing.argument.toValue = .ok data
    ∧ sliceHandlerFunc data slicing.isInNestedArray (.array slicing.elements)
      = .array (slicing.argument.slice slicing.elements)

theorem length_lt : slicing.elements.length < 2 ^ 31 := by
  have hfit := (length_le_encodeElems 0 _).trans_lt slicing.elements_fit
  omega

/-- For an argument in range the slice is written. -/
theorem sliceArray_data_of_inRange (h : slicing.argument.InRange) :
    sliceArray slicing.argument.data slicing.elements
      = (slicing.argument.slice slicing.elements).map appendValue := by
  obtain ⟨argument, elements, fit, nested⟩ := slicing
  have hlength := length_lt ⟨argument, elements, fit, nested⟩
  dsimp only at hlength h ⊢
  cases argument with
  | count k =>
    have hreturn : (SliceArgument.count k).data.numToReturn.toInt = _ := toInt_saturated k
    have hmin : k.toInt ≠ -2 ^ 31 := h
    show _ = (ite _ _ _ : List Value).map appendValue
    by_cases hrange : -2 ^ 31 ≤ k.toInt ∧ k.toInt < 2 ^ 31
    · rw [if_pos hrange] at hreturn
      split_ifs with hneg
      · rw [sliceArray_of_nonneg hlength (by omega), hreturn]
        rfl
      · rw [sliceArray_of_neg hlength (by omega) (by omega), hreturn]
    · rw [if_neg hrange] at hreturn
      rw [sliceArray_of_nonneg hlength (by omega), hreturn]
      show (elements.take _).map appendValue = _
      rw [take_of_length_le (by omega)]
      split_ifs with hneg
      · rw [take_of_length_le (by omega)]
      · rw [Nat.sub_eq_zero_of_le (by omega), drop_zero]
  | window s k pos =>
    have hskip : (SliceArgument.window s k pos).data.numToSkip.toInt = _ := toInt_saturated s
    have hreturn : (SliceArgument.window s k pos).data.numToReturn.toInt = _ := toInt_saturated k
    have hpos : 0 ≤ (SliceArgument.window s k pos).data.numToReturn.toInt := by
      rw [hreturn]
      split_ifs <;> omega
    have htake : ∀ start, (elements.drop start).take
        (SliceArgument.window s k pos).data.numToReturn.toInt.toNat
          = (elements.drop start).take k.toInt.toNat := by
      intro start
      rw [hreturn]
      split_ifs with hrange
      · rfl
      · have hlength' := (drop_sublist start elements).length_le.trans_lt hlength
        rw [take_of_length_le (by omega), take_of_length_le (by omega)]
    have hbefore : -2 ^ 31 ≤ s.toInt := h
    rw [sliceArray_of_nonneg hlength hpos, htake]
    show _ = (take _ (elements.drop (ite _ _ _))).map appendValue
    by_cases hrange : -2 ^ 31 ≤ s.toInt ∧ s.toInt < 2 ^ 31
    · rw [if_pos hrange] at hskip
      rw [hskip]
    · rw [hskip, if_neg hrange, if_pos (by omega), if_pos (by omega),
        drop_eq_nil_of_le (by omega), drop_eq_nil_of_le (by omega)]

/-- Out of range nothing is written, and only of an empty array is nothing asked for. -/
theorem sliceArray_data_of_not_inRange (h : ¬ slicing.argument.InRange) :
    sliceArray slicing.argument.data slicing.elements = []
      ∧ (slicing.argument.slice slicing.elements = [] ↔ slicing.elements = []) := by
  obtain ⟨argument, elements, fit, nested⟩ := slicing
  have hlength := length_lt ⟨argument, elements, fit, nested⟩
  dsimp only at hlength h ⊢
  cases argument with
  | count k =>
    have hreturn : (SliceArgument.count k).data.numToReturn.toInt = _ := toInt_saturated k
    have hmin : k.toInt = -2 ^ 31 := not_not.1 h
    rw [if_pos (by omega), hmin] at hreturn
    refine ⟨sliceArray_min (Int32.toInt_inj.1 hreturn), ?_⟩
    show (ite _ _ _ : List Value) = [] ↔ _
    rw [if_neg (by omega), hmin, Nat.sub_eq_zero_of_le (by omega), drop_zero]
  | window s k pos =>
    have hskip : (SliceArgument.window s k pos).data.numToSkip.toInt = _ := toInt_saturated s
    have hreturn : (SliceArgument.window s k pos).data.numToReturn.toInt = _ := toInt_saturated k
    have hbefore : s.toInt < -2 ^ 31 := not_le.1 h
    rw [if_neg (by omega)] at hskip
    constructor
    · rw [sliceArray_of_nonneg hlength (by rw [hreturn]; split_ifs <;> omega), hskip,
        if_pos (by omega), drop_eq_nil_of_le (by omega), take_nil, map_nil]
    · show take _ (elements.drop (ite _ _ _)) = [] ↔ _
      rw [if_neg (by omega), toNat_of_nonpos (show elements.length + s.toInt ≤ 0 by omega),
        drop_zero, take_eq_nil_iff]
      exact or_iff_right (by omega)

/-- `$slice: [-2147483649, 1]`. -/
def negativeStart : Slicing where
  argument := .window (.int64 (-2147483649)) (.int64 1) (by decide)
  elements := [.bool true]
  elements_fit := by decide
  isInNestedArray := false

end Slicing

end DocumentDb.FindSlice
