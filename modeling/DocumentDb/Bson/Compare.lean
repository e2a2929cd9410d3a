/-
The order of BSON values: `CompareBsonValue`, `CompareBsonIter` and
`CompareBsonValueAndType`, without collation.

Values are compared by the class of their type (`sortOrderType`: numbers are one class,
strings and symbols another, null and undefined a third), then by content; documents and
arrays element by element, each by class, name and content. The comparison of contents
presupposes that the classes agree.
-/
import DocumentDb.Bson.Number

namespace DocumentDb

open ThreeWay

-- ==== classes of types

/-- `GetSortOrderType`. -/
def Value.sortOrderType : Value → Int
  | minKey => 0x0
  | undefined | null => 0x1
  | double _ | int32 _ | int64 _ | decimal128 _ => 0x2
  | utf8 _ | symbol _ => 0x3
  | document _ => 0x4
  | array _ => 0x5
  | binary _ _ => 0x6
  | oid _ => 0x7
  | bool _ => 0x8
  | dateTime _ => 0x9
  | timestamp _ _ => 0xA
  | regex _ _ => 0xB
  | dbPointer _ _ => 0xC
  | code _ => 0xD
  | codeWScope _ _ => 0xE
  | maxKey => 0xF

/-- A difference of class numbers. -/
def compareBsonSortOrderType (left right : Value) : Int := left.sortOrderType - right.sortOrderType

/-- Without collation. -/
def compareStrings (left right : Bytes) : Int :=
  if min left.length right.length = 0 then
    (left.length : Int) - right.length
  else
    andThen (memcmp left right) ((left.length : Int) - right.length)

theorem compareStrings_eq (l r : Bytes) : compareStrings l r = lex l r := by
  cases l with
  | nil => simp [compareStrings]
  | cons x xs =>
    cases r with
    | nil => simp [compareStrings]
    | cons y ys => simp [compareStrings, lex]

theorem Value.class_cases (v : Value) :
    match v.sortOrderType with
    | 0x0 => v = minKey
    | 0x1 => v = undefined ∨ v = null
    | 0x2 => v.isNumberOrBool
    | 0x3 => ∃ s, v = utf8 s ∨ v = symbol s
    | 0x4 => ∃ fs, v = document fs
    | 0x5 => ∃ es, v = array es
    | 0x6 => ∃ sub data, v = binary sub data
    | 0x7 => ∃ o, v = oid o
    | 0x8 => v.isNumberOrBool
    | 0x9 => ∃ ms, v = dateTime ms
    | 0xA => ∃ sec inc, v = timestamp sec inc
    | 0xB => ∃ pat opt, v = regex pat opt
    | 0xC => ∃ c o, v = dbPointer c o
    | 0xD => ∃ c, v = code c
    | 0xE => ∃ c fs, v = codeWScope c fs
    | 0xF => v = maxKey
    | _ => False := by
  cases v <;> simp [sortOrderType, isNumberOrBool, isNumber]

section Compare

variable [BidLib]

-- ==== the contents

/-- The cases of `CompareBsonValue` without nested values: the verdict on two
contents of one class, and whether the comparison is valid. Contents of
different classes raise an error there; every caller has compared the
classes before. -/
def compareScalar (left right : Value) : Int × Bool :=
  if left.isNumberOrBool then compareNumbers left right
  else
    (match left, right with
    | .utf8 s, .utf8 t | .utf8 s, .symbol t
    | .symbol s, .utf8 t | .symbol s, .symbol t => compareStrings s t
    | .binary sub data, .binary sub' data' =>
      andThen ((data.length : Int) - data'.length)
        (andThen ((sub.toNat : Int) - sub'.toNat) (memcmp data data'))
    | .oid o, .oid o' => memcmp o.bytes o'.bytes
    | .dateTime ms, .dateTime ms' => ofOrder ms.toInt ms'.toInt
    | .timestamp sec inc, .timestamp sec' inc' =>
      -- the seconds first, then the increment
      andThen (ofOrder sec.toNat sec'.toNat) (ofOrder inc.toNat inc'.toNat)
    | .regex pat opt, .regex pat' opt' =>
      andThen (strcmp pat pat') (strcmp opt opt')
    | .code c, .code c' => compareStrings c c'
    | .dbPointer c o, .dbPointer c' o' =>
      andThen (compareStrings c c') (memcmp o.bytes o'.bytes)
    -- minKey, maxKey, undefined, null
    | _, _ => 0, true)

theorem compareScalar_number {l r : Value} (h : l.isNumberOrBool) :
    compareScalar l r = compareNumbers l r := by
  unfold compareScalar
  exact if_pos h

mutual

def compareBsonValue : Value → Value → Int × Bool
  | .document l, .document r => (compareBsonIter l r, true)
  | .array l, .array r => (compareArrayIter l r, true)
  | .codeWScope c l, .codeWScope c' r =>
    (andThen (compareStrings c c') (compareBsonIter l r), true)
  | left, right => compareScalar left right

/-- With `compareFields`. -/
def compareBsonIter : Fields → Fields → Int
  | [], [] => 0
  | _ :: _, [] => 1
  | [], _ :: _ => -1
  | (k, v) :: l, (k', v') :: r =>
    andThen (compareBsonSortOrderType v v')
      (andThen (compareStrings k k') (andThen (compareBsonValue v v').1 (compareBsonIter l r)))

/-- `CompareBsonIter` over two arrays: elements at one position have the same numeral
for a name. -/
def compareArrayIter : List Value → List Value → Int
  | [], [] => 0
  | _ :: _, [] => 1
  | [], _ :: _ => -1
  | v :: l, v' :: r =>
    andThen (compareBsonSortOrderType v v')
      (andThen (compareBsonValue v v').1 (compareArrayIter l r))

end

/-- The verdict, and whether it is valid. -/
def compareBsonValueAndType (left right : Value) : Int × Bool :=
  if compareBsonSortOrderType left right ≠ 0 then
    (compareBsonSortOrderType left right, true)
  else compareBsonValue left right

theorem compareBsonValueAndType_fst (l r : Value) : (compareBsonValueAndType l r).1
      = andThen (compareBsonSortOrderType l r) (compareBsonValue l r).1 := by
  unfold compareBsonValueAndType andThen
  split_ifs <;> rfl

theorem compareBsonValue_scalar {l r : Value} (h : l.isScalar) :
    compareBsonValue l r = compareScalar l r := by
  cases l <;> first | rfl | simp [Value.isScalar] at h

end Compare

end DocumentDb
