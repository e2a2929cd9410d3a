/-
Query documents, and when a document matches one.

The entries of a query document are conditions that all have to hold: `$and`, `$or` and
`$nor` of further query documents, other operators, and conditions on fields. Such a
condition is a document of operators, a value that the field has to equal, or a pattern.
What is said of a single field is given (`DocumentPredicates`). Where a document has just
one value at a path, equality is with that value (`HasValue`).
-/
import DocumentDb.Bson.Order
import DocumentDb.Bson.Path

namespace DocumentDb

-- ==== operators

def andOperator : Bytes := [36, 97, 110, 100]

def orOperator : Bytes := [36, 111, 114]

def norOperator : Bytes := [36, 110, 111, 114]

def exprOperator : Bytes := [36, 101, 120, 112, 114]

def eqOperator : Bytes := [36, 101, 113]

def inOperator : Bytes := [36, 105, 110]

def allOperator : Bytes := [36, 97, 108, 108]

/-- The first character of a key is `$`. -/
def isOperatorKey (key : Bytes) : Bool := key.head? == some dollar

/-- `BSON_TYPE_REGEX`. -/
def Value.isRegex : Value → Bool
  | .regex _ _ => true
  | _ => false

/-- A condition that is a document of operators, by its first key. -/
def isOperatorDocument : Fields → Bool
  | [] => false
  | (key, _) :: _ => isOperatorKey key

-- ==== matching

structure DocumentPredicates where
  /-- `$eq` with a value. -/
  equals : (path : Bytes) → Value → Bool
  /-- A pattern with its options. -/
  regexMatch : (path pattern options : Bytes) → Bool
  /-- The other operators on fields. -/
  operator : (path op : Bytes) → Value → Bool
  /-- The other operators of a query document. -/
  topLevel : (op : Bytes) → Value → Bool

section Match

variable (P : DocumentPredicates)

/-- A value as a condition, and as an element of `$in` and `$all`. -/
def valueMatches (path : Bytes) : Value → Bool
  | .regex pattern options => P.regexMatch path pattern options
  | v => P.equals path v

/-- One operator of a condition. A key that is no operator is an error there,
and so is an operand of `$in` and `$all` that is no array; an empty `$all`
matches nothing. -/
def operatorMatches (path op : Bytes) (operand : Value) : Bool :=
  if op = eqOperator then P.equals path operand
  else if op = inOperator then
    operand.elements?.any fun es => es.any (valueMatches P path)
  else if op = allOperator then
    operand.elements?.any fun es =>
      !es.isEmpty && es.all (valueMatches P path)
  else isOperatorKey op && P.operator path op operand

def fieldMatches (path : Bytes) : Value → Bool
  | .document fs =>
    if isOperatorDocument fs then
      fs.all fun f => operatorMatches P path f.1 f.2
    else P.equals path (.document fs)
  | v => valueMatches P path v

mutual

/-- The document matches every entry of a query document. -/
def queryMatches : Fields → Bool
  | [] => true
  | (key, value) :: query => entryMatches key value && queryMatches query

def entryMatches (key : Bytes) : Value → Bool
  | .array es =>
    if key = andOperator then allMatch es
    else if key = orOperator then anyMatch es
    else if key = norOperator then !anyMatch es
    else if isOperatorKey key then P.topLevel key (.array es)
    else fieldMatches P key (.array es)
  | value =>
    if key = andOperator || key = orOperator || key = norOperator then false
    else if isOperatorKey key then P.topLevel key value
    else fieldMatches P key value

def allMatch : List Value → Bool
  | [] => true
  | .document query :: es => queryMatches query && allMatch es
  | _ :: _ => false

def anyMatch : List Value → Bool
  | [] => false
  | .document query :: es => queryMatches query || anyMatch es
  | _ :: es => anyMatch es

end

theorem entryMatches_and (value : Value) : entryMatches P andOperator value = match value with
        | .array es => allMatch P es
        | _ => false := by
  cases value <;> rfl

theorem entryMatches_or (value : Value) : entryMatches P orOperator value = match value with
        | .array es => anyMatch P es
        | _ => false := by
  cases value <;> rfl

theorem entryMatches_field {key : Bytes} (hkey : isOperatorKey key = false)
    (value : Value) : entryMatches P key value = fieldMatches P key value := by
  have hand : key ≠ andOperator := by
    rintro rfl
    cases hkey
  have hor : key ≠ orOperator := by
    rintro rfl
    cases hkey
  have hnor : key ≠ norOperator := by
    rintro rfl
    cases hkey
  cases value <;> simp [entryMatches, hand, hor, hnor, hkey]

end Match

/-- The document has one value at a path, and no array on the way. -/
def HasValue [BidLib] (P : DocumentPredicates) (path : Bytes) (w : Value) : Prop :=
  ∀ v, P.equals path v = bsonValueEquals w v

end DocumentDb
