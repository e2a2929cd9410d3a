/-
The update operators: what each of them writes for an existing value.

An operator gets the value at its path, if there is one, and a writer. It reports a
modification by writing something as modified, or by skipping the value; otherwise its
caller writes the original value. What an array operator writes and whether it calls it
modified are two things: `$addToSet` of an element that is there, `$pullAll` without a match
and `$pop` of an empty array write the array and report no modification.
-/
import DocumentDb.Bson.Element
import DocumentDb.Bson.Order
import DocumentDb.Update.Tree

namespace DocumentDb

-- ==== libraries

/-- What the operators call: the arithmetic on values, the modifiers of
`$push`, the lookup of the source of a `$rename`, the compilation of the
expression of a `$pull`, and the clock. -/
structure UpdateLib where
  /-- `AddNumberToBsonValue`: the sum, and whether an integer overflowed. -/
  addNumberToBsonValue : Value → Value → Option (Value × Bool)
  /-- `MultiplyWithFactorAndUpdate`. -/
  multiplyWithFactorAndUpdate : Value → Value → Option Value
  /-- `SetDecimal128Zero`. -/
  decimal128Zero : Value
  /-- The loop of `$bit` over its operations. -/
  applyBitwise : Option Value → Fields → Except UpdateError Value
  /-- `ValidateUpdateSpecAndSetPushUpdateState` and
  `ApplyDollarPushModifiers`: nothing if there are no modifiers. -/
  applyDollarPushModifiers : Value → List Value → Except UpdateError (Option (List Value))
  /-- `RenameSourceGetValue`. -/
  renameSourceGetValue : Fields → Bytes → Except UpdateError (Option Value)
  /-- `HandlePullWriterGetState`. -/
  handlePullWriterGetState : Value → Except UpdateError UpdateNodeContext
  /-- The date and the timestamp of now. -/
  now : Value × Value

/-- A library whose functions are not called. -/
def noLib : UpdateLib :=
  ⟨fun _ _ => none, fun _ _ => none, .null, fun _ _ => .error .renameOfArrayElement,
    fun _ _ => .ok none, fun _ _ => .ok none, fun _ => .ok .none, (.null, .null)⟩

-- ==== names

/-- `$set`. -/
def dollarSet : Bytes := [36, 115, 101, 116]

/-- `$inc`. -/
def dollarInc : Bytes := [36, 105, 110, 99]

/-- `$min`. -/
def dollarMin : Bytes := [36, 109, 105, 110]

/-- `$max`. -/
def dollarMax : Bytes := [36, 109, 97, 120]

/-- `$unset`. -/
def dollarUnset : Bytes := [36, 117, 110, 115, 101, 116]

/-- `$push`. -/
def dollarPush : Bytes := [36, 112, 117, 115, 104]

/-- `$pop`. -/
def dollarPop : Bytes := [36, 112, 111, 112]

/-- `$rename`. -/
def dollarRename : Bytes := [36, 114, 101, 110, 97, 109, 101]

/-- `$setOnInsert`. -/
def dollarSetOnInsert : Bytes := [36, 115, 101, 116, 79, 110, 73, 110, 115, 101, 114, 116]

/-- `$pullAll`. -/
def dollarPullAll : Bytes := [36, 112, 117, 108, 108, 65, 108, 108]

/-- `$addToSet`. -/
def dollarAddToSet : Bytes := [36, 97, 100, 100, 84, 111, 83, 101, 116]

/-- `$mul`. -/
def dollarMul : Bytes := [36, 109, 117, 108]

/-- `$bit`. -/
def dollarBit : Bytes := [36, 98, 105, 116]

/-- `$currentDate`. -/
def dollarCurrentDate : Bytes := [36, 99, 117, 114, 114, 101, 110, 116, 68, 97, 116, 101]

/-- `$pull`. -/
def dollarPull : Bytes := [36, 112, 117, 108, 108]

section Operators

variable [BidLib]

-- ==== $set, $unset

/-- The types of nested values do not matter. -/
def bsonValueEqualsStrict (left right : Value) : Bool :=
  left.type = right.type && (compareBsonValue left right).2 && (compareBsonValue left right).1 = 0

/-- `UpdateWriterWriteModifiedValue`. -/
def writeModifiedValue (value : Value) : Written := ⟨[appendValue value], true⟩

/-- `UpdateArrayWriterFinalize`, of the elements written to the array. -/
def writeArray (elements : List Value) (modified : Bool) : Written :=
  ⟨[.array (elements.map appendValue)], modified⟩

/-- `UpdateWriterSkipValue`. -/
def skipValue : Written := ⟨[], true⟩

def nothingWritten : Written := ⟨[], false⟩

def handleUpdateDollarSet : WriteUpdatedValuesFunc :=
  fun existingValue updateValue _ _ state =>
    if !state.isUpsert && existingValue.any (bsonValueEqualsStrict updateValue) then
      .ok nothingWritten
    else .ok (writeModifiedValue updateValue)

def handleUpdateDollarSetOnInsert : WriteUpdatedValuesFunc :=
  fun _ updateValue _ _ state =>
    if state.isUpsert then .ok (writeModifiedValue updateValue)
    else .ok nothingWritten

def handleUpdateDollarUnset : WriteUpdatedValuesFunc :=
  fun existingValue _ _ setValueState _ =>
    if setValueState.isArray then .ok (writeModifiedValue .null)
    else if existingValue.isSome then .ok skipValue
    else .ok nothingWritten

-- ==== one number or value

variable (lib : UpdateLib)

def handleUpdateDollarInc : WriteUpdatedValuesFunc :=
  fun existingValue updateValue _ setValueState _ =>
    if !updateValue.isNumber then
      .error (.operatorArgument dollarInc updateValue)
    else
      match existingValue with
      | none => .ok (writeModifiedValue updateValue)
      | some existing =>
        match lib.addNumberToBsonValue existing updateValue with
        | none =>
          .error (.operatorTarget dollarInc setValueState.fieldPath existing)
        | some (_, true) => .error (.arithmeticFailed dollarInc existing)
        | some (sum, false) => .ok (writeModifiedValue sum)

/-- `HandleUpdateDollarMin` and `HandleUpdateDollarMax`: `replaces` is asked
about the comparison of the new value with the existing one. -/
def handleUpdateDollarMinMax (replaces : Int → Bool) : WriteUpdatedValuesFunc :=
  fun existingValue updateValue _ _ _ =>
    match existingValue with
    | none => .ok (writeModifiedValue updateValue)
    | some existing =>
      let cmp := compareBsonValueAndType updateValue existing
      if replaces cmp.1 && cmp.2 then .ok (writeModifiedValue updateValue)
      else .ok nothingWritten

def handleUpdateDollarMin : WriteUpdatedValuesFunc := handleUpdateDollarMinMax (fun cmp => cmp < 0)

def handleUpdateDollarMax : WriteUpdatedValuesFunc := handleUpdateDollarMinMax (fun cmp => 0 < cmp)

def writeIfChanged (state : CurrentDocumentState)
    (existingValue : Option Value) (value : Value) : Written :=
  if state.isUpsert || !existingValue.any (bsonValueEqualsStrict · value) then
    writeModifiedValue value
  else nothingWritten

def handleUpdateDollarBit : WriteUpdatedValuesFunc :=
  fun existingValue updateValue _ _ state =>
    match updateValue with
    | .document [] => .error (.operatorArgument dollarBit updateValue)
    | .document operations => do
      let value ← lib.applyBitwise existingValue operations
      return writeIfChanged state existingValue value
    | _ => .error (.operatorArgument dollarBit updateValue)

/-- A missing value becomes zero of the type of the factor. -/
def handleUpdateDollarMul : WriteUpdatedValuesFunc :=
  fun existingValue mulFactor _ setValueState state =>
    match existingValue with
    | none =>
      match mulFactor with
      | .int32 _ => .ok (writeModifiedValue (.int32 0))
      | .int64 _ => .ok (writeModifiedValue (.int64 0))
      | .double _ => .ok (writeModifiedValue (.double 0))
      | .decimal128 _ => .ok (writeModifiedValue lib.decimal128Zero)
      | _ => .error (.operatorArgument dollarMul mulFactor)
    | some existing =>
      if !mulFactor.isNumber then
        .error (.operatorArgument dollarMul mulFactor)
      else if !existing.isNumber then
        .error (.operatorTarget dollarMul setValueState.fieldPath existing)
      else
        match lib.multiplyWithFactorAndUpdate existing mulFactor with
        | none => .error (.arithmeticFailed dollarMul existing)
        | some product => .ok (writeIfChanged state existingValue product)

def handleUpdateDollarCurrentDate : WriteUpdatedValuesFunc :=
  fun _ updateValue _ _ _ =>
    match updateValue with
    | .bool _ => .ok (writeModifiedValue lib.now.1)
    | .document ((key, .utf8 typeName) :: _) =>
      -- `$type` and `$$type`, with `timestamp` or `date`
      if key ≠ [36, 116, 121, 112, 101] ∧ key ≠ [36, 36, 116, 121, 112, 101] then
        .error (.operatorArgument dollarCurrentDate updateValue)
      else if typeName = [116, 105, 109, 101, 115, 116, 97, 109, 112] then
        .ok (writeModifiedValue lib.now.2)
      else if typeName = [100, 97, 116, 101] then
        .ok (writeModifiedValue lib.now.1)
      else .error (.operatorArgument dollarCurrentDate updateValue)
    | _ => .error (.operatorArgument dollarCurrentDate updateValue)

-- ==== arrays

/-- The loop of `AddToSetWriteFinalArray` over new elements: the elements of
the set so far, and whether one was added. -/
def addToSet : List Value → List Value → List Value × Bool
  | elements, [] => (elements, false)
  | elements, newValue :: newElements =>
    if elements.any (bsonValueEquals · newValue) then
      addToSet elements newElements
    else ((addToSet (elements ++ [newValue]) newElements).1, true)

/-- `ValidateAddToSetWithDollarEach`: the elements to add. -/
def addToSetElements (name : Bytes) (updateValue : Value) : Except UpdateError (List Value) :=
  match updateValue with
  | .document [(key, value)] =>
    -- `$each`
    if key = [36, 101, 97, 99, 104] then
      match value with
      | .array elements => .ok elements
      | _ => .error (.operatorArgument name value)
    else .ok [updateValue]
  | _ => .ok [updateValue]

/-- The existing array of an array operator, empty if the path is missing. -/
def existingElements (name : Bytes) (setValueState : UpdateSetValueState) :
    Option Value → Except UpdateError (List Value)
  | none => .ok []
  | some (.array elements) => .ok elements
  | some value => .error (.operatorTarget name setValueState.fieldPath value)

def handleUpdateDollarAddToSet : WriteUpdatedValuesFunc :=
  fun existingValue updateValue _ setValueState _ => do
    let existing ← existingElements dollarAddToSet setValueState existingValue
    let newElements ← addToSetElements dollarAddToSet updateValue
    let r := addToSet existing newElements
    return writeArray r.1 r.2

def handleUpdateDollarPullAll : WriteUpdatedValuesFunc :=
  fun existingValue updateValue _ setValueState _ =>
    match updateValue, existingValue with
    | .array _, none => .ok nothingWritten
    | .array pulled, some existing => do
      let elements ← existingElements dollarPullAll setValueState (some existing)
      let found := fun e => pulled.any (bsonValueEquals e)
      return writeArray (elements.filter fun e => !found e) (elements.any found)
    | _, _ => .error (.operatorArgument dollarPullAll updateValue)

def handleUpdateDollarPull : WriteUpdatedValuesFunc :=
  fun existingValue updateValue context setValueState _ =>
    match context, existingValue with
    | .pull _, none => .ok nothingWritten
    | .pull isMatch, some existing => do
      let elements ← existingElements dollarPull setValueState (some existing)
      if elements.any isMatch then
        return writeArray (elements.filter fun e => !isMatch e) true
      else return nothingWritten
    | _, _ => .error (.operatorArgument dollarPull updateValue)

/-- `BsonValueAsDouble` of a number, to compare it with 1 or -1. A decimal outside of
the range raises an error. -/
def numberAsDouble : Value → Option Num
  | .double bits => some (binary64Num bits)
  | .int32 n => some (.fin n.toInt)
  | .int64 n => some (.fin n.toInt)
  | .decimal128 d =>
    if isDecimal128InDoubleRange d then
      some (binary64Num (bsonDecimal128AsDouble d))
    else none
  | _ => none

/-- Whether `$pop` takes the first element: its argument is -1 or 1. -/
def popIsFirst (updateValue : Value) : Option Bool :=
  match numberAsDouble updateValue with
  | some number =>
    if number = .fin (-1) then some true
    else if number = .fin 1 then some false
    else none
  | none => none

/-- Every element but the first counts as modified, the first one as skipped. -/
def handleUpdateDollarPop : WriteUpdatedValuesFunc :=
  fun existingValue updateValue _ setValueState _ =>
    match popIsFirst updateValue, existingValue with
    | none, _ => .error (.operatorArgument dollarPop updateValue)
    | some _, none => .ok nothingWritten
    | some isFirst, some existing => do
      let elements ← existingElements dollarPop setValueState (some existing)
      let rest := if isFirst then elements.drop 1 else elements.dropLast
      return writeArray rest !elements.isEmpty

/-- What the modifiers leave counts as modified. -/
def handleUpdateDollarPush : WriteUpdatedValuesFunc :=
  fun existingValue updateValue _ setValueState _ => do
    let elements ← existingElements dollarPush setValueState existingValue
    match ← lib.applyDollarPushModifiers updateValue elements with
    | none => return writeArray (elements ++ [updateValue]) true
    | some pushed => return writeArray pushed !pushed.isEmpty

-- ==== $rename

def handleUpdateDollarRename : WriteUpdatedValuesFunc :=
  fun _ updateValue context setValueState state =>
    match context with
    | .renameSource path =>
      if setValueState.isArray || setValueState.hasArrayAncestors then
        .error .renameOfArrayElement
      else do
        match ← lib.renameSourceGetValue state.sourceDocument path with
        | some value => return writeModifiedValue value
        | none => return nothingWritten
    | _ => .error (.operatorArgument dollarRename updateValue)

def handleUpdateDollarRenameSource : WriteUpdatedValuesFunc :=
  fun existingValue updateValue context setValueState state =>
    if setValueState.isArray || setValueState.hasArrayAncestors then
      .error .renameOfArrayElement
    else
      handleUpdateDollarUnset existingValue updateValue context setValueState state

-- ==== the table

/-- The operators without `updateWriterGetState`. -/
def noState : Value → Except UpdateError UpdateNodeContext := fun _ => .ok .none

def mongoUpdateOperators : List MongoUpdateOperatorSpec :=
  [ ⟨dollarSet, .basic, handleUpdateDollarSet, noState⟩,
    ⟨dollarInc, .basic, handleUpdateDollarInc lib, noState⟩,
    ⟨dollarMin, .basic, handleUpdateDollarMin, noState⟩,
    ⟨dollarMax, .basic, handleUpdateDollarMax, noState⟩,
    ⟨dollarUnset, .unset, handleUpdateDollarUnset, noState⟩,
    ⟨dollarPush, .basic, handleUpdateDollarPush lib, noState⟩,
    ⟨dollarPop, .basic, handleUpdateDollarPop, noState⟩,
    ⟨dollarRename, .rename handleUpdateDollarRenameSource, handleUpdateDollarRename lib, noState⟩,
    ⟨dollarSetOnInsert, .setOnInsert, handleUpdateDollarSetOnInsert, noState⟩,
    ⟨dollarPullAll, .basic, handleUpdateDollarPullAll, noState⟩,
    ⟨dollarAddToSet, .basic, handleUpdateDollarAddToSet, noState⟩,
    ⟨dollarMul, .basic, handleUpdateDollarMul lib, noState⟩,
    ⟨dollarBit, .basic, handleUpdateDollarBit lib, noState⟩,
    ⟨dollarCurrentDate, .basic, handleUpdateDollarCurrentDate lib, noState⟩,
    ⟨dollarPull, .basic, handleUpdateDollarPull, lib.handlePullWriterGetState⟩ ]

end Operators

end DocumentDb
