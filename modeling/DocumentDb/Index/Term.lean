/-
Index terms: how a value is written below a path of an index, cut where it would exceed the
size limit, and read back.

Before an element of a container the bytes written so far are held against a soft limit;
inside of it they may grow up to the hard limit. A string is cut at the hard limit, and a
nested container gets what is left as its limits. What was cut or stopped early, or ends
behind the soft limit, is flagged as truncated. Regular expressions, DBPointers and code
with scope cannot be cut: when one of them crosses the soft limit the flag is not set.

The writer is the list of what was written, by `appendValue`. Sizes stay in the range of 32
bits. Truncation of nested containers and the unsafe decoder are on, as by default.
-/
import DocumentDb.Bson.Element
import DocumentDb.Bson.Order

namespace DocumentDb

open Wire ThreeWay

section Term

variable [BidLib]

-- ==== writing

/-- `PgbsonArrayWriterGetSize`. -/
def arrayWriterSize (written : List Value) : Int := (frame (encodeElems 0 written)).length

/-- `PgbsonWriterGetSize`. -/
def writerSize (written : Fields) : Int := (frame (encodeFields written)).length

-- ==== truncation

/-- The length that is kept, and whether bytes are cut. It is an error when none would be
left. -/
def truncateStringOrBinaryTerm (dataSize indexTermSizeLimit : Int)
    (stringLen : Nat) : Option (Nat × Bool) :=
  let requiredLength := dataSize + 4 + stringLen + 1
  if indexTermSizeLimit < requiredLength then
    let excess := requiredLength - indexTermSizeLimit
    if stringLen ≤ excess then none
    else some ((stringLen - excess).toNat, true)
  else some (stringLen, false)

/-- The cases for strings, symbols, code and binaries, which are cut; the
other values are none of them. -/
def truncateStringValue (dataSize indexTermSizeLimit : Int) : Value → Option (Value × Bool)
  | .utf8 s =>
    (truncateStringOrBinaryTerm dataSize indexTermSizeLimit s.length).map
      fun r => (.utf8 (s.take r.1), r.2)
  | .symbol s =>
    (truncateStringOrBinaryTerm dataSize indexTermSizeLimit s.length).map
      fun r => (.symbol (s.take r.1), r.2)
  | .code c =>
    (truncateStringOrBinaryTerm dataSize indexTermSizeLimit c.length).map
      fun r => (appendValue (.code (c.take r.1)), r.2)
  | .binary sub data =>
    (truncateStringOrBinaryTerm dataSize indexTermSizeLimit data.length).map
      fun r => (.binary sub (data.take r.1), r.2)
  | _ => none

/-- The number `TruncateNestedEntry` writes for a number: the narrowest type
that the tests admit. -/
def rewriteNumber (v : Value) : Value :=
  if isBsonValue32BitInteger true v then .int32 (bsonValueAsInt32 v)
  else if isBsonValue64BitInteger true v then .int64 (bsonValueAsInt64 v)
  else
    let d := getBsonValueAsDecimal128 v
    if isDecimal128InDoubleRange d then .double (bsonDecimal128AsDouble d)
    else .decimal128 d

/-- `TruncateNestedEntry` on a value without further values: what is
written, whether it is cut, and whether its container must not be flagged. -/
def truncateNestedScalar (sizeBudget currentLength : Int) (v : Value) :
    Option (Value × Bool × Bool) :=
  match v with
  | .double _ | .int32 _ | .int64 _ | .decimal128 _ =>
    some (rewriteNumber v, false, false)
  | .codeWScope _ _ | .dbPointer _ _ | .regex _ _ =>
    some (appendValue v, false, true)
  | .code _ | .binary _ _ | .symbol _ | .utf8 _ =>
    (truncateStringValue 1 (sizeBudget - currentLength) v).map fun r => (r.1, r.2, false)
  | v => some (v, false, false)

mutual

def truncateNestedEntry (sizeBudget currentLength : Int) : Value → Option (Value × Bool × Bool)
  | .document fs =>
    (truncateDocumentTerm currentLength (sizeBudget - 17) sizeBudget false []
      fs).map fun r => (.document r.1, r.2, false)
  | .array es =>
    (truncateArrayTerm currentLength (sizeBudget - 21) sizeBudget false []
      es).map fun r => (.array r.1, r.2, false)
  | v => truncateNestedScalar sizeBudget currentLength v

/-- The loop of `TruncateArrayTerm`, with the elements written so far: what
is written at its end, and whether the term is truncated. -/
def truncateArrayTerm (dataSize softLimit hardLimit : Int)
    (forceAsNotTruncated : Bool) (written : List Value) : List Value → Option (List Value × Bool)
  | [] =>
    some (written, softLimit < arrayWriterSize written + dataSize && !forceAsNotTruncated)
  | v :: es =>
    let currentLength := arrayWriterSize written
    if softLimit < currentLength + dataSize then
      some (written, !forceAsNotTruncated)
    else
      match truncateNestedEntry (hardLimit - dataSize - 4) currentLength v with
      | none => none
      | some (v', true, _) => some (written ++ [v'], true)
      | some (v', false, force) =>
        truncateArrayTerm dataSize softLimit hardLimit force (written ++ [v']) es

/-- The loop of `TruncateDocumentTerm`. A name that does not fit under the
soft limit is written with MaxKey, and cut at the hard limit. -/
def truncateDocumentTerm (existingTermSize softLimit hardLimit : Int)
    (forceAsNotTruncated : Bool) (written : Fields) : Fields → Option (Fields × Bool)
  | [] =>
    some (written, softLimit < writerSize written + existingTermSize && !forceAsNotTruncated)
  | (k, v) :: fs =>
    let currentLength := writerSize written
    if softLimit < currentLength + existingTermSize then
      some (written, !forceAsNotTruncated)
    else
      let requiredLengthWithPath := currentLength + existingTermSize + k.length + 2
      if requiredLengthWithPath < softLimit then
        match truncateNestedEntry (hardLimit - existingTermSize - k.length - 2) currentLength v with
        | none => none
        | some (v', true, _) => some (written ++ [(k, v')], true)
        | some (v', false, force) =>
          truncateDocumentTerm existingTermSize softLimit hardLimit force (written ++ [(k, v')]) fs
      else if requiredLengthWithPath < hardLimit then
        some (written ++ [(k, .maxKey)], true)
      else
        let pathExcess := requiredLengthWithPath - hardLimit
        some (written ++ [(k.take (k.length - pathExcess).toNat, .maxKey)], true)

end

-- ==== serialization

structure IndexTermCreateMetadata where
  indexTermSizeLimit : Int
  wildcardIndexTruncatedPathLimit : Nat
  pathPrefix : Bytes
  isWildcard : Bool
  isWildcardProjection : Bool

/-- The metadata of an index on the path `a`. -/
def indexOnA (indexTermSizeLimit : Int) : IndexTermCreateMetadata where
  indexTermSizeLimit := indexTermSizeLimit
  wildcardIndexTruncatedPathLimit := 0
  pathPrefix := [97]
  isWildcard := false
  isWildcardProjection := false

/-- The path `SerializeTermToWriter` writes: `$` for the path of the index,
and `$` before the suffix behind the path of a wildcard index. -/
def IndexTermCreateMetadata.termPath (termMetadata : IndexTermCreateMetadata)
    (indexPath : Bytes) : Option Bytes :=
  let pathPrefix := termMetadata.pathPrefix
  if pathPrefix ≠ [] ∧ indexPath ≠ [] ∧ termMetadata.isWildcard = false then
    if indexPath = pathPrefix then some [36] else none
  else if 0 < termMetadata.indexTermSizeLimit ∧ termMetadata.isWildcard = true then
    let trimmed :=
      if termMetadata.isWildcardProjection = false ∧ pathPrefix ≠ [] ∧ indexPath ≠ [] then
        if indexPath.length = pathPrefix.length then [36]
        else if pathPrefix.length < indexPath.length then
          36 :: indexPath.drop pathPrefix.length
        else indexPath
      else indexPath
    if termMetadata.wildcardIndexTruncatedPathLimit < trimmed.length then none
    else some trimmed
  else some indexPath

/-- The switch of `SerializeTermToWriter`: what is written below the path,
and whether it is truncated. -/
def serializeTermValue (indexTermSizeLimit dataSize : Int) (v : Value) : Option (Value × Bool) :=
  match v with
  | .array es =>
    (truncateArrayTerm dataSize (indexTermSizeLimit - 21) indexTermSizeLimit
      false [] es).map fun r => (.array r.1, r.2)
  | .document fs =>
    (truncateDocumentTerm dataSize (indexTermSizeLimit - 17)
      (indexTermSizeLimit - 2) false [] fs).map fun r => (.document r.1, r.2)
  | .binary _ _ | .code _ | .symbol _ | .utf8 _ =>
    truncateStringValue dataSize indexTermSizeLimit v
  | v => some (appendValue v, false)

/-- The path and the value written, and whether the term is truncated. -/
def serializeTermToWriter (termMetadata : IndexTermCreateMetadata)
    (indexElement : PgbsonElement) : Option (Bytes × Value × Bool) := do
  let indexPath ← termMetadata.termPath indexElement.path
  if termMetadata.indexTermSizeLimit ≤ 0 then
    some (indexPath, appendValue indexElement.bsonValue, false)
  else
    let dataSize : Int := 5 + indexPath.length + 2
    if termMetadata.indexTermSizeLimit ≤ dataSize then none
    else
      (serializeTermValue termMetadata.indexTermSizeLimit dataSize
        indexElement.bsonValue).map fun r => (indexPath, r)

/-- Without the flag of root terms. -/
structure BsonIndexTermSerialized where
  isIndexTermTruncated : Bool
  indexTermVal : Bytes
  deriving DecidableEq

/-- The first byte of a term. -/
inductive IndexTermMetadata where
  | noMetadata | truncated | isMetadata | composite | undefinedValue
  | partialUndefinedValue
  deriving DecidableEq

def IndexTermMetadata.byte : IndexTermMetadata → UInt8
  | noMetadata => 0x00
  | truncated => 0x01
  | isMetadata => 0x02
  | composite => 0x04
  | undefinedValue => 0x08
  | partialUndefinedValue => 12

/-- A term without metadata is marked if it was truncated. -/
def IndexTermMetadata.mark (termMetadata : IndexTermMetadata)
    (isTermTruncated : Bool) : IndexTermMetadata :=
  if isTermTruncated ∧ termMetadata = noMetadata then truncated
  else termMetadata

/-- The metadata byte and a document of one element. Appending fails when the document
outgrows its length word. -/
def serializeBsonIndexTermCore (createMetadata : IndexTermCreateMetadata)
    (indexElement : PgbsonElement) (termMetadata : IndexTermMetadata) :
    Option BsonIndexTermSerialized := do
  let (path, value, isTermTruncated) ← serializeTermToWriter createMetadata indexElement
  let termMetadata := termMetadata.mark isTermTruncated
  let data := encodeDoc [(path, value)]
  if 2 ^ 31 ≤ data.length then none
  else if 0 < createMetadata.indexTermSizeLimit
      ∧ createMetadata.indexTermSizeLimit < data.length then none
  else some ⟨termMetadata = .truncated, termMetadata.byte :: data⟩

def serializeBsonIndexTerm (termMetadata : IndexTermCreateMetadata)
    (indexElement : PgbsonElement) : Option BsonIndexTermSerialized :=
  serializeBsonIndexTermCore termMetadata indexElement .noMetadata

-- ==== reading back

/-- The element as the decoder shows it, or as the one element it shows. -/
structure BsonIndexTerm (E : Type) where
  isIndexTermTruncated : Bool
  isIndexTermMetadata : Bool
  isValueUndefined : Bool
  isValueMaybeUndefined : Bool
  element : E
  deriving DecidableEq

def initializeBsonIndexTerm (indexTermVal : Bytes) : Option (BsonIndexTerm (Bytes × RawValue)) :=
  match indexTermVal with
  | [] => none
  | metadata :: data =>
    (fillPgbsonElementUnsafe data).map fun element =>
      { isIndexTermTruncated := metadata = IndexTermMetadata.truncated.byte
        isIndexTermMetadata := metadata = IndexTermMetadata.isMetadata.byte
        isValueUndefined := metadata = IndexTermMetadata.undefinedValue.byte
        isValueMaybeUndefined := metadata = IndexTermMetadata.partialUndefinedValue.byte
        element := element }

def BsonIndexTerm.raw (t : BsonIndexTerm PgbsonElement) : BsonIndexTerm (Bytes × RawValue) :=
  { t with element := (t.element.path, t.element.bsonValue.raw) }

def compareStringView (left right : Bytes) : Int :=
  let minLength := min left.length right.length
  andThen (strcmp (left.take minLength) (right.take minLength)) ((left.length : Int) - right.length)

def compareBsonIndexTerm (left right : BsonIndexTerm PgbsonElement) : Int :=
  if left.isIndexTermMetadata ≠ right.isIndexTermMetadata then
    right.isIndexTermMetadata.toInt - left.isIndexTermMetadata.toInt
  else
    andThen (compareStringView left.element.path right.element.path)
      (andThen (compareBsonValueAndType left.element.bsonValue
          right.element.bsonValue).1
        (if left.isValueUndefined ≠ right.isValueUndefined then
          right.isValueUndefined.toInt - left.isValueUndefined.toInt
        else if left.isValueMaybeUndefined ≠ right.isValueMaybeUndefined then
          right.isValueMaybeUndefined.toInt - left.isValueMaybeUndefined.toInt
        else
          left.isIndexTermTruncated.toInt - right.isIndexTermTruncated.toInt))

end Term

end DocumentDb
