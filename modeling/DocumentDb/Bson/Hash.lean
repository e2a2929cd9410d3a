/-
The two hash functions of BSON values.

`HashBsonValueCompare` and `BsonHashCompare` are the hash of the hash operator class, with
functions on bytes and hashes of which nothing is assumed (`Hasher`). `BsonValueHashUint32`
is the hash of the hash sets.

Both read a code with scope as plain code, whose length lies where code with scope has the
pointer to its scope. So they hash as many bytes as the low half of an address says,
whatever lies behind the code; these bytes are a parameter of each call (`CodeMemory`).
-/
import DocumentDb.Bson.Number
import DocumentDb.Bson.Encode
import DocumentDb.Lib.FreeHash

namespace DocumentDb

open FreeHash Wire

/-- The bytes a call reads for a code with scope. -/
abbrev CodeMemory := Bytes → Fields → Bytes

section Compare

variable [BidLib] {H : Type*}

/-- The type code, as an `int`. -/
def hashTypeCode (F : Hasher Bytes H) (t : BsonType) : H := F.leaf (leBytes 4 t.byte.toNat)

/-- The eight bytes of an `int64_t`. -/
def int64Bytes (n : Int64) : Bytes := leBytes 8 n.toUInt64.toNat

/-- The sixteen bytes of a `bson_decimal128_t`. -/
def decimalBytes (d : Decimal128) : Bytes := leBytes 8 d.low.toNat ++ leBytes 8 d.high.toNat

omit [BidLib] in
theorem decimalBytes_inj {d d' : Decimal128} : decimalBytes d = decimalBytes d' ↔ d = d' := by
  constructor
  · intro h
    obtain ⟨hlow, hhigh⟩ := List.append_inj h (by simp)
    cases d
    cases d'
    rw [Decimal128.mk.injEq]
    exact ⟨leBytes_word_inj.1 hhigh, leBytes_word_inj.1 hlow⟩
  · intro h
    rw [h]

mutual

def hashBsonValueCompare (F : Hasher Bytes H) (mem : CodeMemory) : Value → H
  | .minKey => hashTypeCode F .minKey
  | .undefined | .null => hashTypeCode F .undefined
  -- all numbers share one type code
  | .int32 n =>
    F.combine (hashTypeCode F .int64) (F.leaf (int64Bytes (bsonValueAsInt64 (.int32 n))))
  | .int64 n =>
    F.combine (hashTypeCode F .int64) (F.leaf (int64Bytes (bsonValueAsInt64 (.int64 n))))
  | .double bits =>
    if isBsonValue64BitInteger true (.double bits) then
      F.combine (hashTypeCode F .int64) (F.leaf (int64Bytes (bsonValueAsInt64 (.double bits))))
    else
      F.combine (hashTypeCode F .int64)
        (F.leaf (decimalBytes (getBsonValueAsDecimal128 (.double bits))))
  | .decimal128 d =>
    if isBsonValue64BitInteger true (.decimal128 d) then
      F.combine (hashTypeCode F .int64) (F.leaf (int64Bytes (bsonValueAsInt64 (.decimal128 d))))
    else
      F.combine (hashTypeCode F .int64)
        (F.leaf (decimalBytes (getBsonValueAsDecimal128 (.decimal128 d))))
  | .utf8 s => F.combine (hashTypeCode F .utf8) (F.leaf s)
  | .symbol s => F.combine (hashTypeCode F .utf8) (F.leaf s)
  | .document fs =>
    F.combine (hashTypeCode F .document) (bsonHashCompare F mem F.init fs)
  | .array es =>
    F.combine (hashTypeCode F .array) (bsonHashCompareElems F mem F.init 0 es)
  | .binary sub data =>
    F.combine (F.combine (hashTypeCode F .binary) (F.leaf (leBytes 4 sub.toNat))) (F.leaf data)
  | .oid o => F.combine (hashTypeCode F .oid) (F.leaf o.bytes)
  | .bool b => F.combine (hashTypeCode F .bool) (F.leaf (leBytes 1 b.toNat))
  | .dateTime ms =>
    F.combine (hashTypeCode F .dateTime) (F.leaf (int64Bytes ms))
  | .timestamp seconds increment =>
    F.combine (F.combine (hashTypeCode F .timestamp) (F.leaf (leBytes 4 increment.toNat)))
      (F.leaf (leBytes 4 seconds.toNat))
  | .regex pat opt =>
    -- the lengths are those of `strlen`
    F.combine (F.combine (hashTypeCode F .regex) (F.leaf (pat.takeWhile (· ≠ 0))))
      (F.leaf (opt.takeWhile (· ≠ 0)))
  | .dbPointer c o =>
    F.combine (F.combine (hashTypeCode F .dbPointer) (F.leaf c)) (F.leaf o.bytes)
  | .code c => F.combine (hashTypeCode F .code) (F.leaf c)
  | .codeWScope c scope =>
    F.combine (F.combine (hashTypeCode F .codeWScope) (F.leaf (mem c scope)))
      (bsonHashCompare F mem F.init scope)
  | .maxKey => hashTypeCode F .maxKey

/-- From the hash of the elements before on. -/
def bsonHashCompare (F : Hasher Bytes H) (mem : CodeMemory) (hashValue : H) : Fields → H
  | [] => hashValue
  | (k, v) :: fs =>
    bsonHashCompare F mem
      (F.combine (F.combine hashValue (F.leaf k)) (hashBsonValueCompare F mem v)) fs

/-- `BsonHashCompare` over an array, from a position on. -/
def bsonHashCompareElems (F : Hasher Bytes H) (mem : CodeMemory)
    (hashValue : H) (i : Nat) : List Value → H
  | [] => hashValue
  | v :: es =>
    bsonHashCompareElems F mem (F.combine (F.combine hashValue (F.leaf (arrayKey i)))
        (hashBsonValueCompare F mem v)) (i + 1) es

end

end Compare

def hasherOf (hashBytesFunc : Bytes → Int64 → UInt64)
    (hashCombineFunc : UInt64 → UInt64 → UInt64) (seed : Int64) : Hasher Bytes UInt64 where
  leaf bytes := hashBytesFunc bytes seed
  combine := hashCombineFunc
  init := 0

-- ==== hash of the hash sets

/-- What `BsonValueHashUint32` gives to `hash_bytes`, or the constant it
answers without hashing. -/
inductive HashSource where
  | const (n : UInt32)
  | bytes (b : Bytes)
  deriving DecidableEq

section Uint32

variable [BidLib]

/-- The argument of `hash_bytes` in `BsonValueHashUint32`. A regular
expression is hashed by the bytes of its pointer, which are as unknown as
the memory behind a code with scope. -/
def hashSource (mem : CodeMemory) (pointer : Bytes → Bytes) : Value → HashSource
  | .bool b => .bytes (leBytes 1 b.toNat)
  | .int32 n => .bytes (int64Bytes (bsonValueAsInt64 (.int32 n)))
  | .int64 n => .bytes (int64Bytes (bsonValueAsInt64 (.int64 n)))
  | .double bits =>
    if binary64Num bits = .nan then .const 1
    else if isBsonValue64BitInteger true (.double bits) then
      .bytes (int64Bytes (bsonValueAsInt64 (.double bits)))
    else .bytes (leBytes 8 bits.toNat)
  | .decimal128 d =>
    if d.isNaN then .const 1
    else if isBsonValue64BitInteger true (.decimal128 d) then
      .bytes (int64Bytes (bsonValueAsInt64 (.decimal128 d)))
    -- the size passed is that of a string length, four bytes
    else .bytes ((decimalBytes d).take 4)
  | .utf8 s => .bytes s
  | .document fs => .bytes (encodeValue (.document fs))
  | .array es => .bytes (encodeValue (.array es))
  | .binary _ data => .bytes data
  | .dateTime ms => .bytes (int64Bytes ms)
  | .timestamp seconds increment =>
    -- both members: they follow each other in the union
    .bytes (leBytes 4 seconds.toNat ++ leBytes 4 increment.toNat)
  | .oid o => .bytes o.bytes
  | .regex pat _ => .bytes (pointer pat)
  | .code c => .bytes c
  | .codeWScope c scope => .bytes (mem c scope)
  | .symbol s => .bytes s
  | .dbPointer c _ => .bytes c
  | .undefined | .null | .minKey | .maxKey => .const 0

def bsonValueHashUint32 (hashBytes : Bytes → UInt32) (mem : CodeMemory)
    (pointer : Bytes → Bytes) (v : Value) : UInt32 :=
  match hashSource mem pointer v with
  | .const n => n
  | .bytes b => hashBytes b

end Uint32

end DocumentDb
