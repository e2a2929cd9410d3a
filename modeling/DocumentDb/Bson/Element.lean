/-
Documents of one element, which is how index terms are stored: the path as the name, and the
value.

The library's iterator reads them (`bsonValueToPgbsonElement`), and so does a decoder that
computes the offsets by hand (`fillPgbsonElementUnsafe`). What the latter makes of a
well-formed element is `unsafeDecode`: the value itself, except that the halves of a
timestamp are exchanged, the object id of a DBPointer is read from the start of the
collection name, and a code with scope is refused, since its length word counts itself.
-/
import DocumentDb.Bson.Encode

namespace DocumentDb

open Wire List Option Nat

-- ==== elements

/-- Of a value that can be stored below its path. -/
structure PgbsonElement where
  path : Bytes
  bsonValue : Value
  namesOk : namesOkFields [(path, bsonValue)] = true
  size_lt : (encodeDoc [(path, bsonValue)]).length < 2 ^ 31

/-- `PgbsonElementToPgbson`. -/
def PgbsonElement.toPgbson (e : PgbsonElement) : Pgbson where
  fields := [(e.path, e.bsonValue)]
  namesOk := e.namesOk
  size_lt := e.size_lt

-- ==== writing

/-- What `bson_append_value` writes: code, and the collection of a DBPointer,
end at their first zero. The options of a regular expression are sorted by
the library, as those of a well-formed value are. -/
def appendValue : Value → Value
  | .code c => .code (cString c)
  | .codeWScope c scope => .codeWScope (cString c) scope
  | .dbPointer c o => .dbPointer (cString c) o
  | v => v

/-- The values that are written as they are. -/
def Value.isZeroFree : Value → Bool
  | .code c | .codeWScope c _ | .dbPointer c _ => 0 ∉ c
  | _ => true

theorem appendValue_eq_self_iff (v : Value) : appendValue v = v ↔ v.isZeroFree := by
  cases v <;> simp [appendValue, Value.isZeroFree, cString_eq_self_iff]

theorem map_appendValue_eq_self_iff (vs : List Value) :
    vs.map appendValue = vs ↔ ∀ v ∈ vs, v.isZeroFree := by
  conv_lhs => rhs; rw [← List.map_id vs]
  rw [List.map_inj_left]
  exact forall₂_congr fun v _ => appendValue_eq_self_iff v

theorem isZeroFree_appendValue (v : Value) : (appendValue v).isZeroFree := by
  cases v <;> simp [appendValue, Value.isZeroFree, zero_notMem_cString]

theorem type_appendValue (v : Value) : (appendValue v).type = v.type := by
  cases v <;> rfl

-- ==== reading

def BsonType.all : List BsonType :=
  [double, utf8, document, array, binary, undefined, oid, bool, dateTime,
    null, regex, dbPointer, code, symbol, codeWScope, int32, timestamp,
    int64, decimal128, maxKey, minKey]

def BsonType.ofByte (b : Nat) : Option BsonType := all.find? fun t => t.byte.toNat = b

@[simp] theorem BsonType.ofByte_byte (t : BsonType) : ofByte t.byte.toNat = some t := by
  cases t <;> rfl

/-- The first element, by the iterator. -/
def bsonValueToPgbsonElement (data : Bytes) : Option (Bytes × RawValue) := do
  let (_, data) ← readWord 4 data
  let (typeByte, data) ← readWord 1 data
  let (path, data) ← readCString data
  let type ← BsonType.ofByte typeByte
  let (value, _) ← iterValue type data
  return (path, value)

-- ==== the unsafe decoder

/-- A word, read as an `int32_t`. -/
def readInt32 (data : Bytes) : Option (Int × Bytes) :=
  (readWord 4 data).map fun p => (Int.bmod p.1 (2 ^ 32), p.2)

/-- What a pointer to `data` with a length shows. -/
def slice (length : Int) (data : Bytes) : Option Bytes := (readBytes length.toNat data).map Prod.fst

variable (lengthLeft : Int) (data : Bytes)

/-- The cases of `FillPgbsonElementUnsafe` for code, symbols and strings. -/
def fillString : Option Bytes :=
  if lengthLeft < 4 then none
  else do
    let (length, data) ← readInt32 data
    if lengthLeft < length + 4 then none else slice (length - 1) data

def fillDocument : Option Bytes :=
  if lengthLeft < 4 then none
  else do
    let (docLength, _) ← readInt32 data
    if lengthLeft < docLength then none else slice docLength data

def fillWord8 : Option UInt64 :=
  if lengthLeft < 8 then none
  else (readWord 8 data).map fun p => UInt64.ofNat p.1

/-- The cases of `FillPgbsonElementUnsafe`, with the bytes from the value
on. -/
def fillValue (type : BsonType) (lengthLeft : Int) (data : Bytes) : Option RawValue :=
  match type with
  | .dateTime => (fillWord8 lengthLeft data).map fun w => .dateTime w.toInt64
  | .double => (fillWord8 lengthLeft data).map .double
  | .int64 => (fillWord8 lengthLeft data).map fun w => .int64 w.toInt64
  | .timestamp =>
    if lengthLeft < 8 then none
    else do
      let (timestamp, data) ← readWord 4 data
      let (increment, _) ← readWord 4 data
      return .timestamp (UInt32.ofNat timestamp) (UInt32.ofNat increment)
  | .code => (fillString lengthLeft data).map .code
  | .symbol => (fillString lengthLeft data).map .symbol
  | .utf8 => (fillString lengthLeft data).map .utf8
  | .binary =>
    if lengthLeft < 4 then none
    else do
      let (binaryLength, data) ← readInt32 data
      if lengthLeft < 4 + binaryLength + 1 then none
      else do
        let (subtype, data) ← readWord 1 data
        if subtype = 2 then do
          let (_, data) ← readBytes 4 data
          let bytes ← slice (binaryLength - 4) data
          return .binary (UInt8.ofNat subtype) bytes
        else do
          let bytes ← slice binaryLength data
          return .binary (UInt8.ofNat subtype) bytes
  | .array => (fillDocument lengthLeft data).map .array
  | .document => (fillDocument lengthLeft data).map .document
  | .oid =>
    if lengthLeft < 12 then none else (slice 12 data).map .oid
  | .bool =>
    if lengthLeft < 1 then none
    else (readWord 1 data).map fun p => .bool (p.1 ≠ 0)
  | .regex =>
    if lengthLeft < 2 then none
    else do
      let (regex, rest) ← readCString data
      if lengthLeft < (regex.length : Int) + 2 then none
      else do
        let (options, _) ← readCString rest
        return .regex regex options
  | .dbPointer =>
    if lengthLeft < 4 then none
    else do
      let (utf8Length, data) ← readInt32 data
      if lengthLeft < utf8Length + 4 then none
      else do
        let collection ← slice (utf8Length - 1) data
        if lengthLeft < utf8Length + 4 + 12 then none
        else do
          -- `data` still points to the collection
          let oid ← slice 12 data
          return .dbPointer collection oid
  | .codeWScope =>
    if lengthLeft < 4 then none
    else do
      let (totalcodeLength, data) ← readInt32 data
      if lengthLeft < totalcodeLength + 4 then none
      else do
        let (codeLength, data) ← readInt32 data
        if totalcodeLength < codeLength then none
        else do
          let code ← slice codeLength data
          let (_, data) ← readBytes (codeLength + 1).toNat data
          let (docLength, _) ← readInt32 data
          if totalcodeLength < docLength then none
          else do
            let scope ← slice docLength data
            return .codeWScope code scope
  | .int32 =>
    if lengthLeft < 4 then none
    else (readWord 4 data).map fun p => .int32 (UInt32.ofNat p.1).toInt32
  | .decimal128 =>
    if lengthLeft < 16 then none
    else do
      let (low, data) ← readWord 8 data
      let (high, _) ← readWord 8 data
      return .decimal128 ⟨UInt64.ofNat high, UInt64.ofNat low⟩
  | .maxKey => some .maxKey
  | .minKey => some .minKey
  | .null => some .null
  | .undefined => some .undefined

/-- On a little endian machine. `none` stands for its errors and for reads behind the last
byte. -/
def fillPgbsonElementUnsafe : Option (Bytes × RawValue) :=
  if data.length < 5 then none
  else do
    let (length, data) ← readWord 4 data
    let (typeByte, data) ← readWord 1 data
    let (path, data) ← readCString data
    let lengthLeft := Int.bmod ((length : Int) - path.length - 5) (2 ^ 32)
    let type ← BsonType.ofByte typeByte
    let value ← fillValue type lengthLeft data
    return (path, value)

-- ==== what it decodes

/-- Where the decoder finds the object id of a DBPointer. -/
def clobberedOid (collection : Bytes) (o : Oid) : Oid where
  bytes := (collection ++ 0 :: o.bytes).take 12
  length_eq := by simp [o.length_eq]

/-- What `FillPgbsonElementUnsafe` makes of a well-formed value. -/
def Value.unsafeDecode : Value → Option Value
  | .timestamp seconds increment => some (.timestamp increment seconds)
  | .dbPointer c o => some (.dbPointer c (clobberedOid c o))
  | .codeWScope _ _ => none
  | v => some v

theorem readInt32_append {n : Nat} (h : n < 2 ^ 31) (r : Bytes) :
    readInt32 (leBytes 4 n ++ r) = some ((n : Int), r) := by
  have hn : n < 256 ^ 4 := by omega
  have hb : Int.bmod (n : Int) (2 ^ 32) = n := Int.bmod_eq_of_le (by omega) (by omega)
  simp only [readInt32, readWord_append hn, map_some, hb]

theorem slice_append {n : Nat} {a : Bytes} (h : a.length = n) (r : Bytes) :
    slice n (a ++ r) = some a := by
  simp [slice, readBytes_append h]

variable {l : Int}

theorem fillString_encodeString {s : Bytes}
    (hl : (s.length : Int) + 5 ≤ l) (h : s.length + 1 < 2 ^ 31) (r : Bytes) :
    fillString l (encodeString s ++ r) = some s := by
  unfold fillString
  rw [if_neg (by omega)]
  simp only [encodeString, append_assoc, readInt32_append h]
  simp only [bind_eq_bind, bind_some, cast_add, cast_one, add_sub_cancel_right]
  rw [if_neg (by omega)]
  exact slice_append rfl _

theorem fillDocument_frame {body : Bytes}
    (hl : (body.length : Int) + 5 ≤ l) (h : body.length + 5 < 2 ^ 31)
    (r : Bytes) : fillDocument l (frame body ++ r) = some (frame body) := by
  unfold fillDocument
  have hw : readInt32 (frame body ++ r)
      = some (((body.length + 5 : Nat) : Int), body ++ ([0] ++ r)) := by
    simp only [frame, append_assoc]
    exact readInt32_append h _
  rw [if_neg (by omega), hw]
  simp only [bind_eq_bind, bind_some]
  rw [if_neg (by omega)]
  exact slice_append (length_frame body) r

theorem fillWord8_append {w : UInt64} (hl : 8 ≤ l) (r : Bytes) :
    fillWord8 l (leBytes 8 w.toNat ++ r) = some w := by
  unfold fillWord8
  rw [if_neg (by omega)]
  simp [readWord_uint64]

/-- The decoder on a well-formed value: the count of the bytes left includes
the value, the final zero and one byte more. -/
theorem fillValue_encodeValue {v : Value} (hn : v.namesOk)
    (hl : l = (encodeValue v).length + 2) (hs : l < 2 ^ 31) (r : Bytes) :
    fillValue v.type l (encodeValue v ++ r) = v.unsafeDecode.map Value.raw := by
  cases v with
  | double bits | dateTime ms | int64 n =>
    simp only [encodeValue, length_leBytes] at hl
    simp only [Value.type, fillValue, encodeValue]
    rw [fillWord8_append (by omega)]
    rfl
  | utf8 s | code c | symbol s =>
    simp only [encodeValue, length_encodeString] at hl
    simp only [Value.type, fillValue, encodeValue]
    rw [fillString_encodeString (by omega) (by omega)]
    rfl
  | document fs | array es =>
    simp only [encodeValue, length_frame] at hl
    simp only [Value.type, fillValue, encodeValue]
    rw [fillDocument_frame (by omega) (by omega)]
    rfl
  | binary sub data =>
    by_cases hsub : sub = 2
    · subst hsub
      simp only [encodeValue, if_true, length_append, length_cons, length_leBytes] at hl
      simp only [Value.type, fillValue, encodeValue, if_true, append_assoc, cons_append]
      rw [if_neg (by omega), readInt32_append (by omega)]
      simp only [bind_eq_bind, bind_some]
      rw [if_neg (by omega), readWord_byte]
      simp only [bind_some]
      rw [if_pos (by decide), readBytes_append (length_leBytes 4 _)]
      simp only [bind_some, cast_add, cast_ofNat, add_sub_cancel_right]
      rw [slice_append rfl]
      rfl
    · have hsub' : sub.toNat ≠ 2 := fun h => hsub (UInt8.toNat_inj.1 h)
      simp only [encodeValue, hsub, if_false, length_append, length_cons, length_leBytes] at hl
      simp only [Value.type, fillValue, encodeValue, hsub, if_false, append_assoc, cons_append]
      rw [if_neg (by omega), readInt32_append (by omega)]
      simp only [bind_eq_bind, bind_some]
      rw [if_neg (by omega), readWord_byte]
      simp only [bind_some]
      rw [if_neg hsub', slice_append rfl]
      simp [Value.unsafeDecode, Value.raw]
  | undefined | null | minKey | maxKey => rfl
  | oid o =>
    simp only [encodeValue, o.length_eq] at hl
    simp only [Value.type, fillValue, encodeValue]
    rw [if_neg (by omega), show (12 : Int) = (12 : Nat) from rfl, slice_append o.length_eq]
    rfl
  | bool b =>
    simp only [Value.type, fillValue, encodeValue]
    rw [if_neg (by omega)]
    cases b <;> rfl
  | regex pat opt =>
    have hn' : 0 ∉ pat ∧ 0 ∉ opt := by simpa [Value.namesOk] using hn
    simp only [encodeValue, length_append, length_cons, length_nil] at hl
    simp only [Value.type, fillValue, encodeValue, append_assoc, cons_append, nil_append]
    rw [if_neg (by omega), readCString_append hn'.1]
    simp only [bind_eq_bind, bind_some]
    rw [if_neg (by omega), readCString_append hn'.2]
    rfl
  | dbPointer c o =>
    simp only [encodeValue, length_append, length_encodeString, o.length_eq] at hl
    simp only [Value.type, fillValue, encodeValue, encodeString, append_assoc]
    rw [if_neg (by omega), readInt32_append (by omega)]
    simp only [bind_eq_bind, bind_some, cast_add, cast_one, add_sub_cancel_right]
    rw [if_neg (by omega), slice_append rfl]
    simp only [bind_some]
    -- the object id is sought where the collection starts
    have hoid : slice 12 (c ++ ([0] ++ (o.bytes ++ r))) = some (clobberedOid c o).bytes := by
      have hlen : 12 ≤ (c ++ 0 :: o.bytes).length := by
        simp only [length_append, length_cons, o.length_eq]
        omega
      have hassoc : c ++ ([0] ++ (o.bytes ++ r)) = (c ++ 0 :: o.bytes) ++ r := by simp
      rw [hassoc, slice, readBytes,
        if_pos (by rw [length_append]; exact le_add_right_of_le hlen), map_some]
      exact congrArg some (take_append_of_le_length hlen)
    rw [if_neg (by omega), hoid]
    rfl
  | codeWScope c scope =>
    simp only [encodeValue, length_append, length_leBytes, length_encodeString, length_frame] at hl
    simp only [Value.type, fillValue, encodeValue, append_assoc, length_encodeString, length_frame]
    rw [if_neg (by omega), readInt32_append (by omega)]
    simp only [bind_eq_bind, bind_some]
    -- the total length counts its own four bytes
    rw [if_pos (by omega)]
    rfl
  | int32 n =>
    simp only [encodeValue, length_leBytes] at hl
    simp only [Value.type, fillValue, encodeValue]
    rw [if_neg (by omega), readWord_uint32]
    simp [Value.unsafeDecode, Value.raw, int32_ofNat_word]
  | timestamp seconds increment | decimal128 d =>
    simp only [encodeValue, length_append, length_leBytes] at hl
    simp only [Value.type, fillValue, encodeValue]
    rw [if_neg (by omega)]
    simp [readWord_uint32, readWord_uint64, Value.unsafeDecode, Value.raw]

namespace PgbsonElement

variable (e : PgbsonElement)

theorem data_eq : e.toPgbson.data = leBytes 4 ((encodeFields [(e.path, e.bsonValue)]).length + 5)
      ++ (e.bsonValue.type.byte :: (e.path ++ 0 :: (encodeValue e.bsonValue ++ [0]))) := by
  simp [Pgbson.data, toPgbson, encodeDoc, frame, encodeFields]

theorem length_fields : (encodeFields [(e.path, e.bsonValue)]).length
      = e.path.length + (encodeValue e.bsonValue).length + 2 := by
  simp only [encodeFields, append_nil, length_cons, length_append]
  omega

theorem length_lt : e.path.length + (encodeValue e.bsonValue).length + 7 < 2 ^ 31 := by
  have h := e.size_lt
  rw [encodeDoc, length_frame, length_fields] at h
  omega

theorem path_ok : 0 ∉ e.path ∧ e.bsonValue.namesOk := by
  have h := e.namesOk
  simpa [namesOkFields] using h

theorem bsonValueToPgbsonElement_data :
    bsonValueToPgbsonElement e.toPgbson.data = some (e.path, e.bsonValue.raw) := by
  have hlen := length_lt e
  obtain ⟨hpath, hval⟩ := path_ok e
  rw [bsonValueToPgbsonElement, data_eq, length_fields, readWord_append (by omega)]
  simp only [bind_eq_bind, bind_some, readWord_byte, readCString_append hpath, BsonType.ofByte_byte,
    iterValue_encodeValue hval (by omega : (encodeValue e.bsonValue).length < 2 ^ 32)]
  rfl

theorem fillPgbsonElementUnsafe_data : fillPgbsonElementUnsafe e.toPgbson.data
      = e.bsonValue.unsafeDecode.map fun v => (e.path, v.raw) := by
  have hlen := length_lt e
  obtain ⟨hpath, hval⟩ := path_ok e
  have hleft : Int.bmod (((e.path.length + (encodeValue e.bsonValue).length
      + 2 + 5 : Nat) : Int) - e.path.length - 5) (2 ^ 32)
        = (encodeValue e.bsonValue).length + 2 := by
    rw [Int.bmod_eq_of_le (by omega) (by omega)]
    omega
  rw [fillPgbsonElementUnsafe, data_eq, if_neg (by simp; omega),
    length_fields, readWord_append (by omega)]
  simp only [bind_eq_bind, bind_some, readWord_byte,
    readCString_append hpath, BsonType.ofByte_byte, hleft]
  rw [fillValue_encodeValue hval rfl (by omega)]
  cases e.bsonValue.unsafeDecode <;> rfl

theorem exists_of_unsafeDecode {v : Value} (h : e.bsonValue.unsafeDecode = some v) :
    ∃ e' : PgbsonElement, e'.path = e.path ∧ e'.bsonValue = v := by
  have hnames : v.namesOk = e.bsonValue.namesOk
      ∧ (encodeValue v).length = (encodeValue e.bsonValue).length := by
    revert h
    cases e.bsonValue with
    | timestamp seconds increment =>
      intro h
      cases h
      exact ⟨rfl, by simp [encodeValue]⟩
    | dbPointer c o =>
      intro h
      cases h
      exact ⟨rfl, by simp [encodeValue, Oid.length_eq]⟩
    | codeWScope c scope => simp [Value.unsafeDecode]
    | _ =>
      intro h
      cases h
      exact ⟨rfl, rfl⟩
  have hn := e.namesOk
  have hs := e.size_lt
  refine ⟨⟨e.path, v, ?_, ?_⟩, rfl, rfl⟩
  · simpa only [namesOkFields, hnames.1] using hn
  · simp only [encodeDoc, length_frame, encodeFields, length_cons, length_append, hnames.2] at hs ⊢
    exact hs

theorem bsonValue_eq_of_raw {e e' : PgbsonElement} (h : e.bsonValue.raw = e'.bsonValue.raw) :
    e.bsonValue = e'.bsonValue := by
  have hs := length_lt e
  have hs' := length_lt e'
  exact Value.eq_of_raw (path_ok e).2 (path_ok e').2 (by omega) (by omega) h

end PgbsonElement

/-- The values that the unsafe decoder reads as they are. -/
def Value.unsafeFaithful : Value → Bool
  | .timestamp seconds increment => seconds = increment
  | .dbPointer c o => (c ++ 0 :: o.bytes).take 12 = o.bytes
  | .codeWScope _ _ => false
  | _ => true

theorem Value.unsafeDecode_raw_iff (v : Value) :
    v.unsafeDecode.map raw = some v.raw ↔ v.unsafeFaithful := by
  cases v with
  | timestamp seconds increment =>
    simp only [unsafeDecode, unsafeFaithful, map_some, raw,
      some.injEq, RawValue.timestamp.injEq, decide_eq_true_eq]
    exact ⟨fun h => h.2, fun h => ⟨h.symm, h⟩⟩
  | dbPointer c o =>
    simp [unsafeDecode, unsafeFaithful, raw, clobberedOid]
  | codeWScope c scope => simp [unsafeDecode, unsafeFaithful]
  | _ => simp [unsafeDecode, unsafeFaithful]

/-- The two decoders agree on a document of one element exactly when its
value is no timestamp whose halves differ, no DBPointer whose object id is
not the first twelve bytes behind the length of the collection, and no code
with scope. -/
theorem fillPgbsonElementUnsafe_agrees_iff (e : PgbsonElement) :
    fillPgbsonElementUnsafe e.toPgbson.data = bsonValueToPgbsonElement e.toPgbson.data
      ↔ e.bsonValue.unsafeFaithful = true := by
  rw [e.fillPgbsonElementUnsafe_data, e.bsonValueToPgbsonElement_data, ← Value.unsafeDecode_raw_iff]
  cases e.bsonValue.unsafeDecode <;> simp

/-- The timestamp with seconds one and increment two, below the path `a`. -/
def timestampElement : PgbsonElement where
  path := [97]
  bsonValue := .timestamp 1 2
  namesOk := by decide
  size_lt := by decide

/-- Its halves are exchanged by the unsafe decoder. -/
theorem unsafe_timestamp_swapped : fillPgbsonElementUnsafe timestampElement.toPgbson.data
        = some ([97], .timestamp 2 1)
      ∧ bsonValueToPgbsonElement timestampElement.toPgbson.data = some ([97], .timestamp 1 2) := by
  decide +kernel

end DocumentDb
