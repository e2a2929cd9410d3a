/-
The BSON format: how a value is written, and how the library's iterator reads one element.

The iterator stops at the next level: a document, an array or a scope is a slice of the
bytes (`RawValue`). Reading gives back what was written (`iterValue_encodeValue`), so a byte
string is the encoding of one document only (`Pgbson.fields_eq_of_data`).
-/
import DocumentDb.Bson.Value
import DocumentDb.Lib.Bytes

namespace DocumentDb

open Wire List Option

-- ==== writing

/-- A counted string: its length with the final zero, its bytes, the zero. -/
def encodeString (s : Bytes) : Bytes := leBytes 4 (s.length + 1) ++ s ++ [0]

/-- The frame of a document: the total length, the elements, a zero. -/
def frame (body : Bytes) : Bytes := leBytes 4 (body.length + 5) ++ body ++ [0]

mutual

def encodeValue : Value → Bytes
  | .double bits => leBytes 8 bits.toNat
  | .utf8 s => encodeString s
  | .document fs => frame (encodeFields fs)
  | .array es => frame (encodeElems 0 es)
  | .binary sub data =>
    -- the deprecated subtype counts the data a second time
    if sub = 2 then
      leBytes 4 (data.length + 4) ++ sub :: (leBytes 4 data.length ++ data)
    else leBytes 4 data.length ++ sub :: data
  | .undefined | .null | .minKey | .maxKey => []
  | .oid o => o.bytes
  | .bool b => [if b then 1 else 0]
  | .dateTime ms => leBytes 8 ms.toUInt64.toNat
  | .regex pat opt => pat ++ 0 :: (opt ++ [0])
  | .dbPointer c o => encodeString c ++ o.bytes
  | .code c => encodeString c
  | .symbol s => encodeString s
  | .codeWScope c scope =>
    let doc := frame (encodeFields scope)
    leBytes 4 (4 + (encodeString c).length + doc.length) ++ encodeString c ++ doc
  | .int32 n => leBytes 4 n.toUInt32.toNat
  | .timestamp seconds increment =>
    leBytes 4 increment.toNat ++ leBytes 4 seconds.toNat
  | .int64 n => leBytes 8 n.toUInt64.toNat
  | .decimal128 d => leBytes 8 d.low.toNat ++ leBytes 8 d.high.toNat

def encodeFields : Fields → Bytes
  | [] => []
  | (k, v) :: fs =>
    v.type.byte :: (k ++ 0 :: (encodeValue v ++ encodeFields fs))

def encodeElems : Nat → List Value → Bytes
  | _, [] => []
  | i, v :: es =>
    v.type.byte :: (arrayKey i ++ 0 :: (encodeValue v ++ encodeElems (i + 1) es))

end

def encodeDoc (fs : Fields) : Bytes := frame (encodeFields fs)

/-- In bytes of a document. -/
def bsonMaxAllowedSize : Nat := 16 * 1024 * 1024

-- ==== well-formedness

mutual

/-- The C strings of a value are C strings: no name, no regular expression
and no options hold a zero byte. -/
def Value.namesOk : Value → Bool
  | .document fs => namesOkFields fs
  | .array es => namesOkElems es
  | .codeWScope _ scope => namesOkFields scope
  | .regex pat opt => 0 ∉ pat ∧ 0 ∉ opt
  | _ => true

def namesOkFields : Fields → Bool
  | [] => true
  | (k, v) :: fs => (0 ∉ k : Bool) && v.namesOk && namesOkFields fs

def namesOkElems : List Value → Bool
  | [] => true
  | v :: es => v.namesOk && namesOkElems es

end

variable {fs : Fields} {es : List Value} {s : Bytes} {v w : Value}

theorem namesOkFields_iff : namesOkFields fs ↔ ∀ f ∈ fs, 0 ∉ f.1 ∧ f.2.namesOk := by
  induction fs with
  | nil => simp [namesOkFields]
  | cons f fs ih =>
    obtain ⟨k, v⟩ := f
    simp [namesOkFields, ih, and_assoc]

theorem namesOkElems_iff : namesOkElems es ↔ ∀ e ∈ es, e.namesOk := by
  induction es with
  | nil => simp [namesOkElems]
  | cons e es ih => simp [namesOkElems, ih]

/-- A well-formed document. The length word of the frame is a signed 32-bit number. -/
structure Pgbson where
  fields : Fields
  namesOk : namesOkFields fields = true
  size_lt : (encodeDoc fields).length < 2 ^ 31

def Pgbson.data (b : Pgbson) : Bytes := encodeDoc b.fields

-- ==== reading

/-- `bson_value_t` as the iterator fills it: containers are slices. -/
inductive RawValue where
  | double (bits : UInt64)
  | utf8 (str : Bytes)
  | document (data : Bytes)
  | array (data : Bytes)
  | binary (subtype : UInt8) (data : Bytes)
  | undefined
  | oid (o : Bytes)
  | bool (b : Bool)
  | dateTime (ms : Int64)
  | null
  | regex (pattern options : Bytes)
  | dbPointer (collection : Bytes) (o : Bytes)
  | code (code : Bytes)
  | symbol (sym : Bytes)
  | codeWScope (code : Bytes) (scope : Bytes)
  | int32 (n : Int32)
  | timestamp (seconds increment : UInt32)
  | int64 (n : Int64)
  | decimal128 (d : Decimal128)
  | minKey
  | maxKey
  deriving DecidableEq, Repr

def Value.raw : Value → RawValue
  | .double bits => .double bits
  | .utf8 s => .utf8 s
  | .document fs => .document (frame (encodeFields fs))
  | .array es => .array (frame (encodeElems 0 es))
  | .binary sub data => .binary sub data
  | .undefined => .undefined
  | .oid o => .oid o.bytes
  | .bool b => .bool b
  | .dateTime ms => .dateTime ms
  | .null => .null
  | .regex pat opt => .regex pat opt
  | .dbPointer c o => .dbPointer c o.bytes
  | .code c => .code c
  | .symbol s => .symbol s
  | .codeWScope c scope => .codeWScope c (frame (encodeFields scope))
  | .int32 n => .int32 n
  | .timestamp seconds increment => .timestamp seconds increment
  | .int64 n => .int64 n
  | .decimal128 d => .decimal128 d
  | .minKey => .minKey
  | .maxKey => .maxKey

def readString (bs : Bytes) : Option (Bytes × Bytes) := do
  let (n, bs) ← readWord 4 bs
  let (s, bs) ← readBytes (n - 1) bs
  let (_, bs) ← readBytes 1 bs
  return (s, bs)

def readFrame (bs : Bytes) : Option (Bytes × Bytes) := do
  let (n, _) ← readWord 4 bs
  readBytes n bs

/-- The value of the next element and the bytes behind it, as the library's
iterator reads it. -/
def iterValue (type : BsonType) (bs : Bytes) : Option (RawValue × Bytes) :=
  match type with
  | .double => do
    let (n, bs) ← readWord 8 bs
    return (.double (UInt64.ofNat n), bs)
  | .utf8 => do
    let (s, bs) ← readString bs
    return (.utf8 s, bs)
  | .document => do
    let (d, bs) ← readFrame bs
    return (.document d, bs)
  | .array => do
    let (d, bs) ← readFrame bs
    return (.array d, bs)
  | .binary => do
    let (n, bs) ← readWord 4 bs
    let (sub, bs) ← readWord 1 bs
    if sub = 2 then
      let (_, bs) ← readWord 4 bs
      let (data, bs) ← readBytes (n - 4) bs
      return (.binary 2 data, bs)
    else
      let (data, bs) ← readBytes n bs
      return (.binary (UInt8.ofNat sub) data, bs)
  | .undefined => some (.undefined, bs)
  | .oid => do
    let (o, bs) ← readBytes 12 bs
    return (.oid o, bs)
  | .bool => do
    let (b, bs) ← readWord 1 bs
    return (.bool (b ≠ 0), bs)
  | .dateTime => do
    let (n, bs) ← readWord 8 bs
    return (.dateTime (UInt64.ofNat n).toInt64, bs)
  | .null => some (.null, bs)
  | .regex => do
    let (pat, bs) ← readCString bs
    let (opt, bs) ← readCString bs
    return (.regex pat opt, bs)
  | .dbPointer => do
    let (c, bs) ← readString bs
    let (o, bs) ← readBytes 12 bs
    return (.dbPointer c o, bs)
  | .code => do
    let (c, bs) ← readString bs
    return (.code c, bs)
  | .symbol => do
    let (s, bs) ← readString bs
    return (.symbol s, bs)
  | .codeWScope => do
    let (_, bs) ← readWord 4 bs
    let (c, bs) ← readString bs
    let (d, bs) ← readFrame bs
    return (.codeWScope c d, bs)
  | .int32 => do
    let (n, bs) ← readWord 4 bs
    return (.int32 (UInt32.ofNat n).toInt32, bs)
  | .timestamp => do
    let (increment, bs) ← readWord 4 bs
    let (seconds, bs) ← readWord 4 bs
    return (.timestamp (UInt32.ofNat seconds) (UInt32.ofNat increment), bs)
  | .int64 => do
    let (n, bs) ← readWord 8 bs
    return (.int64 (UInt64.ofNat n).toInt64, bs)
  | .decimal128 => do
    let (low, bs) ← readWord 8 bs
    let (high, bs) ← readWord 8 bs
    return (.decimal128 ⟨UInt64.ofNat high, UInt64.ofNat low⟩, bs)
  | .minKey => some (.minKey, bs)
  | .maxKey => some (.maxKey, bs)

theorem readString_append (h : (encodeString s).length < 2 ^ 32)
    (r : Bytes) : readString (encodeString s ++ r) = some (s, r) := by
  have hn : s.length + 1 < 256 ^ 4 := by
    simp [encodeString] at h
    omega
  simp only [readString, encodeString, append_assoc]
  rw [readWord_append hn]
  simp only [bind_eq_bind, bind_some, Nat.add_sub_cancel]
  rw [readBytes_append rfl]
  simp only [bind_some]
  rfl

@[simp] theorem length_encodeString (s : Bytes) : (encodeString s).length = s.length + 5 := by
  simp only [encodeString, length_append, length_leBytes, length_singleton]
  omega

@[simp] theorem length_frame (body : Bytes) : (frame body).length = body.length + 5 := by
  simp only [frame, length_append, length_leBytes, length_singleton]
  omega

theorem readFrame_append {body : Bytes} (h : (frame body).length < 2 ^ 32)
    (r : Bytes) : readFrame (frame body ++ r) = some (frame body, r) := by
  have hn : body.length + 5 < 256 ^ 4 := by
    rw [length_frame] at h
    omega
  have hw : readWord 4 (frame body ++ r) = some (body.length + 5, body ++ ([0] ++ r)) := by
    simp only [frame, append_assoc]
    exact readWord_append hn _
  rw [readFrame, hw]
  exact readBytes_append (length_frame body) r

theorem int64_ofNat_word (n : Int64) : Int64.ofNat n.toUInt64.toNat = n := by
  show (UInt64.ofNat n.toUInt64.toNat).toInt64 = n
  rw [UInt64.ofNat_toNat]
  rfl

theorem int32_ofNat_word (n : Int32) : Int32.ofNat n.toUInt32.toNat = n := by
  show (UInt32.ofNat n.toUInt32.toNat).toInt32 = n
  rw [UInt32.ofNat_toNat]
  rfl

theorem readWord_uint32 (w : UInt32) (r : Bytes) :
    readWord 4 (leBytes 4 w.toNat ++ r) = some (w.toNat, r) := readWord_append w.toNat_lt r

theorem readWord_uint64 (w : UInt64) (r : Bytes) :
    readWord 8 (leBytes 8 w.toNat ++ r) = some (w.toNat, r) := readWord_append w.toNat_lt r

theorem readWord_byte (b : UInt8) (r : Bytes) : readWord 1 (b :: r) = some (b.toNat, r) := by
  simp [readWord, readBytes, leNat]

theorem iterValue_encodeValue (hn : v.namesOk) (hs : (encodeValue v).length < 2 ^ 32) (r : Bytes) :
    iterValue v.type (encodeValue v ++ r) = some (v.raw, r) := by
  cases v with
  | double bits | timestamp seconds increment | decimal128 d =>
    simp [Value.type, iterValue, encodeValue, Value.raw, readWord_uint32, readWord_uint64]
  | utf8 s | code c | symbol s =>
    simp [Value.type, iterValue, encodeValue, Value.raw, readString_append hs]
  | document fs | array es =>
    simp [Value.type, iterValue, encodeValue, Value.raw, readFrame_append hs]
  | binary sub data =>
    by_cases hsub : sub = 2
    · subst hsub
      have hlen : data.length + 4 < 256 ^ 4 := by
        simp [encodeValue] at hs
        omega
      have hlen' : data.length < 256 ^ 4 := by omega
      simp [Value.type, iterValue, encodeValue, Value.raw, readWord_append hlen,
        readWord_append hlen', readWord_byte, readBytes_append rfl]
    · have hlen : data.length < 256 ^ 4 := by
        simp [encodeValue, hsub] at hs
        omega
      have hsub' : sub.toNat ≠ 2 := fun h =>
        hsub (UInt8.toNat_inj.1 h)
      simp [Value.type, iterValue, encodeValue, Value.raw, hsub, hsub',
        readWord_append hlen, readWord_byte, readBytes_append rfl]
  | undefined | null | minKey | maxKey => rfl
  | oid o =>
    simp [Value.type, iterValue, encodeValue, Value.raw, readBytes_append o.length_eq]
  | bool b => cases b <;> rfl
  | dateTime n | int64 n =>
    simp [Value.type, iterValue, encodeValue, Value.raw, readWord_uint64, int64_ofNat_word]
  | regex pat opt =>
    have hn' : 0 ∉ pat ∧ 0 ∉ opt := by simpa [Value.namesOk] using hn
    simp [Value.type, iterValue, encodeValue, Value.raw,
      readCString_append hn'.1, readCString_append hn'.2]
  | dbPointer c o =>
    have hc : (encodeString c).length < 2 ^ 32 := by
      simp [encodeValue] at hs ⊢
      omega
    simp [Value.type, iterValue, encodeValue, Value.raw,
      readString_append hc, readBytes_append o.length_eq]
  | codeWScope c scope =>
    simp only [encodeValue, length_append, length_leBytes] at hs
    have hc : (encodeString c).length < 2 ^ 32 := by omega
    have hd : (frame (encodeFields scope)).length < 2 ^ 32 := by omega
    have htot : 4 + (encodeString c).length
        + (frame (encodeFields scope)).length < 256 ^ 4 := by omega
    simp only [Value.type, iterValue, encodeValue, Value.raw, append_assoc, readWord_append htot,
      bind_eq_bind, bind_some, readString_append hc, readFrame_append hd]
    rfl
  | int32 n =>
    simp [Value.type, iterValue, encodeValue, Value.raw, readWord_uint32, int32_ofNat_word]

-- ==== bytes determine values

private def scalarOfRaw : RawValue → Option Value
  | .double bits => some (.double bits)
  | .utf8 s => some (.utf8 s)
  | .document _ | .array _ | .codeWScope _ _ => none
  | .binary sub data => some (.binary sub data)
  | .undefined => some .undefined
  | .oid o => if h : o.length = 12 then some (.oid ⟨o, h⟩) else none
  | .bool b => some (.bool b)
  | .dateTime ms => some (.dateTime ms)
  | .null => some .null
  | .regex pat opt => some (.regex pat opt)
  | .dbPointer c o =>
    if h : o.length = 12 then some (.dbPointer c ⟨o, h⟩) else none
  | .code c => some (.code c)
  | .symbol s => some (.symbol s)
  | .int32 n => some (.int32 n)
  | .timestamp seconds increment => some (.timestamp seconds increment)
  | .int64 n => some (.int64 n)
  | .decimal128 d => some (.decimal128 d)
  | .minKey => some .minKey
  | .maxKey => some .maxKey

theorem scalarOfRaw_raw (v : Value) : scalarOfRaw v.raw = if v.isScalar then some v else none := by
  cases v with
  | oid o => simp [scalarOfRaw, Value.raw, Value.isScalar, o.length_eq]
  | dbPointer c o => simp [scalarOfRaw, Value.raw, Value.isScalar, o.length_eq]
  | _ => rfl

theorem eq_of_raw_scalar (hv : v.isScalar) (h : v.raw = w.raw) : v = w := by
  have hvw := scalarOfRaw_raw v
  rw [h, scalarOfRaw_raw w, if_pos hv] at hvw
  split_ifs at hvw
  exact (some.inj hvw).symm

/-- Bytes that start with the encodings of two values of one type start with
the same encoding: what the iterator shows of both is the same. -/
theorem raw_eq_of_append (hv : v.namesOk) (hw : w.namesOk) (hsv : (encodeValue v).length < 2 ^ 32)
    (hsw : (encodeValue w).length < 2 ^ 32) (ht : v.type = w.type)
    {r : Bytes} (h : encodeValue v ++ r = encodeValue w ++ s) : v.raw = w.raw ∧ r = s := by
  have h₁ := iterValue_encodeValue hv hsv r
  have h₂ := iterValue_encodeValue hw hsw s
  rw [h, ht, h₂] at h₁
  simpa [eq_comm] using h₁

theorem frame_injective {a b : Bytes} (h : frame a = frame b) : a = b := by
  have hlen := congrArg length h
  rw [length_frame, length_frame] at hlen
  simp only [frame, append_assoc] at h
  exact (append_inj (append_inj h (by simp)).2 (by omega)).1

private def Determined (v : Value) : Prop :=
  ∀ w, v.namesOk = true → w.namesOk = true →
    (encodeValue v).length < 2 ^ 32 → (encodeValue w).length < 2 ^ 32 →
    v.raw = w.raw → v = w

theorem encodeFields_inj (ih : ∀ f ∈ fs, Determined f.2) (gs : Fields)
    (hfs : namesOkFields fs) (hgs : namesOkFields gs)
    (hs : (encodeFields fs).length < 2 ^ 32) (h : encodeFields fs = encodeFields gs) : fs = gs := by
  induction fs generalizing gs with
  | nil =>
    cases gs with
    | nil => rfl
    | cons g gs => simp [encodeFields] at h
  | cons f fs ihfs =>
    obtain ⟨k, v⟩ := f
    cases gs with
    | nil => simp [encodeFields] at h
    | cons g gs =>
      obtain ⟨k', v'⟩ := g
      have hs' := hs
      rw [h] at hs'
      simp only [encodeFields, List.cons.injEq] at h
      simp only [namesOkFields, Bool.and_eq_true, decide_eq_true_eq] at hfs hgs
      simp only [encodeFields, length_cons, length_append] at hs hs'
      have hk := readCString_append hfs.1.1 (encodeValue v ++ encodeFields fs)
      rw [h.2, readCString_append hgs.1.1] at hk
      simp only [some.injEq, Prod.mk.injEq] at hk
      obtain ⟨hraw, hrest⟩ := raw_eq_of_append hfs.1.2 hgs.1.2
        (by omega) (by omega) (BsonType.byte_injective h.1) hk.2.symm
      have hv : Determined v := ih (k, v) (by simp)
      rw [hk.1, hv v' hfs.1.2 hgs.1.2 (by omega) (by omega) hraw,
        ihfs (fun f hf => ih f (by simp [hf])) gs hfs.2 hgs.2
          (by omega) hrest]

theorem encodeElems_inj (ih : ∀ e ∈ es, Determined e) (gs : List Value) (i : Nat)
    (hes : namesOkElems es) (hgs : namesOkElems gs) (hs : (encodeElems i es).length < 2 ^ 32)
    (h : encodeElems i es = encodeElems i gs) : es = gs := by
  induction es generalizing gs i with
  | nil =>
    cases gs with
    | nil => rfl
    | cons g gs => simp [encodeElems] at h
  | cons v es ihes =>
    cases gs with
    | nil => simp [encodeElems] at h
    | cons v' gs =>
      have hs' := hs
      rw [h] at hs'
      simp only [encodeElems, List.cons.injEq] at h
      simp only [namesOkElems, Bool.and_eq_true] at hes hgs
      simp only [encodeElems, length_cons, length_append] at hs hs'
      have hk := (List.cons.inj (append_cancel_left h.2)).2
      obtain ⟨hraw, hrest⟩ := raw_eq_of_append hes.1 hgs.1
        (by omega) (by omega) (BsonType.byte_injective h.1) hk
      rw [ih v (by simp) v' hes.1 hgs.1 (by omega) (by omega) hraw,
        ihes (fun e he => ih e (by simp [he])) gs (i + 1) hes.2 hgs.2
          (by omega) hrest]

theorem determined (v : Value) : Determined v := by
  induction v using Value.induction with
  | document fs ih =>
    intro w hv hw hsv hsw h
    cases w with
    | document gs =>
      rw [encodeFields_inj ih gs hv hw
        (by simp [encodeValue] at hsv; omega)
        (frame_injective (RawValue.document.inj h))]
    | _ => simp [Value.raw] at h
  | array es ih =>
    intro w hv hw hsv hsw h
    cases w with
    | array gs =>
      rw [encodeElems_inj ih gs 0 hv hw
        (by simp [encodeValue] at hsv; omega)
        (frame_injective (RawValue.array.inj h))]
    | _ => simp [Value.raw] at h
  | codeWScope c fs ih =>
    intro w hv hw hsv hsw h
    cases w with
    | codeWScope c' gs =>
      obtain ⟨rfl, hd⟩ := RawValue.codeWScope.inj h
      rw [encodeFields_inj ih gs hv hw (by simp [encodeValue] at hsv; omega) (frame_injective hd)]
    | _ => simp [Value.raw] at h
  | scalar v hv => exact fun w _ _ _ _ h => eq_of_raw_scalar hv h

theorem Value.eq_of_raw (hv : v.namesOk) (hw : w.namesOk) (hsv : (encodeValue v).length < 2 ^ 32)
    (hsw : (encodeValue w).length < 2 ^ 32) (h : v.raw = w.raw) : v = w :=
  determined v w hv hw hsv hsw h

theorem Pgbson.fields_eq_of_data {a b : Pgbson} (h : a.data = b.data) : a.fields = b.fields := by
  have hs := a.size_lt
  simp only [encodeDoc, length_frame] at hs
  exact encodeFields_inj (fun f _ => determined f.2) b.fields a.namesOk
    b.namesOk (by omega) (frame_injective h)

/-- The length word of a datum with a header of four bytes. -/
def varsize (memory : Bytes) : Nat := Wire.leNat (memory.take 4) / 4

theorem length_le_encodeElems (i : Nat) (elements : List Value) :
    3 * elements.length ≤ (encodeElems i elements).length := by
  induction elements generalizing i with
  | nil => exact Nat.zero_le _
  | cons value elements ih =>
    have hkey := length_pos_iff.2 (arrayKey_ne_nil i)
    have hrest := ih (i + 1)
    rw [encodeElems]
    simp only [length_cons, length_append]
    omega

end DocumentDb
