/-
The shard key hash, and when it respects equality.

A query that fixes the shard key is sent to the shard that the hash of its values names, so
equal values must have equal hashes. A value is hashed by its content, with the hash of its
type as the seed (`bsonValueHash`). Integers are hashed as doubles, and nothing else is
brought to a common form: a decimal keeps its type and pattern, a symbol its type, a
document its bytes, the zeros their signs. `shardHashSafe` says which equal values are
hashed alike; all others differ under some hash functions.
-/
import DocumentDb.Bson.Hash
import DocumentDb.Bson.Order
import DocumentDb.Bson.Path
import DocumentDb.Bson.Reference

namespace DocumentDb

open FreeHash ThreeWay Wire Rounding Dotted List Option

-- ==== hash functions

/-- The hash functions of the server, on 64-bit seeds and hashes. -/
structure PgHash where
  hashBytesUint32Extended : UInt32 → UInt64 → UInt64
  hashBytesExtended : Bytes → UInt64 → UInt64

/-- What is hashed behind the type. -/
inductive HashPayload where
  | none
  | word (n : UInt32)
  | bytes (b : Bytes)
  deriving DecidableEq

/-- The conversion of an `int64` to `double`. -/
def doubleOfInt (n : Int) : UInt64 := (Reference.roundBinary64 n).1

/-- The type `BsonValueHash` starts with: integers count as doubles. -/
def Value.hashType : Value → BsonType
  | .int32 _ | .int64 _ => .double
  | v => v.type

/-- The content `BsonValueHash` goes on with. -/
def Value.hashPayload : Value → HashPayload
  | .minKey | .undefined | .null | .maxKey => .none
  | .bool b => .word (UInt32.ofNat b.toNat)
  | .int32 n => .bytes (leBytes 8 (doubleOfInt n.toInt).toNat)
  | .int64 n => .bytes (leBytes 8 (doubleOfInt n.toInt).toNat)
  | .double bits => .bytes (leBytes 8 bits.toNat)
  | .dateTime ms => .bytes (int64Bytes ms)
  | .timestamp seconds increment =>
    .bytes (leBytes 4 seconds.toNat ++ leBytes 4 increment.toNat)
  | .oid o => .bytes o.bytes
  | .decimal128 d => .bytes (decimalBytes d)
  | .utf8 s => .bytes s
  | .array es => .bytes (encodeValue (.array es))
  | .document fs => .bytes (encodeValue (.document fs))
  | .symbol s => .bytes s
  -- the subtype, the options, the object id and the scope are ignored
  | .binary _ data => .bytes data
  | .regex pat _ => .bytes (pat.takeWhile (· ≠ 0))
  | .dbPointer c _ => .bytes c
  | .code c => .bytes c
  | .codeWScope c _ => .bytes c

variable (F : PgHash)

def bsonValueHash (value : Value) (seed : UInt64) : UInt64 :=
  let hashValue := F.hashBytesUint32Extended value.hashType.byte.toUInt32 seed
  match value.hashPayload with
  | .none => hashValue
  | .word n => F.hashBytesUint32Extended n hashValue
  | .bytes b => F.hashBytesExtended b hashValue

-- ==== the shard key

def findField (name : Bytes) : Fields → Option Value
  | [] => none
  | (k, v) :: fs => if k = name then some v else findField name fs

/-- The value at the path of a shard key, null when there is none, an error when it cannot
be a shard key. -/
def findShardKeyFieldValue : List Bytes → Fields → Option Value
  | [], _ => some .null
  | [field], fs =>
    match findField field fs with
    | some (.array _) | some (.regex _ _) | some .undefined => none
    | some v => some v
    | none => some .null
  | field :: path, fs =>
    match findField field fs with
    | some (.array _) => none
    | some (.document gs) => findShardKeyFieldValue path gs
    | _ => some .null

/-- The paths of a shard key: the names of its definition, all of them
hashed. -/
def shardKeyPaths (shardKeyDoc : Pgbson) : List (List Bytes) :=
  shardKeyDoc.fields.map fun f => segments dot f.1

/-- The loop of `ComputeShardKeyHashForDocument`: each value is hashed with
the hash before as the seed. -/
def hashShardKeyPaths (F : PgHash) (document : Fields)
    (shardKeyValue : UInt64) : List (List Bytes) → Option UInt64
  | [] => some shardKeyValue
  | path :: paths => do
    let value ← findShardKeyFieldValue path document
    hashShardKeyPaths F document (bsonValueHash F value shardKeyValue) paths

/-- The id of the collection when there is no shard key. -/
def computeShardKeyHashForDocument (shardKeyDoc : Option Pgbson)
    (collectionId : UInt64) (document : Fields) : Option UInt64 :=
  match shardKeyDoc with
  | none => some collectionId
  | some key => hashShardKeyPaths F document 0 (shardKeyPaths key)

/-- The loop of `ComputeShardKeyFieldValuesHash`. -/
def hashShardKeyFieldValues (F : PgHash) (shardKeyHash : UInt64) :
    List (Option Value) → Option UInt64
  | [] => some shardKeyHash
  -- not all fields in the shard key were specified
  | none :: _ => none
  -- the hash of a regular expression cannot be computed
  | some (.regex _ _) :: _ => none
  | some v :: values =>
    hashShardKeyFieldValues F (bsonValueHash F v shardKeyHash) values

/-- The hash of the values a query has for the fields of the key. -/
def computeShardKeyFieldValuesHash (shardKeyValues : List (Option Value)) : Option UInt64 :=
  hashShardKeyFieldValues F 0 shardKeyValues

-- ==== lists of values

/-- The values of a document at the paths of a shard key. -/
def shardKeyValuesOf (shardKeyDoc : Pgbson) (document : Fields) : Option (List Value) :=
  (shardKeyPaths shardKeyDoc).mapM (findShardKeyFieldValue · document)

variable (seed : UInt64) (values : List Value)

def hashValues : UInt64 :=
  values.foldl (fun h v => bsonValueHash F v h) seed

/-- The values that can be stored at a path of a shard key. -/
def Value.isShardKeyValue : Value → Bool
  | .array _ | .regex _ _ | .undefined => false
  | _ => true

theorem isShardKeyValue_of_find {path : List Bytes} {fs : Fields} {v : Value}
    (h : findShardKeyFieldValue path fs = some v) : v.isShardKeyValue := by
  induction path generalizing fs with
  | nil =>
    cases h
    rfl
  | cons field path ih =>
    cases path with
    | nil =>
      simp only [findShardKeyFieldValue] at h
      split at h <;> cases h
      · rename_i ha hr hu _
        cases v with
        | array es => exact absurd rfl (ha es)
        | regex pat opt => exact absurd rfl (hr pat opt)
        | undefined => exact absurd rfl hu
        | _ => rfl
      · rfl
    | cons field' path =>
      simp only [findShardKeyFieldValue] at h
      split at h
      · cases h
      · exact ih h
      · cases h
        rfl

theorem hashShardKeyPaths_eq (doc : Fields) (seed : UInt64) (paths : List (List Bytes)) :
    hashShardKeyPaths F doc seed paths
      = (paths.mapM (findShardKeyFieldValue · doc)).map (hashValues F seed) := by
  induction paths generalizing seed with
  | nil => rfl
  | cons path paths ih =>
    rw [hashShardKeyPaths, mapM_cons]
    cases findShardKeyFieldValue path doc with
    | none => rfl
    | some value =>
      simp only [bind_eq_bind, bind_some, ih, Option.map_bind]
      cases paths.mapM (findShardKeyFieldValue · doc) <;> rfl

theorem hashShardKeyFieldValues_some {values : List Value} (h : ∀ v ∈ values, v.isShardKeyValue) :
    hashShardKeyFieldValues F seed (values.map some) = some (hashValues F seed values) := by
  induction values generalizing seed with
  | nil => rfl
  | cons v values ih =>
    obtain ⟨hv, hvs⟩ := forall_mem_cons.1 h
    cases v with
    | regex pat opt => simp [Value.isShardKeyValue] at hv
    | _ => exact ih _ hvs

-- ==== the links

variable (v : Value)

/-- What a value adds to the chain of hashes: the numbers and byte strings
hashed for it, in order. -/
def hashLinks : List (UInt32 ⊕ Bytes) :=
  .inl v.hashType.byte.toUInt32 :: match v.hashPayload with
      | .none => []
      | .word n => [.inl n]
      | .bytes b => [.inr b]

def PgHash.step : UInt32 ⊕ Bytes → UInt64
  | .inl n => F.hashBytesUint32Extended n seed
  | .inr b => F.hashBytesExtended b seed

theorem bsonValueHash_eq (seed : UInt64) :
    bsonValueHash F v seed = (hashLinks v).foldl F.step seed := by
  unfold bsonValueHash hashLinks
  cases v.hashPayload <;> rfl

theorem hashValues_eq :
    hashValues F seed values = (values.flatMap hashLinks).foldl F.step seed := by
  induction values generalizing seed with
  | nil => rfl
  | cons v values ih =>
    rw [flatMap_cons, foldl_append, ← bsonValueHash_eq]
    exact ih _

theorem length_hashLinks : (hashLinks v).length
      = if v.sortOrderType = 0x0 ∨ v.sortOrderType = 0x1 ∨ v.sortOrderType = 0xF then 1 else 2 := by
  cases v <;> rfl

theorem length_hashLinks_le : (hashLinks v).length ≤ 2 := by
  rw [length_hashLinks]
  split_ifs <;> omega

theorem length_flatMap_hashLinks : (values.flatMap hashLinks).length ≤ 2 * values.length := by
  induction values with
  | nil => simp
  | cons v values ih =>
    have := length_hashLinks_le v
    simp only [flatMap_cons, length_append, length_cons]
    omega

theorem flatMap_hashLinks_inj {as bs : List Value}
    (h : List.Forall₂ (fun a b => a.sortOrderType = b.sortOrderType) as bs) :
    as.flatMap hashLinks = bs.flatMap hashLinks
      ↔ List.Forall₂ (fun a b => hashLinks a = hashLinks b) as bs := by
  induction h with
  | nil => simp
  | @cons a b as bs hab _ ih =>
    have hlen : (hashLinks a).length = (hashLinks b).length := by
      rw [length_hashLinks, length_hashLinks, hab]
    rw [flatMap_cons, flatMap_cons, forall₂_cons, ← ih]
    constructor
    · exact fun heq => append_inj heq hlen
    · rintro ⟨h₁, h₂⟩
      rw [h₁, h₂]

theorem links_eq_of_hash {l l' : List (UInt32 ⊕ Bytes)}
    (hlen : 2 * (l.length + l'.length) + 3 < 2 ^ 64)
    (h : ∀ F : PgHash, l.foldl F.step 0 = l'.foldl F.step 0) : l = l' := by
  refine Term.eq_of_foldl hlen fun step => ?_
  let F : PgHash := ⟨fun n s => step s (.inl n), fun b s => step s (.inr b)⟩
  have hF : F.step = step := by
    funext s a
    cases a <;> rfl
  simpa only [hF] using h F

-- ==== equal numbers

def negativeZero : UInt64 := 0x8000000000000000

variable {n : Int}

theorem log_int_le (hn : n.natAbs ≤ 2 ^ 63) : Int.log 2 |(n : ℚ)| ≤ 63 := by
  have hcast : |(n : ℚ)| = ((n.natAbs : Nat) : ℚ) := by
    rw [Nat.cast_natAbs, Int.cast_abs]
  have hlog := Nat.log_mono_right (b := 2) hn
  rw [hcast, Int.log_natCast]
  exact_mod_cast hlog

theorem roundBinary64_int (hn : n.natAbs ≤ 2 ^ 63) (h0 : n ≠ 0) :
    (Reference.roundBinary64 n).2 = false := by
  have hexp : Reference.binExp n ≤ 11 := by
    have hlog := log_int_le hn
    unfold Reference.binExp lastBit
    split_ifs <;> omega
  have hone : (1 : ℚ) ≤ |(n : ℚ)| := by
    exact_mod_cast Int.one_le_abs h0
  have hscale : scale 2 (-1022) ≤ 1 := by
    rw [scale_eq]
    exact zpow_le_one_of_nonpos₀ (by norm_num) (by norm_num)
  have hov : ¬(971 < Reference.binExp n ∨ (Reference.binExp n = 971
      ∧ (Reference.binSig n).natAbs = 2 ^ 53)) := by omega
  unfold Reference.roundBinary64
  rw [if_neg hov]
  simp only [decide_eq_false_iff_not, not_and_or, not_lt]
  exact Or.inl (hscale.trans hone)

theorem doubleOfInt_eq {bits : UInt64} (h : binary64Num bits = .fin n)
    (hn : n.natAbs ≤ 2 ^ 63) (h0 : n ≠ 0) : doubleOfInt n = bits := by
  have hround := Reference.binary64Num_roundBinary64 (roundBinary64_int hn h0)
  obtain ⟨m, e, hm, he, -, hq⟩ := binary64Num_finite h
  have hexact : toBits 53 (-1074) (n : ℚ) = n := by
    have := abs_toBits_sub_le (q := (n : ℚ)) hm he
    rw [← hq, sub_self, abs_zero, abs_nonpos_iff, sub_eq_zero] at this
    exact this
  rw [hexact] at hround
  apply binary64Num_inj_finite hround h
  exact_mod_cast h0

/-- An integer and a double of the same number are hashed by the same bytes
unless the double is the zero with a sign. -/
theorem doubleOfInt_eq_iff {bits : UInt64} (h : binary64Num bits = .fin n)
    (hn : n.natAbs ≤ 2 ^ 63) : doubleOfInt n = bits ↔ bits ≠ negativeZero := by
  have hneg : binary64Num negativeZero = .fin 0 := by decide +kernel
  by_cases h0 : n = 0
  · subst h0
    have hzero : doubleOfInt 0 = 0 := by decide +kernel
    rw [hzero]
    rcases binary64Num_eq_zero (by simpa using h) with hb | hb
    · rw [hb]
      decide
    · rw [hb]
      decide
  · refine iff_of_true (doubleOfInt_eq h hn h0) fun hb => h0 ?_
    rw [hb, hneg, Num.fin.injEq] at h
    exact_mod_cast h.symm

def shardHashSafe : Value → Value → Bool
  | .double bits, .double bits' => bits = bits'
  | .double bits, .int32 _ | .double bits, .int64 _
  | .int32 _, .double bits | .int64 _, .double bits => bits ≠ negativeZero
  | .decimal128 d, .decimal128 d' => d = d'
  | .decimal128 _, _ | _, .decimal128 _ => false
  | .utf8 _, .symbol _ | .symbol _, .utf8 _ => false
  | .document fs, .document gs => encodeDoc fs = encodeDoc gs
  | _, _ => true

section Agree

variable [BidLib]

variable {a b : Value}

theorem longDouble_eq_of_key (ha : a.isNumber) (hb : b.isNumber)
    (hda : ∀ d, a ≠ .decimal128 d) (hdb : ∀ d, b ≠ .decimal128 d) (h : numberKey a = numberKey b) :
    bsonNumberAsLongDouble a = bsonNumberAsLongDouble b := by
  have := ofOrder_numberKey (Value.isNumberOrBool_of_isNumber ha)
    (Value.isNumberOrBool_of_isNumber hb) hda hdb
  rw [h, ofOrder_self] at this
  exact ofOrder_eq_zero.1 this.symm

omit [BidLib] in
theorem hashLinks_bytes {x y : Bytes} (ha : a.hashPayload = .bytes x)
    (hb : b.hashPayload = .bytes y) :
    hashLinks a = hashLinks b ↔ a.hashType = b.hashType ∧ x = y := by
  have htype : a.hashType.byte.toUInt32 = b.hashType.byte.toUInt32 ↔ a.hashType = b.hashType := by
    rw [UInt8.toUInt32_inj]
    exact BsonType.byte_injective.eq_iff
  simp [hashLinks, ha, hb, htype]

theorem hashLinks_int_double {v : Value} {bits : UInt64}
    (hv : v.isNumber) (hd : ∀ d, v ≠ .decimal128 d)
    (hnum : bsonNumberAsLongDouble v = .fin n) (hn : n.natAbs ≤ 2 ^ 63)
    (htype : v.hashType = .double) (hpay : v.hashPayload = .bytes (leBytes 8 (doubleOfInt n).toNat))
    (h : numberKey v = numberKey (.double bits)) :
    hashLinks v = hashLinks (.double bits) ↔ bits ≠ negativeZero := by
  have hbits : binary64Num bits = .fin n := by
    have := longDouble_eq_of_key hv rfl hd (by simp) h
    rw [hnum] at this
    exact this.symm
  rw [hashLinks_bytes hpay rfl, htype, leBytes_word_inj, doubleOfInt_eq_iff hbits hn]
  simp [Value.hashType, Value.type]

omit [BidLib] in
theorem int32_natAbs_le (n : Int32) : n.toInt.natAbs ≤ 2 ^ 63 := by
  have := n.toInt_lt
  have := n.le_toInt
  omega

omit [BidLib] in
theorem int64_natAbs_le (n : Int64) : n.toInt.natAbs ≤ 2 ^ 63 := by
  have := n.toInt_lt
  have := n.le_toInt
  omega

theorem int_eq_of_key {m n : Int} (ha : a.isNumber) (hb : b.isNumber) (hda : ∀ d, a ≠ .decimal128 d)
    (hdb : ∀ d, b ≠ .decimal128 d) (hm : bsonNumberAsLongDouble a = .fin m)
    (hn : bsonNumberAsLongDouble b = .fin n) (h : numberKey a = numberKey b) : m = n := by
  have := longDouble_eq_of_key ha hb hda hdb h
  rw [hm, hn, Num.fin.injEq] at this
  exact_mod_cast this

theorem hashLinks_number_iff (ha : a.isNumber) (hb : b.isNumber)
    (h : numberKey a = numberKey b) : hashLinks a = hashLinks b ↔ shardHashSafe a b := by
  -- a decimal has a type of its own, so that nothing else is hashed like it
  have hdec : ∀ v d, v.isNumber → (∀ d', v ≠ .decimal128 d') →
      hashLinks v ≠ hashLinks (.decimal128 d) := by
    intro v d hv hd heq
    have htag := Sum.inl.inj (List.cons.inj heq).1
    have hne : BsonType.double.byte.toUInt32 ≠ BsonType.decimal128.byte.toUInt32 := by decide
    cases v with
    | decimal128 d' => exact hd d' rfl
    | double bits | int32 n | int64 n => exact hne htag
    | _ => simp [Value.isNumber] at hv
  cases a with
  | double bits =>
    cases b with
    | double bits' =>
      rw [hashLinks_bytes rfl rfl, leBytes_word_inj]
      simp [shardHashSafe, Value.hashType, Value.type]
    | int32 n =>
      rw [eq_comm, hashLinks_int_double rfl (by simp) rfl (int32_natAbs_le n) rfl rfl h.symm]
      simp [shardHashSafe]
    | int64 n =>
      rw [eq_comm, hashLinks_int_double rfl (by simp) rfl (int64_natAbs_le n) rfl rfl h.symm]
      simp [shardHashSafe]
    | decimal128 d =>
      exact iff_of_false (hdec _ d ha (by simp)) (by simp [shardHashSafe])
    | _ => simp [Value.isNumber] at hb
  | decimal128 d =>
    cases b with
    | decimal128 d' =>
      rw [hashLinks_bytes rfl rfl, decimalBytes_inj]
      simp [shardHashSafe, Value.hashType, Value.type]
    | double bits | int32 n | int64 n =>
      exact iff_of_false (hdec _ d hb (by simp)).symm
        (by simp [shardHashSafe])
    | _ => simp [Value.isNumber] at hb
  | int32 n | int64 n =>
    cases b with
    | double bits =>
      have hn : n.toInt.natAbs ≤ 2 ^ 63 := by
        first | exact int32_natAbs_le n | exact int64_natAbs_le n
      rw [hashLinks_int_double rfl (by simp) rfl hn rfl rfl h]
      simp [shardHashSafe]
    | int32 n' | int64 n' =>
      have := int_eq_of_key ha hb (by simp) (by simp) rfl rfl h
      exact iff_of_true (by simp [hashLinks, Value.hashPayload, Value.hashType, this]) rfl
    | decimal128 d =>
      exact iff_of_false (hdec _ d ha (by simp)) (by simp [shardHashSafe])
    | _ => simp [Value.isNumber] at hb
  | _ => simp [Value.isNumber] at ha

omit [BidLib] in
theorem shardHashSafe_self : shardHashSafe v v := by
  cases v <;> simp [shardHashSafe]

omit [BidLib] in
theorem canonScalar_shardKeyValue {v : Value}
    (hv : v.isShardKeyValue) (hs : v.sortOrderType ≠ 0x3) : v.canonScalar = v := by
  cases v with
  | symbol s => exact absurd rfl hs
  | undefined | regex pat opt => simp [Value.isShardKeyValue] at hv
  | _ => rfl

theorem hashLinks_string_iff (ha : a.sortOrderType = 0x3)
    (hb : b.sortOrderType = 0x3) (h : (compareBsonValue a b).1 = 0) :
    hashLinks a = hashLinks b ↔ shardHashSafe a b := by
  have ha' := a.class_cases
  have hb' := b.class_cases
  rw [ha] at ha'
  rw [hb] at hb'
  obtain ⟨s, hs⟩ := ha'
  obtain ⟨t, ht⟩ := hb'
  have hst : s = t := by
    have hcmp : compareStrings s t = 0 := by
      rcases hs with rfl | rfl <;> rcases ht with rfl | rfl <;> exact h
    rwa [compareStrings_eq, lex_eq_zero] at hcmp
  subst hst
  rcases hs with rfl | rfl <;> rcases ht with rfl | rfl <;>
    simp [hashLinks_bytes, Value.hashPayload, Value.hashType, Value.type, shardHashSafe]

theorem hashLinks_scalar_iff (hs : a.isScalar) (ha : a.isShardKeyValue) (hb : b.isShardKeyValue)
    (hclass : a.sortOrderType = b.sortOrderType) (h : (compareBsonValue a b).1 = 0) :
    hashLinks a = hashLinks b ↔ shardHashSafe a b := by
  by_cases hn : a.isNumber
  · have hbn : b.isNumber := isNumber_of_class hclass.symm hn
    have hna := Value.isNumberOrBool_of_isNumber hn
    apply hashLinks_number_iff hn hbn
    rw [compareBsonValue_scalar hs, compareScalar_number hna,
      compareNumbers_fst hna (Value.isNumberOrBool_of_isNumber hbn), ofOrder_eq_zero] at h
    exact h
  by_cases hstr : a.sortOrderType = 0x3
  · exact hashLinks_string_iff hstr (hclass.symm.trans hstr) h
  · have hcanon := canonScalar_eq_of_compare hs (by simpa using hn) hclass
      (by rw [← compareBsonValue_scalar hs]; exact h)
    rw [canonScalar_shardKeyValue ha hstr, canonScalar_shardKeyValue hb (hclass ▸ hstr)] at hcanon
    rw [hcanon]
    exact iff_of_true rfl (shardHashSafe_self b)

/-- Equal values that can be stored at a path of a shard key are hashed
alike exactly where `shardHashSafe` says so. -/
theorem hashLinks_iff (ha : a.isShardKeyValue) (hb : b.isShardKeyValue)
    (h : bsonValueEquals a b) : hashLinks a = hashLinks b ↔ shardHashSafe a b := by
  obtain ⟨hclass, hvalue⟩ := bsonValueEquals_content h
  have hb' := b.class_cases
  rw [← hclass] at hb'
  cases a with
  | document fs =>
    obtain ⟨gs, rfl⟩ := hb'
    refine (hashLinks_bytes rfl rfl).trans ((and_iff_right rfl).trans ?_)
    exact decide_eq_true_iff.symm
  | codeWScope c fs =>
    obtain ⟨c', gs, rfl⟩ := hb'
    obtain ⟨hc, -⟩ := andThen_eq_zero.1 hvalue
    rw [compareStrings_eq, lex_eq_zero] at hc
    rw [hc]
    exact iff_of_true rfl rfl
  | array es => simp [Value.isShardKeyValue] at ha
  | _ => exact hashLinks_scalar_iff rfl ha hb hclass hvalue

-- ==== the two hashes

omit [BidLib] in
theorem length_le_encodeFields (fs : Fields) : fs.length ≤ (encodeFields fs).length := by
  induction fs with
  | nil => simp
  | cons f fs ih =>
    simp only [encodeFields, length_cons, length_append]
    omega

omit [BidLib] in
theorem length_shardKeyPaths (key : Pgbson) : (shardKeyPaths key).length < 2 ^ 31 := by
  have hle := length_le_encodeFields key.fields
  have hlt := key.size_lt
  rw [encodeDoc, length_frame] at hlt
  rw [shardKeyPaths, length_map]
  omega

theorem hashValues_eq_iff {as bs : List Value} (hlen : as.length < 2 ^ 31)
    (h : List.Forall₂ (fun a b => a.isShardKeyValue
      ∧ b.isShardKeyValue ∧ bsonValueEquals a b) as bs) :
    (∀ F, hashValues F 0 as = hashValues F 0 bs)
      ↔ List.Forall₂ (fun a b => shardHashSafe a b) as bs := by
  have hclass : Forall₂ (fun a b => a.sortOrderType = b.sortOrderType) as bs :=
    h.imp fun _ _ hab => (bsonValueEquals_content hab.2.2).1
  have hlinks : (∀ F, hashValues F 0 as = hashValues F 0 bs)
      ↔ as.flatMap hashLinks = bs.flatMap hashLinks := by
    simp only [hashValues_eq]
    constructor
    · apply links_eq_of_hash
      have h₁ := length_flatMap_hashLinks as
      have h₂ := length_flatMap_hashLinks bs
      have h₃ := h.length_eq
      omega
    · intro heq F
      rw [heq]
  rw [hlinks, flatMap_hashLinks_inj hclass]
  clear hlinks hclass hlen
  induction h with
  | nil => simp
  | cons hab _ ih =>
    rw [forall₂_cons, forall₂_cons]
    exact and_congr (hashLinks_iff hab.1 hab.2.1 hab.2.2) ih

omit [BidLib] in
theorem isShardKeyValue_of_shardKeyValuesOf {key : Pgbson}
    {doc : Fields} {stored : List Value} (h : shardKeyValuesOf key doc = some stored) :
    stored.length = (shardKeyPaths key).length ∧ ∀ v ∈ stored, v.isShardKeyValue := by
  unfold shardKeyValuesOf at h
  generalize shardKeyPaths key = paths at h
  induction paths generalizing stored with
  | nil =>
    cases h
    simp
  | cons path paths ih =>
    rw [mapM_cons, bind_eq_bind, bind_eq_some_iff] at h
    obtain ⟨v, hv, h⟩ := h
    rw [bind_eq_bind, bind_eq_some_iff] at h
    obtain ⟨vs, hvs, h⟩ := h
    cases h
    obtain ⟨hlen, hmem⟩ := ih hvs
    refine ⟨by rw [length_cons, hlen, length_cons], ?_⟩
    exact forall_mem_cons.2 ⟨isShardKeyValue_of_find hv, hmem⟩

end Agree

/-- The hash of the shard key respects equality exactly on the pairs that
`shardHashSafe` names: for two equal values with every seed, and for a
document and an equality query that matches it. -/
theorem shardKeyHash_respects_equality_iff [BidLib] :
    (∀ a b : Value, a.isShardKeyValue = true → b.isShardKeyValue = true →
      (compareBsonValueAndType a b).1 = 0 →
      ((∀ F seed, bsonValueHash F a seed = bsonValueHash F b seed) ↔ shardHashSafe a b = true))
    ∧ ∀ (shardKeyDoc : Pgbson) (collectionId : UInt64) (document : Fields)
        (stored values : List Value),
      shardKeyValuesOf shardKeyDoc document = some stored →
      List.Forall₂ (fun a b => b.isShardKeyValue = true
        ∧ (compareBsonValueAndType a b).1 = 0) stored values →
      ((∀ F, computeShardKeyHashForDocument F (some shardKeyDoc) collectionId document
          = computeShardKeyFieldValuesHash F (values.map some))
        ↔ List.Forall₂ (fun a b => shardHashSafe a b = true) stored values) := by
  constructor
  · intro a b ha hb h
    have heq := bsonValueEquals_iff.2 h
    rw [← hashLinks_iff ha hb heq]
    constructor
    · intro hhash
      apply links_eq_of_hash
      · have := length_hashLinks_le a
        have := length_hashLinks_le b
        omega
      · intro F
        rw [← bsonValueHash_eq, ← bsonValueHash_eq, hhash]
    · intro hlinks F seed
      rw [bsonValueHash_eq, bsonValueHash_eq, hlinks]
  · intro shardKeyDoc collectionId document stored values hstored hvalues
    obtain ⟨hlen, hkey⟩ := isShardKeyValue_of_shardKeyValuesOf hstored
    have hpairs : Forall₂ (fun a b => a.isShardKeyValue = true
        ∧ b.isShardKeyValue = true ∧ bsonValueEquals a b = true)
        stored values := by
      clear hstored hlen
      induction hvalues with
      | nil => exact .nil
      | cons hab _ ih =>
        obtain ⟨ha, has⟩ := forall_mem_cons.1 hkey
        exact .cons ⟨ha, hab.1, bsonValueEquals_iff.2 hab.2⟩ (ih has)
    have hmem : ∀ v ∈ values, v.isShardKeyValue = true := by
      clear hstored hlen hkey hpairs
      induction hvalues with
      | nil => simp
      | cons hab _ ih => exact forall_mem_cons.2 ⟨hab.1, ih⟩
    rw [← hashValues_eq_iff (hlen ▸ length_shardKeyPaths shardKeyDoc) hpairs]
    apply forall_congr'
    intro F
    unfold shardKeyValuesOf at hstored
    rw [computeShardKeyHashForDocument, hashShardKeyPaths_eq, hstored,
      computeShardKeyFieldValuesHash, hashShardKeyFieldValues_some F 0 hmem, map_some, some_inj]

/-- A shard key on the field `a`. -/
def hashedOnA : Pgbson where
  fields := [([97], .utf8 [104, 97, 115, 104, 101, 100])]
  namesOk := by decide
  size_lt := by decide

/-- A document that holds the string `x` and a query for it, or for the
integer one where the document holds the double. -/
theorem hash_of_equal_values : (let : BidLib := BidLib.reference
    (∀ F seed, bsonValueHash F (.int32 1) seed = bsonValueHash F (.double 0x3FF0000000000000) seed)
    ∧ ∀ F, computeShardKeyHashForDocument F (some hashedOnA) 7 [([97], .utf8 [120])]
      = computeShardKeyFieldValuesHash F [some (.utf8 [120])]) := by
  have h := @shardKeyHash_respects_equality_iff BidLib.reference
  constructor
  · exact (h.1 _ _ rfl rfl (by decide +kernel)).2 (by decide)
  · exact (h.2 hashedOnA 7 [([97], .utf8 [120])] [.utf8 [120]] [.utf8 [120]]
      rfl (.cons ⟨rfl, by decide +kernel⟩ .nil)).2 (.cons rfl .nil)

/-- The integer one and the decimal one compare equal. Under a hash that
keeps the seed a query for the integer is sent to another shard than the one
that holds the document with the decimal. -/
theorem decimal_is_hashed_apart : (let : BidLib := BidLib.reference
    let F : PgHash := ⟨fun n _ => n.toUInt64, fun _ seed => seed⟩
    let one := Value.decimal128 ⟨0x3040000000000000, 1⟩
    (compareBsonValueAndType one (.int32 1)).1 = 0
    ∧ bsonValueHash F one 0 ≠ bsonValueHash F (.int32 1) 0
    ∧ computeShardKeyHashForDocument F (some hashedOnA) 7 [([97], one)]
      ≠ computeShardKeyFieldValuesHash F [some (.int32 1)]) := by
  decide +kernel

end DocumentDb
