/-
How a document value is matched against the operand of `$eq` and of `$in`.

`$eq` compares. `$in` looks every document value up in a hash set of its operands: an entry
matches when its hash is that of the value and the two compare equal. So `$in` is the
disjunction of `$eq` whenever the value is hashed like one of those it equals
(`hashedAlike`). Equal values may be hashed apart: documents and arrays by their bytes,
decimals by the low word of the coefficient, doubles by their pattern, code with scope by
what lies behind the code.
-/
import DocumentDb.Bson.Hash
import DocumentDb.Bson.Order
import DocumentDb.Bson.Reference

namespace DocumentDb

open ThreeWay Wire List

section Match

variable [BidLib]

-- ==== $eq

variable (document filter : Value)

/-- `CompareLogicalOperatorWithCollation` without collation: the verdict and
whether the comparison is valid. Values of different classes do not
compare. -/
def compareLogicalOperator : Int × Bool :=
  if compareBsonSortOrderType document filter = 0 then
    compareBsonValueAndType document filter
  else (0, false)

def compareEqualMatch : Bool :=
  if filter.type = .null ∧ document.type = .undefined then true
  else
    let cmp := compareLogicalOperator document filter
    cmp.2 && cmp.1 = 0

theorem compareEqualMatch_eq (v s : Value) : compareEqualMatch v s = bsonValueEquals v s := by
  unfold compareEqualMatch bsonValueEquals
  by_cases hnull : s.type = .null ∧ v.type = .undefined
  · rw [if_pos hnull]
    cases s <;> simp only [Value.type, reduceCtorEq, false_and] at hnull
    cases v <;> simp only [reduceCtorEq, and_false] at hnull
    rfl
  rw [if_neg hnull]
  by_cases hclass : compareBsonSortOrderType v s = 0
  · simp only [compareLogicalOperator, hclass, compareBsonValueAndType,
      ne_eq, not_true, if_false, if_true]
    by_cases hcmp : (compareBsonValue v s).1 = 0
    · simp [hcmp, compareBsonValue_snd hcmp]
    · simp [hcmp]
  · simp [compareLogicalOperator, hclass, compareBsonValueAndType]

-- ==== $in

/-- The state of an `$in`. An entry of the hash table keeps the hash it was
entered with. -/
structure DollarInState where
  hasNull : Bool
  regexList : List (Bytes × Bytes)
  hashSet : List (UInt32 × Value)

/-- `hash_search` for an entry with a given hash that equals a value. -/
def hashSetFind (hash : UInt32) (v : Value) (hashSet : List (UInt32 × Value)) : Bool :=
  hashSet.any fun e => e.1 = hash && bsonValueEquals e.2 v

/-- `hash_search` with `HASH_ENTER`. -/
def hashSetEnter (hash : UInt32) (v : Value)
    (hashSet : List (UInt32 × Value)) : List (UInt32 × Value) :=
  if hashSetFind hash v hashSet then hashSet else (hash, v) :: hashSet

variable (hash : Value → UInt32)

/-- One turn of the loop of `PopulateDollarInStateFromQuery`. -/
def populateDollarInStep (state : DollarInState) (v : Value) : DollarInState :=
  match v with
  | .null => { state with hasNull := true }
  | .regex pat opt =>
    { state with regexList := state.regexList ++ [(pat, opt)] }
  | v => { state with hashSet := hashSetEnter (hash v) v state.hashSet }

/-- `PopulateDollarInStateFromQuery`. -/
def populateDollarInState (operands : List Value) : DollarInState :=
  operands.foldl (populateDollarInStep hash) ⟨false, [], []⟩

/-- `CompareInMatch`; `regexMatch` is the regular expression engine. -/
def compareInMatch
    (regexMatch : Bytes × Bytes → Value → Bool) (state : DollarInState) (document : Value) : Bool :=
  state.hasNull && (document.type = .null || document.type = .undefined)
    || hashSetFind (hash document) document state.hashSet
    || state.regexList.any fun r => regexMatch r document

-- ==== the hash set

variable {v s : Value} {hash : Value → UInt32} {hashSet : List (UInt32 × Value)}

theorem hashSetFind_iff {hash : UInt32} :
    hashSetFind hash v hashSet ↔ ∃ e ∈ hashSet, e.1 = hash ∧ bsonValueEquals e.2 v := by
  simp [hashSetFind]

/-- Entering a value makes it findable by its equals of the same hash; a
value that is left out because it is there already is found through the
entry that equals it. -/
theorem hashSetFind_enter {hash hash' : UInt32} {w : Value} :
    hashSetFind hash v (hashSetEnter hash' w hashSet)
      ↔ hashSetFind hash v hashSet ∨ (hash' = hash ∧ bsonValueEquals w v) := by
  unfold hashSetEnter
  split_ifs with hdup
  · constructor
    · exact Or.inl
    · rintro (h | ⟨rfl, hwv⟩)
      · exact h
      · obtain ⟨e, he, heq, hew⟩ := hashSetFind_iff.1 hdup
        exact hashSetFind_iff.2 ⟨e, he, heq, bsonValueEquals_trans hew hwv⟩
  · simp only [hashSetFind_iff, mem_cons, exists_eq_or_imp]
    exact or_comm

/-- What the state says after any operands: nothing is lost and nothing
added. -/
structure DollarInInv (hash : Value → UInt32) (operands : List Value)
    (state : DollarInState) : Prop where
  hasNull : state.hasNull = true ↔ Value.null ∈ operands
  regexList : ∀ pat opt, (pat, opt) ∈ state.regexList ↔ Value.regex pat opt ∈ operands
  hashSet : ∀ h v, hashSetFind h v state.hashSet = true
    ↔ ∃ s ∈ operands, s.type ≠ .null ∧ s.type ≠ .regex ∧ hash s = h ∧ bsonValueEquals s v = true

variable {state : DollarInState}

theorem populateDollarInStep_other (hn : v.type ≠ .null) (hr : v.type ≠ .regex) :
    populateDollarInStep hash state v
      = { state with hashSet := hashSetEnter (hash v) v state.hashSet } := by
  cases v with
  | null => exact absurd rfl hn
  | regex pat opt => exact absurd rfl hr
  | _ => rfl

omit [BidLib] in
theorem eq_null_of_type (h : v.type = .null) : v = .null := by
  cases v <;> first | rfl | exact absurd h (by simp [Value.type])

omit [BidLib] in
theorem eq_regex_of_type (h : v.type = .regex) : ∃ pat opt, v = .regex pat opt := by
  cases v <;> first | exact ⟨_, _, rfl⟩ | exact absurd h (by simp [Value.type])

variable {operands : List Value}

omit [BidLib] in
theorem exists_mem_append_singleton {p : Value → Prop} :
    (∃ s ∈ operands ++ [v], p s) ↔ (∃ s ∈ operands, p s) ∨ p v := by
  simp only [mem_append, mem_singleton, or_and_right, exists_or, exists_eq_left]

theorem dollarInInv_step (hinv : DollarInInv hash operands state) (v : Value) :
    DollarInInv hash (operands ++ [v]) (populateDollarInStep hash state v) := by
  by_cases hn : v.type = .null
  · obtain rfl := eq_null_of_type hn
    refine ⟨by simp [populateDollarInStep], ?_, ?_⟩
    · intro pat opt
      simp [populateDollarInStep, hinv.regexList]
    · intro h w
      rw [exists_mem_append_singleton]
      apply (hinv.hashSet h w).trans
      exact (or_iff_left fun hrest => hrest.1 rfl).symm
  by_cases hr : v.type = .regex
  · obtain ⟨pat, opt, rfl⟩ := eq_regex_of_type hr
    refine ⟨by simp [populateDollarInStep, hinv.hasNull], ?_, ?_⟩
    · intro pat' opt'
      simp [populateDollarInStep, hinv.regexList]
    · intro h w
      rw [exists_mem_append_singleton]
      apply (hinv.hashSet h w).trans
      exact (or_iff_left fun hrest => hrest.2.1 rfl).symm
  rw [populateDollarInStep_other hn hr]
  refine ⟨?_, ?_, ?_⟩
  · simp only [hinv.hasNull, mem_append, mem_singleton]
    refine ⟨Or.inl, ?_⟩
    rintro (h | rfl)
    · exact h
    · exact absurd rfl hn
  · intro pat opt
    simp only [hinv.regexList, mem_append, mem_singleton]
    refine ⟨Or.inl, ?_⟩
    rintro (h | rfl)
    · exact h
    · exact absurd rfl hr
  · intro h w
    rw [exists_mem_append_singleton, hashSetFind_enter, hinv.hashSet]
    simp only [ne_eq, hn, hr, not_false_eq_true, true_and]

theorem dollarInInv_populate (hash : Value → UInt32) (operands : List Value) :
    DollarInInv hash operands (populateDollarInState hash operands) := by
  unfold populateDollarInState
  have hrun : ∀ (rest done : List Value) (state : DollarInState), DollarInInv hash done state →
      DollarInInv hash (done ++ rest) (rest.foldl (populateDollarInStep hash) state) := by
    intro rest
    induction rest with
    | nil =>
      intro done state hinv
      simpa using hinv
    | cons v rest ih =>
      intro done state hinv
      have := ih (done ++ [v]) _ (dollarInInv_step hinv v)
      simpa using this
  have hinit : DollarInInv hash [] ⟨false, [], []⟩ := ⟨by simp, by simp, by simp [hashSetFind]⟩
  exact hrun operands [] _ hinit

/-- `$in` over operands that are no regular expressions: null and undefined
values against a null operand, everything else through the hash set. -/
theorem compareInMatch_populate {hash' : Value → UInt32} {regexMatch : Bytes × Bytes → Value → Bool}
    (hreg : ∀ s ∈ operands, s.type ≠ .regex) (v : Value) :
    compareInMatch hash' regexMatch (populateDollarInState hash operands) v
      ↔ ∃ s ∈ operands, bsonValueEquals s v ∧ (s = .null ∨ hash s = hash' v) := by
  have hinv := dollarInInv_populate hash operands
  have hnone : (populateDollarInState hash operands).regexList = [] := by
    refine eq_nil_iff_forall_not_mem.2 ?_
    rintro ⟨pat, opt⟩ hmem
    exact hreg _ ((hinv.regexList pat opt).1 hmem) rfl
  simp only [compareInMatch, hnone, any_nil, Bool.or_false, Bool.or_eq_true, Bool.and_eq_true,
    hinv.hasNull, hinv.hashSet, decide_eq_true_eq]
  constructor
  · rintro (⟨hnull, hv⟩ | ⟨s, hs, hsn, -, hh, heq⟩)
    · refine ⟨.null, hnull, ?_, Or.inl rfl⟩
      rcases hv with hv | hv <;> cases v <;> first | rfl | exact absurd hv (by simp [Value.type])
    · exact ⟨s, hs, heq, Or.inr hh⟩
  · rintro ⟨s, hs, heq, hor⟩
    by_cases hsn : s.type = .null
    · obtain rfl := eq_null_of_type hsn
      left
      refine ⟨hs, ?_⟩
      have hc := (bsonValueEquals_content heq).1
      have hv := v.class_cases
      rw [← hc] at hv
      obtain rfl | rfl := hv
      · exact Or.inr rfl
      · exact Or.inl rfl
    · right
      rcases hor with rfl | hh
      · exact absurd rfl hsn
      · exact ⟨s, hs, hsn, hreg s hs, hh, heq⟩

-- ==== values that are hashed alike

/-- Of the numbers that do not pass as integers a double is hashed by its
pattern and a decimal by four of its bytes. -/
def oddNumbersHashedAlike : Value → Value → Bool
  | .double _, .double _ => true
  | .decimal128 d, .decimal128 d' =>
    (decimalBytes d).take 4 = (decimalBytes d').take 4
  | _, _ => false

/-- Whether two equal numbers are hashed alike: when they are NaN, when both
pass as 64-bit integers, and when none does and they are of one type. -/
def numbersHashedAlike (v s : Value) : Bool :=
  numberKey v = .nan
    || isBsonValue64BitInteger true v && isBsonValue64BitInteger true s
    || oddNumbersHashedAlike v s

/-- Whether two equal values are hashed alike, whatever the hash. -/
def hashedAlike (v s : Value) : Bool :=
  match v with
  | .document _ | .array _ => encodeValue v = encodeValue s
  | .codeWScope _ _ => false
  | .double _ | .int32 _ | .int64 _ | .decimal128 _ => numbersHashedAlike v s
  | _ => true

/-- What a number that is no NaN and does not pass as an integer is hashed
by. -/
private def oddNumberBytes : Value → Bytes
  | .double bits => leBytes 8 bits.toNat
  | .decimal128 d => (decimalBytes d).take 4
  | _ => []

theorem numberKey_double_nan {bits : UInt64} :
    numberKey (.double bits) = .nan ↔ binary64Num bits = .nan := by
  rw [numberKey_eq_mapFin rfl (by simp)]
  show Num.mapFin _ (binary64Num bits) = .nan ↔ _
  cases binary64Num bits <;> simp [Num.mapFin]

theorem hashSource_number (hv : v.isNumber) (mem : CodeMemory) (pointer : Bytes → Bytes) :
    hashSource mem pointer v = if numberKey v = .nan then .const 1
        else if isBsonValue64BitInteger true v then
          .bytes (int64Bytes (bsonValueAsInt64 v))
        else .bytes (oddNumberBytes v) := by
  cases v with
  | double bits =>
    simp only [hashSource, numberKey_double_nan, oddNumberBytes]
  | decimal128 d =>
    simp only [hashSource, Decimal128.isNaN_iff, oddNumberBytes]
    rfl
  | int32 n =>
    obtain ⟨m, -, -, hm, -⟩ := int_of_is64 (v := .int32 n) rfl (by simp) rfl
    rw [if_neg (by simp [hm])]
    rfl
  | int64 n =>
    obtain ⟨m, -, -, hm, -⟩ := int_of_is64 (v := .int64 n) rfl (by simp) rfl
    rw [if_neg (by simp [hm])]
    rfl
  | _ => simp [Value.isNumber] at hv

theorem binary64Num_eq_of_key {b b' : UInt64}
    (h : numberKey (.double b) = numberKey (.double b')) : binary64Num b = binary64Num b' := by
  have := ofOrder_numberKey (l := .double b) (r := .double b') rfl rfl (by simp) (by simp)
  rw [h, ofOrder_self] at this
  exact ofOrder_eq_zero.1 this.symm

theorem double_of_key {b b' : UInt64} (h : numberKey (.double b) = numberKey (.double b'))
    (hnan : numberKey (.double b) ≠ .nan) (hint : ¬(isBsonValue64BitInteger true (.double b)
      ∧ isBsonValue64BitInteger true (.double b'))) : b = b' := by
  have heq := binary64Num_eq_of_key h
  refine binary64Num_inj heq (mt numberKey_double_nan.2 hnan) fun hz => ?_
  exact hint ⟨isBsonValue64BitInteger_zero hz, isBsonValue64BitInteger_zero (heq.symm.trans hz)⟩

theorem int64Bytes_ne_odd (hv : v.isNumber) (hs : s.isNumber)
    (hkey : numberKey v = numberKey s) (hv64 : isBsonValue64BitInteger true v)
    (hs64 : isBsonValue64BitInteger true s = false) (hnan : numberKey v ≠ .nan) :
    int64Bytes (bsonValueAsInt64 v) ≠ oddNumberBytes s := by
  cases s with
  | double bits =>
    by_cases hd : ∃ bits, v = .double bits
    · obtain ⟨bits', rfl⟩ := hd
      have := double_of_key hkey hnan (by simp [hs64])
      rw [← this, hv64] at hs64
      exact absurd hs64 (by simp)
    obtain ⟨n, hlo, hhi, hn, hcast⟩ := int_of_is64 hv (by simpa using hd) hv64
    have hbits : binary64Num bits = .fin n :=
      bsonNumberAsLongDouble_of_key_int (v := .double bits) rfl (by simp)
        hlo hhi (hkey.symm.trans hn)
    have hn0 : n ≠ 0 := by
      rintro rfl
      rw [isBsonValue64BitInteger_zero (by simpa using hbits)] at hs64
      exact absurd hs64 (by simp)
    intro hbytes
    have hpat := leBytes_word_inj.1 hbytes
    refine pattern_ne_int hbits hn0 hlo hhi ?_
    rw [← hpat, hcast]
    show ((BitVec.ofInt 64 n).toNat : Int) = n % 2 ^ 64
    rw [BitVec.toNat_ofInt]
    omega
  | decimal128 d =>
    intro hbytes
    have := congrArg length hbytes
    simp [int64Bytes, oddNumberBytes, decimalBytes] at this
  | int32 n | int64 n => exact absurd hs64 (by simp [isBsonValue64BitInteger])
  | _ => simp [Value.isNumber] at hs

theorem oddNumbersHashedAlike_mixed (hkey : numberKey v = numberKey s) (hnan : numberKey v ≠ .nan)
    (h : isBsonValue64BitInteger true v ≠ isBsonValue64BitInteger true s) :
    oddNumbersHashedAlike v s = false := by
  unfold oddNumbersHashedAlike
  split
  · refine absurd ?_ h
    rw [double_of_key hkey hnan fun hboth => h (hboth.1.trans hboth.2.symm)]
  · exact absurd (isBsonValue64BitInteger_decimal hkey true) h
  · rfl

theorem oddNumberBytes_eq_iff (hv : v.isNumber) (hs : s.isNumber) (hkey : numberKey v = numberKey s)
    (hnan : numberKey v ≠ .nan) (hv64 : isBsonValue64BitInteger true v = false)
    (hs64 : isBsonValue64BitInteger true s = false) :
    oddNumberBytes v = oddNumberBytes s ↔ oddNumbersHashedAlike v s := by
  have hlen : ∀ (bits : UInt64) (d : Decimal128),
      leBytes 8 bits.toNat ≠ (decimalBytes d).take 4 := by
    intro bits d h
    have := congrArg length h
    simp [decimalBytes] at this
  cases v with
  | double bits =>
    cases s with
    | double bits' =>
      rw [double_of_key hkey hnan (by simp [hv64])]
      simp [oddNumbersHashedAlike]
    | decimal128 d =>
      simp [oddNumberBytes, oddNumbersHashedAlike, hlen]
    | int32 n | int64 n => simp [isBsonValue64BitInteger] at hs64
    | _ => simp [Value.isNumber] at hs
  | decimal128 d =>
    cases s with
    | double bits =>
      simp [oddNumberBytes, oddNumbersHashedAlike, (hlen _ _).symm]
    | decimal128 d' => simp [oddNumberBytes, oddNumbersHashedAlike]
    | int32 n | int64 n => simp [isBsonValue64BitInteger] at hs64
    | _ => simp [Value.isNumber] at hs
  | int32 n | int64 n => simp [isBsonValue64BitInteger] at hv64
  | _ => simp [Value.isNumber] at hv

theorem hashSource_number_eq_iff (hv : v.isNumber) (hs : s.isNumber)
    (hkey : numberKey v = numberKey s) (mem mem' : CodeMemory) (pointer pointer' : Bytes → Bytes) :
    hashSource mem pointer v = hashSource mem' pointer' s ↔ numbersHashedAlike v s := by
  rw [hashSource_number hv, hashSource_number hs, ← hkey]
  by_cases hnan : numberKey v = .nan
  · simp [numbersHashedAlike, hnan]
  have hmixed := oddNumbersHashedAlike_mixed hkey hnan
  cases hv64 : isBsonValue64BitInteger true v with
  | true =>
    cases hs64 : isBsonValue64BitInteger true s with
    | true =>
      simp [numbersHashedAlike, hnan, hv64, hs64, bsonValueAsInt64_congr hv hs hv64 hs64 hkey]
    | false =>
      have hne := int64Bytes_ne_odd hv hs hkey hv64 hs64 hnan
      simp [numbersHashedAlike, hnan, hs64, hne, hmixed (by simp [hv64, hs64])]
  | false =>
    cases hs64 : isBsonValue64BitInteger true s with
    | true =>
      have hne := int64Bytes_ne_odd hs hv hkey.symm hs64 hv64 (hkey ▸ hnan)
      simp [numbersHashedAlike, hnan, hv64, hne.symm, hmixed (by simp [hv64, hs64])]
    | false =>
      simp [numbersHashedAlike, hnan, hv64, oddNumberBytes_eq_iff hv hs hkey hnan hv64 hs64]

theorem hashSource_canonScalar (hv : v.isScalar)
    (hreg : v.type ≠ .regex) (mem mem' : CodeMemory) (pointer pointer' : Bytes → Bytes) :
    hashSource mem pointer v = hashSource mem' pointer' v.canonScalar := by
  cases v with
  | document fs | array es | codeWScope c fs => simp [Value.isScalar] at hv
  | regex pat opt => exact absurd rfl hreg
  | _ => rfl

omit [BidLib] in
theorem type_regex_iff : v.type = .regex ↔ v.sortOrderType = 0xB := by
  cases v <;> simp [Value.type, Value.sortOrderType]

/-- Equal values are hashed by the same bytes exactly if they are hashed
alike. A code with scope is hashed by the memory of the call. -/
theorem hashSource_eq_iff (h : bsonValueEquals v s) (hreg : v.type ≠ .regex)
    (hcode : v.type ≠ .codeWScope) (mem mem' : CodeMemory) (pointer pointer' : Bytes → Bytes) :
    hashSource mem pointer v = hashSource mem' pointer' s ↔ hashedAlike v s := by
  obtain ⟨hclass, hcmp⟩ := bsonValueEquals_content h
  have hs := s.class_cases
  rw [← hclass] at hs
  cases hv : v.isScalar with
  | false =>
    cases v with
    | document fs | array es =>
      obtain ⟨gs, rfl⟩ := hs
      simp [hashSource, hashedAlike]
    | codeWScope c fs => exact absurd rfl hcode
    | _ => simp [Value.isScalar] at hv
  | true =>
    rw [compareBsonValue_scalar hv] at hcmp
    cases hn : v.isNumber with
    | true =>
      have hsn : s.isNumber := isNumber_of_class hclass.symm hn
      have hna := Value.isNumberOrBool_of_isNumber hn
      have hnb := Value.isNumberOrBool_of_isNumber hsn
      rw [compareScalar_number hna, compareNumbers_fst hna hnb, ofOrder_eq_zero] at hcmp
      rw [hashSource_number_eq_iff hn hsn hcmp]
      cases v <;> first | rfl | simp [Value.isNumber] at hn
    | false =>
      have hsreg : s.type ≠ .regex := by
        rw [Ne, type_regex_iff, ← hclass, ← type_regex_iff]
        exact hreg
      rw [hashSource_canonScalar hv hreg mem mem' pointer pointer',
        canonScalar_eq_of_compare hv hn hclass hcmp,
        ← hashSource_canonScalar (isScalar_of_class hclass hv) hsreg mem' mem' pointer' pointer']
      cases v <;> simp [hashedAlike, Value.isNumber, Value.isScalar] at hn hv ⊢

-- ==== the lookup

theorem hashSource_const {mem : CodeMemory} {pointer : Bytes → Bytes}
    {n : UInt32} (h : hashSource mem pointer v = .const n) : n = 0 ∨ n = 1 := by
  cases v <;> simp only [hashSource] at h <;> (try split_ifs at h) <;> cases h <;> simp

/-- Some function on bytes tells a value from all that are hashed by other
bytes: it gives two to the bytes of the value and three to all others, and
so none of the constants. -/
theorem exists_separating_hash (mem mem' : CodeMemory)
    (pointer pointer' : Bytes → Bytes) (v : Value) :
    ∃ hashBytes : Bytes → UInt32, ∀ s, bsonValueHashUint32 hashBytes mem pointer s
          = bsonValueHashUint32 hashBytes mem' pointer' v →
        hashSource mem pointer s = hashSource mem' pointer' v := by
  refine ⟨fun b => if hashSource mem' pointer' v = .bytes b then 2 else 3, fun s h => ?_⟩
  unfold bsonValueHashUint32 at h
  cases hv : hashSource mem' pointer' v with
  | const n =>
    cases hs : hashSource mem pointer s with
    | const m => simpa [hv, hs] using h
    | bytes b =>
      obtain rfl | rfl := hashSource_const hv <;> simp [hv, hs] at h
  | bytes b =>
    cases hs : hashSource mem pointer s with
    | const m =>
      obtain rfl | rfl := hashSource_const hs <;> simp [hv, hs] at h
    | bytes c =>
      simp only [hv, hs, HashSource.bytes.injEq, if_true] at h
      by_cases hbc : b = c
      · rw [hbc]
      · simp [hbc] at h

/-- `$in` on `v` finds what `$eq` finds on one of the operands, whatever the
hash function and the memory of the two calls. -/
def InAgrees (operands : List Value) (v : Value) : Prop :=
  ∀ (hashBytes : Bytes → UInt32) (mem mem' : CodeMemory) (pointer pointer' : Bytes → Bytes)
    (regexMatch : Bytes × Bytes → Value → Bool),
    compareInMatch (bsonValueHashUint32 hashBytes mem' pointer') regexMatch
        (populateDollarInState (bsonValueHashUint32 hashBytes mem pointer) operands) v
      = operands.any (compareEqualMatch v)

omit [BidLib] in
theorem type_codeWScope_iff : v.type = .codeWScope ↔ v.sortOrderType = 0xE := by
  cases v <;> simp [Value.type, Value.sortOrderType]

/-- `$in` is the disjunction of `$eq` over its operands exactly when a value
that equals an operand equals null or an operand it is hashed like. -/
theorem compareInMatch_agrees_iff (operands : List Value)
    (hreg : ∀ s ∈ operands, s.type ≠ .regex) (v : Value) :
    InAgrees operands v ↔ ((∃ s ∈ operands, bsonValueEquals v s = true) →
          ∃ s ∈ operands, bsonValueEquals v s = true ∧ (s = .null ∨ hashedAlike v s = true)) := by
  have hvreg : ∀ s ∈ operands, bsonValueEquals v s = true → v.type ≠ .regex := by
    intro s hs heq
    rw [Ne, type_regex_iff, (bsonValueEquals_content heq).1, ← type_regex_iff]
    exact hreg s hs
  have hany : operands.any (compareEqualMatch v) = true
      ↔ ∃ s ∈ operands, bsonValueEquals v s = true := by
    simp [compareEqualMatch_eq]
  constructor
  · intro hagree hex
    obtain ⟨hashBytes, hsep⟩ := exists_separating_hash (fun _ _ => [0]) (fun _ _ => [1]) id id v
    have hin := (hagree hashBytes (fun _ _ => [0]) (fun _ _ => [1]) id id
      fun _ _ => false).trans (hany.2 hex)
    obtain ⟨s, hs, heq, hor⟩ := (compareInMatch_populate hreg v).1 hin
    have heq' := bsonValueEquals_symm heq
    refine ⟨s, hs, heq', hor.imp_right fun hhash => ?_⟩
    have hsrc := hsep s hhash
    by_cases hcode : v.type = .codeWScope
    · -- the two calls read different memory
      have hscode : s.type = .codeWScope := by
        rw [type_codeWScope_iff, (bsonValueEquals_content heq).1, ← type_codeWScope_iff]
        exact hcode
      cases v <;> simp [Value.type] at hcode
      cases s <;> simp [Value.type] at hscode
      simp [hashSource] at hsrc
    · exact (hashSource_eq_iff heq' (hvreg s hs heq') hcode _ _ _ _).1 hsrc.symm
  · intro hcond hashBytes mem mem' pointer pointer' regexMatch
    rw [Bool.eq_iff_iff, hany, compareInMatch_populate hreg v]
    constructor
    · rintro ⟨s, hs, heq, -⟩
      exact ⟨s, hs, bsonValueEquals_symm heq⟩
    · intro hex
      obtain ⟨s, hs, heq, hor⟩ := hcond hex
      refine ⟨s, hs, bsonValueEquals_symm heq, hor.imp_right fun halike => ?_⟩
      have hcode : v.type ≠ .codeWScope := by
        intro hcode
        cases v <;> simp [Value.type, hashedAlike] at hcode halike
      unfold bsonValueHashUint32
      rw [(hashSource_eq_iff heq (hvreg s hs heq) hcode mem' mem pointer' pointer).2 halike]

end Match

/-- A value of another integer width is found. -/
theorem in_of_int_widths_agrees : @InAgrees BidLib.reference [.null, .int64 5] (.int32 5) :=
  (@compareInMatch_agrees_iff BidLib.reference [.null, .int64 5]
    (by simp [Value.type]) (.int32 5)).2 fun _ =>
      ⟨.int64 5, by simp, by decide +kernel, Or.inr (by decide +kernel)⟩

/-- The document `{a: 1}` is not found among the operands when the integer
has another width there: the bytes that are hashed differ. -/
theorem in_of_nested_width_differs :
    ¬@InAgrees BidLib.reference [.document [([97], .int64 1)]] (.document [([97], .int32 1)]) := by
  intro h
  have := h (fun b => UInt32.ofNat b.length) (fun _ _ => []) (fun _ _ => []) id id fun _ _ => false
  revert this
  decide +kernel

end DocumentDb
