/-
When the hash operator class agrees with the order.

Equal values have the same hash, whatever the functions on bytes are, exactly when no number
in them is hashed by its decimal pattern on one side and by something else on the other, and
no code with scope occurs (`hashSafe`). Equal numbers with different patterns are `1.1` and
`1.10`, a double and its decimal, or two NaNs.

The hash with the recording hasher is a term, and others are images of it
(`eval_hashBsonValueCompare`).
-/
import DocumentDb.Bson.Hash
import DocumentDb.Bson.Order
import DocumentDb.Bson.Reference

namespace DocumentDb

open FreeHash ThreeWay Wire List

section Agree

variable [BidLib]

-- ==== the terms of a hash

def numberHashBytes (v : Value) : Bytes :=
  if isBsonValue64BitInteger true v then int64Bytes (bsonValueAsInt64 v)
  else decimalBytes (getBsonValueAsDecimal128 v)

variable {H : Type*} {v : Value} (F : Hasher Bytes H) (mem : CodeMemory)

theorem hashBsonValueCompare_number (hv : v.isNumber) : hashBsonValueCompare F mem v
      = F.combine (hashTypeCode F .int64) (F.leaf (numberHashBytes v)) := by
  cases v with
  | int32 n | int64 n => rfl
  | double bits | decimal128 d =>
    rw [hashBsonValueCompare, numberHashBytes]
    split_ifs <;> rfl
  | _ => simp [Value.isNumber] at hv

variable {fs : Fields} {es : List Value} {a b : Value}

theorem eval_bsonHashCompare (ih : ∀ f ∈ fs, (hashBsonValueCompare Term.hasher mem f.2).eval F
      = hashBsonValueCompare F mem f.2) (acc : Term Bytes) :
    (bsonHashCompare Term.hasher mem acc fs).eval F = bsonHashCompare F mem (acc.eval F) fs := by
  induction fs generalizing acc with
  | nil => rfl
  | cons f fs ihfs =>
    obtain ⟨k, v⟩ := f
    rw [bsonHashCompare, bsonHashCompare, ihfs fun f hf => ih f (by simp [hf])]
    have hv := ih (k, v) (by simp)
    rw [← hv]
    rfl

theorem eval_bsonHashCompareElems
    (ih : ∀ e ∈ es, (hashBsonValueCompare Term.hasher mem e).eval F = hashBsonValueCompare F mem e)
    (acc : Term Bytes) (i : Nat) : (bsonHashCompareElems Term.hasher mem acc i es).eval F
      = bsonHashCompareElems F mem (acc.eval F) i es := by
  induction es generalizing acc i with
  | nil => rfl
  | cons v es ihes =>
    rw [bsonHashCompareElems, bsonHashCompareElems,
      ihes fun e he => ih e (by simp [he]), ← ih v (by simp)]
    rfl

theorem eval_hashBsonValueCompare (v : Value) :
    (hashBsonValueCompare Term.hasher mem v).eval F = hashBsonValueCompare F mem v := by
  induction v using Value.induction with
  | document fs ih =>
    show F.combine _ _ = F.combine _ _
    rw [eval_bsonHashCompare F mem ih]
    rfl
  | array es ih =>
    show F.combine _ _ = F.combine _ _
    rw [eval_bsonHashCompareElems F mem ih]
    rfl
  | codeWScope c fs ih =>
    show F.combine _ _ = F.combine _ _
    rw [eval_bsonHashCompare F mem ih]
    rfl
  | scalar v hv =>
    by_cases hn : v.isNumber
    · rw [hashBsonValueCompare_number _ _ hn, hashBsonValueCompare_number _ _ hn]
      rfl
    · cases v <;> first
        | rfl
        | exact absurd rfl hn
        | simp [Value.isScalar] at hv

-- ==== the size of a computation

theorem size_bsonHashCompare (ih : ∀ f ∈ fs, (hashBsonValueCompare Term.hasher mem f.2).size
      ≤ 8 * (encodeValue f.2).length + 5) (acc : Term Bytes) :
    (bsonHashCompare Term.hasher mem acc fs).size ≤ acc.size + 8 * (encodeFields fs).length := by
  induction fs generalizing acc with
  | nil => simp [bsonHashCompare]
  | cons f fs ihfs =>
    obtain ⟨k, v⟩ := f
    have hrest := ihfs (fun f hf => ih f (by simp [hf]))
      (.combine (.combine acc (.leaf k)) (hashBsonValueCompare Term.hasher mem v))
    have hv := ih (k, v) (by simp)
    simp only [Term.size] at hrest hv
    have hlen : (encodeFields ((k, v) :: fs)).length
        = k.length + 2 + (encodeValue v).length + (encodeFields fs).length := by
      simp only [encodeFields, length_cons, length_append]
      omega
    refine hrest.trans ?_
    omega

theorem size_bsonHashCompareElems
    (ih : ∀ e ∈ es, (hashBsonValueCompare Term.hasher mem e).size ≤ 8 * (encodeValue e).length + 5)
    (acc : Term Bytes) (i : Nat) : (bsonHashCompareElems Term.hasher mem acc i es).size
      ≤ acc.size + 8 * (encodeElems i es).length := by
  induction es generalizing acc i with
  | nil => simp [bsonHashCompareElems]
  | cons v es ihes =>
    have hrest := ihes (fun e he => ih e (by simp [he]))
      (.combine (.combine acc (.leaf (arrayKey i)))
        (hashBsonValueCompare Term.hasher mem v)) (i + 1)
    have hv := ih v (by simp)
    simp only [Term.size] at hrest
    have hlen : (encodeElems i (v :: es)).length
        = (arrayKey i).length + 2 + (encodeValue v).length + (encodeElems (i + 1) es).length := by
      simp only [encodeElems, length_cons, length_append]
      omega
    refine hrest.trans ?_
    omega

theorem size_hashBsonValueCompare (v : Value) :
    (hashBsonValueCompare Term.hasher mem v).size ≤ 8 * (encodeValue v).length + 5 := by
  induction v using Value.induction with
  | document fs ih =>
    have h := size_bsonHashCompare mem ih .init
    have hlen : (encodeValue (.document fs)).length = (encodeFields fs).length + 5 := length_frame _
    simp only [Term.size] at h
    exact (Nat.add_le_add_left h 2).trans (by omega)
  | array es ih =>
    have h := size_bsonHashCompareElems mem ih .init 0
    have hlen : (encodeValue (.array es)).length = (encodeElems 0 es).length + 5 := length_frame _
    simp only [Term.size] at h
    exact (Nat.add_le_add_left h 2).trans (by omega)
  | codeWScope c fs ih =>
    have h := size_bsonHashCompare mem ih .init
    have hlen : (encodeFields fs).length + 5 ≤ (encodeValue (.codeWScope c fs)).length := by
      simp only [encodeValue, length_append, length_frame]
      omega
    simp only [Term.size] at h
    exact (Nat.add_le_add_left h 4).trans (by omega)
  | scalar v hv =>
    by_cases hn : v.isNumber
    · rw [hashBsonValueCompare_number _ _ hn]
      show 3 ≤ _
      omega
    · cases v with
      | document fs | array es | codeWScope c fs => simp [Value.isScalar] at hv
      | double _ | int32 _ | int64 _ | decimal128 _ => exact absurd rfl hn
      | _ =>
        simp only [hashBsonValueCompare, hashTypeCode, Term.hasher, Term.size]
        omega

-- ==== the condition

/-- Two numbers are hashed by the same bytes: both pass as 64-bit integers,
or none does and their conversions to decimal are the same pattern. -/
def sameNumberHash (a b : Value) : Bool :=
  if isBsonValue64BitInteger true a then isBsonValue64BitInteger true b
  else !isBsonValue64BitInteger true b && getBsonValueAsDecimal128 a = getBsonValueAsDecimal128 b

mutual

/-- No code with scope, and the numbers at the same place of two values are
hashed by the same bytes. -/
def hashSafe : Value → Value → Bool
  | .document l, .document r => hashSafeFields l r
  | .array l, .array r => hashSafeElems l r
  | .codeWScope _ _, _ => false
  | a, b => !a.isNumber || sameNumberHash a b

def hashSafeFields : Fields → Fields → Bool
  | (_, v) :: l, (_, w) :: r => hashSafe v w && hashSafeFields l r
  | _, _ => true

def hashSafeElems : List Value → List Value → Bool
  | v :: l, w :: r => hashSafe v w && hashSafeElems l r
  | _, _ => true

end

/-- The hashes of two values agree for all functions and all memories. -/
def HashAgrees (a b : Value) : Prop :=
  ∀ hashBytesFunc hashCombineFunc seed mem mem',
    hashBsonValueCompare (hasherOf hashBytesFunc hashCombineFunc seed) mem a
      = hashBsonValueCompare (hasherOf hashBytesFunc hashCombineFunc seed) mem' b

/-- The hash computations of two values are the same for all memories. -/
private def SameTerm (a b : Value) : Prop :=
  ∀ mem mem', hashBsonValueCompare Term.hasher mem a = hashBsonValueCompare Term.hasher mem' b

theorem numberHashBytes_eq_iff (ha : a.isNumber)
    (hb : b.isNumber) (hkey : numberKey a = numberKey b) :
    numberHashBytes a = numberHashBytes b ↔ sameNumberHash a b := by
  have hlen : ∀ (n : Int64) (d : Decimal128), int64Bytes n ≠ decimalBytes d := by
    intro n d h
    have := congrArg length h
    simp [int64Bytes, decimalBytes] at this
  unfold numberHashBytes sameNumberHash
  split_ifs with h₁ h₂ h₂
  · simp [h₂, bsonValueAsInt64_congr ha hb h₁ h₂ hkey]
  · simp [h₂, hlen]
  · simp [h₂, (hlen _ _).symm]
  · simp only [h₂, Bool.not_false, Bool.true_and, decide_eq_true_eq]
    exact decimalBytes_inj

-- ==== scalars

theorem hash_canonScalar (hv : v.isScalar) (F : Hasher Bytes H) (mem mem' : CodeMemory) :
    hashBsonValueCompare F mem v = hashBsonValueCompare F mem' v.canonScalar := by
  cases v with
  | document fs | array es | codeWScope c fs => simp [Value.isScalar] at hv
  | regex pat opt =>
    have hidem : ∀ s : Bytes, (s.takeWhile (· ≠ 0)).takeWhile (· ≠ 0)
        = s.takeWhile (· ≠ 0) := fun s =>
      takeWhile_eq_self_iff.2 fun _ hb =>
        mem_takeWhile_imp (p := fun x => decide (x ≠ 0)) hb
    simp only [Value.canonScalar, hashBsonValueCompare, hidem]
  | _ => rfl

theorem hash_eq_of_scalar (ha : a.isScalar) (hn : a.isNumber = false)
    (hab : a.sortOrderType = b.sortOrderType) (h : (compareScalar a b).1 = 0)
    (F : Hasher Bytes H) (mem mem' : CodeMemory) :
    hashBsonValueCompare F mem a = hashBsonValueCompare F mem' b := by
  rw [hash_canonScalar ha F mem mem', canonScalar_eq_of_compare ha hn hab h,
    ← hash_canonScalar (isScalar_of_class hab ha) F mem' mem']

theorem hashSafe_scalar (ha : a.isScalar) : hashSafe a b = (!a.isNumber || sameNumberHash a b) := by
  cases a with
  | document fs | array es | codeWScope c fs => simp [Value.isScalar] at ha
  | _ => rfl

theorem sameTerm_scalar (ha : a.isScalar)
    (hab : a.sortOrderType = b.sortOrderType) (h : (compareScalar a b).1 = 0) :
    SameTerm a b ↔ hashSafe a b := by
  rw [hashSafe_scalar ha]
  cases hn : a.isNumber with
  | false =>
    simp only [Bool.not_false, Bool.true_or, iff_true]
    exact fun mem mem' => hash_eq_of_scalar ha hn hab h _ mem mem'
  | true =>
    have hb : b.isNumber := isNumber_of_class hab.symm hn
    have hna := Value.isNumberOrBool_of_isNumber hn
    have hnb := Value.isNumberOrBool_of_isNumber hb
    rw [compareScalar_number hna, compareNumbers_fst hna hnb, ofOrder_eq_zero] at h
    rw [Bool.not_true, Bool.false_or, ← numberHashBytes_eq_iff hn hb h]
    simp only [SameTerm, hashBsonValueCompare_number _ _ hn, hashBsonValueCompare_number _ _ hb]
    constructor
    · intro hterm
      have := hterm (fun _ _ => []) (fun _ _ => [])
      simpa [Term.hasher] using this
    · intro hbytes mem mem'
      rw [hbytes]

-- ==== containers

theorem sameTerm_fields
    (ih : ∀ f ∈ fs, ∀ b, f.2.sortOrderType = b.sortOrderType → (compareBsonValue f.2 b).1 = 0 →
      (SameTerm f.2 b ↔ hashSafe f.2 b)) (gs : Fields)
    (h : compareBsonIter fs gs = 0) (acc acc' : CodeMemory → Term Bytes) :
    (∀ mem mem', bsonHashCompare Term.hasher mem (acc mem) fs
        = bsonHashCompare Term.hasher mem' (acc' mem') gs)
      ↔ (∀ mem mem', acc mem = acc' mem') ∧ hashSafeFields fs gs := by
  induction fs generalizing gs acc acc' with
  | nil =>
    cases gs with
    | nil => simp [bsonHashCompare, hashSafeFields]
    | cons g gs => simp [compareBsonIter] at h
  | cons f fs ihfs =>
    obtain ⟨k, v⟩ := f
    cases gs with
    | nil => simp [compareBsonIter] at h
    | cons g gs =>
      obtain ⟨k', v'⟩ := g
      simp only [compareBsonIter, andThen_eq_zero] at h
      obtain ⟨hclass, hkey, hval, hrest⟩ := h
      rw [compareStrings_eq, lex_eq_zero] at hkey
      subst hkey
      have hv := ih (k, v) (by simp) v' (sub_eq_zero.1 hclass) hval
      simp only [bsonHashCompare, hashSafeFields, Bool.and_eq_true]
      refine (ihfs (fun f hf => ih f (by simp [hf])) gs hrest
        (fun mem => Term.combine (Term.combine (acc mem) (Term.leaf k))
          (hashBsonValueCompare Term.hasher mem v))
        (fun mem => Term.combine (Term.combine (acc' mem) (Term.leaf k))
          (hashBsonValueCompare Term.hasher mem v'))).trans ?_
      rw [← and_assoc]
      refine and_congr_left' ?_
      simp only [Term.combine.injEq, and_true, forall_and]
      exact and_congr_right' hv

theorem sameTerm_elems
    (ih : ∀ e ∈ es, ∀ b, e.sortOrderType = b.sortOrderType → (compareBsonValue e b).1 = 0 →
      (SameTerm e b ↔ hashSafe e b)) (gs : List Value)
    (h : compareArrayIter es gs = 0) (i : Nat) (acc acc' : CodeMemory → Term Bytes) :
    (∀ mem mem', bsonHashCompareElems Term.hasher mem (acc mem) i es
        = bsonHashCompareElems Term.hasher mem' (acc' mem') i gs)
      ↔ (∀ mem mem', acc mem = acc' mem') ∧ hashSafeElems es gs := by
  induction es generalizing gs acc acc' i with
  | nil =>
    cases gs with
    | nil => simp [bsonHashCompareElems, hashSafeElems]
    | cons g gs => simp [compareArrayIter] at h
  | cons v es ihes =>
    cases gs with
    | nil => simp [compareArrayIter] at h
    | cons v' gs =>
      simp only [compareArrayIter, andThen_eq_zero] at h
      obtain ⟨hclass, hval, hrest⟩ := h
      have hv := ih v (by simp) v' (sub_eq_zero.1 hclass) hval
      simp only [bsonHashCompareElems, hashSafeElems, Bool.and_eq_true]
      refine (ihes (fun e he => ih e (by simp [he])) gs hrest (i + 1) (fun mem => Term.combine
          (Term.combine (acc mem) (Term.leaf (arrayKey i)))
          (hashBsonValueCompare Term.hasher mem v))
        (fun mem => Term.combine (Term.combine (acc' mem) (Term.leaf (arrayKey i)))
          (hashBsonValueCompare Term.hasher mem v'))).trans ?_
      rw [← and_assoc]
      refine and_congr_left' ?_
      simp only [Term.combine.injEq, and_true, forall_and]
      exact and_congr_right' hv

theorem sameTerm_iff (a b : Value) (hab : a.sortOrderType = b.sortOrderType)
    (h : (compareBsonValue a b).1 = 0) : SameTerm a b ↔ hashSafe a b := by
  induction a using Value.induction generalizing b with
  | document fs ih =>
    have hb := b.class_cases
    rw [← hab] at hb
    obtain ⟨gs, rfl⟩ := hb
    have hf := sameTerm_fields ih gs h (fun _ => .init) (fun _ => .init)
    rw [hashSafe]
    refine Iff.trans ?_ (hf.trans (by simp))
    simp [SameTerm, hashBsonValueCompare, Term.hasher]
  | array es ih =>
    have hb := b.class_cases
    rw [← hab] at hb
    obtain ⟨gs, rfl⟩ := hb
    have he := sameTerm_elems ih gs h 0 (fun _ => .init) (fun _ => .init)
    rw [hashSafe]
    refine Iff.trans ?_ (he.trans (by simp))
    simp [SameTerm, hashBsonValueCompare, Term.hasher]
  | codeWScope c fs ih =>
    have hb := b.class_cases
    rw [← hab] at hb
    obtain ⟨c', gs, rfl⟩ := hb
    -- two memories that show different bytes
    refine iff_of_false ?_ (by simp [hashSafe])
    intro hterm
    have := hterm (fun _ _ => []) (fun _ _ => [0])
    simp [hashBsonValueCompare, Term.hasher] at this
  | scalar a ha =>
    rw [compareBsonValue_scalar ha] at h
    exact sameTerm_scalar ha hab h

-- ==== agreement

omit [BidLib] in
theorem term_eq_of_hasherOf {s t : Term Bytes} (hs : s.size + t.size + 1 < 2 ^ 64)
    (h : ∀ hashBytesFunc hashCombineFunc seed, s.eval (hasherOf hashBytesFunc hashCombineFunc seed)
        = t.eval (hasherOf hashBytesFunc hashCombineFunc seed)) : s = t := by
  refine Term.eq_of_eval hs fun F hF => ?_
  have hF' : F = hasherOf (fun bytes _ => F.leaf bytes) F.combine 0 := by
    cases F
    simp_all [hasherOf]
  rw [hF']
  exact h _ _ _

theorem hashAgrees_iff_sameTerm (ha : (encodeValue a).length < 2 ^ 31)
    (hb : (encodeValue b).length < 2 ^ 31) : HashAgrees a b ↔ SameTerm a b := by
  constructor
  · intro h mem mem'
    have h₁ := size_hashBsonValueCompare mem a
    have h₂ := size_hashBsonValueCompare mem' b
    refine term_eq_of_hasherOf (by omega) fun hb hc seed => ?_
    rw [eval_hashBsonValueCompare, eval_hashBsonValueCompare]
    exact h hb hc seed mem mem'
  · intro h hb hc seed mem mem'
    rw [← eval_hashBsonValueCompare _ mem a, ← eval_hashBsonValueCompare _ mem' b, h mem mem']

/-- The hashes of two documents agree for all functions and memories. -/
def HashAgreesDoc (a b : Pgbson) : Prop :=
  ∀ hashBytesFunc hashCombineFunc seed mem mem',
    bsonHashCompare (hasherOf hashBytesFunc hashCombineFunc seed) mem 0 a.fields
      = bsonHashCompare (hasherOf hashBytesFunc hashCombineFunc seed) mem' 0 b.fields

theorem eval_bsonHashCompare_doc (fs : Fields) :
    (bsonHashCompare Term.hasher mem .init fs).eval F = bsonHashCompare F mem F.init fs :=
  eval_bsonHashCompare F mem (fun f _ => eval_hashBsonValueCompare F mem f.2) .init

theorem hashAgreesDoc_iff_sameTerm (a b : Pgbson) : HashAgreesDoc a b ↔ ∀ mem mem',
      bsonHashCompare Term.hasher mem .init a.fields
        = bsonHashCompare Term.hasher mem' .init b.fields := by
  constructor
  · intro h mem mem'
    have h₁ : (bsonHashCompare Term.hasher mem .init a.fields).size ≤ _ :=
      size_bsonHashCompare mem (fun f _ => size_hashBsonValueCompare mem f.2) .init
    have h₂ : (bsonHashCompare Term.hasher mem' .init b.fields).size ≤ _ :=
      size_bsonHashCompare mem' (fun f _ => size_hashBsonValueCompare mem' f.2) .init
    have ha := a.size_lt
    have hb := b.size_lt
    simp only [encodeDoc, length_frame] at ha hb
    simp only [Term.size] at h₁ h₂
    refine term_eq_of_hasherOf (by omega) fun hb hc seed => ?_
    rw [eval_bsonHashCompare_doc, eval_bsonHashCompare_doc]
    exact h hb hc seed mem mem'
  · intro h hb hc seed mem mem'
    have hev := congrArg (Term.eval (hasherOf hb hc seed)) (h mem mem')
    rwa [eval_bsonHashCompare_doc, eval_bsonHashCompare_doc] at hev

/-- The hash of the hash operator class agrees with the order exactly on the
safe pairs: equal values, and equal documents, have the same hash for all
functions on bytes, all seeds and all memories if and only if no code with
scope occurs in them and equal numbers in them are hashed by the same
bytes. -/
theorem hashBsonValueCompare_agrees_iff :
    (∀ a b : Value, (encodeValue a).length < 2 ^ 31 → (encodeValue b).length < 2 ^ 31 →
        (compareBsonValueAndType a b).1 = 0 →
        (HashAgrees a b ↔ hashSafe a b = true))
      ∧ ∀ a b : Pgbson, comparePgbson a b = 0 →
        (HashAgreesDoc a b ↔ hashSafeFields a.fields b.fields = true) := by
  refine ⟨?_, ?_⟩
  · intro a b ha hb h
    rw [compareBsonValueAndType_fst, andThen_eq_zero] at h
    rw [hashAgrees_iff_sameTerm ha hb]
    exact sameTerm_iff a b (sub_eq_zero.1 h.1) h.2
  · intro a b h
    rw [comparePgbson_eq] at h
    rw [hashAgreesDoc_iff_sameTerm]
    have hf := sameTerm_fields (fun f _ => sameTerm_iff f.2) b.fields h
      (fun _ => .init) (fun _ => .init)
    exact hf.trans (by simp)

end Agree

/-- The integer one has one hash in both widths. -/
theorem hash_of_int_widths_agrees : @HashAgrees BidLib.reference (.int32 1) (.int64 1) :=
  ((@hashBsonValueCompare_agrees_iff BidLib.reference).1 _ _ (by decide)
    (by decide) (by decide +kernel)).2 (by decide +kernel)

/-- The decimal `1.1`. -/
def decimalElevenTenths : Decimal128 where
  high := 0x303E000000000000
  low := 11

/-- The decimal `1.10`. -/
def decimalElevenTenthsPadded : Decimal128 where
  high := 0x303C000000000000
  low := 110

/-- `1.1` and `1.10` are equal decimals with different hashes. -/
theorem hash_of_padded_decimal_differs :
    (@compareBsonValueAndType BidLib.reference (.decimal128 decimalElevenTenths)
        (.decimal128 decimalElevenTenthsPadded)).1 = 0
      ∧ @hashBsonValueCompare BidLib.reference _
          (hasherOf (fun b _ => UInt64.ofNat (leNat b)) (fun l r => l + r) 0)
          (fun c _ => c) (.decimal128 decimalElevenTenths)
        ≠ @hashBsonValueCompare BidLib.reference _
          (hasherOf (fun b _ => UInt64.ofNat (leNat b)) (fun l r => l + r) 0)
          (fun c _ => c) (.decimal128 decimalElevenTenthsPadded) := by
  decide +kernel

end DocumentDb
