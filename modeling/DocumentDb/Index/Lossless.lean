/-
What an index term that is not flagged as truncated keeps of its value (`lossless`). What is
lost:

* the three types that the decoder misreads (`Value.unsafeFaithful`),
* code, and the collection of a DBPointer, behind a zero byte,
* numbers inside of a container that the rewriting changes (`numberKept`),
* the elements behind a regular expression, a DBPointer or a code with scope that crosses
  the soft limit.
-/
import DocumentDb.Index.Rewrite
import DocumentDb.Index.Writer

namespace DocumentDb

open Wire ThreeWay Option

section Lossless

variable [BidLib]

-- ==== what is kept

/-- The values without further values that are written as equal values
inside of a container, if they are not cut. -/
def scalarKept (v : Value) : Bool :=
  match v with
  | .double _ | .int32 _ | .int64 _ | .decimal128 _ => numberKept v
  | .code c | .codeWScope c _ | .dbPointer c _ => 0 ∉ c
  | _ => true

mutual

def nestedKept (sizeBudget currentLength : Int) : Value → Bool
  | .document fs =>
    fieldsKept currentLength (sizeBudget - 17) sizeBudget 5 fs
  | .array es =>
    elemsKept currentLength (sizeBudget - 21) sizeBudget 5 0 es
  | v => scalarKept v

/-- The elements of an array are kept: every one starts under the soft limit
and is kept itself. -/
def elemsKept (dataSize softLimit hardLimit n : Int) (i : Nat) : List Value → Bool
  | [] => true
  | v :: es =>
    n + dataSize ≤ softLimit && nestedKept (hardLimit - dataSize - 4) n v
      && elemsKept dataSize softLimit hardLimit (n + elemSize i (rewriteNested v)) (i + 1) es

def fieldsKept (existingTermSize softLimit hardLimit n : Int) : Fields → Bool
  | [] => true
  | (k, v) :: fs =>
    n + existingTermSize ≤ softLimit && nestedKept (hardLimit - existingTermSize - k.length - 2) n v
      && fieldsKept existingTermSize softLimit hardLimit (n + fieldSize k (rewriteNested v)) fs

end

-- ==== scalars

omit [BidLib] in
theorem compareStrings_cString (c : Bytes) : compareStrings (cString c) c = 0 ↔ 0 ∉ c := by
  rw [compareStrings_eq, lex_eq_zero, cString_eq_self_iff]

theorem bsonValueEquals_self (v : Value) : bsonValueEquals v v :=
  bsonValueEquals_iff.2 (compareBsonValueAndType_self v)

variable {v w : Value}

theorem rewriteScalar_equals_iff (hd : v.type ≠ .document) (ha : v.type ≠ .array) :
    bsonValueEquals (rewriteScalar v) v ↔ scalarKept v := by
  cases v with
  | document fs => exact absurd rfl hd
  | array es => exact absurd rfl ha
  | double bits => exact rewriteNumber_equals_iff (v := .double bits) rfl
  | int32 n => exact rewriteNumber_equals_iff (v := .int32 n) rfl
  | int64 n => exact rewriteNumber_equals_iff (v := .int64 n) rfl
  | decimal128 d => exact rewriteNumber_equals_iff (v := .decimal128 d) rfl
  | code c =>
    rw [bsonValueEquals_iff]
    exact (compareStrings_cString c).trans (by simp [scalarKept])
  | codeWScope c scope =>
    rw [bsonValueEquals_iff]
    show andThen (compareStrings (cString c) c) (compareBsonIter scope scope) = 0 ↔ _
    rw [andThen_eq_zero, compareStrings_cString, compareBsonIter_self]
    simp [scalarKept]
  | dbPointer c o =>
    rw [bsonValueEquals_iff]
    show andThen (compareStrings (cString c) c) (memcmp o.bytes o.bytes) = 0 ↔ _
    rw [andThen_eq_zero, compareStrings_cString, memcmp_eq_lex rfl, lex_eq_zero]
    simp [scalarKept]
  | _ => exact iff_of_true (bsonValueEquals_self _) rfl

-- ==== containers

/-- A value that is written without a flag is written as an equal value
exactly if it is kept, and is then rewritten as a whole. -/
private def KeptIff (v : Value) : Prop :=
  ∀ sizeBudget currentLength v' force,
    truncateNestedEntry sizeBudget currentLength v = some (v', false, force) →
    (bsonValueEquals v' v = true ↔ nestedKept sizeBudget currentLength v = true)
      ∧ (nestedKept sizeBudget currentLength v = true → v' = rewriteNested v)

theorem compareArrayIter_cons_eq_zero {xs ys : List Value} :
    compareArrayIter (v :: xs) (w :: ys) = 0
      ↔ bsonValueEquals v w ∧ compareArrayIter xs ys = 0 := by
  simp only [compareArrayIter, andThen_eq_zero, bsonValueEquals_iff,
    compareBsonValueAndType_fst, and_assoc]

theorem compareBsonIter_cons_eq_zero {k : Bytes} {fs gs : Fields} :
    compareBsonIter ((k, v) :: fs) ((k, w) :: gs) = 0
      ↔ bsonValueEquals v w ∧ compareBsonIter fs gs = 0 := by
  have hk : compareStrings k k = 0 := by
    rw [compareStrings_eq, lex_eq_zero]
  simp only [compareBsonIter, andThen_eq_zero, bsonValueEquals_iff,
    compareBsonValueAndType_fst, and_assoc, hk, true_and]

/-- The induction is over the elements that are left; an element that does
not start under the soft limit is dropped, with all behind it. -/
theorem elemsKept_iff {es : List Value} (ih : ∀ e ∈ es, KeptIff e)
    {dataSize soft hard : Int} (force : Bool) (n : Int) (i : Nat) {xs : List Value}
    (h : arrayTail dataSize soft hard force n i es = some (xs, false)) :
    (compareArrayIter xs es = 0 ↔ elemsKept dataSize soft hard n i es)
      ∧ (elemsKept dataSize soft hard n i es → xs = rewriteElems es) := by
  induction es generalizing force n i xs with
  | nil =>
    simp only [arrayTail, some.injEq, Prod.mk.injEq] at h
    obtain ⟨rfl, -⟩ := h
    exact ⟨iff_of_true rfl rfl, fun _ => rfl⟩
  | cons v es ihes =>
    rcases arrayTail_cons h with ⟨hsoft, hr⟩ | ⟨hsoft, v', t, f, hv, hr⟩
    · obtain ⟨rfl, -⟩ := Prod.mk.inj hr
      have hnot : elemsKept dataSize soft hard n i (v :: es) = false := by
        simp [elemsKept, not_le.2 hsoft]
      rw [hnot]
      exact ⟨by simp [compareArrayIter], by simp⟩
    · rcases hr with ⟨-, hr⟩ | ⟨rfl, r, hr, hxs⟩
      · exact absurd (Prod.mk.inj hr).2 (by simp)
      · obtain ⟨xs', t⟩ := r
        cases hxs
        obtain ⟨hviff, hvrw⟩ := ih v (by simp) _ _ _ _ hv
        have hrest := ihes (fun e he => ih e (by simp [he])) _ _ _ hr
        simp only [elemsKept, Bool.and_eq_true, decide_eq_true_eq, hsoft,
          true_and, compareArrayIter_cons_eq_zero, hviff]
        constructor
        · refine and_congr_right fun hk => ?_
          rw [← hvrw hk]
          exact hrest.1
        · rintro ⟨hk, hks⟩
          rw [← hvrw hk] at hks
          rw [rewriteElems, ← hvrw hk, ← hrest.2 hks]

theorem fieldsKept_iff {fs : Fields} (ih : ∀ f ∈ fs, KeptIff f.2)
    {termSize soft hard : Int} (force : Bool) (n : Int) {xs : Fields}
    (h : documentTail termSize soft hard force n fs = some (xs, false)) :
    (compareBsonIter xs fs = 0 ↔ fieldsKept termSize soft hard n fs)
      ∧ (fieldsKept termSize soft hard n fs → xs = rewriteFields fs) := by
  induction fs generalizing force n xs with
  | nil =>
    simp only [documentTail, some.injEq, Prod.mk.injEq] at h
    obtain ⟨rfl, -⟩ := h
    exact ⟨iff_of_true rfl rfl, fun _ => rfl⟩
  | cons f fs ihfs =>
    obtain ⟨k, v⟩ := f
    rcases documentTail_cons h with ⟨hsoft, hr⟩ | ⟨-, -, hr⟩
      | ⟨hsoft, -, v', t, f, hv, hr⟩
    · obtain ⟨rfl, -⟩ := Prod.mk.inj hr
      have hnot : fieldsKept termSize soft hard n ((k, v) :: fs) = false := by
        simp [fieldsKept, not_le.2 hsoft]
      rw [hnot]
      exact ⟨by simp [compareBsonIter], by simp⟩
    · exact absurd (Prod.mk.inj hr).2 (by simp)
    · rcases hr with ⟨-, hr⟩ | ⟨rfl, r, hr, hxs⟩
      · exact absurd (Prod.mk.inj hr).2 (by simp)
      · obtain ⟨xs', t⟩ := r
        cases hxs
        obtain ⟨hviff, hvrw⟩ := ih (k, v) (by simp) _ _ _ _ hv
        have hrest := ihfs (fun f hf => ih f (by simp [hf])) _ _ hr
        simp only [fieldsKept, Bool.and_eq_true, decide_eq_true_eq, hsoft,
          true_and, compareBsonIter_cons_eq_zero, hviff]
        constructor
        · refine and_congr_right fun hk => ?_
          rw [← hvrw hk]
          exact hrest.1
        · rintro ⟨hk, hks⟩
          rw [← hvrw hk] at hks
          rw [rewriteFields, ← hvrw hk, ← hrest.2 hks]

omit [BidLib] in
theorem type_ne_of_scalar (hv : v.isScalar) : v.type ≠ .document ∧ v.type ≠ .array := by
  cases v <;> simp [Value.isScalar, Value.type] at hv ⊢

theorem keptIff (v : Value) : KeptIff v := by
  induction v using Value.induction with
  | document fs ih =>
    intro sizeBudget len v' force h
    rw [truncateNestedEntry_document, map_eq_some_iff] at h
    obtain ⟨⟨xs, t⟩, hr, hv⟩ := h
    obtain ⟨rfl, rfl, -⟩ := hv
    have := fieldsKept_iff ih _ _ hr
    refine ⟨Iff.trans ?_ this.1, fun hk => ?_⟩
    · rw [bsonValueEquals_iff]
      rfl
    · rw [rewriteNested, this.2 hk]
  | array es ih =>
    intro sizeBudget len v' force h
    rw [truncateNestedEntry_array, map_eq_some_iff] at h
    obtain ⟨⟨xs, t⟩, hr, hv⟩ := h
    obtain ⟨rfl, rfl, -⟩ := hv
    have := elemsKept_iff ih _ _ _ hr
    refine ⟨Iff.trans ?_ this.1, fun hk => ?_⟩
    · rw [bsonValueEquals_iff]
      rfl
    · rw [rewriteNested, this.2 hk]
  | codeWScope c fs _ =>
    intro sizeBudget len v' force h
    have hrw : v' = rewriteScalar (.codeWScope c fs) := truncateNestedScalar_kept sizeBudget len h
    rw [hrw]
    exact ⟨rewriteScalar_equals_iff (by simp [Value.type])
      (by simp [Value.type]), fun _ => rfl⟩
  | scalar v hs =>
    intro sizeBudget len v' force h
    obtain ⟨hd, ha⟩ := type_ne_of_scalar hs
    rw [truncateNestedEntry_scalar hd ha] at h
    rw [truncateNestedScalar_kept _ _ h]
    have hn : nestedKept sizeBudget len v = scalarKept v := by
      cases v <;> first | rfl | simp [Value.isScalar] at hs
    have hrw : rewriteNested v = rewriteScalar v := by
      cases v <;> first | rfl | simp [Value.isScalar] at hs
    rw [hn, hrw]
    exact ⟨rewriteScalar_equals_iff hd ha, fun _ => rfl⟩

-- ==== terms

/-- The values without further values that a term keeps, if they are not
cut. -/
def scalarLossless : Value → Bool
  | .timestamp seconds increment => seconds = increment
  | .dbPointer c o => 0 ∉ c ∧ (c ++ 0 :: o.bytes).take 12 = o.bytes
  | .codeWScope _ _ => false
  | .code c => 0 ∉ c
  | _ => true

/-- The values that a term keeps, if it is not truncated. -/
def lossless (indexTermSizeLimit dataSize : Int) (v : Value) : Bool :=
  match v with
  | .array es =>
    indexTermSizeLimit ≤ 0
      || elemsKept dataSize (indexTermSizeLimit - 21) indexTermSizeLimit 5 0
          es
  | .document fs =>
    indexTermSizeLimit ≤ 0
      || fieldsKept dataSize (indexTermSizeLimit - 17)
          (indexTermSizeLimit - 2) 5 fs
  | v => scalarLossless v

/-- What is decoded of a written value equals another value. -/
private def DecodedEquals (written v : Value) : Prop :=
  ∃ w, written.unsafeDecode = some w ∧ bsonValueEquals w v = true

theorem decodedEquals_of_decode {written : Value} (h : written.unsafeDecode = some w) :
    DecodedEquals written v ↔ bsonValueEquals w v := by
  simp [DecodedEquals, h]

theorem decodedEquals_append (hd : v.type ≠ .document) (ha : v.type ≠ .array) :
    DecodedEquals (appendValue v) v ↔ scalarLossless v := by
  cases v with
  | document fs => exact absurd rfl hd
  | array es => exact absurd rfl ha
  | codeWScope c scope =>
    simp [DecodedEquals, appendValue, Value.unsafeDecode, scalarLossless]
  | timestamp seconds increment =>
    rw [decodedEquals_of_decode rfl, bsonValueEquals_iff]
    show andThen (ofOrder increment.toNat seconds.toNat)
      (ofOrder seconds.toNat increment.toNat) = 0 ↔ _
    rw [andThen_eq_zero, ofOrder_eq_zero, ofOrder_eq_zero]
    simp only [scalarLossless, decide_eq_true_eq, UInt32.toNat_inj]
    exact ⟨fun h => h.2, fun h => ⟨h.symm, h⟩⟩
  | dbPointer c o =>
    rw [decodedEquals_of_decode rfl, bsonValueEquals_iff]
    show andThen (compareStrings (cString c) c)
      (memcmp (clobberedOid (cString c) o).bytes o.bytes) = 0 ↔ _
    rw [andThen_eq_zero, compareStrings_cString,
      memcmp_eq_lex ((clobberedOid _ o).length_eq.trans o.length_eq.symm), lex_eq_zero]
    simp only [scalarLossless, decide_eq_true_eq, clobberedOid]
    refine and_congr_right fun h => ?_
    rw [(cString_eq_self_iff c).2 h]
  | code c =>
    rw [decodedEquals_of_decode rfl, bsonValueEquals_iff]
    exact (compareStrings_cString c).trans (by simp [scalarLossless])
  | _ =>
    exact iff_of_true ((decodedEquals_of_decode rfl).2 (bsonValueEquals_self _)) rfl

theorem serializeTermValue_lossless {limit dataSize : Int} (hlimit : 0 < limit) {v' : Value}
    (h : serializeTermValue limit dataSize v = some (v', false)) :
    DecodedEquals v' v ↔ lossless limit dataSize v := by
  cases v with
  | array es =>
    rw [serializeTermValue_array, map_eq_some_iff] at h
    obtain ⟨⟨xs, t⟩, hr, hv⟩ := h
    cases hv
    rw [decodedEquals_of_decode rfl, bsonValueEquals_iff]
    refine (elemsKept_iff (fun e _ => keptIff e) _ _ _ hr).1.trans ?_
    simp [lossless, not_le.2 hlimit]
  | document fs =>
    rw [serializeTermValue_document, map_eq_some_iff] at h
    obtain ⟨⟨xs, t⟩, hr, hv⟩ := h
    cases hv
    rw [decodedEquals_of_decode rfl, bsonValueEquals_iff]
    refine (fieldsKept_iff (fun f _ => keptIff f.2) _ _ hr).1.trans ?_
    simp [lossless, not_le.2 hlimit]
  | utf8 s | symbol s | code c | binary sub data =>
    simp only [serializeTermValue] at h
    rw [truncateStringValue_kept h]
    exact decodedEquals_append (by simp [Value.type]) (by simp [Value.type])
  | _ =>
    obtain ⟨rfl, -⟩ := Prod.mk.inj (some.inj h)
    exact decodedEquals_append (by simp [Value.type]) (by simp [Value.type])

theorem serializeTermToWriter_lossless {md : IndexTermCreateMetadata} {e : PgbsonElement}
    {path : Bytes} (h : serializeTermToWriter md e = some (path, v, false)) :
    DecodedEquals v e.bsonValue
      ↔ lossless md.indexTermSizeLimit (5 + path.length + 2) e.bsonValue := by
  obtain ⟨-, ⟨hlimit, rfl, -⟩ | ⟨hlimit, hr⟩⟩ := serializeTermToWriter_cases h
  · -- nothing is cut
    cases hv : e.bsonValue with
    | array es | document fs =>
      exact iff_of_true ((decodedEquals_of_decode rfl).2
        (bsonValueEquals_self _)) (by simp [lossless, hlimit])
    | _ =>
      exact decodedEquals_append (by simp [Value.type])
        (by simp [Value.type])
  · exact serializeTermValue_lossless hlimit hr

end Lossless

/-- The array `[5]`, below `a`. -/
def fiveElement : PgbsonElement where
  path := [97]
  bsonValue := .array [.int64 5]
  namesOk := by decide
  size_lt := by decide

/-- The array `[1 + 2^-52]`, below `a`. -/
def nearOneElement : PgbsonElement where
  path := [97]
  bsonValue := .array [.double 0x3FF0000000000001]
  namesOk := by decide
  size_lt := by decide

/-- The term of `[5]`. -/
def fiveTerm : BsonIndexTermSerialized where
  isIndexTermTruncated := false
  indexTermVal := [0, 20, 0, 0, 0, 4, 36, 0, 12, 0, 0, 0, 16, 48, 0, 5, 0, 0, 0, 0, 0]

end DocumentDb
