/-
The loops of the index terms, seen from outside.

All that `truncateArrayTerm` and `truncateDocumentTerm` read of what they have written is
its size and, in arrays, its length, and they only append. `arrayTail` and `documentTail`
are the loops in that form, from a size on; every later statement is about them. A term that
serializes holds a well-formed element (`serializeBsonIndexTerm_spec`), so it is decoded by
`Value.unsafeDecode`.
-/
import DocumentDb.Index.Term

namespace DocumentDb

open Wire ThreeWay List Option

-- ==== sizes

def elemSize (i : Nat) (v : Value) : Int := (arrayKey i).length + 2 + (encodeValue v).length

def fieldSize (k : Bytes) (v : Value) : Int := k.length + 2 + (encodeValue v).length

theorem encodeElems_append (i : Nat) (xs ys : List Value) :
    encodeElems i (xs ++ ys) = encodeElems i xs ++ encodeElems (i + xs.length) ys := by
  induction xs generalizing i with
  | nil => rfl
  | cons v xs ih =>
    simp [encodeElems, ih, Nat.add_assoc, Nat.add_comm 1]

theorem encodeFields_append (fs gs : Fields) :
    encodeFields (fs ++ gs) = encodeFields fs ++ encodeFields gs := by
  induction fs with
  | nil => rfl
  | cons f fs ih =>
    obtain ⟨k, v⟩ := f
    simp [encodeFields, ih]

theorem arrayWriterSize_append (written : List Value) (v : Value) :
    arrayWriterSize (written ++ [v]) = arrayWriterSize written + elemSize written.length v := by
  simp only [arrayWriterSize, elemSize, encodeElems_append, length_frame, length_append,
    encodeElems, length_cons, append_nil, Nat.zero_add]
  omega

theorem writerSize_append (written : Fields) (k : Bytes) (v : Value) :
    writerSize (written ++ [(k, v)]) = writerSize written + fieldSize k v := by
  simp only [writerSize, fieldSize, encodeFields_append, length_frame,
    length_append, encodeFields, length_cons, append_nil]
  omega

section Tail

variable [BidLib]

-- ==== the tails

/-- What `TruncateArrayTerm` appends from a size and a position on. -/
def arrayTail (dataSize softLimit hardLimit : Int) :
    Bool → Int → Nat → List Value → Option (List Value × Bool)
  | force, n, _, [] => some ([], softLimit < n + dataSize && !force)
  | force, n, i, v :: es =>
    if softLimit < n + dataSize then some ([], !force)
    else
      match truncateNestedEntry (hardLimit - dataSize - 4) n v with
      | none => none
      | some (v', true, _) => some ([v'], true)
      | some (v', false, force') =>
        (arrayTail dataSize softLimit hardLimit force' (n + elemSize i v')
          (i + 1) es).map fun r => (v' :: r.1, r.2)

/-- What `TruncateDocumentTerm` appends from a size on. -/
def documentTail (existingTermSize softLimit hardLimit : Int) :
    Bool → Int → Fields → Option (Fields × Bool)
  | force, n, [] => some ([], softLimit < n + existingTermSize && !force)
  | force, n, (k, v) :: fs =>
    if softLimit < n + existingTermSize then some ([], !force)
    else if n + existingTermSize + k.length + 2 < softLimit then
      match truncateNestedEntry (hardLimit - existingTermSize - k.length - 2) n v with
      | none => none
      | some (v', true, _) => some ([(k, v')], true)
      | some (v', false, force') =>
        (documentTail existingTermSize softLimit hardLimit force'
          (n + fieldSize k v') fs).map fun r => ((k, v') :: r.1, r.2)
    else
      some ([(k.take (hardLimit - n - existingTermSize - 2).toNat, .maxKey)], true)

theorem truncateArrayTerm_eq (dataSize soft hard : Int) (force : Bool) (written es : List Value) :
    truncateArrayTerm dataSize soft hard force written es = (arrayTail dataSize soft hard force
          (arrayWriterSize written) written.length es).map fun r => (written ++ r.1, r.2) := by
  induction es generalizing force written with
  | nil => simp [truncateArrayTerm, arrayTail]
  | cons v es ih =>
    simp only [truncateArrayTerm, arrayTail]
    split_ifs
    · simp
    · cases truncateNestedEntry (hard - dataSize - 4) (arrayWriterSize written) v with
      | none => rfl
      | some r =>
        obtain ⟨v', _ | _, force'⟩ := r
        · simp only [ih, arrayWriterSize_append, length_append, length_singleton, Option.map_map]
          congr 1
          funext r
          simp
        · rfl

theorem truncateDocumentTerm_eq (termSize soft hard : Int) (force : Bool) (written fs : Fields) :
    truncateDocumentTerm termSize soft hard force written fs
      = (documentTail termSize soft hard force
          (writerSize written) fs).map fun r => (written ++ r.1, r.2) := by
  induction fs generalizing force written with
  | nil => simp [truncateDocumentTerm, documentTail]
  | cons f fs ih =>
    obtain ⟨k, v⟩ := f
    simp only [truncateDocumentTerm, documentTail]
    split_ifs with hsoft hpath hhard
    · simp
    · cases truncateNestedEntry (hard - termSize - k.length - 2) (writerSize written) v with
      | none => rfl
      | some r =>
        obtain ⟨v', _ | _, force'⟩ := r
        · simp only [ih, writerSize_append, Option.map_map]
          congr 1
          funext r
          simp
        · rfl
    · rw [take_of_length_le (by omega)]
      rfl
    · have hcut : (k.length - (writerSize written + termSize
          + k.length + 2 - hard) : Int) = hard - writerSize written - termSize - 2 := by
        omega
      rw [hcut]
      rfl

variable (budget len : Int)

theorem truncateNestedEntry_array (es : List Value) :
    truncateNestedEntry budget len (.array es) = (arrayTail len (budget - 21) budget false 5 0
          es).map fun r => (.array r.1, r.2, false) := by
  simp only [truncateNestedEntry, truncateArrayTerm_eq, Option.map_map]
  rfl

theorem truncateNestedEntry_document (fs : Fields) :
    truncateNestedEntry budget len (.document fs) = (documentTail len (budget - 17) budget false 5
          fs).map fun r => (.document r.1, r.2, false) := by
  simp only [truncateNestedEntry, truncateDocumentTerm_eq, Option.map_map]
  rfl

variable {v : Value} {dataSize hard soft : Int} {path : Bytes}
  {md : IndexTermCreateMetadata} {e : PgbsonElement}
  {t : BsonIndexTermSerialized}

theorem truncateNestedEntry_scalar (hd : v.type ≠ .document) (ha : v.type ≠ .array)
    (budget len : Int) : truncateNestedEntry budget len v = truncateNestedScalar budget len v := by
  cases v with
  | document fs => exact absurd rfl hd
  | array es => exact absurd rfl ha
  | _ => rfl

variable {n termSize : Int} {force cut : Bool} {es : List Value}
  {r : List Value × Bool} {fs : Fields} {m : IndexTermMetadata} {e' : PgbsonElement}

theorem arrayTail_cons {i : Nat} (h : arrayTail dataSize soft hard force n i (v :: es) = some r) :
    soft < n + dataSize ∧ r = ([], !force) ∨ n + dataSize ≤ soft ∧ ∃ v' cut force',
          truncateNestedEntry (hard - dataSize - 4) n v = some (v', cut, force')
          ∧ (cut ∧ r = ([v'], true) ∨ cut = false ∧ ∃ r',
                arrayTail dataSize soft hard force' (n + elemSize i v') (i + 1) es = some r'
                ∧ r = (v' :: r'.1, r'.2)) := by
  simp only [arrayTail] at h
  split_ifs at h with hsoft
  · exact Or.inl ⟨hsoft, (some.inj h).symm⟩
  · refine Or.inr ⟨not_lt.1 hsoft, ?_⟩
    cases hv : truncateNestedEntry (hard - dataSize - 4) n v with
    | none => simp [hv] at h
    | some p =>
      obtain ⟨v', _ | _, force'⟩ := p
      · simp only [hv, map_eq_some_iff] at h
        obtain ⟨r', hr', rfl⟩ := h
        exact ⟨v', false, force', rfl, Or.inr ⟨rfl, r', hr', rfl⟩⟩
      · simp only [hv, some.injEq] at h
        exact ⟨v', true, force', rfl, Or.inl ⟨rfl, h.symm⟩⟩

theorem documentTail_cons {k : Bytes} {r : Fields × Bool}
    (h : documentTail termSize soft hard force n ((k, v) :: fs) = some r) :
    soft < n + termSize ∧ r = ([], !force) ∨ n + termSize ≤ soft
        ∧ soft ≤ n + termSize + k.length + 2
        ∧ r = ([(k.take (hard - n - termSize - 2).toNat, .maxKey)], true)
      ∨ n + termSize ≤ soft ∧ n + termSize + k.length + 2 < soft ∧ ∃ v' cut force',
          truncateNestedEntry (hard - termSize - k.length - 2) n v = some (v', cut, force')
          ∧ (cut ∧ r = ([(k, v')], true) ∨ cut = false ∧ ∃ r',
                documentTail termSize soft hard force' (n + fieldSize k v') fs = some r'
                ∧ r = ((k, v') :: r'.1, r'.2)) := by
  simp only [documentTail] at h
  split_ifs at h with hsoft hpath
  · exact Or.inl ⟨hsoft, (some.inj h).symm⟩
  · refine Or.inr (Or.inr ⟨not_lt.1 hsoft, hpath, ?_⟩)
    cases hv : truncateNestedEntry (hard - termSize - k.length - 2) n v with
    | none => simp [hv] at h
    | some p =>
      obtain ⟨v', _ | _, force'⟩ := p
      · simp only [hv, map_eq_some_iff] at h
        obtain ⟨r', hr', rfl⟩ := h
        exact ⟨v', false, force', rfl, Or.inr ⟨rfl, r', hr', rfl⟩⟩
      · simp only [hv, some.injEq] at h
        exact ⟨v', true, force', rfl, Or.inl ⟨rfl, h.symm⟩⟩
  · exact Or.inr (Or.inl ⟨not_lt.1 hsoft, not_lt.1 hpath, (some.inj h).symm⟩)

-- ==== names stay C strings

theorem arrayTail_namesOk (ih : ∀ e ∈ es, ∀ budget len r, e.namesOk →
      truncateNestedEntry budget len e = some r →
      r.1.namesOk) (force : Bool) (n : Int) (i : Nat)
    (hes : namesOkElems es) (h : arrayTail dataSize soft hard force n i es = some r) :
    namesOkElems r.1 := by
  induction es generalizing force n i r with
  | nil =>
    cases h
    rfl
  | cons e es ihes =>
    simp only [namesOkElems, Bool.and_eq_true] at hes
    rcases arrayTail_cons h with ⟨-, rfl⟩ | ⟨-, v', _, _, hv, hr⟩
    · rfl
    · have hv' : v'.namesOk := ih e (by simp) _ _ _ hes.1 hv
      rcases hr with ⟨-, rfl⟩ | ⟨-, r', hr', rfl⟩
      · simp [namesOkElems, hv']
      · have := ihes (fun e he => ih e (by simp [he])) _ _ _ hes.2 hr'
        simp [namesOkElems, hv', this]

theorem documentTail_namesOk
    (ih : ∀ f ∈ fs, ∀ budget len r, f.2.namesOk → truncateNestedEntry budget len f.2 = some r →
      r.1.namesOk) (force : Bool) (n : Int) (hfs : namesOkFields fs) {r : Fields × Bool}
    (h : documentTail termSize soft hard force n fs = some r) : namesOkFields r.1 := by
  induction fs generalizing force n r with
  | nil =>
    cases h
    rfl
  | cons f fs ihfs =>
    obtain ⟨k, v⟩ := f
    simp only [namesOkFields, Bool.and_eq_true, decide_eq_true_eq] at hfs
    rcases documentTail_cons h with ⟨-, rfl⟩ | ⟨-, -, rfl⟩
      | ⟨-, -, v', _, _, hv, hr⟩
    · rfl
    · have : ∀ m, 0 ∉ k.take m := fun m hm =>
        hfs.1.1 (mem_of_mem_take hm)
      simp [namesOkFields, Value.namesOk, this]
    · have hv' : v'.namesOk := ih (k, v) (by simp) _ _ _ hfs.1.2 hv
      rcases hr with ⟨-, rfl⟩ | ⟨-, r', hr', rfl⟩
      · simp [namesOkFields, hv', hfs.1.1]
      · have := ihfs (fun f hf => ih f (by simp [hf])) _ _ hfs.2 hr'
        simp [namesOkFields, hv', hfs.1.1, this]

omit [BidLib] in
theorem appendValue_namesOk (h : v.namesOk) : (appendValue v).namesOk := by
  cases v <;> exact h

omit [BidLib] in
theorem truncateStringValue_namesOk (dataSize limit : Int) (v : Value)
    {r : Value × Bool} (h : truncateStringValue dataSize limit v = some r) : r.1.namesOk := by
  cases v <;> simp only [truncateStringValue, map_eq_some_iff,
    reduceCtorEq] at h <;> obtain ⟨p, -, rfl⟩ := h <;> rfl

theorem rewriteNumber_namesOk (v : Value) : (rewriteNumber v).namesOk := by
  simp only [rewriteNumber]
  split_ifs <;> rfl

theorem truncateNestedScalar_namesOk (hv : v.namesOk) {r : Value × Bool × Bool}
    (h : truncateNestedScalar budget len v = some r) : r.1.namesOk := by
  unfold truncateNestedScalar at h
  split at h
  all_goals first
    | (obtain rfl := some.inj h
       first
        | exact rewriteNumber_namesOk _
        | exact appendValue_namesOk hv
        | exact hv)
    | (simp only [map_eq_some_iff] at h
       obtain ⟨p, hp, rfl⟩ := h
       exact truncateStringValue_namesOk _ _ _ hp)

theorem truncateNestedEntry_namesOk (v : Value) :
    ∀ budget len r, v.namesOk → truncateNestedEntry budget len v = some r → r.1.namesOk := by
  induction v using Value.induction with
  | document fs ih =>
    intro budget len r hv h
    rw [truncateNestedEntry_document, map_eq_some_iff] at h
    obtain ⟨p, hp, rfl⟩ := h
    exact documentTail_namesOk ih _ _ hv hp
  | array es ih =>
    intro budget len r hv h
    rw [truncateNestedEntry_array, map_eq_some_iff] at h
    obtain ⟨p, hp, rfl⟩ := h
    exact arrayTail_namesOk ih _ _ _ hv hp
  | codeWScope c fs _ =>
    intro budget len r hv h
    exact truncateNestedScalar_namesOk budget len hv h
  | scalar v hs =>
    intro budget len r hv h
    rw [truncateNestedEntry_scalar (by cases v <;> simp_all [Value.isScalar,
      Value.type]) (by cases v <;> simp_all [Value.isScalar, Value.type])]
      at h
    exact truncateNestedScalar_namesOk budget len hv h

-- ==== decoding

theorem serializeTermValue_array (limit dataSize : Int) (es : List Value) :
    serializeTermValue limit dataSize (.array es)
      = (arrayTail dataSize (limit - 21) limit false 5 0 es).map fun r => (.array r.1, r.2) := by
  simp only [serializeTermValue, truncateArrayTerm_eq, Option.map_map]
  rfl

theorem serializeTermValue_document (limit dataSize : Int) (fs : Fields) :
    serializeTermValue limit dataSize (.document fs)
      = (documentTail dataSize (limit - 17) (limit - 2) false 5 fs).map
          fun r => (.document r.1, r.2) := by
  simp only [serializeTermValue, truncateDocumentTerm_eq, Option.map_map]
  rfl

theorem serializeTermValue_namesOk {limit : Int} (hv : v.namesOk)
    {r : Value × Bool} (h : serializeTermValue limit dataSize v = some r) : r.1.namesOk := by
  cases v with
  | array es =>
    rw [serializeTermValue_array, map_eq_some_iff] at h
    obtain ⟨p, hp, rfl⟩ := h
    exact arrayTail_namesOk (fun e _ => truncateNestedEntry_namesOk e) _ _ _ hv hp
  | document fs =>
    rw [serializeTermValue_document, map_eq_some_iff] at h
    obtain ⟨p, hp, rfl⟩ := h
    exact documentTail_namesOk (fun f _ => truncateNestedEntry_namesOk f.2) _ _ hv hp
  | utf8 s =>
    exact truncateStringValue_namesOk dataSize limit (.utf8 s) h
  | symbol s =>
    exact truncateStringValue_namesOk dataSize limit (.symbol s) h
  | code c =>
    exact truncateStringValue_namesOk dataSize limit (.code c) h
  | binary sub data =>
    exact truncateStringValue_namesOk dataSize limit (.binary sub data) h
  | _ =>
    cases h
    exact appendValue_namesOk hv

omit [BidLib] in
theorem termPath_namesOk {path' : Bytes} (hp : 0 ∉ path)
    (h : md.termPath path = some path') : 0 ∉ path' := by
  have hdrop : ∀ m, 0 ∉ path.drop m := fun m hm =>
    hp (mem_of_mem_drop hm)
  unfold IndexTermCreateMetadata.termPath at h
  simp only at h
  split_ifs at h <;> obtain rfl := some.inj h <;> simp_all

theorem serializeTermToWriter_cases (h : serializeTermToWriter md e = some (path, v, cut)) :
    md.termPath e.path = some path ∧ (md.indexTermSizeLimit ≤ 0
          ∧ v = appendValue e.bsonValue ∧ cut = false
        ∨ 0 < md.indexTermSizeLimit ∧ serializeTermValue md.indexTermSizeLimit
              (5 + path.length + 2) e.bsonValue = some (v, cut)) := by
  simp only [serializeTermToWriter, bind_eq_bind, bind_eq_some_iff] at h
  obtain ⟨path', hpath, h⟩ := h
  split_ifs at h with hlimit
  · simp only [some.injEq, Prod.mk.injEq] at h
    obtain ⟨rfl, rfl, rfl⟩ := h
    exact ⟨hpath, Or.inl ⟨hlimit, rfl, rfl⟩⟩
  · simp only [map_eq_some_iff, Prod.mk.injEq] at h
    obtain ⟨r, hr, rfl, rfl⟩ := h
    exact ⟨hpath, Or.inr ⟨not_le.1 hlimit, hr⟩⟩

theorem serializeTermToWriter_namesOk (h : serializeTermToWriter md e = some (path, v, cut)) :
    namesOkFields [(path, v)] := by
  have he := e.namesOk
  simp only [namesOkFields, Bool.and_eq_true, decide_eq_true_eq, and_true] at he ⊢
  obtain ⟨hpath, ⟨-, rfl, -⟩ | ⟨-, hr⟩⟩ := serializeTermToWriter_cases h
  · exact ⟨termPath_namesOk he.1 hpath, appendValue_namesOk he.2⟩
  · exact ⟨termPath_namesOk he.1 hpath, serializeTermValue_namesOk he.2 hr⟩

theorem serializeBsonIndexTermCore_spec {createMetadata : IndexTermCreateMetadata}
    (h : serializeBsonIndexTermCore createMetadata e m = some t) :
    ∃ (e' : PgbsonElement) (cut : Bool), serializeTermToWriter createMetadata e
          = some (e'.path, e'.bsonValue, cut)
        ∧ t.isIndexTermTruncated = decide (m.mark cut = .truncated)
        ∧ t.indexTermVal = (m.mark cut).byte :: e'.toPgbson.data := by
  simp only [serializeBsonIndexTermCore, bind_eq_bind, bind_eq_some_iff] at h
  obtain ⟨⟨path, v, cut⟩, hw, h⟩ := h
  by_cases hsize : 2 ^ 31 ≤ (encodeDoc [(path, v)]).length
  · rw [if_pos hsize] at h
    exact absurd h (by simp)
  rw [if_neg hsize] at h
  by_cases hlimit : 0 < createMetadata.indexTermSizeLimit
      ∧ createMetadata.indexTermSizeLimit < (encodeDoc [(path, v)]).length
  · rw [if_pos hlimit] at h
    exact absurd h (by simp)
  rw [if_neg hlimit] at h
  cases h
  exact ⟨⟨path, v, serializeTermToWriter_namesOk hw, not_le.1 hsize⟩, cut, hw, rfl, rfl⟩

theorem serializeBsonIndexTerm_spec (h : serializeBsonIndexTerm md e = some t) :
    ∃ e' : PgbsonElement, serializeTermToWriter md e
          = some (e'.path, e'.bsonValue, t.isIndexTermTruncated)
        ∧ t.indexTermVal = (IndexTermMetadata.noMetadata.mark t.isIndexTermTruncated).byte
            :: e'.toPgbson.data := by
  obtain ⟨e', cut, hw, ht, hval⟩ := serializeBsonIndexTermCore_spec h
  have hflag : t.isIndexTermTruncated = cut := by
    rw [ht]
    cases cut <;> rfl
  rw [hflag]
  exact ⟨e', hw, hval⟩

omit [BidLib] in
theorem initializeBsonIndexTerm_eq_some {term : BsonIndexTerm PgbsonElement} :
    initializeBsonIndexTerm (m.byte :: e'.toPgbson.data) = some term.raw
      ↔ e'.bsonValue.unsafeDecode = some term.element.bsonValue ∧ term.element.path = e'.path
        ∧ term.isIndexTermTruncated = decide (m = .truncated)
        ∧ term.isIndexTermMetadata = decide (m = .isMetadata)
        ∧ term.isValueUndefined = decide (m = .undefinedValue)
        ∧ term.isValueMaybeUndefined = decide (m = .partialUndefinedValue) := by
  have hbyte : ∀ m', decide (m.byte = IndexTermMetadata.byte m') = decide (m = m') := by
    intro m'
    cases m <;> cases m' <;> rfl
  simp only [initializeBsonIndexTerm, e'.fillPgbsonElementUnsafe_data,
    Option.map_map, map_eq_some_iff, Function.comp_apply, hbyte,
    BsonIndexTerm.raw, BsonIndexTerm.mk.injEq, Prod.mk.injEq]
  constructor
  · rintro ⟨v, hv, ht, hm, hu, hmu, hp, hraw⟩
    obtain ⟨e'', -, rfl⟩ := e'.exists_of_unsafeDecode hv
    refine ⟨?_, hp.symm, ht.symm, hm.symm, hu.symm, hmu.symm⟩
    rw [hv, PgbsonElement.bsonValue_eq_of_raw hraw]
  · rintro ⟨hv, hp, ht, hm, hu, hmu⟩
    exact ⟨_, hv, ht.symm, hm.symm, hu.symm, hmu.symm, hp.symm, rfl⟩

omit [BidLib] in
theorem exists_initializeBsonIndexTerm (m : IndexTermMetadata)
    (hv : e'.bsonValue.unsafeDecode = some v) : ∃ term : BsonIndexTerm PgbsonElement,
      initializeBsonIndexTerm (m.byte :: e'.toPgbson.data) = some term.raw
        ∧ term.element.bsonValue = v := by
  obtain ⟨e'', hpath, rfl⟩ := e'.exists_of_unsafeDecode hv
  exact ⟨⟨m = .truncated, m = .isMetadata, m = .undefinedValue, m = .partialUndefinedValue, e''⟩,
    initializeBsonIndexTerm_eq_some.2 ⟨hv, hpath, rfl, rfl, rfl, rfl⟩, rfl⟩

-- ==== comparing

omit [BidLib] in
theorem compareStringView_self (s : Bytes) : compareStringView s s = 0 := by
  simp only [compareStringView, strcmp, andThen_eq_zero, lex_eq_zero, sub_self, and_self]

/-- Terms of one path whose values the decoder reads as they are compare by
what was written, and then by their flags. -/
theorem compareBsonIndexTerm_serialized {a b : PgbsonElement}
    (hpath : a.path = b.path) {s : BsonIndexTermSerialized}
    (hs : serializeBsonIndexTerm md a = some s) (ht : serializeBsonIndexTerm md b = some t) :
    ∃ path v w, serializeTermToWriter md a = some (path, v, s.isIndexTermTruncated)
        ∧ serializeTermToWriter md b = some (path, w, t.isIndexTermTruncated)
        ∧ (v.unsafeDecode = some v → w.unsafeDecode = some w →
          ∃ left right : BsonIndexTerm PgbsonElement,
            initializeBsonIndexTerm s.indexTermVal = some left.raw
              ∧ initializeBsonIndexTerm t.indexTermVal = some right.raw
              ∧ compareBsonIndexTerm left right = andThen (compareBsonValueAndType v w).1
                    (s.isIndexTermTruncated.toInt - t.isIndexTermTruncated.toInt)) := by
  obtain ⟨e, hwe, hve⟩ := serializeBsonIndexTerm_spec hs
  obtain ⟨e', hwe', hve'⟩ := serializeBsonIndexTerm_spec ht
  have hpaths : e'.path = e.path := by
    have h := (serializeTermToWriter_cases hwe).1
    have h' := (serializeTermToWriter_cases hwe').1
    rw [hpath, h'] at h
    exact some.inj h
  rw [hpaths] at hwe'
  refine ⟨e.path, e.bsonValue, e'.bsonValue, hwe, hwe', fun hv hw => ?_⟩
  have hmark : ∀ b, decide (IndexTermMetadata.noMetadata.mark b = .truncated) = b
      ∧ decide (IndexTermMetadata.noMetadata.mark b = .isMetadata) = false
      ∧ decide (IndexTermMetadata.noMetadata.mark b = .undefinedValue) = false
      ∧ decide (IndexTermMetadata.noMetadata.mark b = .partialUndefinedValue) = false := by
    decide
  obtain ⟨left, hleft, hlv⟩ := exists_initializeBsonIndexTerm _ hv
  obtain ⟨right, hright, hrv⟩ := exists_initializeBsonIndexTerm _ hw
  rw [hve, hve']
  refine ⟨left, right, hleft, hright, ?_⟩
  obtain ⟨-, hlp, hlt, hlm, hlu, hlmu⟩ := initializeBsonIndexTerm_eq_some.1 hleft
  obtain ⟨-, hrp, hrt, hrm, hru, hrmu⟩ := initializeBsonIndexTerm_eq_some.1 hright
  simp only [compareBsonIndexTerm, hlm, hrm, hlp, hrp, hpaths, hlv, hrv, hlu, hru, hlmu, hrmu, hlt,
    hrt, hmark, ne_eq, not_true, if_false, compareStringView_self, andThen_zero_left]

end Tail

end DocumentDb
