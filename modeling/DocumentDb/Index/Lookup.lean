/-
An index lookup of `$eq`, against the runtime.

A lookup serializes its value like the terms and trusts every document that has a term which
compares equal. The terms are the values at the path (`Index.Generate`), and so is what the
runtime visits (`Query.Traverse`). What is left is the way of a value through a term and
back: timestamps are swapped on both sides, code and DBPointers lose what tells them apart
from others, and a code with scope cannot be read back.
-/
import DocumentDb.Index.Generate
import DocumentDb.Index.Lossless
import DocumentDb.Lib.Except
import DocumentDb.Query.Traverse

namespace DocumentDb

open Dotted Wire ThreeWay List Option

section Lookup

variable [BidLib]

-- ==== the model

/-- `gin_bson_compare` on terms that are not composite: it has a result if
both terms can be read back. -/
def GinBsonCompares (left right : Bytes) (cmp : Int) : Prop :=
  ∃ leftTerm rightTerm : BsonIndexTerm PgbsonElement,
    initializeBsonIndexTerm left = some leftTerm.raw
      ∧ initializeBsonIndexTerm right = some rightTerm.raw
      ∧ compareBsonIndexTerm leftTerm rightTerm = cmp

def isSerializedIndexTermTruncated (indexTermSerialized : Bytes) : Bool :=
  indexTermSerialized.head? = some IndexTermMetadata.truncated.byte

/-- `GinBsonConsistentCore` for `$eq` with one key: the verdict, and whether
the document has to be looked at. -/
def ginBsonConsistentEqual (queryKey : Bytes) (check : Bool) : Bool × Bool :=
  (check, isSerializedIndexTermTruncated queryKey)

/-- The lookup of a key among the entries of a document has a result: no
comparison fails, and the verdict is made from whether an entry is equal. -/
def IndexLookup (entries : List Bytes) (queryKey : Bytes) (result : Bool × Bool) : Prop :=
  (∀ e ∈ entries, ∃ cmp, GinBsonCompares e queryKey cmp) ∧ ∃ check : Bool,
      (check = true ↔ ∃ e ∈ entries, GinBsonCompares e queryKey 0)
        ∧ result = ginBsonConsistentEqual queryKey check

/-- For a value other than null: the one key. -/
def ginBsonExtractQueryEqual (termMetadata : IndexTermCreateMetadata)
    (filterElement : PgbsonElement) : Option Bytes :=
  (serializeBsonIndexTerm termMetadata filterElement).map (·.indexTermVal)

-- ==== a value through a term

/-- What the decoder shows of a value that was written without a limit. -/
def Value.throughTerm (v : Value) : Option Value := (appendValue v).unsafeDecode

/-- The values that have equal terms: the equal ones, code that agrees up to
its first zero byte, and DBPointers that agree in twelve bytes of collection
and object id. -/
def Value.indexAlike (v w : Value) : Bool :=
  match v, w with
  | .code c, .code c' => cString c = cString c'
  | .dbPointer c o, .dbPointer c' o' =>
    cString c = cString c' ∧ clobberedOid (cString c) o = clobberedOid (cString c') o'
  | v, w => bsonValueEquals v w

omit [BidLib] in
theorem Value.throughTerm_isSome_iff (v : Value) : v.throughTerm.isSome ↔ v.type ≠ .codeWScope := by
  cases v <;> simp [throughTerm, appendValue, unsafeDecode, type]

variable {v : Value} {md : IndexTermCreateMetadata} {k : PgbsonElement}
  {options : BsonGinSinglePathOptions} {enable : Bool} {entries : List Bytes} {v' w q : Value}
  {s t p : Bytes} {filter e : PgbsonElement} {m : IndexTermMetadata} {sources : List TermSource}

omit [BidLib] in
theorem throughTerm_class (h : v.throughTerm = some v') : v'.sortOrderType = v.sortOrderType := by
  cases v <;> simp only [Value.throughTerm, appendValue, Value.unsafeDecode,
    some.injEq, reduceCtorEq] at h <;> subst h <;> rfl

omit [BidLib] in
theorem compareStrings_eq_zero : compareStrings s t = 0 ↔ s = t := by
  rw [compareStrings_eq, lex_eq_zero]

omit [BidLib] in
theorem memcmp_oid_eq_zero {a b : Oid} : memcmp a.bytes b.bytes = 0 ↔ a = b := by
  rw [memcmp_eq_lex (a.length_eq.trans b.length_eq.symm), lex_eq_zero]
  exact ⟨fun h => by cases a; cases b; simpa using h, fun h => h ▸ rfl⟩

theorem indexAlike_of_equals (h : bsonValueEquals v w) : v.indexAlike w := by
  cases v <;> cases w <;> try exact h
  case code.code c c' =>
      obtain rfl : c = c' := compareStrings_eq_zero.1 (bsonValueEquals_iff.1 h)
      simp [Value.indexAlike]
  case dbPointer.dbPointer c o c' o' =>
      have hcmp : andThen (compareStrings c c') (memcmp o.bytes o'.bytes) = 0 :=
        bsonValueEquals_iff.1 h
      rw [andThen_eq_zero, compareStrings_eq_zero, memcmp_oid_eq_zero] at hcmp
      obtain ⟨rfl, rfl⟩ := hcmp
      simp [Value.indexAlike]

theorem compare_throughTerm_iff {w' : Value} (hv : v.throughTerm = some v')
    (hw : w.throughTerm = some w') : (compareBsonValueAndType v' w').1 = 0 ↔ v.indexAlike w := by
  by_cases hclass : v.sortOrderType = w.sortOrderType
  swap
  · have hne : ∀ {a b : Value}, a.sortOrderType ≠ b.sortOrderType →
        (compareBsonValueAndType a b).1 ≠ 0 := by
      intro a b hab h
      rw [compareBsonValueAndType_fst, andThen_eq_zero] at h
      exact hab (by have := h.1; simp only [compareBsonSortOrderType] at this
                    omega)
    refine iff_of_false (hne ?_) ?_
    · rwa [throughTerm_class hv, throughTerm_class hw]
    · have halike : v.indexAlike w = bsonValueEquals v w := by
        cases v <;> cases w <;> first | rfl | exact absurd rfl hclass
      rw [halike, bsonValueEquals_iff]
      exact hne hclass
  have hcases := w.class_cases
  rw [← hclass] at hcases
  cases v with
  | code c =>
    obtain ⟨c', rfl⟩ := hcases
    cases hv
    cases hw
    rw [Value.indexAlike, decide_eq_true_eq, ← compareStrings_eq_zero]
    rfl
  | dbPointer c o =>
    obtain ⟨c', o', rfl⟩ := hcases
    cases hv
    cases hw
    rw [Value.indexAlike, decide_eq_true_eq, ← compareStrings_eq_zero,
      ← memcmp_oid_eq_zero, ← andThen_eq_zero]
    rfl
  | timestamp seconds increment =>
    obtain ⟨seconds', increment', rfl⟩ := hcases
    cases hv
    cases hw
    have hwords : ∀ {a b a' b' : UInt32},
        (compareBsonValueAndType (.timestamp a b) (.timestamp a' b')).1 = 0 ↔ a = a' ∧ b = b' := by
      intro a b a' b'
      have hcmp : (compareBsonValueAndType (.timestamp a b)
          (.timestamp a' b')).1 = andThen (ofOrder a.toNat a'.toNat)
            (ofOrder b.toNat b'.toNat) := rfl
      rw [hcmp, andThen_eq_zero, ofOrder_eq_zero, ofOrder_eq_zero,
        UInt32.toNat_inj, UInt32.toNat_inj]
    have halike : (Value.timestamp seconds increment).indexAlike (.timestamp seconds' increment')
        = bsonValueEquals (.timestamp seconds increment) (.timestamp seconds' increment') := rfl
    rw [halike, bsonValueEquals_iff, hwords, hwords, and_comm]
  | codeWScope c scope => simp [Value.throughTerm, appendValue, Value.unsafeDecode] at hv
  | _ =>
    cases hv
    have hself : w.throughTerm = some w := by
      cases w <;> first
        | rfl
        | simp [Value.sortOrderType] at hclass
    cases hself.symm.trans hw
    exact bsonValueEquals_iff.symm

-- ==== the terms

theorem serialize_eq_some (hlimit : md.indexTermSizeLimit ≤ 0)
    {t : TermSource} {s : BsonIndexTermSerialized} (h : t.serialize md = some s) :
    ∃ e : PgbsonElement, md.termPath t.path = some e.path ∧ e.bsonValue = appendValue t.value
      ∧ s.indexTermVal = t.metadata.byte :: e.toPgbson.data := by
  unfold TermSource.serialize at h
  split_ifs at h with hok
  obtain ⟨e, truncated, hw, -, hval⟩ := serializeBsonIndexTermCore_spec h
  obtain ⟨hpath, ⟨-, hv, rfl⟩ | ⟨hno, -⟩⟩ := serializeTermToWriter_cases hw
  · exact ⟨e, hpath, hv, by simpa [IndexTermMetadata.mark] using hval⟩
  · omega

theorem key_eq_some (hlimit : md.indexTermSizeLimit ≤ 0)
    {key : Bytes} (h : ginBsonExtractQueryEqual md filter = some key) :
    ∃ e : PgbsonElement, md.termPath filter.path = some e.path
      ∧ e.bsonValue = appendValue filter.bsonValue
      ∧ key = IndexTermMetadata.noMetadata.byte :: e.toPgbson.data := by
  simp only [ginBsonExtractQueryEqual, map_eq_some_iff] at h
  obtain ⟨s, hs, rfl⟩ := h
  obtain ⟨e, truncated, hw, -, hval⟩ := serializeBsonIndexTermCore_spec hs
  obtain ⟨hpath, ⟨-, hv, rfl⟩ | ⟨hno, -⟩⟩ := serializeTermToWriter_cases hw
  · exact ⟨e, hpath, hv, hval⟩
  · omega

omit [BidLib] in
theorem compareStringView_eq_zero (hs : 0 ∉ s)
    (ht : 0 ∉ t) : compareStringView s t = 0 ↔ s = t := by
  have hcmp : strcmp (s.take (min s.length t.length)) (t.take (min s.length t.length)) = 0
        ↔ s.take (min s.length t.length) = t.take (min s.length t.length) :=
    strcmp_eq_zero (fun h => hs (mem_of_mem_take h)) fun h => ht (mem_of_mem_take h)
  simp only [compareStringView, andThen_eq_zero, hcmp]
  constructor
  · rintro ⟨htake, hlen⟩
    have hlen' : s.length = t.length := by omega
    rwa [hlen', min_self, take_length, ← hlen', take_length] at htake
  · rintro rfl
    exact ⟨rfl, by omega⟩

theorem exists_ginBsonCompares_iff : (∃ cmp, GinBsonCompares (m.byte :: e.toPgbson.data)
        (IndexTermMetadata.noMetadata.byte :: k.toPgbson.data) cmp)
      ↔ e.bsonValue.unsafeDecode.isSome ∧ k.bsonValue.unsafeDecode.isSome := by
  simp only [isSome_iff_exists]
  constructor
  · rintro ⟨cmp, left, right, hl, hr, -⟩
    exact ⟨⟨_, (initializeBsonIndexTerm_eq_some.1 hl).1⟩,
      ⟨_, (initializeBsonIndexTerm_eq_some.1 hr).1⟩⟩
  · rintro ⟨⟨v, hv⟩, ⟨w, hw⟩⟩
    obtain ⟨left, hl, -⟩ := exists_initializeBsonIndexTerm m hv
    obtain ⟨right, hr, -⟩ := exists_initializeBsonIndexTerm .noMetadata hw
    exact ⟨_, left, right, hl, hr, rfl⟩

theorem ginBsonCompares_zero_iff (hm : m ≠ .composite) : GinBsonCompares (m.byte :: e.toPgbson.data)
        (IndexTermMetadata.noMetadata.byte :: k.toPgbson.data) 0
      ↔ m = .noMetadata ∧ e.path = k.path ∧ ∃ v w, e.bsonValue.unsafeDecode = some v
            ∧ k.bsonValue.unsafeDecode = some w
            ∧ (compareBsonValueAndType v w).1 = 0 := by
  have hpaths := compareStringView_eq_zero e.path_ok.1 k.path_ok.1
  have hcmp : ∀ {left right : BsonIndexTerm PgbsonElement},
      initializeBsonIndexTerm (m.byte :: e.toPgbson.data) = some left.raw →
      initializeBsonIndexTerm
        (IndexTermMetadata.noMetadata.byte :: k.toPgbson.data) = some right.raw →
      (compareBsonIndexTerm left right = 0 ↔ m = .noMetadata ∧ e.path = k.path
          ∧ (compareBsonValueAndType left.element.bsonValue right.element.bsonValue).1 = 0) := by
    intro left right hl hr
    obtain ⟨-, hlp, hlt, hlm, hlu, hlmu⟩ := initializeBsonIndexTerm_eq_some.1 hl
    obtain ⟨-, hrp, hrt, hrm, hru, hrmu⟩ := initializeBsonIndexTerm_eq_some.1 hr
    simp only [compareBsonIndexTerm, hlm, hrm, hlp, hrp, hlu, hru, hlmu, hrmu, hlt, hrt]
    cases m <;> simp [andThen_eq_zero, hpaths] at hm ⊢
  constructor
  · rintro ⟨left, right, hl, hr, h⟩
    obtain ⟨rfl, hp, hc⟩ := (hcmp hl hr).1 h
    exact ⟨rfl, hp, _, _, (initializeBsonIndexTerm_eq_some.1 hl).1,
      (initializeBsonIndexTerm_eq_some.1 hr).1, hc⟩
  · rintro ⟨rfl, hp, v, w, hv, hw, hc⟩
    obtain ⟨left, hl, rfl⟩ := exists_initializeBsonIndexTerm .noMetadata hv
    obtain ⟨right, hr, rfl⟩ := exists_initializeBsonIndexTerm .noMetadata hw
    exact ⟨left, right, hl, hr, (hcmp hl hr).2 ⟨rfl, hp, hc⟩⟩

-- ==== the entries of a document

omit [BidLib] in
theorem getIndexTermMetadata_cases (hwildcard : options.isWildcard = false)
    (hlimit : options.indexTermTruncateLimit ≤ 0) (hmd : getIndexTermMetadata options = some md) :
    md.isWildcard = false ∧ md.indexTermSizeLimit ≤ 0
      ∧ (md.pathPrefix = options.path ∨ md.pathPrefix = []) := by
  unfold getIndexTermMetadata at hmd
  split_ifs at hmd <;> obtain rfl := some.inj hmd <;> simp [hwildcard, hlimit]

omit [BidLib] in
theorem path_eq_of_termPath {c termPath : Bytes} (hwildcard : md.isWildcard = false)
    (hindexed : md.pathPrefix = p ∨ md.pathPrefix = []) (hp : p ≠ [])
    (hc : md.termPath c = some termPath) (hkey : md.termPath p = some termPath) : c = p := by
  rcases hindexed with hindexed | hindexed
  · simp only [IndexTermCreateMetadata.termPath, hwildcard, hindexed] at hc hkey
    by_cases hnil : c = []
    · simp [hp, hnil] at hc hkey
      exact absurd (hkey.trans hc) (by simp)
    · simp [hp, hnil] at hc
      exact hc.1
  · simp [IndexTermCreateMetadata.termPath, hwildcard, hindexed] at hc hkey
    exact hc.trans hkey.symm

omit [BidLib] in
theorem other_terms {generated : Generated} {noTerms truncated ancestors : Bool} {t : TermSource}
    (ht : t ∈ undefinedTerms (options.context md) generated
      ++ rootTerms enable noTerms truncated ancestors) :
    t.path = [] ∧ t.metadata ≠ .composite ∧ t.value.type ≠ .codeWScope := by
  rcases mem_append.1 ht with ht | ht
  · have hundefined : t = generatePathUndefinedTerm := by
      simp [undefinedTerms, BsonGinSinglePathOptions.context] at ht
      exact ht.2
    subst hundefined
    simp [generatePathUndefinedTerm, Value.type]
  · have hroot : t ∈ ([⟨[], .minKey, .noMetadata⟩,
        ⟨[], .bool true, .isMetadata⟩, ⟨[], .undefined, .isMetadata⟩,
        ⟨[], .maxKey, .truncated⟩,
        ⟨[], .array [], .isMetadata⟩] : List TermSource) := by
      cases enable <;> cases noTerms <;> cases truncated <;>
        cases ancestors <;> simp [rootTerms] at ht ⊢ <;> tauto
    simp only [mem_cons, not_mem_nil, or_false] at hroot
    rcases hroot with rfl | rfl | rfl | rfl | rfl <;> simp [Value.type]

private structure Serializes (md : IndexTermCreateMetadata)
    (sources : List TermSource) (entries : List Bytes) : Prop where
  entry : ∀ t ∈ sources, ∃ s, t.serialize md = some s ∧ s.indexTermVal ∈ entries
  source : ∀ e ∈ entries, ∃ t ∈ sources, ∃ s, t.serialize md = some s ∧ s.indexTermVal = e

theorem exists_serializes {fs : Fields} (hmd : getIndexTermMetadata options = some md)
    (h : generateSinglePathTermsCore enable options fs = some entries) :
    ∃ others : List TermSource, others ≠ []
      ∧ (∀ t ∈ others, t.path = [] ∧ t.metadata ≠ .composite ∧ t.value.type ≠ .codeWScope)
      ∧ Serializes md ((generateTermsCore (options.context md) [] fs).terms ++ others) entries := by
  simp only [generateSinglePathTermsCore, hmd, bind_eq_bind, bind_some, generateTerms,
    bind_eq_some_iff, some.injEq, if_true] at h
  obtain ⟨terms, hterms, serialized, hothers, rfl⟩ := h
  generalize hdef : undefinedTerms _ _ ++ rootTerms _ _ _ _ = others at hothers
  have hall := congrArg₂ (· ++ ·) (mapM_eq_some_iff.1 hterms) (mapM_eq_some_iff.1 hothers)
  rw [← map_append, ← map_append] at hall
  refine ⟨others, ?_, fun t ht => other_terms (hdef ▸ ht), ⟨?_, ?_⟩⟩
  · rw [← hdef]
    simp [rootTerms]
  · intro t ht
    obtain ⟨s, hs, hser⟩ := List.mem_map.1 (hall ▸ List.mem_map_of_mem ht)
    exact ⟨s, hser.symm, List.mem_map_of_mem hs⟩
  · intro e he
    obtain ⟨s, hs, rfl⟩ := List.mem_map.1 he
    obtain ⟨t, ht, hser⟩ := List.mem_map.1 (hall ▸ List.mem_map_of_mem hs)
    exact ⟨t, ht, s, hser, rfl⟩

-- ==== the lookup

theorem forall_ginBsonCompares_iff (hlimit : md.indexTermSizeLimit ≤ 0)
    (h : Serializes md sources entries) (hne : sources ≠ []) (hk : k.bsonValue = appendValue q) :
    (∀ e ∈ entries, ∃ cmp, GinBsonCompares e
        (IndexTermMetadata.noMetadata.byte :: k.toPgbson.data) cmp)
      ↔ q.type ≠ .codeWScope ∧ ∀ t ∈ sources, t.value.type ≠ .codeWScope := by
  have hentry : ∀ {t : TermSource} {s : BsonIndexTermSerialized}, t.serialize md = some s →
      ((∃ cmp, GinBsonCompares s.indexTermVal
          (IndexTermMetadata.noMetadata.byte :: k.toPgbson.data) cmp)
        ↔ t.value.type ≠ .codeWScope ∧ q.type ≠ .codeWScope) := by
    intro t s hs
    obtain ⟨e, -, hv, hval⟩ := serialize_eq_some hlimit hs
    rw [hval, exists_ginBsonCompares_iff, hv, hk]
    exact and_congr t.value.throughTerm_isSome_iff q.throughTerm_isSome_iff
  constructor
  · intro hall
    have hsource : ∀ t ∈ sources, t.value.type ≠ .codeWScope ∧ q.type ≠ .codeWScope := by
      intro t ht
      obtain ⟨s, hs, hmem⟩ := h.entry t ht
      exact (hentry hs).1 (hall _ hmem)
    obtain ⟨t, ht⟩ := exists_mem_of_ne_nil _ hne
    exact ⟨(hsource t ht).2, fun t ht => (hsource t ht).1⟩
  · rintro ⟨hq, hall⟩ e he
    obtain ⟨t, ht, s, hs, rfl⟩ := h.source e he
    exact (hentry hs).2 ⟨hall t ht, hq⟩

theorem exists_ginBsonCompares_zero_iff (hwildcard : md.isWildcard = false)
    (hlimit : md.indexTermSizeLimit ≤ 0) (hindexed : md.pathPrefix = p ∨ md.pathPrefix = [])
    (hp : p ≠ []) (h : Serializes md sources entries)
    (hread : ∀ t ∈ sources, t.value.type ≠ .codeWScope)
    (hmetadata : ∀ t ∈ sources, t.metadata ≠ .composite) (hq : q.type ≠ .codeWScope)
    (hkpath : md.termPath p = some k.path) (hk : k.bsonValue = appendValue q) :
    (∃ e ∈ entries, GinBsonCompares e (IndexTermMetadata.noMetadata.byte :: k.toPgbson.data) 0)
      ↔ ∃ v, ⟨p, v, .noMetadata⟩ ∈ sources ∧ v.indexAlike q := by
  constructor
  · rintro ⟨b, hb, hzero⟩
    obtain ⟨⟨c, v, m⟩, ht, s, hs, rfl⟩ := h.source b hb
    obtain ⟨e, hpath, hv, hval⟩ := serialize_eq_some hlimit hs
    rw [hval, ginBsonCompares_zero_iff (hmetadata _ ht), hv, hk] at hzero
    obtain ⟨rfl, hsame, v', q', hv', hq', hcmp⟩ := hzero
    rw [hsame] at hpath
    obtain rfl : c = p := path_eq_of_termPath hwildcard hindexed hp hpath hkpath
    exact ⟨v, ht, (compare_throughTerm_iff hv' hq').1 hcmp⟩
  · rintro ⟨v, ht, halike⟩
    obtain ⟨s, hs, hmem⟩ := h.entry _ ht
    obtain ⟨e, hpath, hv, hval⟩ := serialize_eq_some hlimit hs
    obtain ⟨v', hv'⟩ := isSome_iff_exists.1 (v.throughTerm_isSome_iff.2 (hread _ ht))
    obtain ⟨q', hq'⟩ := isSome_iff_exists.1 (q.throughTerm_isSome_iff.2 hq)
    refine ⟨_, hmem, ?_⟩
    rw [hval, ginBsonCompares_zero_iff (hmetadata _ ht), hv, hk]
    exact ⟨rfl, some.inj (hpath.symm.trans hkpath), v', q', hv', hq',
      (compare_throughTerm_iff hv' hq').2 halike⟩

omit [BidLib] in
theorem onPath_context (md : IndexTermCreateMetadata)
    (hwildcard : options.isWildcard = false) (hpath : options.path ≠ [])
    (hzero : 0 ∉ options.path) : OnPath (options.context md) options.path where
  ne_nil := hpath
  noZero := hzero
  option _ _ := by simp [BsonGinSinglePathOptions.context, hwildcard]
  noSkip := rfl
  noReduce := by simp [BsonGinSinglePathOptions.context, hwildcard]

/-- A lookup succeeds exactly when no code with scope is involved, and then
it finds the documents that have a value at the path which is alike. -/
theorem indexLookup_iff {found : Bool} (hwildcard : options.isWildcard = false)
    (hlimit : options.indexTermTruncateLimit ≤ 0) (hpath : options.path ≠ [])
    (hmd : getIndexTermMetadata options = some md) {d : Pgbson}
    (hd : (Value.document d.fields).wellNamed)
    (hentries : generateSinglePathTermsCore enable options d.fields = some entries)
    (hfilter : filter.path = options.path) {queryKey : Bytes}
    (hkey : ginBsonExtractQueryEqual md filter = some queryKey) :
    IndexLookup entries queryKey (found, false) ↔ filter.bsonValue.type ≠ .codeWScope
        ∧ (∀ v, ValueAt options.path d.fields v → v.type ≠ .codeWScope)
        ∧ (found ↔ ∃ v, ValueAt options.path d.fields v ∧ v.indexAlike filter.bsonValue) := by
  have hc := onPath_context md hwildcard hpath (hfilter ▸ filter.path_ok.1)
  obtain ⟨hmdw, hmdl, hindexed⟩ := getIndexTermMetadata_cases hwildcard hlimit hmd
  obtain ⟨k, hkpath, hkval, rfl⟩ := key_eq_some hmdl hkey
  obtain ⟨others, hne, hothers, hser⟩ := exists_serializes hmd hentries
  generalize hterms : (generateTermsCore (options.context md) [] d.fields).terms = terms at hser
  have hon : ∀ t ∈ terms, t.IsOn options.path := fun t ht =>
    isOn_of_mem_generateTermsCore hc d.namesOk (hterms ▸ ht)
  have hwalk : ∀ v, ⟨options.path, v, .noMetadata⟩ ∈ terms ++ others
      ↔ ValueAt options.path d.fields v := by
    intro v
    rw [mem_append, ← hterms, generateTermsCore_iff hc hd d.namesOk]
    exact or_iff_left fun h => hpath (hothers _ h).1
  have hread : (∀ t ∈ terms ++ others, t.value.type ≠ .codeWScope)
      ↔ ∀ v, ValueAt options.path d.fields v → v.type ≠ .codeWScope := by
    refine ⟨fun h v hv => h _ ((hwalk v).2 hv), fun h t ht => ?_⟩
    rcases mem_append.1 ht with hmem | hmem
    · rcases hon t hmem with ⟨hp, hm⟩ | rfl
      · refine h _ ((hwalk _).1 ?_)
        rwa [← hp, ← hm]
      · simp [generatePathUndefinedTerm, Value.type]
    · exact (hothers t hmem).2.2
  have hmeta : ∀ t ∈ terms ++ others, t.metadata ≠ .composite := by
    intro t ht
    rcases mem_append.1 ht with ht | ht
    · rcases hon t ht with ⟨-, hm⟩ | rfl
      · simp [hm]
      · simp [generatePathUndefinedTerm]
    · exact (hothers t ht).2.1
  have hzero := fun hv hq => exists_ginBsonCompares_zero_iff hmdw hmdl hindexed
    hpath hser (hread.2 hv) hmeta hq (hfilter ▸ hkpath) hkval
  simp only [IndexLookup, hread, ginBsonConsistentEqual, Prod.mk.injEq,
    forall_ginBsonCompares_iff hmdl hser (by simp [hne]) hkval]
  simp only [hwalk] at hzero
  constructor
  · rintro ⟨⟨hq, hv⟩, check, hcheck, rfl, -⟩
    exact ⟨hq, hv, hcheck.trans (hzero hv hq)⟩
  · rintro ⟨hq, hv, hfound⟩
    exact ⟨⟨hq, hv⟩, _, hfound.trans (hzero hv hq).symm, rfl, rfl⟩

end Lookup

/-- An index on the path `a`. -/
def singlePathOnA : BsonGinSinglePathOptions where
  version := 1
  indexTermTruncateLimit := 0
  wildcardIndexTruncatedPathLimit := 0
  path := [97]
  isWildcard := false
  generateNotFoundTerm := false
  useReducedWildcardTerms := false

/-- The value 1, below `a`. -/
def oneBelowA : PgbsonElement where
  path := [97]
  bsonValue := .int32 1
  namesOk := by decide
  size_lt := by decide

/-- `{b: 3, a: [2, 1]}` -/
def arrayBelowA : Pgbson where
  fields := [([98], .int32 3), ([97], .array [.int32 2, .int32 1])]
  namesOk := by decide
  size_lt := by decide

/-- A DBPointer to a collection with a name of twelve letters, below `a`. -/
def pointerBelowA (lastByte : UInt8) : PgbsonElement where
  path := [97]
  bsonValue := .dbPointer (List.replicate 12 99) ⟨List.replicate 11 0 ++ [lastByte], rfl⟩
  namesOk := by simp [namesOkFields, Value.namesOk]
  size_lt := by simp [encodeDoc, encodeFields, encodeValue]

end DocumentDb
