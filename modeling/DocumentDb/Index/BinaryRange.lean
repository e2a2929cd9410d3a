/-
Range scans of an index over binary values.

A scan for `$gt` or `$lt` reports the documents whose term is on the right side of the term
of the query value, and those with an equal term to be looked at again when that was cut.
Binary values are ordered by length, subtype and bytes; cut values have one length, so the
term of a long value can be above that of a longer one, and the document is lost.
-/
import DocumentDb.Index.Lookup
import DocumentDb.Index.Monotone

namespace DocumentDb.BinaryRange

open Wire ThreeWay List Option

section Scan

variable [BidLib]

-- ==== the scan

/-- Whether `CompareBsonIndexTerm` calls its verdict valid: only the values may
be beyond comparison. -/
def compareBsonIndexTermValid (left right : BsonIndexTerm PgbsonElement) : Bool :=
  left.isIndexTermMetadata ≠ right.isIndexTermMetadata
    ∨ compareStringView left.element.path right.element.path ≠ 0
    ∨ (compareBsonValueAndType left.element.bsonValue right.element.bsonValue).2 = true

def ginBsonComparePartialGreater (queryValue compareValue : BsonIndexTerm PgbsonElement) : Int :=
  if strcmp queryValue.element.path compareValue.element.path ≠ 0 then 1
  else if queryValue.element.bsonValue.type = .minKey then
    if compareValue.element.bsonValue.type = .minKey then -1 else 0
  else if compareBsonSortOrderType queryValue.element.bsonValue
      compareValue.element.bsonValue ≠ 0 then 1
  else if compareBsonIndexTermValid compareValue queryValue = false then -1
  else if 0 < compareBsonIndexTerm compareValue queryValue then 0
  else if compareBsonIndexTerm compareValue queryValue = 0 then -1
  else 1

/-- Of the key that the scan starts from, the lowest value of the type, only the path is
read. -/
def ginBsonComparePartialLess (queryPath : Bytes)
    (compareValue maxValueIndexTerm : BsonIndexTerm PgbsonElement) : Int :=
  if strcmp compareValue.element.path queryPath ≠ 0 then 1
  else if maxValueIndexTerm.element.bsonValue.type = .maxKey then
    if compareValue.element.bsonValue.type = .maxKey then -1 else 0
  else
    let cmp := compareBsonSortOrderType compareValue.element.bsonValue
      maxValueIndexTerm.element.bsonValue
    if cmp ≠ 0 then if cmp < 0 then -1 else 1
    else if compareBsonIndexTermValid compareValue maxValueIndexTerm = false then -1
    else if compareBsonIndexTerm compareValue maxValueIndexTerm < 0 then 0
    else 1

/-- The verdict, and whether the document has to be looked at. The second key is there if
the query value was cut. -/
def handleConsistentGreaterLess (check : Bool) (equality : Option (Bytes × Bool)) : Bool × Bool :=
  if check then (true, false)
  else
    match equality with
    | none => (false, false)
    | some (queryKey, check') =>
      if isSerializedIndexTermTruncated queryKey && check' then (true, true)
      else (false, false)

inductive RangeOperator where
  | greater | less

/-- The partial comparison of an operator. Both keys of `$lt` have one path. -/
def RangeOperator.comparePartial (queryValue compareValue : BsonIndexTerm PgbsonElement) :
    RangeOperator → Int
  | greater => ginBsonComparePartialGreater queryValue compareValue
  | less => ginBsonComparePartialLess queryValue.element.path compareValue queryValue

/-- The sign of the comparisons that an operator asks for. -/
def RangeOperator.sign : RangeOperator → Int
  | greater => 1
  | less => -1

-- ==== binary values

/-- A binary value with its term below a path of an index. -/
structure BinaryTerm (termMetadata : IndexTermCreateMetadata) (indexPath : Bytes) where
  subtype : UInt8
  data : Bytes
  element : PgbsonElement
  bsonValue_eq : element.bsonValue = .binary subtype data
  path_eq : termMetadata.termPath element.path = some indexPath
  term : BsonIndexTermSerialized
  term_eq : serializeBsonIndexTerm termMetadata element = some term

variable {termMetadata : IndexTermCreateMetadata} {indexPath : Bytes}
  (op : RangeOperator) (stored query : BinaryTerm termMetadata indexPath)

namespace BinaryTerm

/-- The value below the path of the term: its bytes up to the limit, if there is one. -/
def kept : Value :=
  .binary stored.subtype (if termMetadata.indexTermSizeLimit ≤ 0 then stored.data
    else stored.data.take (termMetadata.indexTermSizeLimit - 12 - indexPath.length).toNat)

def Reports : Prop :=
  ∃ compareValue queryValue : BsonIndexTerm PgbsonElement,
    initializeBsonIndexTerm stored.term.indexTermVal = some compareValue.raw
      ∧ initializeBsonIndexTerm query.term.indexTermVal = some queryValue.raw
      ∧ (handleConsistentGreaterLess (op.comparePartial queryValue compareValue = 0)
          (if query.term.isIndexTermTruncated then
            some (query.term.indexTermVal, compareBsonIndexTerm compareValue queryValue = 0)
          else none)).1 = true

def Complete : Prop :=
  0 < op.sign * (compareBsonValueAndType stored.element.bsonValue query.element.bsonValue).1 →
    Reports op stored query

-- ==== what the terms say

omit op query in
theorem exists_term_eq : ∃ e : PgbsonElement, e.path = indexPath ∧ e.bsonValue = stored.kept
    ∧ stored.term.indexTermVal
      = (IndexTermMetadata.noMetadata.mark stored.term.isIndexTermTruncated).byte :: e.toPgbson.data
    ∧ (stored.term.isIndexTermTruncated ↔ 0 < termMetadata.indexTermSizeLimit
        ∧ termMetadata.indexTermSizeLimit - 12 - indexPath.length < stored.data.length)
    ∧ (0 < termMetadata.indexTermSizeLimit →
      0 ≤ termMetadata.indexTermSizeLimit - 12 - indexPath.length) := by
  obtain ⟨e, hwrite, hval⟩ := serializeBsonIndexTerm_spec stored.term_eq
  obtain ⟨hpath, hcases⟩ := serializeTermToWriter_cases hwrite
  have hpath' : e.path = indexPath := some.inj (hpath.symm.trans stored.path_eq)
  refine ⟨e, hpath', ?_⟩
  rw [hpath', stored.bsonValue_eq] at hcases
  unfold kept
  rcases hcases with ⟨hlimit, hvalue, hflag⟩ | ⟨hlimit, hcut⟩
  · rw [if_pos hlimit, hflag]
    exact ⟨hvalue, hflag ▸ hval, by simp [hlimit], fun h => absurd hlimit (not_le.2 h)⟩
  · simp only [serializeTermValue, truncateStringValue, map_eq_some_iff, Prod.mk.injEq] at hcut
    obtain ⟨⟨length, flag⟩, hcut, hvalue, rfl⟩ := hcut
    obtain ⟨hroom, rfl, hflag⟩ := truncateStringOrBinaryTerm_spec hcut
    have hsize : termMetadata.indexTermSizeLimit - (5 + indexPath.length + 2) - 5
        = termMetadata.indexTermSizeLimit - 12 - indexPath.length := by
      omega
    rw [hsize] at hroom hflag hvalue
    rw [if_neg (not_le.2 hlimit)]
    refine ⟨?_, hval, ?_, fun _ => hroom⟩
    · rw [← hvalue, take_eq_take_iff.2]
      omega
    · rw [hflag, decide_eq_true_eq, and_iff_right hlimit]

omit op query in
theorem initialize_iff (term : BsonIndexTerm PgbsonElement) :
    initializeBsonIndexTerm stored.term.indexTermVal = some term.raw
      ↔ term.element.bsonValue = stored.kept ∧ term.element.path = indexPath
        ∧ term.isIndexTermTruncated = stored.term.isIndexTermTruncated
        ∧ term.isIndexTermMetadata = false ∧ term.isValueUndefined = false
        ∧ term.isValueMaybeUndefined = false := by
  obtain ⟨e, rfl, hvalue, hval, -⟩ := stored.exists_term_eq
  have hdecode : e.bsonValue.unsafeDecode = some stored.kept := by
    rw [hvalue]
    rfl
  rw [hval, initializeBsonIndexTerm_eq_some, hdecode, some.injEq, eq_comm]
  cases stored.term.isIndexTermTruncated <;> simp [IndexTermMetadata.mark]

omit op query in
theorem exists_initialize : ∃ term : BsonIndexTerm PgbsonElement,
    initializeBsonIndexTerm stored.term.indexTermVal = some term.raw := by
  obtain ⟨e, -, hvalue, hval, -⟩ := stored.exists_term_eq
  have hdecode : e.bsonValue.unsafeDecode = some stored.kept := by
    rw [hvalue]
    rfl
  obtain ⟨term, hterm, -⟩ := exists_initializeBsonIndexTerm _ hdecode
  exact ⟨term, hval ▸ hterm⟩

/-- The comparison of the two terms: of what is kept, then of the flags. -/
def termCompare : Int :=
  andThen (compareBsonValueAndType stored.kept query.kept).1
    (stored.term.isIndexTermTruncated.toInt - query.term.isIndexTermTruncated.toInt)

variable {term term' : BsonIndexTerm PgbsonElement}

omit op in
theorem compare_eq (h : initializeBsonIndexTerm stored.term.indexTermVal = some term.raw)
    (h' : initializeBsonIndexTerm query.term.indexTermVal = some term'.raw) :
    compareBsonIndexTerm term term' = stored.termCompare query := by
  obtain ⟨hv, hp, ht, hm, hu, hmu⟩ := (stored.initialize_iff term).1 h
  obtain ⟨hv', hp', ht', hm', hu', hmu'⟩ := (query.initialize_iff term').1 h'
  have hview : compareStringView indexPath indexPath = 0 := by
    simp [compareStringView, strcmp, andThen_eq_zero, lex_eq_zero]
  simp only [compareBsonIndexTerm, termCompare, hv, hp, ht, hm, hu, hmu, hv', hp', ht',
    hm', hu', hmu', hview, ne_eq, not_true, if_false, andThen_zero_left]

theorem comparePartial_eq_zero_iff
    (h : initializeBsonIndexTerm stored.term.indexTermVal = some term.raw)
    (h' : initializeBsonIndexTerm query.term.indexTermVal = some term'.raw) :
    op.comparePartial term' term = 0 ↔ 0 < op.sign * stored.termCompare query := by
  have hcompare := stored.compare_eq query h h'
  obtain ⟨hv, hp, -, hm, -⟩ := (stored.initialize_iff term).1 h
  obtain ⟨hv', hp', -, hm', -⟩ := (query.initialize_iff term').1 h'
  have hstrcmp : strcmp indexPath indexPath = 0 := by
    rw [strcmp, lex_eq_zero]
  have hvalid : compareBsonIndexTermValid term term' := by
    rw [compareBsonIndexTermValid, hv, hv']
    exact decide_eq_true (Or.inr (Or.inr rfl))
  have htype : compareBsonSortOrderType stored.kept query.kept = 0 := rfl
  have htype' : compareBsonSortOrderType query.kept stored.kept = 0 := rfl
  have hnone : ∀ b : BinaryTerm termMetadata indexPath, b.kept.type = .binary := fun _ => rfl
  cases op with
  | greater =>
    simp only [RangeOperator.comparePartial, ginBsonComparePartialGreater, hp, hp', hv, hv',
      hstrcmp, hnone, htype', hvalid, hcompare, RangeOperator.sign, ne_eq, not_true,
      if_false, reduceCtorEq, Bool.true_eq_false, one_mul]
    by_cases hpos : 0 < stored.termCompare query
    · simp [hpos]
    · split_ifs <;> simp [hpos]
  | less =>
    simp only [RangeOperator.comparePartial, ginBsonComparePartialLess, hp, hp', hv, hv',
      hstrcmp, hnone, htype, hvalid, hcompare, RangeOperator.sign, ne_eq, not_true,
      if_false, reduceCtorEq, Bool.true_eq_false, neg_mul, one_mul, neg_pos]
    split_ifs with hneg <;> simp [hneg]

theorem reports_iff : Reports op stored query ↔ 0 < op.sign * stored.termCompare query
      ∨ stored.termCompare query = 0 ∧ query.term.isIndexTermTruncated := by
  have hverdict : ∀ {term term' : BsonIndexTerm PgbsonElement},
      initializeBsonIndexTerm stored.term.indexTermVal = some term.raw →
      initializeBsonIndexTerm query.term.indexTermVal = some term'.raw →
      ((handleConsistentGreaterLess (op.comparePartial term' term = 0)
          (if query.term.isIndexTermTruncated then
            some (query.term.indexTermVal, compareBsonIndexTerm term term' = 0)
          else none)).1
        ↔ 0 < op.sign * stored.termCompare query
          ∨ stored.termCompare query = 0 ∧ query.term.isIndexTermTruncated) := by
    intro term term' h h'
    have hhead : query.term.isIndexTermTruncated →
        isSerializedIndexTermTruncated query.term.indexTermVal := by
      obtain ⟨e, -, -, hval, -⟩ := query.exists_term_eq
      intro hflag
      rw [hval, hflag]
      rfl
    rw [stored.compare_eq query h h', ← comparePartial_eq_zero_iff op stored query h h']
    unfold handleConsistentGreaterLess
    by_cases hzero : op.comparePartial term' term = 0
    · simp [hzero]
    · cases hflag : query.term.isIndexTermTruncated with
      | false => simp [hzero]
      | true =>
        simp only [hzero, hhead hflag, decide_false, Bool.false_eq_true, if_false, if_true,
          Bool.true_and, decide_eq_true_eq, false_or, and_true]
        split_ifs with hequal <;> simp [hequal]
  constructor
  · rintro ⟨term, term', h, h', hreports⟩
    exact (hverdict h h').1 hreports
  · intro hreports
    obtain ⟨term, h⟩ := stored.exists_initialize
    obtain ⟨term', h'⟩ := query.exists_initialize
    exact ⟨term, term', h, h', (hverdict h h').2 hreports⟩

-- ==== the values

omit op in
theorem compare_binary (subtype subtype' : UInt8) (data data' : Bytes) :
    (compareBsonValueAndType (.binary subtype data) (.binary subtype' data')).1
      = andThen ((data.length : Int) - data'.length)
          (andThen ((subtype.toNat : Int) - subtype'.toNat) (memcmp data data')) :=
  rfl

omit op in
theorem binary_eq_of_compare {subtype subtype' : UInt8} {data data' : Bytes}
    (h : (compareBsonValueAndType (.binary subtype data) (.binary subtype' data')).1 = 0) :
    subtype = subtype' ∧ data = data' := by
  rw [compare_binary, andThen_eq_zero, andThen_eq_zero] at h
  obtain ⟨hlength, hsubtype, hdata⟩ := h
  rw [memcmp_eq_lex (by omega), lex_eq_zero] at hdata
  exact ⟨UInt8.toNat_inj.1 (by omega), hdata⟩

/-- A value that the operator asks for is reported unless the bytes that are kept are
ordered the other way round. -/
theorem complete_iff : Complete op stored query
    ↔ (0 < op.sign * (compareBsonValueAndType stored.element.bsonValue query.element.bsonValue).1 →
        0 ≤ op.sign * (compareBsonValueAndType stored.kept query.kept).1) := by
  refine imp_congr_right fun hasked => ?_
  rw [reports_iff]
  obtain ⟨-, -, -, -, hflag, hroom⟩ := stored.exists_term_eq
  obtain ⟨-, -, -, -, hflag', -⟩ := query.exists_term_eq
  unfold termCompare
  by_cases hzero : (compareBsonValueAndType stored.kept query.kept).1 = 0
  · rw [hzero, andThen_zero_left, mul_zero]
    refine iff_of_true ?_ le_rfl
    obtain ⟨hsubtype, hdata⟩ := binary_eq_of_compare hzero
    rw [stored.bsonValue_eq, query.bsonValue_eq, compare_binary] at hasked
    have hlength : ∀ {x : Int}, stored.data.length ≠ query.data.length →
        andThen ((stored.data.length : Int) - query.data.length) x
          = (stored.data.length : Int) - query.data.length :=
      fun h => if_pos (by omega)
    cases hcut : stored.term.isIndexTermTruncated with
    | true =>
      cases hcut' : query.term.isIndexTermTruncated with
      | true => exact Or.inr ⟨rfl, rfl⟩
      | false =>
        -- a value with a cut term is the longer one
        cases op with
        | greater => exact Or.inl Int.one_pos
        | less => grind [RangeOperator.sign]
    | false =>
      cases hcut' : query.term.isIndexTermTruncated with
      | true =>
        cases op with
        | greater => grind [RangeOperator.sign]
        | less => exact Or.inl Int.one_pos
      | false =>
        have hall : stored.data = query.data := by
          split_ifs at hdata with hlimit
          · exact hdata
          · rwa [take_of_length_le (by grind), take_of_length_le (by grind)] at hdata
        rw [hsubtype, hall, sub_self, sub_self, andThen_zero_left, andThen_zero_left,
          memcmp_eq_lex rfl, lex_eq_zero.2 rfl, mul_zero] at hasked
        exact absurd hasked (lt_irrefl 0)
  · have hne : andThen (compareBsonValueAndType stored.kept query.kept).1
        (stored.term.isIndexTermTruncated.toInt - query.term.isIndexTermTruncated.toInt)
          = (compareBsonValueAndType stored.kept query.kept).1 := if_pos hzero
    cases op <;> simp only [RangeOperator.sign] <;> omega

end BinaryTerm

end Scan

-- ==== a lost value

/-- The byte 255, in the index on `a` whose terms keep one byte. -/
def highByte : @BinaryTerm BidLib.reference (indexOnA 14) [36] :=
  @BinaryTerm.mk BidLib.reference (indexOnA 14) [36] 0 [255]
    ⟨[97], .binary 0 [255], by decide, by decide⟩ rfl rfl
    ⟨false, 0 :: encodeDoc [([36], .binary 0 [255])]⟩ (by decide +kernel)

def zeroBytes : @BinaryTerm BidLib.reference (indexOnA 14) [36] :=
  @BinaryTerm.mk BidLib.reference (indexOnA 14) [36] 0 [0, 0]
    ⟨[97], .binary 0 [0, 0], by decide, by decide⟩ rfl rfl
    ⟨true, 1 :: encodeDoc [([36], .binary 0 [0])]⟩ (by decide +kernel)

/-- The shorter value is the smaller one, and `$lt` does not find it. -/
theorem high_byte_lost : ¬ @BinaryTerm.Complete BidLib.reference _ _ .less highByte zeroBytes := by
  let _ := BidLib.reference
  intro hcomplete
  have hasked : 0 < RangeOperator.less.sign * (compareBsonValueAndType
      highByte.element.bsonValue zeroBytes.element.bsonValue).1 := by decide
  have hreports := (BinaryTerm.reports_iff .less highByte zeroBytes).1 (hcomplete hasked)
  revert hreports
  decide

end DocumentDb.BinaryRange
