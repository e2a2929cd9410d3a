/-
The forward index a collection is exported to.

`WritePisaForwardIndex` writes a line for each document, its id and its text
with a tab between them. Neither is escaped, and all values of `_id` but those of
four types have one id.
-/
import DocumentDb.Bson.Path
import DocumentDb.Lib.Assoc
import DocumentDb.Lib.Bytes

namespace DocumentDb.Pisa

open List Wire

-- ==== the source

/-- `%d` and `%ld`. -/
def decimal (n : Int) : Bytes := if n < 0 then 45 :: arrayKey n.natAbs else arrayKey n.natAbs

def hexDigit (d : UInt8) : UInt8 := if d < 10 then 48 + d else 87 + d

/-- `bson_oid_to_string`. -/
def oidString (o : Oid) : Bytes := o.bytes.flatMap fun b => [hexDigit (b / 16), hexDigit (b % 16)]

/-- `col_%ld_unknown`. -/
def unknownId (collectionId : Int) : Bytes :=
  [99, 111, 108, 95] ++ decimal collectionId ++ [95, 117, 110, 107, 110, 111, 119, 110]

/-- With `col_` and `_auto_`; `address` is how the document's address is printed. Strings
end at a zero. -/
def generatePisaDocumentId (document : Fields) (collectionId : Int) (address : Bytes) : Bytes :=
  match Assoc.get idField document with
  | some (.oid o) => oidString o
  | some (.utf8 str) => cString str
  | some (.int32 n) => decimal n.toInt
  | some (.int64 n) => decimal n.toInt
  | some _ => unknownId collectionId
  | none => [99, 111, 108, 95] ++ decimal collectionId ++ [95, 97, 117, 116, 111, 95] ++ address

def appendString (textContent : Bytes) : Value → Bytes
  | .utf8 str => (if textContent = [] then [] else textContent ++ [32]) ++ cString str
  | _ => textContent

/-- The strings of the document and one level below. -/
def extractTextContentFromBson (document : Fields) : Bytes :=
  document.foldl (fun textContent field =>
    if field.1 = idField then textContent
    else match field.2 with
      | .document fields => (fields.map Prod.snd).foldl appendString textContent
      | .array elems => elems.foldl appendString textContent
      | v => appendString textContent v) []

/-- Without the collection's id and the metadata. -/
structure PisaDocument where
  docId : Bytes
  content : Bytes
  deriving DecidableEq

/-- A document of a collection, which has an `_id`, and how its address is printed. -/
structure CollectionDocument where
  fields : Fields
  address : Bytes
  id : Value
  id_eq : Assoc.get idField fields = some id

def convertBsonDocumentToPisa (collectionId : Int) (document : CollectionDocument) :
    PisaDocument where
  docId := generatePisaDocumentId document.fields collectionId document.address
  content := extractTextContentFromBson document.fields

/-- The bytes of the file. For no document there is none. -/
def writePisaForwardIndex (documents : List PisaDocument) : Bytes :=
  documents.flatMap fun doc => doc.docId ++ 9 :: doc.content ++ [10]

-- ==== reading it

def readLines (file : Bytes) : List Bytes := (file.splitOn 10).dropLast

def readLine (line : Bytes) : PisaDocument where
  docId := line.takeWhile (· ≠ 9)
  content := line.drop ((line.takeWhile (· ≠ 9)).length + 1)

variable {file line : Bytes}

theorem newline_notMem_splitOn (h : line ∈ file.splitOn 10) : 10 ∉ line := by
  induction file generalizing line with
  | nil => simp_all
  | cons b file ih =>
    rw [splitOn_cons_eq_if_modifyHead] at h
    split_ifs at h with hb
    · rcases mem_cons.1 h with rfl | h
      · exact not_mem_nil
      · exact ih h
    · cases hfile : file.splitOn 10 with
      | nil => exact absurd hfile (splitOn_ne_nil _ _)
      | cons first lines =>
        rw [hfile] at h
        rcases mem_cons.1 h with rfl | h
        · rw [mem_cons, not_or]
          exact ⟨fun heq => hb (beq_iff_eq.2 heq.symm), ih (hfile ▸ mem_cons_self)⟩
        · exact ih (hfile ▸ mem_cons_of_mem _ h)

theorem readLines_append (h : 10 ∉ line) :
    readLines (line ++ 10 :: file) = line :: readLines file := by
  rw [readLines, splitOn_append_cons_self_of_not_mem h,
    dropLast_cons_of_ne_nil (splitOn_ne_nil _ _), readLines]

theorem readLine_eq {id : Bytes} (h : 9 ∉ id) (content : Bytes) :
    readLine (id ++ 9 :: content) = ⟨id, content⟩ := by
  have hid : (id ++ 9 :: content).takeWhile (· ≠ 9) = id := by
    rw [takeWhile_append_of_pos fun b hb => by simpa using ne_of_mem_of_not_mem hb h]
    simp
  rw [readLine, hid]
  simp

def PisaDocument.Harmless (doc : PisaDocument) : Prop :=
  9 ∉ doc.docId ∧ 10 ∉ doc.docId ∧ 10 ∉ doc.content

theorem readLines_write {docs : List PisaDocument} (h : ∀ doc ∈ docs, doc.Harmless) :
    (readLines (writePisaForwardIndex docs)).map readLine = docs := by
  induction docs with
  | nil => rfl
  | cons doc docs ih =>
    obtain ⟨⟨htab, hid, hcontent⟩, hdocs⟩ := forall_mem_cons.1 h
    have hline : 10 ∉ doc.docId ++ 9 :: doc.content := by simp [hid, hcontent]
    rw [writePisaForwardIndex, flatMap_cons, append_assoc, singleton_append,
      readLines_append hline, map_cons, readLine_eq htab]
    exact congrArg _ (ih hdocs)

theorem harmless_readLine (h : 10 ∉ line) : (readLine line).Harmless := by
  refine ⟨fun htab => ?_, fun hid => h ((takeWhile_sublist _).subset hid),
    fun hcontent => h (mem_of_mem_drop hcontent)⟩
  simpa using mem_takeWhile_imp htab

/-- Reading gives the id and the text of every document, and the ids differ. -/
def Identifies (docs : List PisaDocument) : Prop :=
  (readLines (writePisaForwardIndex docs)).map readLine = docs
    ∧ docs.Pairwise fun doc doc' => doc.docId ≠ doc'.docId

-- ==== how an `_id` is rendered

/-- What the source tells apart in a value of `_id`. -/
inductive IdKind where
  | oid (o : Oid)
  | text (str : Bytes)
  | number (n : Int64)
  | other

def IdKind.of : Value → IdKind
  | .oid o => .oid o
  | .utf8 str => .text (cString str)
  | .int32 n => .number n.toInt64
  | .int64 n => .number n
  | _ => .other

/-- The values of `_id` that are confused: integers of one number, strings that
are the same up to a zero, a string and what it is the numeral or the digits of,
and any two values of other types. -/
def IdKind.Alike (collectionId : Int) : IdKind → IdKind → Prop
  | .oid o, .oid o' => o = o'
  | .number m, .number n => m = n
  | .text str, .text str' => str = str'
  | .text str, .oid o | .oid o, .text str => str = oidString o
  | .text str, .number n | .number n, .text str => str = decimal n.toInt
  | .text str, .other | .other, .text str => str = unknownId collectionId
  | .other, .other => True
  | _, _ => False

def IdKind.render (collectionId : Int) : IdKind → Bytes
  | .oid o => oidString o
  | .text str => str
  | .number n => decimal n.toInt
  | .other => unknownId collectionId

/-- The id of a document is that of the kind of its `_id`. -/
theorem generatePisaDocumentId_eq (document : CollectionDocument) (collectionId : Int) :
    generatePisaDocumentId document.fields collectionId document.address =
      (IdKind.of document.id).render collectionId := by
  unfold generatePisaDocumentId
  rw [document.id_eq]
  cases document.id with
  | int32 n =>
    show decimal n.toInt = decimal n.toInt64.toInt
    rw [Int32.toInt_toInt64]
  | _ => rfl

/-- A hexadecimal digit is one of `0` to `9` or of `a` to `f`. -/
theorem hexDigit_range {d : UInt8} (hd : d < 16) :
    48 ≤ (hexDigit d).toNat ∧ (hexDigit d).toNat ≤ 57 ∨
      97 ≤ (hexDigit d).toNat ∧ (hexDigit d).toNat ≤ 102 := by
  unfold hexDigit
  split <;> simp only [UInt8.lt_iff_toNat_lt, UInt8.toNat_add, UInt8.reduceToNat] at * <;> omega

theorem hexDigit_inj {d e : UInt8} (hd : d < 16) (he : e < 16) (h : hexDigit d = hexDigit e) :
    d = e := by
  rw [← UInt8.toNat_inj] at h ⊢
  unfold hexDigit at h
  split_ifs at h <;> simp only [UInt8.lt_iff_toNat_lt, UInt8.toNat_add, UInt8.reduceToNat] at * <;>
    omega

theorem halves_lt (b : UInt8) : b / 16 < 16 ∧ b % 16 < 16 := by
  simp only [UInt8.lt_iff_toNat_lt, UInt8.toNat_div, UInt8.toNat_mod, UInt8.reduceToNat]
  have := b.toNat_lt
  omega

/-- The digits of a byte give the byte. -/
theorem byte_inj {b c : UInt8} (hhigh : hexDigit (b / 16) = hexDigit (c / 16))
    (hlow : hexDigit (b % 16) = hexDigit (c % 16)) : b = c := by
  have hhigh := congrArg UInt8.toNat (hexDigit_inj (halves_lt b).1 (halves_lt c).1 hhigh)
  have hlow := congrArg UInt8.toNat (hexDigit_inj (halves_lt b).2 (halves_lt c).2 hlow)
  rw [← UInt8.toNat_inj]
  simp only [UInt8.toNat_div, UInt8.toNat_mod, UInt8.reduceToNat] at hhigh hlow
  omega

theorem hexDigits_injective : Function.Injective fun bytes : Bytes =>
      bytes.flatMap fun b => [hexDigit (b / 16), hexDigit (b % 16)] := by
  intro bytes
  induction bytes with
  | nil =>
    intro bytes' h
    cases bytes' with
    | nil => rfl
    | cons c bytes' => simp at h
  | cons b bytes ih =>
    intro bytes' h
    cases bytes' with
    | nil => simp at h
    | cons c bytes' =>
      simp only [flatMap_cons, cons_append, nil_append, cons.injEq] at h
      rw [byte_inj h.1 h.2.1, ih h.2.2]

theorem oidString_inj {o o' : Oid} : oidString o = oidString o' ↔ o = o' := by
  refine ⟨fun h => ?_, congrArg _⟩
  have hbytes := hexDigits_injective h
  cases o
  cases o'
  congr

theorem oidString_digit {b : UInt8} {o : Oid} (h : b ∈ oidString o) :
    48 ≤ b.toNat ∧ b.toNat ≤ 57 ∨ 97 ≤ b.toNat ∧ b.toNat ≤ 102 := by
  obtain ⟨c, -, hdigit⟩ := mem_flatMap.1 h
  rcases mem_pair.1 hdigit with rfl | rfl
  · exact hexDigit_range (halves_lt c).1
  · exact hexDigit_range (halves_lt c).2

theorem length_oidString (o : Oid) : (oidString o).length = 24 := by
  rw [oidString, length_flatMap]
  simp [o.length_eq]

theorem decimal_inj {m n : Int} : decimal m = decimal n ↔ m = n := by
  refine ⟨fun h => ?_, congrArg _⟩
  have hsign : ∀ i j, (45 : UInt8) :: arrayKey i ≠ arrayKey j := by
    intro i j hij
    exact absurd (arrayKey_digit (hij ▸ mem_cons_self)).1 (by decide)
  unfold decimal at h
  split_ifs at h with hm hn hn
  · have := arrayKey_injective (cons.inj h).2
    omega
  · exact absurd h (hsign _ _)
  · exact absurd h.symm (hsign _ _)
  · have := arrayKey_injective h
    omega

/-- The numeral of an integer of 64 bits is shorter than an object id. -/
theorem length_decimal_lt (n : Int64) : (decimal n.toInt).length < 24 := by
  have hlt := n.toInt_lt
  have hge := n.le_toInt
  have hkey : (arrayKey n.toInt.natAbs).length ≤ 20 := length_arrayKey_le (by decide) (by omega)
  unfold decimal
  split
  · rw [length_cons]
    omega
  · omega

/-- The id of the values of other types has an `o` where an object id has a digit. -/
theorem oidString_ne_unknownId (o : Oid) (collectionId : Int) :
    oidString o ≠ unknownId collectionId := by
  intro h
  have hmem : (111 : UInt8) ∈ oidString o := by
    rw [h]
    simp [unknownId]
  exact absurd (oidString_digit hmem) (by decide)

theorem decimal_ne_unknownId (n collectionId : Int) : decimal n ≠ unknownId collectionId := by
  intro h
  have hmem : (99 : UInt8) ∈ decimal n := by
    rw [h]
    exact mem_cons_self
  unfold decimal at hmem
  have hdigit : (99 : UInt8) ∈ arrayKey n.natAbs := by
    split at hmem
    · exact (mem_cons.1 hmem).resolve_left (by decide)
    · exact hmem
  exact absurd (arrayKey_digit hdigit).2 (by decide)

/-- Two values of `_id` have one id exactly if they are of the confused ones. -/
theorem IdKind.render_eq_iff (collectionId : Int) (x y : IdKind) :
    x.render collectionId = y.render collectionId ↔ x.Alike collectionId y := by
  have hnumber : ∀ (o : Oid) (n : Int64), oidString o ≠ decimal n.toInt := by
    intro o n h
    have := length_decimal_lt n
    rw [← h, length_oidString] at this
    omega
  cases x <;> cases y <;> simp only [IdKind.render, IdKind.Alike]
  · exact oidString_inj
  · exact eq_comm
  · exact iff_of_false (hnumber _ _) id
  · exact iff_of_false (oidString_ne_unknownId _ _) id
  · exact iff_of_false (hnumber _ _).symm id
  · exact eq_comm
  · exact decimal_inj.trans Int64.toInt_inj
  · exact iff_of_false (decimal_ne_unknownId _ _) id
  · exact iff_of_false (oidString_ne_unknownId _ _).symm id
  · exact eq_comm
  · exact iff_of_false (decimal_ne_unknownId _ _).symm id

/-- A tab or a line end in an id can only come from a string. -/
theorem control_mem_render {collectionId : Int} {b : UInt8} (hb : b.toNat < 45) (id : Value) :
    b ∈ (IdKind.of id).render collectionId ↔ ∃ str, id = .utf8 str ∧ b ∈ cString str := by
  have hkey : ∀ n, b ∉ arrayKey n := fun n h => absurd (arrayKey_digit h).1 (by omega)
  have hsign : b ≠ 45 := by
    rintro rfl
    exact absurd hb (by decide)
  have hdecimal : ∀ n, b ∉ decimal n := by
    intro n
    unfold decimal
    split
    · exact not_mem_cons_of_ne_of_not_mem hsign (hkey _)
    · exact hkey _
  have hletters {letters : Bytes} (h : letters.all (45 ≤ ·.toNat) = true) : b ∉ letters := by
    intro hmem
    exact absurd (of_decide_eq_true (all_eq_true.1 h b hmem)) (by omega)
  have hunknown : b ∉ unknownId collectionId := by
    simp only [unknownId, mem_append, not_or]
    exact ⟨⟨hletters rfl, hdecimal _⟩, hletters rfl⟩
  have hoid : ∀ o, b ∉ oidString o := fun o h => absurd (oidString_digit h) (by omega)
  cases id with
  | utf8 str => simp [IdKind.of, IdKind.render]
  | oid o => simp [IdKind.of, IdKind.render, hoid]
  | int32 n => simp [IdKind.of, IdKind.render, hdecimal]
  | int64 n => simp [IdKind.of, IdKind.render, hdecimal]
  | _ => simp [IdKind.of, IdKind.render, hunknown]

-- ==== the texts of a document

/-- A string of the document that is exported: a field's, or one directly inside a
field's document or array. -/
def IsTextOf (str : Bytes) (field : Bytes × Value) : Prop :=
  field.1 ≠ idField ∧ (field.2 = .utf8 str
    ∨ (∃ fields, field.2 = .document fields ∧ .utf8 str ∈ fields.map Prod.snd)
    ∨ ∃ elems, field.2 = .array elems ∧ .utf8 str ∈ elems)

theorem newline_mem_appendString (text : Bytes) (v : Value) :
    10 ∈ appendString text v ↔ 10 ∈ text ∨ ∃ str, v = .utf8 str ∧ 10 ∈ cString str := by
  cases v with
  | utf8 str => by_cases htext : text = [] <;> simp [appendString, htext]
  | _ => simp [appendString]

theorem newline_mem_foldl_appendString (text : Bytes) (values : List Value) :
    10 ∈ values.foldl appendString text ↔
      10 ∈ text ∨ ∃ str, .utf8 str ∈ values ∧ 10 ∈ cString str := by
  induction values generalizing text with
  | nil => simp
  | cons v values ih =>
    rw [foldl_cons, ih, newline_mem_appendString, or_assoc]
    simp only [mem_cons, or_and_right, exists_or, eq_comm]

/-- The text of a document has a line end exactly if one of its strings has. -/
theorem newline_mem_extractTextContent (document : Fields) :
    10 ∈ extractTextContentFromBson document ↔
      ∃ field ∈ document, ∃ str, IsTextOf str field ∧ 10 ∈ cString str := by
  have hfold : ∀ text : Bytes, 10 ∈ document.foldl (fun textContent field =>
      if field.1 = idField then textContent
      else match field.2 with
        | .document fields => (fields.map Prod.snd).foldl appendString textContent
        | .array elems => elems.foldl appendString textContent
        | v => appendString textContent v) text ↔
      10 ∈ text ∨ ∃ field ∈ document, ∃ str, IsTextOf str field ∧ 10 ∈ cString str := by
    induction document with
    | nil => simp
    | cons field document ih =>
      intro text
      obtain ⟨name, v⟩ := field
      rw [foldl_cons, ih, exists_mem_cons_iff, ← or_assoc]
      apply or_congr_left
      by_cases hname : name = idField
      · simp [hname, IsTextOf]
      · rw [if_neg hname]
        cases v <;> simp [IsTextOf, hname, newline_mem_foldl_appendString,
          newline_mem_appendString]
  rw [extractTextContentFromBson, hfold]
  simp

-- ==== when the file identifies the documents

/-- Neither the string in `_id` nor a text of the document has a separator of the
file in it. -/
def CollectionDocument.NoSeparators (document : CollectionDocument) : Prop :=
  (∀ str, document.id = .utf8 str → 9 ∉ cString str ∧ 10 ∉ cString str) ∧
    ∀ field ∈ document.fields, ∀ str, IsTextOf str field → 10 ∉ cString str

theorem harmless_iff (collectionId : Int) (document : CollectionDocument) :
    (convertBsonDocumentToPisa collectionId document).Harmless ↔ document.NoSeparators := by
  unfold PisaDocument.Harmless convertBsonDocumentToPisa CollectionDocument.NoSeparators
  rw [generatePisaDocumentId_eq, control_mem_render (by decide), control_mem_render (by decide),
    newline_mem_extractTextContent]
  grind

/-- The file identifies the documents exactly if neither their strings of `_id`
nor their texts have a separator in them, and no two values of `_id` are of the
confused ones. -/
theorem forwardIndex_identifies_iff (collectionId : Int) (documents : List CollectionDocument) :
    Identifies (documents.map (convertBsonDocumentToPisa collectionId)) ↔
      (∀ document ∈ documents, document.NoSeparators) ∧
        documents.Pairwise fun d d' =>
          ¬(IdKind.of d.id).Alike collectionId (IdKind.of d'.id) := by
  have hpairs : ∀ d d' : CollectionDocument,
      (convertBsonDocumentToPisa collectionId d).docId ≠
        (convertBsonDocumentToPisa collectionId d').docId ↔
      ¬(IdKind.of d.id).Alike collectionId (IdKind.of d'.id) := by
    intro d d'
    unfold convertBsonDocumentToPisa
    rw [generatePisaDocumentId_eq, generatePisaDocumentId_eq, Ne, IdKind.render_eq_iff]
  simp only [Identifies, pairwise_map, hpairs, ← harmless_iff collectionId]
  rw [← forall_mem_map (P := PisaDocument.Harmless)]
  refine and_congr_left' ⟨fun hread doc hdoc => ?_, readLines_write⟩
  rw [← hread] at hdoc
  obtain ⟨line, hline, rfl⟩ := mem_map.1 hdoc
  exact harmless_readLine (newline_notMem_splitOn (dropLast_subset _ hline))

/-- An `_id` of null and one of a boolean are rendered alike. -/
theorem null_and_true_alike : Value.null ≠ .bool true ∧
    ¬Identifies (([.null, .bool true].map fun v => ⟨[(idField, v)], [], v, by rfl⟩).map
      (convertBsonDocumentToPisa 1)) := by
  refine ⟨Value.noConfusion, fun h => ?_⟩
  exact (pairwise_cons.1 h.2).1 _ mem_cons_self rfl

end DocumentDb.Pisa
