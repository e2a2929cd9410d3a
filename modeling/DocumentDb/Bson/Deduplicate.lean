/-
Documents without repeated field names.

`PgbsonDeduplicateFields` keeps a list of entries by name; a name that comes again
overwrites its entry. The values that are left are deduplicated themselves, documents and
arrays as deep as they go; the scope of a code value is copied as it is. All other values
are written with `bson_append_value`, which cuts code and DBPointers at a zero: the result
is right exactly if no value that is left has one.
-/
import DocumentDb.Bson.Element
import DocumentDb.Lib.Assoc

namespace DocumentDb

open List Assoc

-- ==== the source

/-- The list of entries after the loop over a document. It leads to every entry of the
table, and the table finds an entry by the bytes of its name: a field either overwrites
the entry of its name, in its place in the list, or is appended. -/
def hashEntryList (fields : Fields) : Fields :=
  fields.foldl (fun entries element => set element.1 element.2 entries) []

/-- What is written for the value of an entry or for an element of an array: the
inner calls of `PgbsonDeduplicateFieldsHandleDocumentIter` and of
`PgbsonDeduplicateFieldsRecurseArrayElements`, and `PgbsonWriterAppendValue`. -/
def deduplicateValue : Value → Value
  | .document fields =>
    .document ((hashEntryList fields).attach.map fun e => (e.val.1, deduplicateValue e.val.2))
  | .array elems => .array (elems.attach.map fun e => deduplicateValue e.val)
  | v => appendValue v
termination_by v => sizeOf v
decreasing_by
  · have hlt := sizeOf_lt_of_mem (mem_foldl_set e.property)
    obtain ⟨⟨k, v⟩, _⟩ := e
    simp only [Value.document.sizeOf_spec, Prod.mk.sizeOf_spec] at hlt ⊢
    omega
  · have hlt := sizeOf_lt_of_mem e.property
    simp only [Value.array.sizeOf_spec]
    omega

variable (fields : Fields)

def pgbsonDeduplicateFields : Fields :=
  (hashEntryList fields).map fun e => (e.1, deduplicateValue e.2)

theorem deduplicateValue_document :
    deduplicateValue (.document fields) = .document (pgbsonDeduplicateFields fields) := by
  rw [deduplicateValue, pgbsonDeduplicateFields]
  exact congrArg Value.document
    (attach_map_val (f := fun e : Bytes × Value => (e.1, deduplicateValue e.2)))

theorem deduplicateValue_array (elems : List Value) :
    deduplicateValue (.array elems) = .array (elems.map deduplicateValue) := by
  rw [deduplicateValue, attach_map_val]

/-- Neither a document nor an array. -/
def Value.IsLeaf (v : Value) : Prop := v.type ≠ .document ∧ v.type ≠ .array

theorem deduplicateValue_leaf {v : Value} (h : v.IsLeaf) : deduplicateValue v = appendValue v := by
  cases v with
  | document => exact absurd rfl h.1
  | array => exact absurd rfl h.2
  | _ => rw [deduplicateValue] <;> simp

/-- Induction over documents, arrays and leaves. -/
theorem Value.levels {P : Value → Prop}
    (document : ∀ fields : Fields, (∀ f ∈ fields, P f.2) → P (.document fields))
    (array : ∀ elems : List Value, (∀ e ∈ elems, P e) → P (.array elems))
    (leaf : ∀ v : Value, v.IsLeaf → P v) (v : Value) : P v := by
  induction v using Value.induction with
  | document fields ih => exact document fields ih
  | array elems ih => exact array elems ih
  | codeWScope code scope _ => exact leaf _ ⟨by simp [Value.type], by simp [Value.type]⟩
  | scalar v hv =>
    apply leaf
    constructor <;> cases v <;> simp_all [Value.type, Value.isScalar]

theorem get_map_snd (name : Bytes) (f : Value → Value) :
    get name (fields.map fun e => (e.1, f e.2)) = (get name fields).map f := by
  induction fields with
  | nil => rfl
  | cons e fields ih =>
    rw [map_cons, get_cons, ih, get_cons]
    split_ifs <;> rfl

/-- A name is left with what is written for its last occurrence. -/
theorem get_pgbsonDeduplicateFields (name : Bytes) : get name (pgbsonDeduplicateFields fields) =
      (get name fields.reverse).map deduplicateValue := by
  rw [pgbsonDeduplicateFields, get_map_snd, hashEntryList, get_foldl_set_reverse, get_nil,
    Option.or_none]

theorem mem_of_get_reverse {name : Bytes} {v : Value} (h : get name fields.reverse = some v) :
    (name, v) ∈ fields := mem_reverse.1 (mem_of_get h)

-- ==== what is to be left

/-- The second value is the first without repeated names: its fields are the
distinct names in the order of their first occurrence, each with the value of its
last occurrence without repeated names; the elements of an array keep their order
and number, and all other values are kept. -/
inductive IsDeduplicated : Value → Value → Prop where
  | document {fields fields' : Fields}
      (names : fields'.map Prod.fst = (fields.map Prod.fst).eraseDups)
      (values : ∀ name v v', get name fields.reverse = some v → get name fields' = some v' →
        IsDeduplicated v v') : IsDeduplicated (.document fields) (.document fields')
  | array {elems elems' : List Value} (length : elems'.length = elems.length)
      (values : ∀ (i : Nat) (v v' : Value), elems[i]? = some v → elems'[i]? = some v' → IsDeduplicated v v') :
      IsDeduplicated (.array elems) (.array elems')
  | leaf {v : Value} (h : v.IsLeaf) : IsDeduplicated v v

/-- Field names are unique at every level. -/
inductive UniqueNames : Value → Prop where
  | document {fields : Fields} (nodup : (fields.map Prod.fst).Nodup)
      (inner : ∀ e ∈ fields, UniqueNames e.2) : UniqueNames (.document fields)
  | array {elems : List Value} (inner : ∀ e ∈ elems, UniqueNames e) : UniqueNames (.array elems)
  | leaf {v : Value} (h : v.IsLeaf) : UniqueNames v

/-- No code and no DBPointer has a zero, of the values that are the last of their
name at every level. -/
inductive LastZeroFree : Value → Prop where
  | document {fields : Fields}
      (inner : ∀ name v, get name fields.reverse = some v → LastZeroFree v) :
      LastZeroFree (.document fields)
  | array {elems : List Value} (inner : ∀ e ∈ elems, LastZeroFree e) : LastZeroFree (.array elems)
  | leaf {v : Value} (h : v.IsLeaf) (zeroFree : v.isZeroFree) : LastZeroFree v

theorem isDeduplicated_document_iff {fields fields' : Fields} :
    IsDeduplicated (.document fields) (.document fields') ↔
      fields'.map Prod.fst = (fields.map Prod.fst).eraseDups ∧
      ∀ name v v', get name fields.reverse = some v → get name fields' = some v' →
        IsDeduplicated v v' := by
  refine ⟨fun h => ?_, fun h => .document h.1 h.2⟩
  cases h with
  | document names values => exact ⟨names, values⟩
  | leaf hleaf => exact absurd rfl hleaf.1

theorem isDeduplicated_array_iff {elems elems' : List Value} :
    IsDeduplicated (.array elems) (.array elems') ↔ elems'.length = elems.length ∧
      ∀ (i : Nat) (v v' : Value), elems[i]? = some v → elems'[i]? = some v' →
        IsDeduplicated v v' := by
  refine ⟨fun h => ?_, fun h => .array h.1 h.2⟩
  cases h with
  | array length values => exact ⟨length, values⟩
  | leaf hleaf => exact absurd rfl hleaf.2

theorem isDeduplicated_leaf_iff {v w : Value} (hleaf : v.IsLeaf) : IsDeduplicated v w ↔ w = v := by
  constructor
  · intro h
    cases h with
    | document => exact absurd rfl hleaf.1
    | array => exact absurd rfl hleaf.2
    | leaf => rfl
  · rintro rfl
    exact .leaf hleaf

theorem lastZeroFree_document_iff {fields : Fields} : LastZeroFree (.document fields) ↔
    ∀ name v, get name fields.reverse = some v → LastZeroFree v := by
  refine ⟨fun h => ?_, .document⟩
  cases h with
  | document inner => exact inner
  | leaf hleaf => exact absurd rfl hleaf.1

theorem lastZeroFree_array_iff {elems : List Value} :
    LastZeroFree (.array elems) ↔ ∀ e ∈ elems, LastZeroFree e := by
  refine ⟨fun h => ?_, .array⟩
  cases h with
  | array inner => exact inner
  | leaf hleaf => exact absurd rfl hleaf.2

theorem lastZeroFree_leaf_iff {v : Value} (hleaf : v.IsLeaf) : LastZeroFree v ↔ v.isZeroFree := by
  refine ⟨fun h => ?_, .leaf hleaf⟩
  cases h with
  | document => exact absurd rfl hleaf.1
  | array => exact absurd rfl hleaf.2
  | leaf _ hfree => exact hfree

-- ==== what is left

/-- What is written for a value is the value without repeated names exactly if
nothing in it is cut. -/
theorem isDeduplicated_deduplicateValue_iff (v : Value) :
    IsDeduplicated v (deduplicateValue v) ↔ LastZeroFree v := by
  induction v using Value.levels with
  | document fields ih =>
    have hnames : (pgbsonDeduplicateFields fields).map Prod.fst =
        (fields.map Prod.fst).eraseDups := by
      rw [pgbsonDeduplicateFields, map_map]
      exact map_fst_foldl_set fields
    rw [deduplicateValue_document, isDeduplicated_document_iff, lastZeroFree_document_iff,
      and_iff_right hnames]
    refine forall₂_congr fun name v => ?_
    constructor
    · intro h hv
      apply (ih (name, v) (mem_of_get_reverse fields hv)).1
      exact h _ hv (by rw [get_pgbsonDeduplicateFields, hv, Option.map_some])
    · intro h v' hv hv'
      rw [get_pgbsonDeduplicateFields, hv, Option.map_some, Option.some.injEq] at hv'
      exact hv' ▸ (ih (name, v) (mem_of_get_reverse fields hv)).2 (h hv)
  | array elems ih =>
    rw [deduplicateValue_array, isDeduplicated_array_iff, lastZeroFree_array_iff,
      and_iff_right (length_map _)]
    constructor
    · intro h e he
      obtain ⟨i, hi⟩ := getElem?_of_mem he
      exact (ih e he).1 (h i e _ hi (by rw [getElem?_map, hi, Option.map_some]))
    · intro h i v v' hv hv'
      rw [getElem?_map, hv, Option.map_some, Option.some.injEq] at hv'
      have hmem := mem_of_getElem? hv
      exact hv' ▸ (ih v hmem).2 (h v hmem)
  | leaf v hleaf =>
    rw [deduplicateValue_leaf hleaf, isDeduplicated_leaf_iff hleaf, lastZeroFree_leaf_iff hleaf]
    exact appendValue_eq_self_iff v

theorem Value.IsLeaf.appendValue {v : Value} (h : v.IsLeaf) : (appendValue v).IsLeaf := by
  unfold Value.IsLeaf
  rwa [type_appendValue]

theorem uniqueNames_deduplicateValue (v : Value) : UniqueNames (deduplicateValue v) := by
  induction v using Value.levels with
  | document fields ih =>
    rw [deduplicateValue_document]
    refine .document ?_ fun e he => ?_
    · rw [pgbsonDeduplicateFields, map_map]
      exact nodup_foldl_set (by simp) fields
    · obtain ⟨f, hf, rfl⟩ := mem_map.1 he
      exact ih f (mem_foldl_set hf)
  | array elems ih =>
    rw [deduplicateValue_array]
    exact .array (forall_mem_map.2 ih)
  | leaf v hleaf =>
    rw [deduplicateValue_leaf hleaf]
    exact .leaf hleaf.appendValue

theorem lastZeroFree_deduplicateValue (v : Value) : LastZeroFree (deduplicateValue v) := by
  induction v using Value.levels with
  | document fields ih =>
    rw [deduplicateValue_document]
    refine .document fun name w hw => ?_
    obtain ⟨f, hf, hfw⟩ := mem_map.1 (mem_of_get_reverse _ hw)
    rw [← (Prod.mk.inj hfw).2]
    exact ih f (mem_foldl_set hf)
  | array elems ih =>
    rw [deduplicateValue_array]
    exact .array (forall_mem_map.2 ih)
  | leaf v hleaf =>
    rw [deduplicateValue_leaf hleaf]
    exact .leaf hleaf.appendValue (isZeroFree_appendValue v)

/-- A value whose names are unique is left as it is where nothing is cut. -/
theorem deduplicateValue_of_uniqueNames {v : Value} (h : UniqueNames v) (hfree : LastZeroFree v) :
    deduplicateValue v = v := by
  induction h with
  | @document fields nodup _ ih =>
    have hlast : ∀ e ∈ fields, LastZeroFree e.2 := by
      intro e he
      apply lastZeroFree_document_iff.1 hfree e.1 e.2
      exact get_of_mem (by rw [map_reverse]; exact (reverse_perm _).nodup_iff.2 nodup)
        (mem_reverse.2 he)
    have hmap : fields.map (fun e => (e.1, deduplicateValue e.2)) = fields :=
      (map_congr_left fun e he => by rw [ih e he (hlast e he)]; rfl).trans (map_id fields)
    rw [deduplicateValue_document, pgbsonDeduplicateFields, hashEntryList,
      foldl_set_of_nodup nodup, hmap]
  | @array elems _ ih =>
    have hmap := map_congr_left fun e he => ih e he (lastZeroFree_array_iff.1 hfree e he)
    rw [deduplicateValue_array, hmap, map_id']
  | leaf hleaf =>
    rw [deduplicateValue_leaf hleaf, appendValue_eq_self_iff]
    exact (lastZeroFree_leaf_iff hleaf).1 hfree

-- ==== the whole document

/-- The deduplication is right, idempotent, and leaves unique names alone. -/
def DeduplicatesRightly : Prop :=
  IsDeduplicated (.document fields) (.document (pgbsonDeduplicateFields fields)) ∧
    UniqueNames (.document (pgbsonDeduplicateFields fields)) ∧
    pgbsonDeduplicateFields (pgbsonDeduplicateFields fields) = pgbsonDeduplicateFields fields ∧
    (UniqueNames (.document fields) → pgbsonDeduplicateFields fields = fields)

end DocumentDb
