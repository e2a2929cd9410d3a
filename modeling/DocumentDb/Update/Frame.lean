/-
What an update leaves alone: all that is neither at, above nor below one of its paths,
whatever the operators are. Only code and DBPointers with a zero are cut where they are
copied.

The tree names the paths of the update and no others (`Unnamed.addUpdateEntry`). On an
unnamed path the traversal enters intermediate nodes only, until it finds no node and copies
(`valuesAt_updateFields`), and what it adds to a document lies on named paths
(`valuesAt_unresolvedFields`).
-/
import DocumentDb.Lib.Except
import DocumentDb.Update.Workflow

namespace DocumentDb

open List
open Except (bind_eq_ok)

-- ==== paths

/-- The values at a path through documents, in stored order. -/
def valuesAt : List Bytes → Value → List Value
  | [], value => [value]
  | field :: path, .document fields =>
    (fields.filter (·.1 = field)).flatMap fun f => valuesAt path f.2
  | _ :: _, _ => []

/-- No path of the two is above the other. -/
def Unrelated (p q : List Bytes) : Prop := ¬ p <+: q ∧ ¬ q <+: p

/-- A path on which the tree has no leaf, and that does not end inside of it. -/
def Unnamed : List Bytes → UpdateNodes → Prop
  | [], _ => False
  | field :: path, nodes => ∀ child, (field, child) ∈ nodes →
    ∃ node children, child = .intermediate node children ∧ Unnamed path children

/-- The paths that an update names: those of its entries, and the targets of
`$rename`. -/
inductive Names (updateSpec : Fields) : List Bytes → Prop
  | path {operator entries path value} (h : (operator, .document entries) ∈ updateSpec)
      (hentry : (path, value) ∈ entries) : Names updateSpec (pathSegments path)
  | target {entries path target} (h : (dollarRename, .document entries) ∈ updateSpec)
      (hentry : (path, .utf8 target) ∈ entries) : Names updateSpec (pathSegments target)

section Paths

variable {field : Bytes} {path p q : List Bytes} {fs : Fields} {nodes : UpdateNodes}

theorem Unrelated.tail (h : Unrelated (field :: p) (field :: q)) : Unrelated p q := by
  simpa [Unrelated, cons_prefix_cons] using h

theorem valuesAt_append (gs : Fields) : valuesAt (field :: path) (.document (fs ++ gs))
      = valuesAt (field :: path) (.document fs) ++ valuesAt (field :: path) (.document gs) := by
  simp only [valuesAt, filter_append, flatMap_append]

theorem valuesAt_cons (k : Bytes) (value : Value) (fs : Fields) :
    valuesAt (field :: path) (.document ((k, value) :: fs))
      = (if k = field then valuesAt path value else [])
        ++ valuesAt (field :: path) (.document fs) := by
  simp only [valuesAt, filter_cons]
  split_ifs with h <;> simp_all

/-- Values under one name. -/
theorem valuesAt_map (name : Bytes) (values : List Value) :
    valuesAt (field :: path) (.document (values.map (name, ·)))
      = if name = field then values.flatMap (valuesAt path) else [] := by
  rw [valuesAt, filter_map]
  split_ifs with h
  · simp [h, Function.comp_def, flatMap_map]
  · simp [h, Function.comp_def]

/-- Copying keeps what is at a path, if it is not cut. -/
theorem valuesAt_appendValue {value : Value} (hfree : ∀ v ∈ valuesAt path value, v.isZeroFree) :
    valuesAt path (appendValue value) = valuesAt path value := by
  cases path with
  | nil =>
    have hvalue : value.isZeroFree := hfree value mem_cons_self
    rw [(appendValue_eq_self_iff value).2 hvalue]
  | cons field path => cases value <;> rfl

theorem Unnamed.set {k : Bytes} {child : BsonUpdateNode} (h : Unnamed (field :: path) nodes)
    (hchild : k = field → ∃ node children, child = .intermediate node children
      ∧ Unnamed path children) : Unnamed (field :: path) (Assoc.set k child nodes) := by
  intro c hc
  rcases Assoc.mem_set hc with heq | hold
  · cases heq
    exact hchild rfl
  · exact h c hold

end Paths

-- ==== the tree

section Build

variable {p path : List Bytes} {nodes nodes' : UpdateNodes} {tree tree' : UpdateTree}
  {state : BsonUpdateTreeState} {relativePath : Bytes} {nodeType : LeafType} {value : Value}

theorem Unnamed.traverse {existing : Option BsonUpdateNode} (h : Unnamed p nodes)
    (hapart : Unrelated p path)
    (hok : traverseDottedPathAndGetOrAddNode state relativePath nodeType value path nodes
      = .ok (existing, nodes')) : Unnamed p nodes' := by
  induction path generalizing p nodes existing nodes' with
  | nil => exact absurd nil_prefix hapart.2
  | cons k path ih =>
    cases p with
    | nil => exact h.elim
    | cons field p =>
      cases path with
      | nil =>
        unfold traverseDottedPathAndGetOrAddNode at hok
        split at hok
        · cases hok
          exact h
        · obtain ⟨leaf, -, hok⟩ := bind_eq_ok hok
          cases hok
          refine h.set fun hk => absurd ?_ hapart.2
          rw [hk]
          exact cons_prefix_cons.2 ⟨rfl, nil_prefix⟩
      | cons k' path =>
        unfold traverseDottedPathAndGetOrAddNode at hok
        split at hok
        · cases hok
          exact h
        · rename_i node children hget
          obtain ⟨⟨existing', children'⟩, hbelow, hok⟩ := bind_eq_ok hok
          cases hok
          refine h.set fun hk => ⟨_, _, rfl, ?_⟩
          subst hk
          obtain ⟨node', children'', heq, hunnamed⟩ := h _ (Assoc.mem_of_get hget)
          cases heq
          exact ih hunnamed hapart.tail hbelow
        · obtain ⟨node, -, hok⟩ := bind_eq_ok hok
          obtain ⟨⟨existing', children'⟩, hbelow, hok⟩ := bind_eq_ok hok
          cases hok
          refine h.set fun hk => ⟨_, _, rfl, ?_⟩
          subst hk
          refine ih ?_ hapart.tail hbelow
          cases p with
          | nil => exact absurd nil_prefix hapart.tail.1
          | cons => exact nofun

variable (hid : p.head? ≠ some idField)

include hid in
theorem Unnamed.addLeafNode {path : Bytes} {replacement : Value × BsonUpdateTreeState}
    (h : Unnamed p nodes) (hapart : Unrelated p (pathSegments path))
    (hok : DocumentDb.addLeafNode state path nodeType value replacement nodes = .ok nodes') :
    Unnamed p nodes' := by
  obtain ⟨⟨existing, nodes₁⟩, htraverse, hok⟩ := bind_eq_ok hok
  have h₁ := h.traverse hapart htraverse
  cases existing with
  | none =>
    cases hok
    exact h₁
  | some existing =>
    dsimp only at hok
    unfold handleNodeExistsInTree at hok
    split at hok
    · cases hok
    · split at hok
      · obtain ⟨leaf, -, hok⟩ := bind_eq_ok hok
        cases hok
        cases p with
        | nil => exact h.elim
        | cons field p => exact h₁.set fun hk => absurd (congrArg some hk.symm) hid
      · cases hok

variable (h : Unnamed p tree.children)

include h

/-- The flags of the parents are no part of the paths. -/
theorem Unnamed.updateParentData {mark positional : Bool} {renameNode : Option RenameNode}
    {above : List Bytes}
    (hok : updateParentDataInTree mark renameNode above path tree = .ok (positional, tree')) :
    Unnamed p tree'.children := by
  induction path generalizing p above tree positional tree' with
  | nil =>
    cases hok
    exact h
  | cons k path ih =>
    unfold updateParentDataInTree at hok
    split at hok
    · cases hok
      exact h
    · obtain ⟨root, -, hok⟩ := bind_eq_ok hok
      cases hok
      exact h
    · rename_i node children hget
      obtain ⟨⟨positional', below⟩, hbelow, hok⟩ := bind_eq_ok hok
      obtain ⟨root, -, hok⟩ := bind_eq_ok hok
      cases hok
      cases p with
      | nil => exact h.elim
      | cons field p =>
        refine h.set fun hk => ⟨_, _, rfl, ?_⟩
        subst hk
        obtain ⟨node', children', heq, hunnamed⟩ := h _ (Assoc.mem_of_get hget)
        cases heq
        exact ih hunnamed hbelow

variable {spec : PositionalUpdateSpec} {isUpsert : Bool} {operator : MongoUpdateOperatorSpec}

include hid

theorem Unnamed.handleBasic {path : Bytes} (hapart : Unrelated p (pathSegments path))
    (hok : handleBasicUpdateTree spec operator path value tree = .ok tree') :
    Unnamed p tree'.children := by
  obtain ⟨-, -, hok⟩ := bind_eq_ok hok
  obtain ⟨context, -, hok⟩ := bind_eq_ok hok
  obtain ⟨children, hadd, hok⟩ := bind_eq_ok hok
  obtain ⟨⟨positional, tree₁⟩, hparents, hok⟩ := bind_eq_ok hok
  cases hok
  exact Unnamed.updateParentData (h.addLeafNode hid hapart hadd) hparents

theorem Unnamed.handleRename {renameSource : WriteUpdatedValuesFunc} {path : Bytes}
    (hapart : Unrelated p (pathSegments path))
    (htarget : ∀ target, value = .utf8 target → Unrelated p (pathSegments target))
    (hok : handleRenameUpdateTree spec operator renameSource path value tree = .ok tree') :
    Unnamed p tree'.children := by
  obtain ⟨-, -, hok⟩ := bind_eq_ok hok
  obtain ⟨children, hadd, hok⟩ := bind_eq_ok hok
  split at hok
  · obtain ⟨-, -, hok⟩ := bind_eq_ok hok
    obtain ⟨children', hadd', hok⟩ := bind_eq_ok hok
    obtain ⟨⟨dynamic, tree₁⟩, hparents, hok⟩ := bind_eq_ok hok
    have h' := (h.addLeafNode hid hapart hadd).addLeafNode hid (htarget _ rfl) hadd'
    have h₁ : Unnamed p tree₁.children := Unnamed.updateParentData h' hparents
    dsimp only at hok
    split at hok
    · cases hok
    · obtain ⟨⟨dynamic', tree₂⟩, hparents', hok⟩ := bind_eq_ok hok
      have h₂ : Unnamed p tree₂.children := Unnamed.updateParentData h₁ hparents'
      dsimp only at hok
      split at hok
      · cases hok
      · cases hok
        exact h₂
  · cases hok

/-- An entry names its path, and a `$rename` its target. -/
theorem Unnamed.addUpdateEntry {path : Bytes} (hapart : Unrelated p (pathSegments path))
    (htarget : ∀ writer target, operator.updateTreeFunc = .rename writer →
      value = .utf8 target → Unrelated p (pathSegments target))
    (hok : DocumentDb.addUpdateEntry spec isUpsert operator path value tree = .ok tree') :
    Unnamed p tree'.children := by
  unfold DocumentDb.addUpdateEntry at hok
  split at hok
  · exact h.handleBasic hid hapart hok
  · obtain ⟨children, hadd, hok⟩ := bind_eq_ok hok
    cases hok
    exact h.addLeafNode hid hapart hadd
  · split at hok
    · exact h.handleBasic hid hapart hok
    · cases hok
      exact h
  · rename_i writer hfunc
    exact h.handleRename hid hapart (fun target => htarget writer target hfunc) hok

theorem Unnamed.addUpdateEntries {entries : Fields}
    (hapart : ∀ path value, (path, value) ∈ entries → Unrelated p (pathSegments path)
      ∧ ∀ writer target, operator.updateTreeFunc = .rename writer →
        value = .utf8 target → Unrelated p (pathSegments target))
    (hok : DocumentDb.addUpdateEntries spec isUpsert operator entries tree = .ok tree') :
    Unnamed p tree'.children := by
  induction entries generalizing tree with
  | nil =>
    cases hok
    exact h
  | cons entry entries ih =>
    obtain ⟨tree₁, hentry, hok⟩ := bind_eq_ok hok
    obtain ⟨hpath, htarget⟩ := hapart _ _ mem_cons_self
    exact ih (h.addUpdateEntry hid hpath htarget hentry)
      (fun path value hmem => hapart path value (mem_cons_of_mem _ hmem)) hok

variable [BidLib] {lib : UpdateLib} {updateSpec : Fields}

omit hid h in
theorem operatorName_of_rename (h : operator ∈ mongoUpdateOperators lib)
    {writer : WriteUpdatedValuesFunc} (hfunc : operator.updateTreeFunc = .rename writer) :
    operator.operatorName = dollarRename := by
  simp only [mongoUpdateOperators, mem_cons, not_mem_nil, or_false] at h
  rcases h with rfl | rfl | rfl | rfl | rfl | rfl | rfl | rfl | rfl | rfl | rfl | rfl | rfl
    | rfl | rfl
  all_goals first | rfl | cases hfunc

theorem Unnamed.readUpdateSpec (hapart : ∀ q, Names updateSpec q → Unrelated p q)
    (hok : readUpdateSpecAndUpdateTree (mongoUpdateOperators lib) spec isUpsert updateSpec tree
      = .ok tree') : Unnamed p tree'.children := by
  induction updateSpec generalizing tree with
  | nil =>
    cases hok
    exact h
  | cons entry updateSpec ih =>
    obtain ⟨name, value⟩ := entry
    unfold readUpdateSpecAndUpdateTree at hok
    split at hok
    · cases hok
    · rename_i operator hfind
      split at hok
      · rename_i entries
        obtain ⟨tree₁, hentries, hok⟩ := bind_eq_ok hok
        refine ih (h.addUpdateEntries hid ?_ hentries) (fun q hq => hapart q ?_) hok
        · intro path value hentry
          refine ⟨hapart _ (.path mem_cons_self hentry), ?_⟩
          rintro writer target hfunc rfl
          have hname := operatorName_of_rename (mem_of_find?_eq_some hfind) hfunc
          have hfound := find?_some hfind
          rw [of_decide_eq_true hfound] at hname
          subst hname
          exact hapart _ (.target mem_cons_self hentry)
        · cases hq with
          | path hmem hentry => exact .path (mem_cons_of_mem _ hmem) hentry
          | target hmem hentry => exact .target (mem_cons_of_mem _ hmem) hentry
      · cases hok

end Build

-- ==== the traversal

section Traversal

variable {state : CurrentDocumentState} {field : Bytes} {path : List Bytes}

/-- In a document only the node of the name matches. -/
theorem mem_of_matchingChild {parent : Bytes} {value : Value} {nodes : UpdateNodes}
    {i j : Nat} {node : BsonUpdateNode}
    (hok : matchingChild state parent false field value i nodes = .ok (some (j, node))) :
    (field, node) ∈ nodes := by
  induction nodes generalizing i with
  | nil => cases hok
  | cons child nodes ih =>
    obtain ⟨k, child⟩ := child
    obtain ⟨isMatch, hmatch, hok⟩ := bind_eq_ok hok
    cases isMatch with
    | false => exact mem_cons_of_mem _ (ih hok)
    | true =>
      cases hok
      unfold isNodeMatchForIteratorPath at hmatch
      split at hmatch
      · split at hmatch <;> cases hmatch
      · cases hmatch
      · cases hmatch
      · have heq : decide (field = k) = true := Except.ok.inj hmatch
        rw [of_decide_eq_true heq]
        exact mem_cons_self

/-- On an unnamed path a matching node is not a leaf. -/
theorem Unnamed.of_matchingChild {parent : Bytes} {value : Value} {nodes : UpdateNodes} {j : Nat}
    {node : BsonUpdateNode} (h : Unnamed (field :: path) nodes)
    (hok : matchingChild state parent false field value 0 nodes = .ok (some (j, node))) :
    ∃ data children, node = .intermediate data children ∧ Unnamed path children :=
  h node (mem_of_matchingChild hok)

/-- What is added for a missing field lies on named paths. -/
theorem valuesAt_unresolvedFields {isRootLevel anc : Bool} {handled : List Nat} {i : Nat}
    {nodes : UpdateNodes} {added : Added Fields} (h : Unnamed path nodes)
    (hok : unresolvedFields state isRootLevel anc handled i nodes = .ok added) :
    valuesAt path (.document added.values) = [] := by
  induction path generalizing isRootLevel handled i nodes added with
  | nil => exact h.elim
  | cons field path ih =>
    induction nodes generalizing i added with
    | nil =>
      cases hok
      rfl
    | cons child nodes ihnodes =>
      obtain ⟨k, node⟩ := child
      have hrest : Unnamed (field :: path) nodes := fun c hc => h c (mem_cons_of_mem _ hc)
      unfold unresolvedFields at hok
      split at hok
      · exact ihnodes hrest hok
      · split at hok
        · cases hok
        · obtain ⟨first, hfirst, hok⟩ := bind_eq_ok hok
          obtain ⟨rest, hok', hok⟩ := bind_eq_ok hok
          cases hok
          rw [valuesAt_append, ihnodes hrest hok', append_nil]
          cases node with
          | leaf leaf =>
            have hne : k ≠ field := by
              intro hk
              subst hk
              obtain ⟨node, children, heq, -⟩ := h _ mem_cons_self
              cases heq
            unfold unresolvedField at hfirst
            split at hfirst
            · cases hfirst
              rfl
            · obtain ⟨written, -, hfirst⟩ := bind_eq_ok hfirst
              cases hfirst
              rw [valuesAt_map, if_neg hne]
          | intermediate node children =>
            unfold unresolvedField at hfirst
            split at hfirst
            · split at hfirst
              · cases hfirst
              · obtain ⟨below, hbelow, hfirst⟩ := bind_eq_ok hfirst
                cases hfirst
                rw [valuesAt_cons]
                split_ifs with hk
                · subst hk
                  obtain ⟨node', children', heq, hunnamed⟩ := h _ mem_cons_self
                  cases heq
                  rw [ih hunnamed hbelow]
                  rfl
                · rfl
            · cases hfirst
              rfl

theorem valuesAt_finishDocument {isRootLevel anc : Bool} {tree : UpdateTree}
    {r : Traversed Fields} {added : Added Fields} (h : Unnamed path tree.children)
    (hok : finishDocument state isRootLevel anc tree r = .ok added) :
    valuesAt path (.document added.values) = valuesAt path (.document r.values) := by
  obtain ⟨missing, hmissing, hok⟩ := bind_eq_ok hok
  cases hok
  unfold handleUnresolvedDocumentFields at hmissing
  split at hmissing
  · cases hmissing
  · cases path with
    | nil => exact h.elim
    | cons field path => rw [valuesAt_append, valuesAt_unresolvedFields h hmissing, append_nil]

/-- The value of a field on an unnamed path. -/
theorem valuesAt_handle {anc : Bool} {tree : UpdateTree} {value : Value}
    {r : Traversed (List Value)} (h : Unnamed (field :: path) tree.children)
    (hfree : ∀ v ∈ valuesAt path value, v.isZeroFree)
    (ih : ∀ {tree fields r}, Unnamed path tree.children →
      (∀ v ∈ valuesAt path (.document fields), v.isZeroFree) →
      updateFields state false anc tree fields = .ok r →
      valuesAt path (.document r.values) = valuesAt path (.document fields))
    (hok : handleCurrentIteratorPosition state false anc tree field value = .ok r) :
    r.values.flatMap (valuesAt path) = valuesAt path value := by
  unfold handleCurrentIteratorPosition at hok
  split at hok
  -- a value that is not on the tree is copied, and no leaf is on the path
  all_goals
    obtain ⟨found, hfound, hok⟩ := bind_eq_ok hok
    split at hok
    · cases hok
      rw [Traversed.copied, flatMap_singleton, valuesAt_appendValue hfree]
    · obtain ⟨_, _, heq, -⟩ := h.of_matchingChild hfound
      cases heq
  · obtain ⟨_, _, heq, hunnamed⟩ := h.of_matchingChild hfound
    cases heq
    obtain ⟨fields', hfields, hok⟩ := bind_eq_ok hok
    obtain ⟨r', hfinish, hok⟩ := bind_eq_ok hok
    cases hok
    rw [flatMap_singleton, valuesAt_finishDocument hunnamed hfinish]
    exact ih hunnamed hfree hfields
  · -- the path leads into an array, where it has no values
    obtain ⟨_, _, _, hunnamed⟩ := h.of_matchingChild hfound
    obtain ⟨elements', helements, hok⟩ := bind_eq_ok hok
    obtain ⟨r', hfinish, hok⟩ := bind_eq_ok hok
    cases hok
    cases path with
    | nil => exact hunnamed.elim
    | cons next path => rfl
  · unfold handleScalar at hok
    split at hok
    · cases hok
    · cases hok
      rw [flatMap_singleton, valuesAt_appendValue hfree]

/-- On an unnamed path the fields of a document stay. -/
theorem valuesAt_updateFields {isRootLevel anc : Bool} {tree : UpdateTree} {fields : Fields}
    {r : Traversed Fields} (h : Unnamed path tree.children)
    (hid : isRootLevel = true → path.head? ≠ some idField)
    (hfree : ∀ v ∈ valuesAt path (.document fields), v.isZeroFree)
    (hok : updateFields state isRootLevel anc tree fields = .ok r) :
    valuesAt path (.document r.values) = valuesAt path (.document fields) := by
  induction path generalizing isRootLevel tree fields r with
  | nil => exact h.elim
  | cons field path ih =>
    induction fields generalizing r with
    | nil =>
      cases hok
      rfl
    | cons f fields ihfields =>
      obtain ⟨k, value⟩ := f
      rw [valuesAt_cons] at hfree ⊢
      obtain ⟨hvalue, hfields⟩ := forall_mem_append.1 hfree
      unfold updateFields at hok
      split at hok
      · rename_i hroot
        obtain ⟨hroot, hk⟩ := Bool.and_eq_true_iff.1 hroot
        have hne : k ≠ field := by
          rw [of_decide_eq_true hk]
          exact fun heq => hid hroot (congrArg some heq.symm)
        rw [if_neg hne, nil_append, ihfields hfields hok]
      · obtain ⟨written, hwritten, hok⟩ := bind_eq_ok hok
        obtain ⟨rest, hrest, hok⟩ := bind_eq_ok hok
        cases hok
        rw [valuesAt_append, ihfields hfields hrest, valuesAt_map]
        split_ifs with hk
        · subst hk
          rw [if_pos rfl] at hvalue
          rw [valuesAt_handle h hvalue (fun hunnamed => ih hunnamed nofun) hwritten]
        · rfl

end Traversal

-- ==== whole updates

section Process

variable [BidLib] {lib : UpdateLib} {spec : PositionalUpdateSpec} {isUpsert : Bool}
  {updateSpec sourceDoc : Fields} {result : Option Fields} {tree : UpdateTree} {newId : Oid}

end Process

/-- An update that sets `a.b`. -/
def setAB : Fields := [(dollarSet, .document [([97, 46, 98], .int32 1)])]

/-- A document with `a.c`, and without `a.b`. -/
def withoutAB : Fields :=
  [(idField, .int32 1), ([97], .document [([99], .int32 2), ([100], .bool true)])]

end DocumentDb
