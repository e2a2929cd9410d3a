/-
Path trees: what a projection specification is parsed into.

The paths of a specification are dotted, nested as documents, or both; the tree has a node
for each segment, in the order in which they are named first. Entries are added one by one
(`buildBsonPathTreeCore`): the walk creates what is missing and fails on a leaf in the
middle of a path, and what happens at the end depends on what is there (`setLeafNode`,
`setIntermediateNode`). Every path is tested before the walk, so all names in a tree are
valid (`mergeBsonPathTree_namesOk`).
-/
import DocumentDb.Bson.Element
import DocumentDb.Bson.Number
import DocumentDb.Bson.Path
import DocumentDb.Bson.Reference
import DocumentDb.Lib.Assoc

namespace DocumentDb

open List Option Dotted

-- ==== the tree

/-- Of the types that `$project` and `$addFields` use. The expression of a field is kept
as the value it is parsed from. -/
inductive BsonPathNode where
  | leafExcluded
  | leafIncluded
  | leafField (value : Value)
  | intermediate (hasExpressionFieldsInChildren : Bool)
      (children : List (Bytes × BsonPathNode))

/-- The children of an intermediate node. -/
abbrev PathNodes := List (Bytes × BsonPathNode)

/-- The node type is `NodeType_LeafField`. -/
def BsonPathNode.isLeafField : BsonPathNode → Bool
  | .leafField _ => true
  | _ => false

/-- The node type is `NodeType_LeafExcluded`. -/
def BsonPathNode.isLeafExcluded : BsonPathNode → Bool
  | .leafExcluded => true
  | _ => false

-- ==== field paths

/-- `StringViewContainsDbRefsField`: `$id`, `$ref` or `$db`. -/
def stringViewContainsDbRefsField (field : Bytes) : Bool :=
  field ∈ ([[36, 105, 100], [36, 114, 101, 102], [36, 100, 98]] : List Bytes)

def ensureValidFieldPathString (path : Bytes) : Bool :=
  (segments dot path).all fun field =>
    field ≠ [] && (field.head? ≠ some dollar
      || stringViewContainsDbRefsField field)

/-- A document that starts with a name like `$add`. -/
def Value.isOperator : Value → Bool
  | .document ((k, _) :: _) => 1 < k.length && k.head? = some dollar
  | _ => false

-- ==== the context

structure InclusionExclusion where
  hasInclusion : Bool := false
  hasExclusion : Bool := false

/-- The part that is only read, with the argument `forceLeafExpression`. -/
structure BuildBsonPathTreeContext where
  forceLeafExpression : Bool
  allowInclusionExclusion : Bool
  skipIfAlreadyExists : Bool
  /-- Whether `ParseAggregationExpressionData` accepts a value; it is not
  asked with `skipParseAggregationExpressions`. -/
  parses : Value → Bool
  /-- `postProcessLeafNodeFunc`: the name and the data of a new leaf. -/
  postProcessLeafNode : Bytes → BsonPathNode → InclusionExclusion →
    BsonPathNode × InclusionExclusion

/-- The part that a build changes: the flags of the context, and those of its
`pathTreeState`. -/
structure BuildState where
  context : InclusionExclusion := {}
  pathTreeState : InclusionExclusion := {}

/-- What a step of the build makes: nodes, whether an expression was added,
and the state. -/
structure Built (α : Type) where
  nodes : α
  hasField : Bool
  state : BuildState

section Build

variable [BidLib]

/-- `BsonValueAsDouble(value) != 0`. A decimal out of range is an error. -/
def bsonValueIsNonZero : Value → Option Bool
  | .bool b => some b
  | .double bits => some (binary64Num bits ≠ .fin 0)
  | .int32 n => some (n ≠ 0)
  | .int64 n => some (n ≠ 0)
  | .decimal128 d =>
    if d.isNaN then some true
    else if isDecimal128InDoubleRange d then
      some (binary64Num (bsonDecimal128AsDouble d) ≠ .fin 0)
    else none
  | .dateTime ms => some (ms ≠ 0)
  | _ => some false

def determineChildNodeType (value : Value) (forceLeafExpression : Bool) : Option BsonPathNode :=
  if forceLeafExpression || !value.isNumberOrBool then
    some (.leafField value)
  else
    (bsonValueIsNonZero value).map fun included =>
      if included then .leafIncluded else .leafExcluded

def determineChildNodeTypeWithContext (value : Value)
    (forceLeafExpression : Bool) (state : BuildState) : Option (BsonPathNode × BuildState) :=
  (determineChildNodeType value forceLeafExpression).map fun node =>
    (node,
      { state with
        context :=
          { hasInclusion :=
              state.context.hasInclusion || !node.isLeafExcluded
            hasExclusion := state.context.hasExclusion || node.isLeafExcluded } })

variable (context : BuildBsonPathTreeContext)

/-- The type of the leaf of an entry. The top level `_id` does not count as
an inclusion or an exclusion. -/
def leafNodeType (isTopLevel : Bool)
    (path : Bytes) (value : Value) (state : BuildState) : Option (BsonPathNode × BuildState) :=
  if path = idField ∧ isTopLevel then
    (determineChildNodeType value context.forceLeafExpression).map (·, state)
  else
    determineChildNodeTypeWithContext value (context.forceLeafExpression || value.isOperator) state

def ensureValidInclusionExclusion (state : BuildState) : Bool :=
  context.allowInclusionExclusion
    || !(state.context.hasExclusion && state.context.hasInclusion)

-- ==== adding a path

/-- Walk along a path and replace what is at its end. A leaf before the end is a
collision. The flag of the nodes on the way is set as for a new node, and by what comes
back from the end. -/
def traverseDottedPathAndGetNode (hasFieldForIntermediateNode : Bool)
    (atEnd : Option BsonPathNode → Option (Built BsonPathNode)) :
    List Bytes → PathNodes → Option (Built PathNodes)
  | [], _ => none
  | [field], tree =>
    (atEnd (Assoc.get field tree)).map fun r =>
      ⟨Assoc.set field r.nodes tree, r.hasField, r.state⟩
  | field :: path, tree =>
    match Assoc.get field tree with
    | none =>
      (traverseDottedPathAndGetNode hasFieldForIntermediateNode atEnd path []).map fun r =>
        ⟨Assoc.set field (.intermediate (hasFieldForIntermediateNode || r.hasField) r.nodes)
          tree, r.hasField, r.state⟩
    | some (.intermediate hasFields children) =>
      (traverseDottedPathAndGetNode hasFieldForIntermediateNode atEnd path children).map fun r =>
        ⟨Assoc.set field
          (.intermediate (hasFields || hasFieldForIntermediateNode || r.hasField) r.nodes)
          tree, r.hasField, r.state⟩
    | some _ => none

/-- The end of the path of a leaf: `ValidateAndSetLeafNodeData` and the hook
of the context. An existing leaf is replaced. -/
def setLeafNode (field : Bytes) (leaf : BsonPathNode) (value : Value) (state : BuildState) :
    Option BsonPathNode → Option (Built BsonPathNode)
  | some node =>
    if context.skipIfAlreadyExists then some ⟨node, false, state⟩
    else match node with
      | .intermediate _ _ => none
      | _ => newLeaf
  | none => newLeaf
where
  newLeaf :=
    if context.parses value then
      let r := context.postProcessLeafNode field leaf state.pathTreeState
      some ⟨r.1, leaf.isLeafField, { state with pathTreeState := r.2 }⟩
    else none

/-- The end of the path of a nested specification, which is built below what
is there. -/
def setIntermediateNode (state : BuildState) (build : PathNodes → Option (Built PathNodes)) :
    Option BsonPathNode → Option (Built BsonPathNode)
  | some (.intermediate hasFields children) =>
    if context.skipIfAlreadyExists then
      some ⟨.intermediate (hasFields || context.forceLeafExpression) children, false, state⟩
    else (build children).map fun r =>
      ⟨.intermediate (hasFields || context.forceLeafExpression || r.hasField) r.nodes,
        r.hasField, r.state⟩
  | some _ => none
  | none =>
    (build []).map fun r =>
      ⟨.intermediate (context.forceLeafExpression || r.hasField) r.nodes, r.hasField, r.state⟩

def addLeaf (isTopLevel : Bool)
    (path : Bytes) (value : Value) (tree : PathNodes) (state : BuildState) :
    Option (Built PathNodes) := do
  let (leaf, state) ← leafNodeType context isTopLevel path value state
  if ensureValidFieldPathString path && ensureValidInclusionExclusion context state then
    traverseDottedPathAndGetNode context.forceLeafExpression
      (setLeafNode context ((segments dot path).getLastD []) leaf value state)
      (segments dot path) tree
  else none

def addIntermediate (path : Bytes) (build : PathNodes → Option (Built PathNodes)) (tree : PathNodes)
    (state : BuildState) : Option (Built PathNodes) :=
  if ensureValidFieldPathString path && ensureValidInclusionExclusion context state then
    traverseDottedPathAndGetNode context.forceLeafExpression
      (setIntermediateNode context state build) (segments dot path) tree
  else none

mutual

/-- The loop over the entries. -/
def buildBsonPathTreeCore (context : BuildBsonPathTreeContext) (isTopLevel : Bool) :
    Fields → PathNodes → BuildState → Option (Built PathNodes)
  | [], tree, state => some ⟨tree, false, state⟩
  | (path, value) :: spec, tree, state => do
    let r ← addEntry context isTopLevel path value tree state
    let rs ← buildBsonPathTreeCore context isTopLevel spec r.nodes r.state
    some ⟨rs.nodes, r.hasField || rs.hasField, rs.state⟩

/-- The body of the loop. The tree ends at a value that is not a document, or
at an operator. -/
def addEntry (context : BuildBsonPathTreeContext) (isTopLevel : Bool) (path : Bytes) :
    Value → PathNodes → BuildState → Option (Built PathNodes)
  | .document spec, tree, state =>
    if (Value.document spec).isOperator then
      addLeaf context isTopLevel path (.document spec) tree state
    else
      addIntermediate context path
        (fun children => buildBsonPathTreeCore context false spec children state) tree state
  | value, tree, state => addLeaf context isTopLevel path value tree state

end

/-- `BuildBsonPathTree`, and `MergeBsonPathTree` into a tree that is there. -/
def mergeBsonPathTree (root : PathNodes)
    (pathSpecification : Fields) : Option (Built PathNodes) :=
  buildBsonPathTreeCore context true pathSpecification root {}

end Build

-- ==== the names in a tree

/-- The test of `EnsureValidFieldPathString` for one field. -/
def IsValidField (field : Bytes) : Prop :=
  field ≠ [] ∧ (field.head? ≠ some dollar ∨ stringViewContainsDbRefsField field = true)

/-- All names below a node are valid. -/
inductive BsonPathNode.NamesOk : BsonPathNode → Prop
  | leafExcluded : NamesOk .leafExcluded
  | leafIncluded : NamesOk .leafIncluded
  | leafField {value} : NamesOk (.leafField value)
  | intermediate {hasFields children}
      (hfields : ∀ child ∈ children, IsValidField child.1)
      (hnodes : ∀ child ∈ children, NamesOk child.2) :
      NamesOk (.intermediate hasFields children)

/-- The hook of the context leaves no invalid name. -/
def BuildBsonPathTreeContext.KeepsNames (context : BuildBsonPathTreeContext) : Prop :=
  ∀ name leaf flags, leaf.NamesOk → (context.postProcessLeafNode name leaf flags).1.NamesOk

/-- All names in a tree are valid. -/
def TreeNamesOk (tree : PathNodes) : Prop :=
  ∀ child ∈ tree, IsValidField child.1 ∧ child.2.NamesOk

section Names

variable {node : BsonPathNode} {tree : PathNodes} {context : BuildBsonPathTreeContext}
  {state : BuildState} {isTopLevel hasFields : Bool}

theorem treeNamesOk_nil : TreeNamesOk [] := fun _ hchild => absurd hchild not_mem_nil

theorem TreeNamesOk.of_intermediate (h : (BsonPathNode.intermediate hasFields tree).NamesOk) :
    TreeNamesOk tree := by
  cases h with
  | intermediate hfields hnodes => exact fun child hchild => ⟨hfields child hchild, hnodes child hchild⟩

theorem TreeNamesOk.intermediate (h : TreeNamesOk tree) :
    (BsonPathNode.intermediate hasFields tree).NamesOk :=
  .intermediate (fun child hchild => (h child hchild).1) fun child hchild => (h child hchild).2

theorem TreeNamesOk.set {field : Bytes} (h : TreeNamesOk tree) (hfield : IsValidField field)
    (hnode : node.NamesOk) : TreeNamesOk (Assoc.set field node tree) := by
  intro child hchild
  rcases Assoc.mem_set hchild with rfl | hold
  · exact ⟨hfield, hnode⟩
  · exact h child hold

theorem isValidField_of_ensureValid {path : Bytes} (h : ensureValidFieldPathString path = true) :
    ∀ field ∈ segments dot path, IsValidField field := by
  intro field hfield
  have hvalid := all_eq_true.1 h field hfield
  simpa [IsValidField] using hvalid

/-- A walk adds the segments of its path, and at the end what is put there. -/
theorem TreeNamesOk.traverse {path : List Bytes} {hasField : Bool}
    {atEnd : Option BsonPathNode → Option (Built BsonPathNode)} {r : Built PathNodes}
    (htree : TreeNamesOk tree) (hpath : ∀ field ∈ path, IsValidField field)
    (hend : ∀ {existing built}, (∀ node ∈ existing, node.NamesOk) →
      atEnd existing = some built → built.nodes.NamesOk)
    (hok : traverseDottedPathAndGetNode hasField atEnd path tree = some r) :
    TreeNamesOk r.nodes := by
  induction path generalizing tree r with
  | nil => cases hok
  | cons field path ih =>
    obtain ⟨hfield, hrest⟩ := forall_mem_cons.1 hpath
    cases path with
    | nil =>
      obtain ⟨built, hbuilt, rfl⟩ := map_eq_some_iff.1 hok
      refine htree.set hfield (hend (fun node hnode => ?_) hbuilt)
      exact (htree _ (Assoc.mem_of_get hnode)).2
    | cons next path =>
      unfold traverseDottedPathAndGetNode at hok
      split at hok
      · obtain ⟨below, hwalk, rfl⟩ := map_eq_some_iff.1 hok
        exact htree.set hfield (ih treeNamesOk_nil hrest hwalk).intermediate
      · rename_i hasFields children hget
        obtain ⟨below, hwalk, rfl⟩ := map_eq_some_iff.1 hok
        have hchildren : TreeNamesOk children := .of_intermediate (htree _ (Assoc.mem_of_get hget)).2
        exact htree.set hfield (ih hchildren hrest hwalk).intermediate
      · cases hok

theorem setLeafNode_namesOk {name : Bytes} {leaf : BsonPathNode} {value : Value}
    {existing : Option BsonPathNode} {built : Built BsonPathNode}
    (hhook : context.KeepsNames) (hleaf : leaf.NamesOk)
    (hexisting : ∀ node ∈ existing, node.NamesOk)
    (hok : setLeafNode context name leaf value state existing = some built) :
    built.nodes.NamesOk := by
  have hnew : setLeafNode.newLeaf context name leaf value state = some built →
      built.nodes.NamesOk := by
    intro hok
    unfold setLeafNode.newLeaf at hok
    split at hok
    · cases hok
      exact hhook _ _ _ hleaf
    · cases hok
  unfold setLeafNode at hok
  split at hok
  · rename_i node
    split at hok
    · cases hok
      exact hexisting node rfl
    · split at hok
      · cases hok
      · exact hnew hok
  · exact hnew hok

theorem setIntermediateNode_namesOk {build : PathNodes → Option (Built PathNodes)}
    {existing : Option BsonPathNode} {built : Built BsonPathNode}
    (hbuild : ∀ {children r}, TreeNamesOk children → build children = some r → TreeNamesOk r.nodes)
    (hexisting : ∀ node ∈ existing, node.NamesOk)
    (hok : setIntermediateNode context state build existing = some built) :
    built.nodes.NamesOk := by
  unfold setIntermediateNode at hok
  split at hok
  · have hchildren := TreeNamesOk.of_intermediate (hexisting _ rfl)
    split at hok
    · cases hok
      exact hchildren.intermediate
    · obtain ⟨r, hr, rfl⟩ := map_eq_some_iff.1 hok
      exact (hbuild hchildren hr).intermediate
  · cases hok
  · obtain ⟨r, hr, rfl⟩ := map_eq_some_iff.1 hok
    exact (hbuild treeNamesOk_nil hr).intermediate

variable [BidLib] {r : Built PathNodes}

/-- An entry that is no nested specification ends in a leaf. -/
theorem leafNodeType_namesOk {path : Bytes} {value : Value} {typed : BsonPathNode × BuildState}
    (hok : leafNodeType context isTopLevel path value state = some typed) : typed.1.NamesOk := by
  have htype : ∀ {force node}, determineChildNodeType value force = some node → node.NamesOk := by
    intro force node h
    unfold determineChildNodeType at h
    split at h
    · cases h
      exact .leafField
    · obtain ⟨included, -, rfl⟩ := map_eq_some_iff.1 h
      split
      · exact .leafIncluded
      · exact .leafExcluded
  unfold leafNodeType at hok
  split at hok
  · obtain ⟨node, h, rfl⟩ := map_eq_some_iff.1 hok
    exact htype h
  · obtain ⟨node, h, rfl⟩ := map_eq_some_iff.1 hok
    exact htype h

theorem build_namesOk {spec : Fields}
    (hentries : ∀ entry ∈ spec, ∀ {isTopLevel path tree state r}, TreeNamesOk tree →
      addEntry context isTopLevel path entry.2 tree state = some r → TreeNamesOk r.nodes)
    (htree : TreeNamesOk tree)
    (hok : buildBsonPathTreeCore context isTopLevel spec tree state = some r) :
    TreeNamesOk r.nodes := by
  induction spec generalizing tree state r with
  | nil =>
    cases hok
    exact htree
  | cons entry spec ih =>
    obtain ⟨hentry, hentries⟩ := forall_mem_cons.1 hentries
    obtain ⟨first, hfirst, hok⟩ := bind_eq_some_iff.1 hok
    obtain ⟨rest, hrest, hok⟩ := bind_eq_some_iff.1 hok
    have hnodes : TreeNamesOk rest.nodes := ih hentries (hentry htree hfirst) hrest
    cases hok
    exact hnodes

variable (hhook : context.KeepsNames)

include hhook

theorem addEntry_namesOk (value : Value) : ∀ {isTopLevel path tree state r}, TreeNamesOk tree →
    addEntry context isTopLevel path value tree state = some r → TreeNamesOk r.nodes := by
  have hleaf : ∀ {isTopLevel path value tree state r}, TreeNamesOk tree →
      addLeaf context isTopLevel path value tree state = some r → TreeNamesOk r.nodes := by
    intro isTopLevel path value tree state r htree hok
    obtain ⟨typed, htyped, hok⟩ := bind_eq_some_iff.1 hok
    dsimp only at hok
    split at hok
    · rename_i hvalid
      exact htree.traverse (isValidField_of_ensureValid (Bool.and_eq_true_iff.1 hvalid).1)
        (setLeafNode_namesOk hhook (leafNodeType_namesOk htyped)) hok
    · cases hok
  induction value using Value.induction with
  | document spec ih =>
    intro isTopLevel path tree state r htree hok
    unfold addEntry at hok
    split at hok
    · exact hleaf htree hok
    · unfold addIntermediate at hok
      split at hok
      · rename_i hvalid
        exact htree.traverse (isValidField_of_ensureValid (Bool.and_eq_true_iff.1 hvalid).1)
          (setIntermediateNode_namesOk (build_namesOk ih)) hok
      · cases hok
  | array | codeWScope =>
    intro _ _ _ _ _ htree hok
    exact hleaf htree hok
  | scalar value hvalue =>
    cases value with
    | document | array | codeWScope => cases hvalue
    | _ =>
      intro _ _ _ _ _ htree hok
      exact hleaf htree hok

/-- In the tree of a specification that is accepted no name is empty, and none starts with
a dollar that is not one of a DBRef, at whatever depth and however the paths are written. -/
theorem mergeBsonPathTree_namesOk {root : PathNodes} {spec : Fields} (hroot : TreeNamesOk root)
    (hok : mergeBsonPathTree context root spec = some r) : TreeNamesOk r.nodes :=
  build_namesOk (fun entry _ => addEntry_namesOk hhook entry.2) hroot hok

end Names

/-- A `$project` without a hook. -/
def projectContext : BuildBsonPathTreeContext :=
  ⟨false, false, false, fun _ => true, fun _ leaf flags => (leaf, flags)⟩

/-- An inclusion of `a.b`. -/
theorem inclusion_namesOk : ∃ r, @mergeBsonPathTree BidLib.reference projectContext []
    [([97, dot, 98], .int32 1)] = some r ∧ TreeNamesOk r.nodes :=
  ⟨_, rfl, @mergeBsonPathTree_namesOk projectContext BidLib.reference _ (fun _ _ _ h => h) []
    [([97, dot, 98], .int32 1)] treeNamesOk_nil rfl⟩

end DocumentDb
