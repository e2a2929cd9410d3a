/-
Update trees: what the operators of an update are parsed into.

The dotted paths of all operators go into one tree with a node for each segment. A leaf
holds the writer of its operator and a value; an intermediate node remembers whether there
is a field below it, whether its children are positional, and, for `$rename`, the other end.

Entries are added one by one. The walk creates what is missing and stops at a leaf
(`traverseDottedPathAndGetOrAddNode`). Whatever is there already is a conflict, except for
`_id`, which the tree has from the start (`handleNodeExistsInTree`). Then the flags of all
nodes above are set (`updateParentDataInTree`). The path `a.` is cut like `a`.
-/
import DocumentDb.Bson.Path
import DocumentDb.Lib.Assoc

namespace DocumentDb

open Dotted

-- ==== errors

/-- The errors of an update, with what their messages name. -/
inductive UpdateError where
  | notADocument (operator : Bytes) (value : Value)
  | unknownModifier (operator : Bytes)
  | emptyUpdatePath
  | emptyFieldName (path : Bytes)
  | arrayFilterInFirstPosition (path : Bytes)
  | positionalInFirstPosition (path : Bytes)
  | noArrayFilter (identifier : Bytes)
  | positionalQuery
  | pathConflict (updatePath conflictPath : Bytes)
  | renameTargetNotAString
  | renameSourceDynamic (path : Bytes)
  | renameTargetDynamic (path : Bytes)
  | idRemovedFromTree
  | idNotScalar
  | idModified
  | idInvalid (value : Value)
  | cannotCreateField (field : Bytes) (value : Value)
  | positionalOnNonArray (parent field : Bytes) (value : Value)
  | positionalWithoutMatch
  | invalidArrayIndexPath (field : Bytes)
  | dollarPathNotAllowed (field path : Bytes)
  | pathMustExist (field : Bytes)
  | invalidArrayElement
  | cannotBackfillArray
  | operatorArgument (operator : Bytes) (value : Value)
  | operatorTarget (operator field : Bytes) (value : Value)
  | arithmeticFailed (operator : Bytes) (value : Value)
  | renameOfArrayElement

-- ==== writers

structure UpdateSetValueState where
  fieldPath : Bytes
  relativePath : Bytes
  isArray : Bool
  hasArrayAncestors : Bool

/-- The matched index of `$` depends on the source document only; it is not cached here.
-/
structure CurrentDocumentState where
  documentId : Option Value
  isUpsert : Bool
  sourceDocument : Fields

/-- What an update operator did with its `UpdateOperatorWriter`: the values
that it wrote, one after the other, and `modified`. -/
structure Written where
  values : List Value
  modified : Bool

/-- Nothing, the source of a `$rename`, or the compiled expression of a `$pull`. -/
inductive UpdateNodeContext where
  | none
  | renameSource (path : Bytes)
  | pull (isMatch : Value → Bool)

/-- From the existing value, the value of the update, the context and the two states. -/
abbrev WriteUpdatedValuesFunc :=
  Option Value → Value → UpdateNodeContext → UpdateSetValueState →
    CurrentDocumentState → Except UpdateError Written

-- ==== the tree

/-- A compiled expression is the function that it evaluates. -/
inductive PositionalData where
  | notPositional
  | all
  | queryFilter (matchedIndex : Fields → Int)
  | arrayFilter (expression : Value → Bool)

/-- The type is not `PositionalType_None`. -/
def PositionalData.isPositional : PositionalData → Bool
  | .notPositional => false
  | _ => true

/-- The types of a leaf. -/
inductive LeafType where
  | field
  | included
  | excluded
  deriving DecidableEq

structure BsonUpdateLeafNode where
  nodeType : LeafType
  relativePath : Bytes
  writeFunc : WriteUpdatedValuesFunc
  value : Value
  updateNodeContext : UpdateNodeContext
  positionalData : PositionalData

/-- What is read of the other end of a `$rename`. -/
structure RenameNode where
  nodeType : LeafType
  relativePath : Bytes

/-- `BsonUpdateIntermediatePathNode` without its children. -/
structure BsonUpdateIntermediateData where
  field : Bytes := []
  relativePath : Bytes := []
  positionalData : PositionalData := .notPositional
  hasExpressionFieldsInChildren : Bool := false
  hasPositionalChildren : Bool := false
  hasIntermediateIncludeChildren : Bool := false
  sourceOrTargetNodeForRenameOP : Option RenameNode := none

inductive BsonUpdateNode where
  | leaf (node : BsonUpdateLeafNode)
  | intermediate (node : BsonUpdateIntermediateData)
      (children : List (Bytes × BsonUpdateNode))

/-- The children of a node in the order in which the update names them
first. -/
abbrev UpdateNodes := List (Bytes × BsonUpdateNode)

structure UpdateTree where
  root : BsonUpdateIntermediateData := {}
  children : UpdateNodes := []

/-- `GetPositionalData`. -/
def BsonUpdateNode.positionalData : BsonUpdateNode → PositionalData
  | .leaf node => node.positionalData
  | .intermediate node _ => node.positionalData

/-- `GetRelativePathFromNode`. -/
def BsonUpdateNode.relativePath : BsonUpdateNode → Bytes
  | .leaf node => node.relativePath
  | .intermediate node _ => node.relativePath

-- ==== creating nodes

/-- The array filters by their identifiers, and what `$` is evaluated with. -/
structure PositionalUpdateSpec where
  arrayFilters : List (Bytes × (Value → Bool)) := []
  processedQuerySpec : Option (Fields → Int) := none

structure BsonUpdateTreeState where
  updateFunc : WriteUpdatedValuesFunc
  updateFuncState : UpdateNodeContext
  positionalSpec : PositionalUpdateSpec

/-- `PositionalType_AllString`: `$[]`. -/
def positionalAllString : Bytes := [36, 91, 93]

/-- `PositionalFilterString`: `$`. -/
def positionalFilterString : Bytes := [36]

/-- The identifier of a segment `$[identifier]`. -/
def arrayFilterIdentifier? (path : Bytes) : Option Bytes :=
  if 3 < path.length ∧ path.take 2 = [36, 91] ∧ path.getLast? = some 93 then
    some ((path.drop 2).dropLast)
  else none

def getNodePositionalDataFromPath (path : Bytes)
    (spec : PositionalUpdateSpec) : Except UpdateError PositionalData :=
  if path = positionalAllString then .ok .all
  else if path = positionalFilterString then
    match spec.processedQuerySpec with
    | some matchedIndex => .ok (.queryFilter matchedIndex)
    | none => .error .positionalQuery
  else
    match arrayFilterIdentifier? path with
    | some identifier =>
      match Assoc.get identifier spec.arrayFilters with
      | some expression => .ok (.arrayFilter expression)
      | none => .error (.noArrayFilter identifier)
    | none => .ok .notPositional

def validateNodePathInTree (path relativePath : Bytes) : Except UpdateError Unit :=
  if path = [] then .error (.emptyFieldName relativePath) else .ok ()

/-- With the type and the value the node gets. -/
def createUpdateLeafNode (nodeType : LeafType) (value : Value)
    (state : BsonUpdateTreeState) (relativePath path : Bytes) :
    Except UpdateError BsonUpdateLeafNode := do
  validateNodePathInTree path relativePath
  let positionalData ← getNodePositionalDataFromPath path state.positionalSpec
  return ⟨nodeType, relativePath, state.updateFunc, value, state.updateFuncState, positionalData⟩

def createUpdateIntermediateNode (state : BsonUpdateTreeState) (relativePath path : Bytes) :
    Except UpdateError BsonUpdateIntermediateData := do
  validateNodePathInTree path relativePath
  let positionalData ← getNodePositionalDataFromPath path state.positionalSpec
  return { field := path, relativePath, positionalData }

-- ==== along a path

/-- The segments that the loop of `TraverseDottedPathAndGetNode` visits: it
ends when nothing is left behind a dot. -/
def pathSegments (path : Bytes) : List Bytes :=
  if path.getLast? = some dot then (segments dot path).dropLast
  else segments dot path

/-- `TrySetIntermediateNodeData`. -/
def BsonUpdateIntermediateData.setHasField (node : BsonUpdateIntermediateData)
    (hasField : Bool) : BsonUpdateIntermediateData :=
  { node with
    hasExpressionFieldsInChildren := node.hasExpressionFieldsInChildren || hasField }

/-- `TraverseDottedPathAndGetOrAddNodeCore`: the node that was there already,
if there was one, and the new children. -/
def traverseDottedPathAndGetOrAddNode (state : BsonUpdateTreeState)
    (relativePath : Bytes) (nodeType : LeafType) (value : Value) :
    List Bytes → UpdateNodes → Except UpdateError (Option BsonUpdateNode × UpdateNodes)
  | [], tree => .ok (none, tree)
  | [field], tree =>
    match Assoc.get field tree with
    | some node => .ok (some node, tree)
    | none => do
      let leaf ← createUpdateLeafNode nodeType value state relativePath field
      return (none, Assoc.set field (.leaf leaf) tree)
  | field :: path, tree =>
    match Assoc.get field tree with
    | some (.leaf leaf) => .ok (some (.leaf leaf), tree)
    | some (.intermediate node children) => do
      let (existing, children) ← traverseDottedPathAndGetOrAddNode state
        relativePath nodeType value path children
      return (existing,
        Assoc.set field (.intermediate (node.setHasField (nodeType = .field)) children) tree)
    | none => do
      let node ← createUpdateIntermediateNode state relativePath field
      let (existing, children) ← traverseDottedPathAndGetOrAddNode state
        relativePath nodeType value path []
      return (existing,
        Assoc.set field (.intermediate (node.setHasField (nodeType = .field)) children) tree)

/-- A conflict, unless the path is `_id` and there is no nested path. Then the leaf is
replaced by a field. -/
def handleNodeExistsInTree (existing : BsonUpdateNode) (updatePath : Bytes)
    (value : Value) (state : BsonUpdateTreeState) (tree : UpdateNodes) :
    Except UpdateError UpdateNodes :=
  match existing with
  | .intermediate _ _ => .error (.pathConflict updatePath updatePath)
  | .leaf leaf =>
    if updatePath = idField then do
      let leaf ← createUpdateLeafNode .field value state updatePath idField
      return Assoc.set idField (.leaf leaf) tree
    else .error (.pathConflict updatePath leaf.relativePath)

/-- Add a leaf and resolve what is there already; `replacement` is what a
reset of `_id` takes. -/
def addLeafNode (state : BsonUpdateTreeState) (path : Bytes) (nodeType : LeafType) (value : Value)
    (replacement : Value × BsonUpdateTreeState) (tree : UpdateNodes) :
    Except UpdateError UpdateNodes := do
  let (existing, tree) ← traverseDottedPathAndGetOrAddNode state path nodeType
    value (pathSegments path) tree
  match existing with
  | none => return tree
  | some existing =>
    handleNodeExistsInTree existing path replacement.1 replacement.2 tree

-- ==== flags of the parents

/-- The part of `UpdateParentDataInTree` for one parent. `above` are the names
above the child. -/
def setParentData (markAsIncludeAncestor : Bool)
    (renameNode : Option RenameNode) (above : List Bytes) (field : Bytes)
    (child : BsonUpdateNode) (parent : BsonUpdateIntermediateData) (siblings : UpdateNodes) :
    Except UpdateError BsonUpdateIntermediateData :=
  let hasPositionalChildren := parent.hasPositionalChildren || child.positionalData.isPositional
  if hasPositionalChildren && siblings.any (fun s => !s.2.positionalData.isPositional) then
    .error (.pathConflict child.relativePath (if above = [] then field else join dot above))
  else
    .ok { parent with
      sourceOrTargetNodeForRenameOP := renameNode
      hasPositionalChildren
      hasIntermediateIncludeChildren :=
        parent.hasIntermediateIncludeChildren || markAsIncludeAncestor }

/-- Set the flags of all nodes above the end of a path, from below. Also tells whether
there is a positional node. -/
def updateParentDataInTree (markAsIncludeAncestor : Bool)
    (renameNode : Option RenameNode) (above : List Bytes) :
    List Bytes → UpdateTree → Except UpdateError (Bool × UpdateTree)
  | [], tree => .ok (false, tree)
  | field :: path, tree =>
    match Assoc.get field tree.children with
    | none => .ok (false, tree)
    | some (.leaf leaf) => do
      let root ← setParentData markAsIncludeAncestor renameNode above field
        (.leaf leaf) tree.root tree.children
      return (leaf.positionalData.isPositional, { tree with root })
    | some (.intermediate node children) => do
      let (positional, below) ← updateParentDataInTree markAsIncludeAncestor
        renameNode (above ++ [field]) path ⟨node, children⟩
      let child := .intermediate below.root below.children
      let siblings := Assoc.set field child tree.children
      let root ← setParentData markAsIncludeAncestor renameNode above field child tree.root siblings
      return (positional || node.positionalData.isPositional, ⟨root, siblings⟩)

-- ==== operators

def validateSpecPathForUpdateTree (updatePath : Bytes) : Except UpdateError Unit :=
  if updatePath = [] then .error .emptyUpdatePath
  else if updatePath.getLast? = some dot then
    .error (.emptyFieldName updatePath)
  else
    match segments dot updatePath with
    | first :: _ =>
      if first = positionalAllString then
        .error (.arrayFilterInFirstPosition updatePath)
      else if first = positionalFilterString then
        .error (.positionalInFirstPosition updatePath)
      else .ok ()
    | [] => .ok ()

/-- The functions that add an entry of an operator to the tree. -/
inductive UpdateTreeFunc where
  | basic
  | unset
  | setOnInsert
  | rename (renameSource : WriteUpdatedValuesFunc)

structure MongoUpdateOperatorSpec where
  operatorName : Bytes
  updateTreeFunc : UpdateTreeFunc
  updateWriterFunc : WriteUpdatedValuesFunc
  updateWriterGetState : Value → Except UpdateError UpdateNodeContext := fun _ => .ok .none

variable (spec : PositionalUpdateSpec) (operator : MongoUpdateOperatorSpec) (path : Bytes)

/-- One entry of `HandleBasicUpdateTree`. -/
def handleBasicUpdateTree (value : Value) (tree : UpdateTree) : Except UpdateError UpdateTree := do
  validateSpecPathForUpdateTree path
  let context ← operator.updateWriterGetState value
  let state : BsonUpdateTreeState := ⟨operator.updateWriterFunc, context, spec⟩
  let children ← addLeafNode state path .field value (value, state) tree.children
  let (_, tree) ← updateParentDataInTree false none [] (pathSegments path) { tree with children }
  return tree

/-- One entry of `HandleUnsetUpdateTree`. Neither the path is validated nor
are the flags of the parents set. -/
def handleUnsetUpdateTree (value : Value) (tree : UpdateTree) : Except UpdateError UpdateTree := do
  let state : BsonUpdateTreeState := ⟨operator.updateWriterFunc, .none, spec⟩
  let children ← addLeafNode state path .excluded (.int32 0) (value, state) tree.children
  return { tree with children }

/-- What a `$rename` keeps of an end: its leaf, which is a field after a reset
of `_id`. -/
def renameNodeAt (tree : UpdateNodes) (nodeType : LeafType) : RenameNode :=
  match Assoc.get idField tree with
  | some (.leaf leaf) =>
    if path = idField then ⟨leaf.nodeType, path⟩ else ⟨nodeType, path⟩
  | _ => ⟨nodeType, path⟩

/-- One entry of `HandleRenameUpdateTree`: the source is taken away, the
target gets the value of the source. A target `_id` is reset with the state of
the source. -/
def handleRenameUpdateTree (renameSource : WriteUpdatedValuesFunc) (path : Bytes) (value : Value)
    (tree : UpdateTree) : Except UpdateError UpdateTree := do
  validateSpecPathForUpdateTree path
  let sourceState : BsonUpdateTreeState := ⟨renameSource, .none, spec⟩
  let children ← addLeafNode sourceState path .excluded (.int32 0)
    (.int32 0, sourceState) tree.children
  match value with
  | .utf8 target => do
    validateSpecPathForUpdateTree target
    let targetState : BsonUpdateTreeState := ⟨operator.updateWriterFunc, .renameSource path, spec⟩
    let children ← addLeafNode targetState target .included (.int32 1) (value, sourceState) children
    let (dynamic, tree) ← updateParentDataInTree false
      (some (renameNodeAt target children .included)) [] (pathSegments path)
      { tree with children }
    if dynamic then throw (.renameSourceDynamic path)
    let (dynamic, tree) ← updateParentDataInTree true
      (some (renameNodeAt path children .excluded)) [] (pathSegments target)
      tree
    if dynamic then throw (.renameTargetDynamic target)
    return tree
  | _ => throw .renameTargetNotAString

/-- `updateTreeFunc` for one entry of an operator. -/
def addUpdateEntry (isUpsert : Bool)
    (operator : MongoUpdateOperatorSpec) (path : Bytes) (value : Value)
    (tree : UpdateTree) : Except UpdateError UpdateTree :=
  match operator.updateTreeFunc with
  | .basic => handleBasicUpdateTree spec operator path value tree
  | .unset => handleUnsetUpdateTree spec operator path value tree
  | .setOnInsert =>
    if isUpsert then handleBasicUpdateTree spec operator path value tree
    else .ok tree
  | .rename renameSource =>
    handleRenameUpdateTree spec operator renameSource path value tree

/-- The null pointer in the leaf of `_id`, which is not called. -/
def noWriter : WriteUpdatedValuesFunc := fun _ _ _ _ _ => .ok ⟨[], false⟩

/-- The tree before the first operator: `_id` as an excluded leaf. -/
def UpdateTree.initial : UpdateTree :=
  { children := [(idField, .leaf ⟨.excluded, idField, noWriter, .int32 0, .none, .notPositional⟩)] }

def addUpdateEntries (spec : PositionalUpdateSpec) (isUpsert : Bool)
    (operator : MongoUpdateOperatorSpec) : Fields → UpdateTree → Except UpdateError UpdateTree
  | [], tree => .ok tree
  | (path, value) :: entries, tree => do
    let tree ← addUpdateEntry spec isUpsert operator path value tree
    addUpdateEntries spec isUpsert operator entries tree

/-- The loop of `ReadUpdateSpecAndUpdateTree` over the operators of an
update. -/
def readUpdateSpecAndUpdateTree (operators : List MongoUpdateOperatorSpec)
    (spec : PositionalUpdateSpec) (isUpsert : Bool) :
    Fields → UpdateTree → Except UpdateError UpdateTree
  | [], tree => .ok tree
  | (name, value) :: updateSpec, tree =>
    match operators.find? (·.operatorName = name) with
    | none => .error (.unknownModifier name)
    | some operator =>
      match value with
      | .document entries => do
        let tree ← addUpdateEntries spec isUpsert operator entries tree
        readUpdateSpecAndUpdateTree operators spec isUpsert updateSpec tree
      | _ => .error (.notADocument name value)

def getOperatorUpdateState (operators : List MongoUpdateOperatorSpec)
    (spec : PositionalUpdateSpec) (isUpsert : Bool) (updateSpec : Fields) :
    Except UpdateError UpdateTree :=
  readUpdateSpecAndUpdateTree operators spec isUpsert updateSpec .initial

end DocumentDb
