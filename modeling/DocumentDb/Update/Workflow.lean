/-
The update of a document with an update tree.

The fields are visited in stored order. One that a node of the tree matches is handed to the
writer of a leaf, or entered; all others are copied. What the tree names and the document
does not have is added behind (`handleUnresolvedDocumentFields`). Arrays are visited with
the positions as names; missing elements are added up to the largest position that a field
below names, with null where there is no node (`handleUnresolvedArrayFields`).
-/
import DocumentDb.Query.IdFilter
import DocumentDb.Update.Operators

namespace DocumentDb

-- ==== array indices

/-- The loop of `StringViewToPositiveInteger`; the sum wraps around. -/
def positiveIntegerLoop (finalValue : Int32) : Bytes → Int32
  | [] => finalValue
  | c :: view =>
    if c < 48 || 57 < c then -1
    else
      let finalValue := finalValue * 10 + Int32.ofNat (c.toNat - 48)
      if finalValue < 0 then -1 else positiveIntegerLoop finalValue view

/-- -1 if the string is not a number. -/
def stringViewToPositiveInteger (view : Bytes) : Int32 :=
  if view = [] then -1 else positiveIntegerLoop 0 view

def arrayIndex? (field : Bytes) : Option Nat :=
  if stringViewToPositiveInteger field < 0 then none
  else some (stringViewToPositiveInteger field).toInt.toNat

-- ==== matching

variable (state : CurrentDocumentState)

def isNodeMatchForIteratorPath (parent field : Bytes) (node : BsonUpdateNode) (isArray : Bool)
    (fieldPath : Bytes) (currentValue : Value) : Except UpdateError Bool :=
  match node.positionalData with
  | .queryFilter matchedIndex =>
    if matchedIndex state.sourceDocument < 0 then
      .error .positionalWithoutMatch
    else if isArray then
      .ok (arrayKey (matchedIndex state.sourceDocument).toNat = fieldPath)
    else .error (.positionalOnNonArray parent fieldPath currentValue)
  | .arrayFilter expression =>
    if isArray then .ok (expression currentValue)
    else .error (.positionalOnNonArray parent fieldPath currentValue)
  | .all =>
    if isArray then .ok true
    else .error (.positionalOnNonArray parent fieldPath currentValue)
  | .notPositional =>
    if isArray && (arrayIndex? field).isNone then
      .error (.invalidArrayIndexPath field)
    else .ok (fieldPath = field)

/-- The loop over the children that looks for a match: the index of the
child and the child. -/
def matchingChild (state : CurrentDocumentState) (parent : Bytes)
    (isArray : Bool) (fieldPath : Bytes) (currentValue : Value) :
    Nat → UpdateNodes → Except UpdateError (Option (Nat × BsonUpdateNode))
  | _, [] => .ok none
  | index, (field, node) :: children => do
    let isMatch ← isNodeMatchForIteratorPath state parent field node isArray fieldPath currentValue
    if isMatch then return some (index, node)
    else
      matchingChild state parent isArray fieldPath currentValue (index + 1) children

/-- The original value is written if the operator did not modify it, behind what the
operator wrote. -/
def writeCurrentNode (isArray hasArrayAncestors : Bool) (fieldPath : Bytes)
    (leaf : BsonUpdateLeafNode) (currentValue : Option Value) : Except UpdateError Written := do
  let written ← leaf.writeFunc currentValue leaf.value leaf.updateNodeContext
    ⟨fieldPath, leaf.relativePath, isArray, hasArrayAncestors⟩ state
  if written.modified then return written
  else return ⟨written.values ++ currentValue.toList.map appendValue, false⟩

/-- `bson_iter_find_descendant`: by name in documents, by position in
arrays. -/
def iterFindDescendant : List Bytes → Value → Option Value
  | [], value => some value
  | field :: path, .document fields =>
    match Assoc.get field fields with
    | some value => iterFindDescendant path value
    | none => none
  | field :: path, .array elements =>
    match elements.zipIdx.find? (fun e => arrayKey e.2 = field) with
    | some (value, _) => iterFindDescendant path value
    | none => none
  | _ :: _, _ => none

def isAnErrorForIntermediateNodeOfDollarRenameOp : Option RenameNode → Bool
  | none => false
  | some ⟨.excluded, path⟩ =>
    (iterFindDescendant (Dotted.segments dot path) (.document state.sourceDocument)).isSome
  | some _ => true

-- ==== what is missing

structure Added (α : Type) where
  values : α
  modified : Bool

mutual

/-- The loop of `HandleUnresolvedDocumentFields` over the children. -/
def unresolvedFields (state : CurrentDocumentState)
    (isRootLevel hasArrayAncestors : Bool) (handled : List Nat) :
    Nat → UpdateNodes → Except UpdateError (Added Fields)
  | _, [] => .ok ⟨[], false⟩
  | index, (field, node) :: children =>
    if (isRootLevel && field = idField) || handled.contains index then
      unresolvedFields state isRootLevel hasArrayAncestors handled (index + 1) children
    else if isRootLevel && field.head? = some dollar && !state.isUpsert then
      .error (.dollarPathNotAllowed field node.relativePath)
    else do
      let added ← unresolvedField state hasArrayAncestors field node
      let rest ← unresolvedFields state isRootLevel hasArrayAncestors handled (index + 1) children
      return ⟨added.values ++ rest.values, added.modified || rest.modified⟩

/-- The body of the loop for a child that was not handled. Below a missing
document all children are missing. -/
def unresolvedField (state : CurrentDocumentState) (hasArrayAncestors : Bool)
    (field : Bytes) : BsonUpdateNode → Except UpdateError (Added Fields)
  | .leaf leaf =>
    if leaf.nodeType = .excluded then .ok ⟨[], false⟩
    else do
      let written ← writeCurrentNode state false hasArrayAncestors field leaf none
      return ⟨written.values.map (field, ·), written.modified⟩
  | .intermediate node children =>
    if node.hasExpressionFieldsInChildren
        || node.hasIntermediateIncludeChildren then
      if node.hasPositionalChildren then .error (.pathMustExist node.field)
      else do
        let added ← unresolvedFields state false hasArrayAncestors [] 0 children
        return ⟨[(field, .document added.values)], added.modified⟩
    else .ok ⟨[], false⟩

end

variable (state : CurrentDocumentState)

def handleUnresolvedDocumentFields (isRootLevel hasArrayAncestors : Bool) (handled : List Nat)
    (tree : UpdateTree) : Except UpdateError (Added Fields) :=
  if tree.root.hasPositionalChildren then
    .error (.pathMustExist tree.root.field)
  else
    unresolvedFields state isRootLevel hasArrayAncestors handled 0 tree.children

/-- The node counts for the length of an array: a field, or an intermediate
node with a field below. -/
def BsonUpdateNode.growsArray : BsonUpdateNode → Bool
  | .leaf node => node.nodeType = .field
  | .intermediate node _ => node.hasExpressionFieldsInChildren

/-- The first loop of `HandleUnresolvedArrayFields`: the largest index. -/
def maxArrayIndex : UpdateNodes → Nat → Except UpdateError Nat
  | [], maxIndex => .ok maxIndex
  | (field, node) :: children, maxIndex =>
    if !node.growsArray then maxArrayIndex children maxIndex
    else
      match arrayIndex? field with
      | some index => maxArrayIndex children (max index maxIndex)
      | none =>
        if node.positionalData.isPositional then
          maxArrayIndex children maxIndex
        else .error .invalidArrayElement

variable (children : UpdateNodes)

/-- The body of the second loop: the element at an index, by the first child
that names it. -/
def unresolvedElement (index : Nat) : Except UpdateError (Added (List Value)) :=
  match children.find? (fun child => arrayIndex? child.1 = some index) with
  | none => .ok ⟨[.null], true⟩
  | some (field, .leaf leaf) => do
    let written ← writeCurrentNode state true true field leaf none
    return ⟨written.values, written.modified⟩
  | some (_, .intermediate node children) =>
    if node.hasExpressionFieldsInChildren then do
      let added ← handleUnresolvedDocumentFields state false true [] ⟨node, children⟩
      return ⟨[.document added.values], added.modified⟩
    else .ok ⟨[], false⟩

/-- The second loop of `HandleUnresolvedArrayFields`, for some indices. -/
def unresolvedElements (state : CurrentDocumentState) (children : UpdateNodes) :
    List Nat → Except UpdateError (Added (List Value))
  | [] => .ok ⟨[], false⟩
  | index :: indices => do
    let added ← unresolvedElement state children index
    let rest ← unresolvedElements state children indices
    return ⟨added.values ++ rest.values, added.modified || rest.modified⟩

def handleUnresolvedArrayFields (currentMaxIndex : Nat) :
    Except UpdateError (Added (List Value)) := do
  let maxIndex ← maxArrayIndex children 0
  if 1500000 < maxIndex - currentMaxIndex then throw .cannotBackfillArray
  unresolvedElements state children (List.range' currentMaxIndex (maxIndex + 1 - currentMaxIndex))

-- ==== traversal

/-- What a part of the traversal wrote, the indices of the children that were
handled, and whether something was modified. -/
structure Traversed (α : Type) where
  values : α
  handled : List Nat
  modified : Bool

def Traversed.copied (value : Value) : Traversed (List Value) := ⟨[appendValue value], [], false⟩

def finishDocument (isRootLevel hasArrayAncestors : Bool) (tree : UpdateTree)
    (fields : Traversed Fields) : Except UpdateError (Added Fields) := do
  let added ← handleUnresolvedDocumentFields state isRootLevel hasArrayAncestors fields.handled tree
  return ⟨fields.values ++ added.values, fields.modified || added.modified⟩

def finishArray (currentMaxIndex : Nat) (elements : Traversed (List Value)) :
    Except UpdateError (Added (List Value)) := do
  let added ← handleUnresolvedArrayFields state children currentMaxIndex
  return ⟨elements.values ++ added.values, added.modified || elements.modified⟩

def handleLeaf (isArray hasArrayAncestors : Bool) (fieldPath : Bytes) (index : Nat)
    (leaf : BsonUpdateLeafNode) (currentValue : Value) :
    Except UpdateError (Traversed (List Value)) := do
  let written ← writeCurrentNode state isArray hasArrayAncestors fieldPath leaf (some currentValue)
  return ⟨written.values, [index], written.modified⟩

/-- An intermediate node meets a value that is neither a document nor an
array: the value stays if only `$unset` goes on from there. -/
def handleScalar (isArray : Bool)
    (fieldPath : Bytes) (index : Nat) (node : BsonUpdateIntermediateData)
    (currentValue : Value) : Except UpdateError (Traversed (List Value)) :=
  if node.hasExpressionFieldsInChildren || isArray
      || isAnErrorForIntermediateNodeOfDollarRenameOp state
        node.sourceOrTargetNodeForRenameOP then
    .error (.cannotCreateField fieldPath currentValue)
  else .ok ⟨[appendValue currentValue], [index], false⟩

mutual

/-- The loop of `TraverseDocumentAndApplyUpdate`. -/
def updateFields (state : CurrentDocumentState)
    (isRootLevel hasArrayAncestors : Bool) (tree : UpdateTree) :
    Fields → Except UpdateError (Traversed Fields)
  | [] => .ok ⟨[], [], false⟩
  | (field, value) :: fields =>
    if isRootLevel && field = idField then
      updateFields state isRootLevel hasArrayAncestors tree fields
    else do
      let written ← handleCurrentIteratorPosition state false hasArrayAncestors tree field value
      let rest ← updateFields state isRootLevel hasArrayAncestors tree fields
      return ⟨written.values.map (field, ·) ++ rest.values,
        written.handled ++ rest.handled, written.modified || rest.modified⟩

/-- The loop of `TraverseArrayAndApplyUpdate`. -/
def updateElements (state : CurrentDocumentState) (tree : UpdateTree) :
    Nat → List Value → Except UpdateError (Traversed (List Value))
  | _, [] => .ok ⟨[], [], false⟩
  | index, value :: elements => do
    let written ← handleCurrentIteratorPosition state true true tree (arrayKey index) value
    let rest ← updateElements state tree (index + 1) elements
    return ⟨written.values ++ rest.values, written.handled ++ rest.handled,
      written.modified || rest.modified⟩

def handleCurrentIteratorPosition (state : CurrentDocumentState)
    (isArray hasArrayAncestors : Bool) (tree : UpdateTree) (fieldPath : Bytes) :
    Value → Except UpdateError (Traversed (List Value))
  | .document fields => do
    match ← matchingChild state tree.root.field isArray fieldPath
      (.document fields) 0 tree.children with
    | none => return .copied (.document fields)
    | some (index, .leaf leaf) =>
      handleLeaf state isArray hasArrayAncestors fieldPath index leaf (.document fields)
    | some (index, .intermediate node children) => do
      let r ← updateFields state false hasArrayAncestors ⟨node, children⟩ fields
      let r ← finishDocument state false hasArrayAncestors ⟨node, children⟩ r
      return ⟨[.document r.values], [index], r.modified⟩
  | .array elements => do
    match ← matchingChild state tree.root.field isArray fieldPath
      (.array elements) 0 tree.children with
    | none => return .copied (.array elements)
    | some (index, .leaf leaf) =>
      handleLeaf state isArray hasArrayAncestors fieldPath index leaf (.array elements)
    | some (index, .intermediate node children) => do
      let r ← updateElements state ⟨node, children⟩ 0 elements
      let r ← finishArray state children elements.length r
      return ⟨[.array r.values], [index], r.modified⟩
  | value => do
    match ← matchingChild state tree.root.field isArray fieldPath value 0 tree.children with
    | none => return .copied value
    | some (index, .leaf leaf) =>
      handleLeaf state isArray hasArrayAncestors fieldPath index leaf value
    | some (index, .intermediate node _) =>
      handleScalar state isArray fieldPath index node value

end

variable (state : CurrentDocumentState)

def traverseDocumentAndApplyUpdate (isRootLevel hasArrayAncestors : Bool) (tree : UpdateTree)
    (fields : Fields) : Except UpdateError (Added Fields) := do
  let r ← updateFields state isRootLevel hasArrayAncestors tree fields
  finishDocument state isRootLevel hasArrayAncestors tree r

-- ==== documents

/-- `HandleUpdateDocumentId`; `newId` is the object id that is generated for
a document without `_id`. -/
def handleUpdateDocumentId (newId : Oid) (state : CurrentDocumentState)
    (children : UpdateNodes) : Except UpdateError Written :=
  match Assoc.get idField children with
  | none => .error .idRemovedFromTree
  | some (.intermediate _ _) => .error .idNotScalar
  | some (.leaf leaf) =>
    if leaf.nodeType = .excluded then
      match state.documentId with
      | none => .ok ⟨[.oid newId], true⟩
      | some documentId => .ok ⟨[appendValue documentId], false⟩
    else
      writeCurrentNode state false false idField leaf state.documentId

section Process

variable [BidLib]

/-- The checks of the `_id` of the updated document. -/
def validateUpdatedId (documentId : Option Value) (fields : Fields) : Except UpdateError Fields :=
  match Assoc.get idField fields with
  | none => .error .idModified
  | some newIdValue =>
    if documentId.any (fun id => !bsonValueEquals newIdValue id) then
      .error .idModified
    else if validateIdField newIdValue then .ok fields
    else .error (.idInvalid newIdValue)

/-- Nothing if the update was a no-op. -/
def processUpdateOperatorWithState (newId : Oid) (sourceDoc : Fields)
    (updateState : UpdateTree) (isUpsert : Bool) : Except UpdateError (Option Fields) := do
  let state : CurrentDocumentState := ⟨Assoc.get idField sourceDoc, isUpsert, sourceDoc⟩
  let id ← handleUpdateDocumentId newId state updateState.children
  let r ← traverseDocumentAndApplyUpdate state true false updateState sourceDoc
  if !(id.modified || r.modified) && !isUpsert then return none
  else do
    let finalDoc ← validateUpdatedId state.documentId (id.values.map (idField, ·) ++ r.values)
    return some finalDoc

end Process

end DocumentDb
