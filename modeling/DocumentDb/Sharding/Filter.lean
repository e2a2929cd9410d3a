/-
The shard key filter of a query.

Values for the fields of the shard key are collected from the conditions that all have to
hold; with one for every field, their hash is the only shard key value a matching document
can have. Otherwise the older derivation takes the disjunction over the arms of an `$or`,
and the newer one first counts through the product of the `$in` lists, in an `int`; it drops
every combination that has a regular expression in it.
-/
import DocumentDb.Lib.MixedRadix
import DocumentDb.Query.Document
import DocumentDb.Sharding.Hash

namespace DocumentDb

open MixedRadix

-- ==== expressions

/-- The expressions on the shard key value: an equality, and conjunctions and
disjunctions. -/
inductive ShardKeyExpr where
  | eq (shardKeyValue : UInt64)
  | or (args : List ShardKeyExpr)
  | and (args : List ShardKeyExpr)

namespace ShardKeyExpr

mutual

/-- Whether a row with a shard key value satisfies the expression. -/
def eval (shardKeyValue : UInt64) : ShardKeyExpr → Bool
  | eq value => value == shardKeyValue
  | or args => evalAny shardKeyValue args
  | and args => evalAll shardKeyValue args

def evalAny (shardKeyValue : UInt64) : List ShardKeyExpr → Bool
  | [] => false
  | e :: es => eval shardKeyValue e || evalAny shardKeyValue es

def evalAll (shardKeyValue : UInt64) : List ShardKeyExpr → Bool
  | [] => true
  | e :: es => eval shardKeyValue e && evalAll shardKeyValue es

end

variable {es : List ShardKeyExpr} {h : UInt64}

theorem evalAny_iff : evalAny h es ↔ ∃ e ∈ es, e.eval h := by
  induction es with
  | nil => simp [evalAny]
  | cons e es ih => simp [evalAny, ih]

theorem evalAll_iff : evalAll h es ↔ ∀ e ∈ es, e.eval h := by
  induction es with
  | nil => simp [evalAll]
  | cons e es ih => simp [evalAll, ih]

variable {fs : List ShardKeyExpr}

theorem evalAny_append : evalAny h (es ++ fs) = (evalAny h es || evalAny h fs) := by
  induction es with
  | nil => rfl
  | cons e es ih => simp only [List.cons_append, evalAny, ih, Bool.or_assoc]

theorem evalAll_append : evalAll h (es ++ fs) = (evalAll h es && evalAll h fs) := by
  induction es with
  | nil => rfl
  | cons e es ih => simp only [List.cons_append, evalAll, ih, Bool.and_assoc]

/-- On a list that is not empty. -/
def makeAndsExplicit : List ShardKeyExpr → ShardKeyExpr
  | [e] => e
  | es => and es

theorem eval_makeAndsExplicit (hes : ∀ e ∈ es, e.eval h) : (makeAndsExplicit es).eval h := by
  unfold makeAndsExplicit
  split
  · exact hes _ (List.mem_singleton_self _)
  · exact evalAll_iff.2 hes

end ShardKeyExpr

open ShardKeyExpr

-- ==== field values

/-- `ShardKeyFieldValues` of `$in` conditions: the last operand for a field and
how many there were. -/
structure InClause where
  value : Value := .null
  setCount : Nat := 0

/-- What is collected from a query: `fieldValues`, and `orClauses` and
`inClauses` where they are not `NULL`. -/
structure ShardKeyState where
  fieldValues : List (Option Value)
  orClauses : Option (List Value)
  inClauses : Option (List InClause)

def shardKeyNames (shardKey : Pgbson) : List Bytes := shardKey.fields.map Prod.fst

def shardKeyFieldIndex (names : List Bytes) (path : Bytes) : Option Nat :=
  names.findIdx? (· == path)

def ShardKeyState.setValue (fieldIndex : Nat) (value : Value) (s : ShardKeyState) : ShardKeyState :=
  { s with fieldValues := s.fieldValues.set fieldIndex (some value) }

/-- The operand of an `$in`, where these are collected. -/
def ShardKeyState.setIn (fieldIndex : Nat) (value : Value) (s : ShardKeyState) : ShardKeyState :=
  { s with inClauses := s.inClauses.map fun inClauses =>
      inClauses.modify fieldIndex fun c => ⟨value, c.setCount + 1⟩ }

/-- The operand of an `$or`, where these are collected. -/
def ShardKeyState.addOr (value : Value) (s : ShardKeyState) : ShardKeyState :=
  { s with orClauses := s.orClauses.map (· ++ [value]) }

/-- The loop over the operators of a condition on a field of the shard
key. -/
def considerOperators (fieldIndex : Nat) : Fields → ShardKeyState → ShardKeyState
  | [], s => s
  | (op, operand) :: ops, s =>
    considerOperators fieldIndex ops (if op = eqOperator then s.setValue fieldIndex operand
        else if op = inOperator then s.setIn fieldIndex operand
        else s)

def considerField (names : List Bytes) (key : Bytes) (value : Value)
    (s : ShardKeyState) : ShardKeyState :=
  match shardKeyFieldIndex names key with
  | none => s
  | some fieldIndex =>
    match value with
    | .document fs =>
      if isOperatorDocument fs then considerOperators fieldIndex fs s
      else s.setValue fieldIndex value
    | value => s.setValue fieldIndex value

section Derive

variable (hash : Value → UInt64 → UInt64)

/-- `ComputeShardKeyFieldValuesHash`, for any hash of values. -/
def fieldValuesHash (shardKeyHash : UInt64) : List (Option Value) → Option UInt64
  | [] => some shardKeyHash
  | none :: _ => none
  | some value :: values =>
    if value.isRegex then none
    else fieldValuesHash (hash value shardKeyHash) values

def createShardKeyFilterCore (fieldValues : List (Option Value)) : Option ShardKeyExpr :=
  (fieldValuesHash hash 0 fieldValues).map .eq

-- ==== FindShardKeyValuesExpr

/-- The variables of `FindShardKeyValuesExpr`. -/
structure LegacyState where
  fieldValues : List (Option Value)
  shardKeyMultiClause : List ShardKeyExpr := []

/-- The end of `FindShardKeyValuesExpr`. -/
def LegacyState.finish (s : LegacyState) : Option ShardKeyExpr :=
  match createShardKeyFilterCore hash s.fieldValues with
  | some singleShardKeyFilter => some singleShardKeyFilter
  | none =>
    if s.shardKeyMultiClause.isEmpty then none
    else some (makeAndsExplicit s.shardKeyMultiClause)

/-- Only a disjunction is kept from an element of `$and`. -/
def keepOr : Option ShardKeyExpr → List ShardKeyExpr
  | some (.or args) => [.or args]
  | _ => []

variable (names : List Bytes)

def LegacyState.considerField (key : Bytes) (value : Value) (s : LegacyState) : LegacyState :=
  { s with fieldValues := (DocumentDb.considerField names key value
      ⟨s.fieldValues, none, none⟩).fieldValues }

/-- The disjunction of the arms of an `$or`. -/
def LegacyState.addOr (orExprs : List ShardKeyExpr) (s : LegacyState) : LegacyState :=
  if orExprs.isEmpty then s
  else { s with
    shardKeyMultiClause := s.shardKeyMultiClause ++ [.or orExprs] }

mutual

/-- The loop of `FindShardKeyValuesExpr`. -/
def legacyLoop : Fields → LegacyState → Option LegacyState
  | [], s => some s
  | (key, value) :: query, s => do
    let s ← legacyEntry key value s
    legacyLoop query s

def legacyEntry (key : Bytes) : Value → LegacyState → Option LegacyState
  | .array es, s =>
    if key = andOperator then legacyAnd es s
    else if key = orOperator then (legacyOr es []).map s.addOr
    else if isOperatorKey key then some s
    else some (s.considerField names key (.array es))
  | value, s =>
    if key = andOperator ∨ key = orOperator then none
    else if isOperatorKey key then some s
    else some (s.considerField names key value)

/-- The elements of `$and` share the values. -/
def legacyAnd : List Value → LegacyState → Option LegacyState
  | [], s => some s
  | .document query :: es, s => do
    let inner ← legacyLoop query ⟨s.fieldValues, []⟩
    legacyAnd es ⟨inner.fieldValues, s.shardKeyMultiClause ++ keepOr (inner.finish hash)⟩
  | _ :: _, _ => none

/-- Every arm of `$or` must have a filter, from values of its own. -/
def legacyOr : List Value → List ShardKeyExpr → Option (List ShardKeyExpr)
  | [], orExprs => some orExprs
  | .document query :: es, orExprs => do
    let arm ← legacyLoop query ⟨names.map fun _ => none, []⟩
    match arm.finish hash with
    | some orExpr => legacyOr es (orExprs ++ [orExpr])
    | none => some []
  | _ :: _, _ => none

end

def findShardKeyValuesExpr (query : Fields) : Option (Option ShardKeyExpr) := do
  let s ← legacyLoop hash names query ⟨names.map fun _ => none, []⟩
  return s.finish hash

-- ==== FindShardKeyValuesExprNew

mutual

def findShardKeyValuesExprPhase1 : Fields → ShardKeyState → Option ShardKeyState
  | [], s => some s
  | (key, value) :: query, s => do
    let s ← phase1Entry key value s
    findShardKeyValuesExprPhase1 query s

def phase1Entry (key : Bytes) : Value → ShardKeyState → Option ShardKeyState
  | .array es, s =>
    if key = andOperator then phase1And es s
    else if key = orOperator then some (s.addOr (.array es))
    else if isOperatorKey key then some s
    else some (considerField names key (.array es) s)
  | value, s =>
    if key = andOperator then none
    else if key = orOperator then some (s.addOr value)
    else if isOperatorKey key then some s
    else some (considerField names key value s)

def phase1And : List Value → ShardKeyState → Option ShardKeyState
  | [], s => some s
  | .document query :: es, s => do
    let s ← findShardKeyValuesExprPhase1 query s
    phase1And es s
  | _ :: _, _ => none

end

/-- What `BsonValueInitIterator` iterates over; other values are an error. -/
def Value.iterate? : Value → Option (List Value)
  | .array es => some es
  | .document fs => some (fs.map Prod.snd)
  | _ => none

/-- The values that `ConsiderShardKeyFiltersForInClauses` tries for a field:
the one that is required, or those of the only `$in`; `some none` where it
gives up. -/
def shardKeyInValues : Option Value × InClause → Option (Option (List Value))
  | (some value, _) => some (some [value])
  | (none, inClause) =>
    if inClause.setCount = 1 then inClause.value.iterate?.map some
    else some none

def shardKeyInLists : List (Option Value × InClause) → Option (Option (List (List Value)))
  | [] => some (some [])
  | field :: fields => do
    let some values ← shardKeyInValues field | return none
    let some lists ← shardKeyInLists fields | return none
    return some (values :: lists)

variable (lists : List (List Value))

/-- The product of the numbers of values, as an `int`. -/
def totalShardKeys : Int32 :=
  lists.foldl (fun total values => total * Int32.ofNat values.length) 1

def shardKeyCombinations : List (List (Option Value)) :=
  (List.range (totalShardKeys lists).toInt.toNat).map (pick · lists)

/-- A disjunction, where there is something to choose from. -/
def makeOrs : List ShardKeyExpr → Option ShardKeyExpr
  | [] => none
  | [e] => some e
  | es => some (.or es)

variable {es : List ShardKeyExpr}

theorem makeOrs_eq_none : makeOrs es = none ↔ es = [] := by
  unfold makeOrs
  split <;> simp_all

theorem eval_makeOrs {e : ShardKeyExpr} {h : UInt64}
    (hes : makeOrs es = some e) : e.eval h = evalAny h es := by
  unfold makeOrs at hes
  split at hes
  · cases hes
  · cases hes
    rw [evalAny, evalAny, Bool.or_false]
  · cases hes
    rfl

variable (fieldValues : List (Option Value))

def considerShardKeyFiltersForInClauses
    (inClauses : List InClause) : Option (Option ShardKeyExpr) := do
  match ← shardKeyInLists (fieldValues.zip inClauses) with
  | none => return none
  | some lists =>
    return makeOrs ((shardKeyCombinations lists).filterMap (createShardKeyFilterCore hash))

/-- The arms of one `$or`, each with the values that are required and its own.
Every arm must have a filter. -/
def considerOrArms (fieldValues : List (Option Value)) :
    List Value → List ShardKeyExpr → Option (List ShardKeyExpr)
  | [], orExprs => some orExprs
  | .document query :: es, orExprs => do
    let arm ← findShardKeyValuesExprPhase1 names query ⟨fieldValues, none, none⟩
    match createShardKeyFilterCore hash arm.fieldValues with
    | some orExpr => considerOrArms fieldValues es (orExprs ++ [orExpr])
    | none => some []
  | _ :: _, _ => none

/-- The loop of `ConsiderShardKeyFiltersForOrClauses`. -/
def considerOrClauses (fieldValues : List (Option Value)) :
    List Value → List ShardKeyExpr → Option (List ShardKeyExpr)
  | [], shardKeyMultiClause => some shardKeyMultiClause
  | orValue :: orClauses, shardKeyMultiClause => do
    let arms ← orValue.iterate?
    let orExprs ← considerOrArms hash names fieldValues arms []
    considerOrClauses fieldValues orClauses (shardKeyMultiClause
      ++ if orExprs.isEmpty then [] else [.or orExprs])

def considerShardKeyFiltersForOrClauses
    (orClauses : List Value) : Option (Option ShardKeyExpr) := do
  let shardKeyMultiClause ← considerOrClauses hash names fieldValues orClauses []
  return if shardKeyMultiClause.isEmpty then none
    else some (makeAndsExplicit shardKeyMultiClause)

/-- The state that `FindShardKeyValuesExprNew` starts from. -/
def ShardKeyState.init : ShardKeyState :=
  ⟨names.map fun _ => none, some [], some (names.map fun _ => {})⟩

def findShardKeyValuesExprNew (query : Fields) : Option (Option ShardKeyExpr) := do
  let s ← findShardKeyValuesExprPhase1 names query (.init names)
  match createShardKeyFilterCore hash s.fieldValues with
  | some singleKey => return some singleKey
  | none =>
    match ← considerShardKeyFiltersForInClauses hash s.fieldValues (s.inClauses.getD []) with
    | some inBasedKey => return some inBasedKey
    | none =>
      considerShardKeyFiltersForOrClauses hash names s.fieldValues (s.orClauses.getD [])

/-- `ComputeShardKeyExprForQueryValue`; an error is `none`, and a query
without a filter `some none`. -/
def computeShardKeyExprForQueryValue (useNewShardKeyCalculation : Bool)
    (shardKey : Option Pgbson) (collectionId : UInt64) (query : Fields) :
    Option (Option ShardKeyExpr) :=
  match shardKey with
  | none => some (some (.eq collectionId))
  | some shardKey =>
    if useNewShardKeyCalculation then
      findShardKeyValuesExprNew hash (shardKeyNames shardKey) query
    else findShardKeyValuesExpr hash (shardKeyNames shardKey) query

end Derive

end DocumentDb
