/-
No matching document is on a shard that the filter of the query leaves out.

The values that are collected are, for a document that matches, equal to its own or regular
expressions (`Consistent`). The walks keep this, and that every disjunction collected on the
way holds of the document, so each derivation ends in an expression that does. For the
product of `$in` lists this takes `InFilterComplete`, and a hash that tells the values of
the document from all others shows that nothing less will do.
-/
import DocumentDb.Query.Traverse
import DocumentDb.Sharding.Conditions

namespace DocumentDb

open Dotted MixedRadix ShardKeyExpr List Option

-- ==== hashes

structure ShardHash [BidLib] where
  hash : Value → UInt64 → UInt64
  congr : ∀ {a b : Value} (seed : UInt64), bsonValueEquals a b = true → hash a seed = hash b seed

variable (hash : Value → UInt64 → UInt64)

/-- The shard key value of a document with some values at the shard key. -/
def storedShardKeyValue (values : List Value) : UInt64 :=
  values.foldl (fun shardKeyValue v => hash v shardKeyValue) 0

/-- `ComputeShardKeyHashForDocument` for any hash of values; none for a
document that cannot be stored. -/
def shardKeyValueOfDocument (shardKey : Pgbson) (document : Fields) : Option UInt64 :=
  (shardKeyValuesOf shardKey document).map (storedShardKeyValue hash)

theorem computeShardKeyHashForDocument_eq (F : PgHash) (shardKey : Pgbson)
    (cid : UInt64) (document : Fields) :
    computeShardKeyHashForDocument F (some shardKey) cid document
      = shardKeyValueOfDocument (bsonValueHash F) shardKey document :=
  hashShardKeyPaths_eq F document 0 (shardKeyPaths shardKey)

theorem computeShardKeyFieldValuesHash_eq (F : PgHash) (found : List (Option Value)) :
    computeShardKeyFieldValuesHash F found = fieldValuesHash (bsonValueHash F) 0 found := by
  unfold computeShardKeyFieldValuesHash
  generalize (0 : UInt64) = seed
  induction found generalizing seed with
  | nil => rfl
  | cons o found ih =>
    cases o with
    | none => rfl
    | some v =>
      cases v <;> first | rfl | exact ih _

/-- There is a value for every field, and none is a regular expression. -/
def isHashable (fieldValues : List (Option Value)) : Bool :=
  fieldValues.all fun o => o.any fun v => !v.isRegex

variable {found : List (Option Value)} {hash : Value → UInt64 → UInt64}

theorem isHashable_iff :
    isHashable found ↔ ∃ vs : List Value, found = vs.map some ∧ ∀ v ∈ vs, v.isRegex = false := by
  constructor
  · intro h
    induction found with
    | nil => exact ⟨[], rfl, fun v hv => absurd hv not_mem_nil⟩
    | cons o found ih =>
      rw [isHashable, all_cons, Bool.and_eq_true] at h
      obtain ⟨vs, rfl, hvs⟩ := ih h.2
      cases o with
      | none => cases h.1
      | some v =>
        refine ⟨v :: vs, rfl, forall_mem_cons.2 ⟨?_, hvs⟩⟩
        simpa using h.1
  · rintro ⟨vs, rfl, hvs⟩
    rw [isHashable, List.all_map, List.all_eq_true]
    intro v hv
    simp [hvs v hv]

variable {seed : UInt64} {P : DocumentPredicates} {path : Bytes} {v : Value} {useLegacy skip : Bool}

theorem fieldValuesHash_map_some {vs : List Value} (h : ∀ v ∈ vs, v.isRegex = false) :
    fieldValuesHash hash seed (vs.map some) = some (vs.foldl (fun k v => hash v k) seed) := by
  induction vs generalizing seed with
  | nil => rfl
  | cons v vs ih =>
    obtain ⟨hv, hvs⟩ := forall_mem_cons.1 h
    rw [map_cons, fieldValuesHash, if_neg (by rw [hv]; decide), ih hvs]
    rfl

theorem fieldValuesHash_of_not_hashable (h : isHashable found = false) :
    fieldValuesHash hash seed found = none := by
  induction found generalizing seed with
  | nil => cases h
  | cons o found ih =>
    cases o with
    | none => rfl
    | some v =>
      rw [isHashable, all_cons, Bool.and_eq_false_iff] at h
      rw [fieldValuesHash]
      split
      · rfl
      · rename_i hv
        rcases h with h | h
        · rw [any_some, Bool.not_eq_false'] at h
          exact absurd h hv
        · exact ih h

theorem createShardKeyFilterCore_iff {e : ShardKeyExpr} :
    createShardKeyFilterCore hash found = some e
      ↔ ∃ vs : List Value, found = vs.map some ∧ (∀ v ∈ vs, v.isRegex = false)
        ∧ e = .eq (storedShardKeyValue hash vs) := by
  unfold createShardKeyFilterCore
  constructor
  · intro h
    cases hhash : isHashable found with
    | false =>
      rw [fieldValuesHash_of_not_hashable hhash] at h
      cases h
    | true =>
      obtain ⟨vs, rfl, hvs⟩ := isHashable_iff.1 hhash
      rw [fieldValuesHash_map_some hvs] at h
      cases h
      exact ⟨vs, rfl, hvs, rfl⟩
  · rintro ⟨vs, rfl, hvs, rfl⟩
    rw [fieldValuesHash_map_some hvs]
    rfl

theorem createShardKeyFilterCore_eq_none :
    createShardKeyFilterCore hash found = none ↔ isHashable found = false := by
  rw [eq_none_iff_forall_not_mem, ← Bool.not_eq_true, isHashable_iff]
  simp only [mem_def, createShardKeyFilterCore_iff]
  constructor
  · rintro h ⟨vs, hvs, hregex⟩
    exact h _ ⟨vs, hvs, hregex, rfl⟩
  · rintro h e ⟨vs, hvs, hregex, -⟩
    exact h ⟨vs, hvs, hregex⟩

-- ==== values of a matching document

theorem forall₂_modify {α β : Type} {R : α → β → Prop} {l : List α}
    {m : List β} (h : Forall₂ R l m) {i : Nat} {a : α} {f : β → β}
    (hi : l[i]? = some a) (hR : ∀ b, R a (f b)) : Forall₂ R l (m.modify i f) := by
  induction h generalizing i with
  | nil => cases hi
  | cons hab h ih =>
    cases i with
    | zero =>
      cases hi
      exact .cons (hR _) h
    | succ i => exact .cons hab (ih hi)

/-- What a condition that holds can be. -/
theorem entryMatches_cases {key : Bytes} {value : Value} (h : entryMatches P key value) :
    (key = andOperator ∧ ∃ es, value = .array es ∧ allMatch P es)
      ∨ (key = orOperator ∧ ∃ es, value = .array es ∧ anyMatch P es)
      ∨ key ≠ andOperator ∧ key ≠ orOperator ∧ (¬isOperatorKey key → fieldMatches P key value) := by
  by_cases hand : key = andOperator
  · rw [hand, entryMatches_and] at h
    cases value with
    | array es => exact Or.inl ⟨hand, es, rfl, h⟩
    | _ => cases h
  by_cases hor : key = orOperator
  · rw [hor, entryMatches_or] at h
    cases value with
    | array es => exact Or.inr (Or.inl ⟨hor, es, rfl, h⟩)
    | _ => cases h
  refine Or.inr (Or.inr ⟨hand, hor, fun hkey => ?_⟩)
  rwa [entryMatches_field P (Bool.not_eq_true _ ▸ hkey)] at h

theorem arm_or_rest {h : UInt64} {query : Fields} {arms : List Value} {orExprs : List ShardKeyExpr}
    {orExpr : ShardKeyExpr} (hmatch : anyMatch P (.document query :: arms) ∨ evalAny h orExprs)
    (harm : queryMatches P query → orExpr.eval h) :
    anyMatch P arms ∨ evalAny h (orExprs ++ [orExpr]) := by
  rw [evalAny_append, Bool.or_eq_true]
  rcases hmatch with hmatch | hmatch
  · rw [anyMatch, Bool.or_eq_true] at hmatch
    rcases hmatch with hquery | hrest
    · refine Or.inr (Or.inr ?_)
      rw [evalAny, harm hquery, Bool.true_or]
    · exact Or.inl hrest
  · exact Or.inr (Or.inl hmatch)

section Matching

variable [BidLib] {names : List Bytes} {values : List Value}

/-- `$eq` at a path holds for no values but those equal to `w`. -/
def EqualsOnly (P : DocumentPredicates) (path : Bytes) (w : Value) : Prop :=
  ∀ v, P.equals path v = true → bsonValueEquals w v = true

/-- The values collected for the fields are those of the document, up to
equality, or regular expressions. -/
def Consistent (values : List Value) (fieldValues : List (Option Value)) : Prop :=
  Forall₂ (fun w o => ∀ v, o = some v →
    v.isRegex = true ∨ bsonValueEquals w v = true) values fieldValues

theorem consistent_none (h : names.length = values.length) :
    Consistent values (names.map fun _ => none) := by
  induction names generalizing values with
  | nil =>
    rw [length_eq_zero_iff.1 h.symm]
    exact .nil
  | cons name names ih =>
    cases values with
    | nil => cases h
    | cons w values =>
      refine .cons ?_ (ih (Nat.succ.inj h))
      intro v hv
      cases hv

variable (hP : Forall₂ (EqualsOnly P) names values) {i : Nat} {s : ShardKeyState} {query : Fields}

include hP

theorem exists_value_of_fieldIndex (hi : shardKeyFieldIndex names path = some i) :
    names[i]? = some path ∧ ∃ w, values[i]? = some w ∧ EqualsOnly P path w := by
  obtain ⟨hlt, hpath, -⟩ := findIdx?_eq_some_iff_getElem.1 hi
  have hpath : names[i] = path := eq_of_beq hpath
  have hlt' : i < values.length := hP.length_eq ▸ hlt
  refine ⟨List.getElem?_eq_some_iff.2 ⟨hlt, hpath⟩, values[i], getElem?_eq_getElem hlt', ?_⟩
  exact hpath ▸ hP.get hlt hlt'

theorem Consistent.setValue (hs : Consistent values s.fieldValues)
    (hi : shardKeyFieldIndex names path = some i) (hv : v.isRegex ∨ P.equals path v) :
    Consistent values (s.setValue i v).fieldValues := by
  obtain ⟨-, w, hw, hwP⟩ := exists_value_of_fieldIndex hP hi
  show Forall₂ _ _ (s.fieldValues.set i (some v))
  rw [set_eq_modify]
  refine forall₂_modify hs hw fun _ v' hv' => ?_
  cases hv'
  exact hv.imp_right (hwP v)

/-- What `$in` operands that were collected say of the document. -/
def InClausesMatch (P : DocumentPredicates) (names : List Bytes)
    (inClauses : List InClause) : Prop :=
  Forall₂ (fun name c => 0 < c.setCount →
    operatorMatches P name inOperator c.value = true) names inClauses

/-- What holds after a walk through conditions that a document matches. -/
structure MatchState (P : DocumentPredicates) (names : List Bytes)
    (values : List Value) (s : ShardKeyState) : Prop where
  consistent : Consistent values s.fieldValues
  orClauses : ∀ value ∈ s.orClauses.getD [], entryMatches P orOperator value = true
  inClauses : ∀ inClauses, s.inClauses = some inClauses → InClausesMatch P names inClauses

omit hP in
theorem MatchState.of_fieldValues
    (h : Consistent values found) : MatchState P names values ⟨found, none, none⟩ where
  consistent := h
  orClauses _ hvalue := absurd hvalue not_mem_nil
  inClauses _ hin := nomatch hin

theorem MatchState.init : MatchState P names values (.init names) where
  consistent := consistent_none hP.length_eq
  orClauses _ hvalue := absurd hvalue not_mem_nil
  inClauses inClauses hin := by
    cases hin
    show Forall₂ _ names (names.map fun _ => ({} : InClause))
    rw [forall₂_map_right_iff]
    exact forall₂_same.2 fun _ _ hcount => absurd hcount (Nat.lt_irrefl 0)

section Walk

variable (hs : MatchState P names values s) (hi : shardKeyFieldIndex names path = some i)

include hs hi

theorem MatchState.setValue (hv : v.isRegex ∨ P.equals path v) : MatchState P names values (s.setValue i v) :=
  ⟨hs.consistent.setValue hP hi hv, hs.orClauses, hs.inClauses⟩

theorem MatchState.setIn (hv : operatorMatches P path inOperator v) :
    MatchState P names values (s.setIn i v) := by
  refine ⟨hs.consistent, hs.orClauses, ?_⟩
  intro inClauses hin
  obtain ⟨old, hold, rfl⟩ := map_eq_some_iff.1 hin
  obtain ⟨hpath, -⟩ := exists_value_of_fieldIndex hP hi
  exact forall₂_modify (hs.inClauses old hold) hpath fun _ _ => hv

omit hP hi in
theorem MatchState.addOr (hv : entryMatches P orOperator v) :
    MatchState P names values (s.addOr v) := by
  refine ⟨hs.consistent, ?_, hs.inClauses⟩
  intro value hvalue
  unfold ShardKeyState.addOr at hvalue
  cases hor : s.orClauses with
  | none =>
    rw [hor] at hvalue
    cases hvalue
  | some clauses =>
    have horOld := hs.orClauses
    rw [hor] at hvalue horOld
    rcases mem_append.1 hvalue with h | h
    · exact horOld value h
    · rw [mem_singleton.1 h]
      exact hv

theorem MatchState.considerOperators {ops : Fields}
    (hops : ∀ f ∈ ops, operatorMatches P path f.1 f.2) :
    MatchState P names values (considerOperators i ops s) := by
  induction ops generalizing s with
  | nil => exact hs
  | cons f ops ih =>
    obtain ⟨op, operand⟩ := f
    obtain ⟨hop, hrest⟩ := forall_mem_cons.1 hops
    refine ih ?_ hrest
    split
    · rename_i heq
      rw [operatorMatches, if_pos heq] at hop
      exact hs.setValue hP hi (Or.inr hop)
    · split
      · rename_i _ heq
        rw [heq] at hop
        exact hs.setIn hP hi hop
      · exact hs

omit hi in
theorem MatchState.considerField {value : Value} (hmatch : fieldMatches P path value) :
    MatchState P names values (considerField names path value s) := by
  unfold DocumentDb.considerField
  cases hi : shardKeyFieldIndex names path with
  | none => exact hs
  | some i =>
    have hvalue (h : valueMatches P path value) : value.isRegex ∨ P.equals path value := by
      cases value <;> first | exact Or.inl rfl | exact Or.inr h
    cases value with
    | document fs =>
      unfold fieldMatches at hmatch
      by_cases hop : isOperatorDocument fs
      · simp only [if_pos hop, List.all_eq_true] at hmatch ⊢
        exact hs.considerOperators hP hi hmatch
      · simp only [if_neg hop] at hmatch ⊢
        exact hs.setValue hP hi (Or.inr hmatch)
    | _ => exact hs.setValue hP hi (hvalue hmatch)

omit hP hi in
theorem MatchState.operand {c : InClause} {name : Bytes}
    (hc : (s.inClauses.getD [])[i]? = some c) (hcount : 0 < c.setCount)
    (hname : names[i]? = some name) : ∃ es, c.value = .array es ∧ es.any (valueMatches P name) := by
  cases hin : s.inClauses with
  | none =>
    rw [hin] at hc
    cases hc
  | some inClauses =>
    rw [hin] at hc
    obtain ⟨hlt, rfl⟩ := List.getElem?_eq_some_iff.1 hc
    obtain ⟨hlt', rfl⟩ := List.getElem?_eq_some_iff.1 hname
    have hany : inClauses[i].value.elements?.any _ :=
      (hs.inClauses inClauses hin).get hlt' hlt hcount
    cases hes : inClauses[i].value.elements? with
    | none =>
      rw [hes] at hany
      cases hany
    | some es =>
      rw [hes] at hany
      exact ⟨es, Value.eq_array_of_elements? hes, hany⟩

end Walk

-- ==== filters of field values

section Filter

variable (H : ShardHash)

omit hP

theorem foldl_hash_congr {vs : List Value}
    (h : Forall₂ (fun w v => bsonValueEquals w v) values vs) (seed : UInt64) :
    vs.foldl (fun k v => H.hash v k) seed = values.foldl (fun k v => H.hash v k) seed := by
  induction h generalizing seed with
  | nil => rfl
  | cons hab h ih => rw [foldl_cons, foldl_cons, ih, H.congr seed hab]

theorem Consistent.forall₂_equals {vs : List Value}
    (h : Consistent values (vs.map some)) (hvs : ∀ v ∈ vs, v.isRegex = false) :
    Forall₂ (fun w v => bsonValueEquals w v) values vs := by
  rw [Consistent, forall₂_map_right_iff] at h
  induction h with
  | nil => exact .nil
  | cons hwv h ih =>
    obtain ⟨hv, hvs⟩ := forall_mem_cons.1 hvs
    refine .cons ?_ (ih hvs)
    exact (hwv _ rfl).resolve_left (by rw [hv]; decide)

theorem Consistent.eval {e : ShardKeyExpr}
    (h : Consistent values found) (he : createShardKeyFilterCore H.hash found = some e) :
    e.eval (storedShardKeyValue H.hash values) := by
  obtain ⟨vs, rfl, hvs, rfl⟩ := createShardKeyFilterCore_iff.1 he
  show (_ == _)
  rw [beq_iff_eq]
  exact foldl_hash_congr H (h.forall₂_equals hvs) 0

end Filter

-- ==== the new derivation

omit hP in
mutual

theorem MatchState.phase1 (hP : Forall₂ (EqualsOnly P) names values) (query : Fields)
    {s : ShardKeyState} (hs : MatchState P names values s) (hmatch : queryMatches P query) :
    ∃ s', findShardKeyValuesExprPhase1 names query s = some s' ∧ MatchState P names values s' := by
  match query with
  | [] => exact ⟨s, rfl, hs⟩
  | (key, value) :: query =>
    rw [queryMatches, Bool.and_eq_true] at hmatch
    obtain ⟨inner, hinner, hs⟩ := MatchState.phase1Entry hP key value hs hmatch.1
    obtain ⟨s', hs', hmatch'⟩ := MatchState.phase1 hP query hs hmatch.2
    refine ⟨s', ?_, hmatch'⟩
    rw [findShardKeyValuesExprPhase1, hinner]
    exact hs'

theorem MatchState.phase1Entry (hP : Forall₂ (EqualsOnly P) names values)
    (key : Bytes) (value : Value) {s : ShardKeyState}
    (hs : MatchState P names values s) (hmatch : entryMatches P key value) :
    ∃ s', phase1Entry names key value s = some s' ∧ MatchState P names values s' := by
  rcases entryMatches_cases hmatch with ⟨rfl, es, rfl, hes⟩ | ⟨rfl, es, rfl, -⟩ | ⟨hand, hor, hfield⟩
  · exact MatchState.phase1And hP es hs hes
  · exact ⟨_, rfl, hs.addOr hmatch⟩
  · have heq : DocumentDb.phase1Entry names key value s = if isOperatorKey key then some s
        else some (DocumentDb.considerField names key value s) := by
      cases value <;> simp only [DocumentDb.phase1Entry, if_neg hand, if_neg hor]
    rw [heq]
    by_cases hkey : isOperatorKey key
    · rw [if_pos hkey]
      exact ⟨s, rfl, hs⟩
    · rw [if_neg hkey]
      exact ⟨_, rfl, hs.considerField hP (hfield hkey)⟩

theorem MatchState.phase1And (hP : Forall₂ (EqualsOnly P) names values) (es : List Value)
    {s : ShardKeyState} (hs : MatchState P names values s) (hmatch : allMatch P es) :
    ∃ s', phase1And names es s = some s' ∧ MatchState P names values s' := by
  match es with
  | [] => exact ⟨s, rfl, hs⟩
  | e :: es =>
    cases e with
    | document query =>
      rw [allMatch, Bool.and_eq_true] at hmatch
      obtain ⟨inner, hinner, hs⟩ := MatchState.phase1 hP query hs hmatch.1
      obtain ⟨s', hs', hmatch'⟩ := MatchState.phase1And hP es hs hmatch.2
      refine ⟨s', ?_, hmatch'⟩
      rw [DocumentDb.phase1And, hinner]
      exact hs'
    | _ => cases hmatch

end

theorem MatchState.of_phase1 {s' : ShardKeyState} (hs : MatchState P names values s)
    (hmatch : queryMatches P query)
    (h : findShardKeyValuesExprPhase1 names query s = some s') : MatchState P names values s' := by
  obtain ⟨s'', hs'', hstate⟩ := MatchState.phase1 hP query hs hmatch
  rw [h] at hs''
  cases hs''
  exact hstate

section Or

variable (H : ShardHash)

variable {found : List (Option Value)}

theorem considerOrArms_sound (hs : Consistent values found) {arms : List Value}
    {orExprs r : List ShardKeyExpr} (h : considerOrArms H.hash names found arms orExprs = some r)
    (hmatch : anyMatch P arms ∨ evalAny (storedShardKeyValue H.hash values) orExprs) :
    r = [] ∨ evalAny (storedShardKeyValue H.hash values) r := by
  induction arms generalizing orExprs with
  | nil =>
    cases h
    exact Or.inr (hmatch.resolve_left nofun)
  | cons arm arms ih =>
    cases arm with
    | document query =>
      obtain ⟨inner, hinner, h⟩ := bind_eq_some_iff.1 h
      cases hfilter : createShardKeyFilterCore H.hash inner.fieldValues with
      | none =>
        rw [hfilter] at h
        cases h
        exact Or.inl rfl
      | some orExpr =>
        rw [hfilter] at h
        refine ih h (arm_or_rest hmatch ?_)
        intro hquery
        exact ((MatchState.of_fieldValues hs).of_phase1 hP hquery hinner).consistent.eval H hfilter
    | _ => cases h

variable {orClauses : List Value}

theorem considerOrClauses_sound (hs : Consistent values found) {exprs r : List ShardKeyExpr}
    (h : considerOrClauses H.hash names found orClauses exprs = some r)
    (hmatch : ∀ value ∈ orClauses, entryMatches P orOperator value)
    (hexprs : evalAll (storedShardKeyValue H.hash values) exprs) :
    evalAll (storedShardKeyValue H.hash values) r := by
  induction orClauses generalizing exprs with
  | nil =>
    cases h
    exact hexprs
  | cons value orClauses ih =>
    obtain ⟨hvalue, hrest⟩ := forall_mem_cons.1 hmatch
    cases value with
    | array arms =>
      rw [considerOrClauses] at h
      obtain ⟨arms', harms, h⟩ := bind_eq_some_iff.1 h
      cases harms
      obtain ⟨orExprs, hor, h⟩ := bind_eq_some_iff.1 h
      refine ih h hrest ?_
      rw [evalAll_append, hexprs, Bool.true_and]
      rcases considerOrArms_sound hP H hs hor (Or.inl hvalue) with rfl | hany
      · rfl
      · split
        · rfl
        · rw [evalAll, eval, hany]
          rfl
    | _ => cases hvalue

theorem considerShardKeyFiltersForOrClauses_sound (hs : Consistent values found) {e : ShardKeyExpr}
    (hmatch : ∀ value ∈ orClauses, entryMatches P orOperator value)
    (h : considerShardKeyFiltersForOrClauses H.hash names found orClauses
      = some (some e)) : e.eval (storedShardKeyValue H.hash values) := by
  unfold considerShardKeyFiltersForOrClauses at h
  obtain ⟨exprs, hexprs, h⟩ := bind_eq_some_iff.1 h
  have hall := considerOrClauses_sound hP H hs hexprs hmatch rfl
  split at h
  · cases h
  · cases h
    exact eval_makeAndsExplicit (evalAll_iff.1 hall)

end Or

-- ==== the older derivation

section Legacy

variable (H : ShardHash)

/-- What holds of the variables after a walk through conditions that a document
matches. -/
structure LegacyMatch (values : List Value) (s : LegacyState) : Prop where
  consistent : Consistent values s.fieldValues
  multiClause : evalAll (storedShardKeyValue H.hash values) s.shardKeyMultiClause = true

variable {H} {s : LegacyState}

section State

variable (hs : LegacyMatch H values s)

include hs

omit hP

theorem LegacyMatch.finish {e : ShardKeyExpr}
    (h : s.finish H.hash = some e) : e.eval (storedShardKeyValue H.hash values) := by
  unfold LegacyState.finish at h
  split at h
  · rename_i single hsingle
    cases h
    exact hs.consistent.eval H hsingle
  · split at h
    · cases h
    · cases h
      exact eval_makeAndsExplicit (evalAll_iff.1 hs.multiClause)

theorem LegacyMatch.keepOr :
    evalAll (storedShardKeyValue H.hash values) (keepOr (s.finish H.hash)) := by
  unfold DocumentDb.keepOr
  split
  · rename_i args heq
    rw [evalAll, hs.finish heq]
    rfl
  · rfl

theorem LegacyMatch.addOr {orExprs : List ShardKeyExpr}
    (h : orExprs = [] ∨ evalAny (storedShardKeyValue H.hash values) orExprs) :
    LegacyMatch H values (s.addOr orExprs) := by
  unfold LegacyState.addOr
  rcases h with rfl | h
  · exact hs
  · split
    · exact hs
    · refine ⟨hs.consistent, ?_⟩
      rw [evalAll_append, hs.multiClause, Bool.true_and, evalAll, eval, h]
      rfl

end State

theorem LegacyMatch.considerField (hs : LegacyMatch H values s) {value : Value}
    (hmatch : fieldMatches P path value) :
    LegacyMatch H values (s.considerField names path value) where
  consistent := ((MatchState.of_fieldValues hs.consistent).considerField hP hmatch).consistent
  multiClause := hs.multiClause

theorem LegacyMatch.none : LegacyMatch H values ⟨names.map fun _ => none, []⟩ :=
  ⟨consistent_none hP.length_eq, rfl⟩

omit hP in
mutual

theorem LegacyMatch.loop (hP : Forall₂ (EqualsOnly P) names values) (query : Fields)
    {s s' : LegacyState} (hs : LegacyMatch H values s) (hmatch : queryMatches P query)
    (h : legacyLoop H.hash names query s = some s') : LegacyMatch H values s' := by
  match query with
  | [] =>
    cases h
    exact hs
  | (key, value) :: query =>
    rw [queryMatches, Bool.and_eq_true] at hmatch
    obtain ⟨inner, hinner, hrest⟩ := bind_eq_some_iff.1 h
    have hmiddle := LegacyMatch.entry hP key value hs hmatch.1 hinner
    exact LegacyMatch.loop hP query hmiddle hmatch.2 hrest

theorem LegacyMatch.entry (hP : Forall₂ (EqualsOnly P) names values) (key : Bytes)
    (value : Value) {s s' : LegacyState} (hs : LegacyMatch H values s)
    (hmatch : entryMatches P key value)
    (h : legacyEntry H.hash names key value s = some s') : LegacyMatch H values s' := by
  rcases entryMatches_cases hmatch with ⟨rfl, es, rfl, hes⟩ | ⟨rfl, es, rfl, hes⟩ | ⟨hand, hor, hfield⟩
  · exact LegacyMatch.and hP es hs hes h
  · obtain ⟨orExprs, hexprs, rfl⟩ := map_eq_some_iff.1 h
    exact hs.addOr (LegacyMatch.or hP es (Or.inl hes) hexprs)
  · have heq : legacyEntry H.hash names key value s = if isOperatorKey key then some s
        else some (s.considerField names key value) := by
      cases value <;> simp [legacyEntry, hand, hor]
    rw [heq] at h
    by_cases hkey : isOperatorKey key
    · rw [if_pos hkey] at h
      cases h
      exact hs
    · rw [if_neg hkey] at h
      cases h
      exact hs.considerField hP (hfield hkey)

theorem LegacyMatch.and (hP : Forall₂ (EqualsOnly P) names values) (es : List Value)
    {s s' : LegacyState} (hs : LegacyMatch H values s) (hmatch : allMatch P es)
    (h : legacyAnd H.hash names es s = some s') : LegacyMatch H values s' := by
  match es with
  | [] =>
    cases h
    exact hs
  | e :: es =>
    cases e with
    | document query =>
      rw [allMatch, Bool.and_eq_true] at hmatch
      obtain ⟨inner, hinner, hrest⟩ := bind_eq_some_iff.1 h
      have hinit : LegacyMatch H values ⟨s.fieldValues, []⟩ := ⟨hs.consistent, rfl⟩
      have harm := LegacyMatch.loop hP query hinit hmatch.1 hinner
      refine LegacyMatch.and hP es ?_ hmatch.2 hrest
      refine ⟨harm.consistent, ?_⟩
      rw [evalAll_append, hs.multiClause, harm.keepOr]
      rfl
    | _ => cases hmatch

theorem LegacyMatch.or (hP : Forall₂ (EqualsOnly P) names values) (es : List Value)
    {orExprs r : List ShardKeyExpr}
    (hmatch : anyMatch P es ∨ evalAny (storedShardKeyValue H.hash values) orExprs)
    (h : legacyOr H.hash names es orExprs = some r) :
    r = [] ∨ evalAny (storedShardKeyValue H.hash values) r := by
  match es with
  | [] =>
    cases h
    exact Or.inr (hmatch.resolve_left nofun)
  | e :: es =>
    cases e with
    | document query =>
      obtain ⟨arm, harm, h⟩ := bind_eq_some_iff.1 h
      cases hfilter : arm.finish H.hash with
      | none =>
        rw [hfilter] at h
        cases h
        exact Or.inl rfl
      | some orExpr =>
        rw [hfilter] at h
        refine LegacyMatch.or hP es (arm_or_rest hmatch ?_) h
        intro hquery
        exact (LegacyMatch.loop hP query (.none hP) hquery harm).finish hfilter
    | _ => cases h

end

theorem findShardKeyValuesExpr_sound (hmatch : queryMatches P query)
    {e : ShardKeyExpr} (h : findShardKeyValuesExpr H.hash names query = some (some e)) :
    e.eval (storedShardKeyValue H.hash values) := by
  unfold findShardKeyValuesExpr at h
  obtain ⟨s, hs, h⟩ := bind_eq_some_iff.1 h
  exact (LegacyMatch.loop hP query (.none hP) hmatch hs).finish (some.inj h)

end Legacy

-- ==== the product of the lists of `$in`

/-- The combination is one of values that a document with some values at the
shard key could have. -/
def IsCombinationOf (values : List Value) (combination : List (Option Value)) : Prop :=
  ∃ vs : List Value, combination = vs.map some ∧ (∀ v ∈ vs, v.isRegex = false)
    ∧ Forall₂ (fun w v => bsonValueEquals w v = true) values vs

/-- Where every field of the shard key has candidates, and some combination
that is tried has a hash, one that is tried has the values of the document. -/
def InFilterComplete (names : List Bytes) (query : Fields) (values : List Value) : Prop :=
  ∀ lists, candidateLists names query = some lists →
    (∃ c ∈ triedCombinations lists, isHashable c = true) →
    ∃ c ∈ triedCombinations lists, IsCombinationOf values c

variable (hmatch : queryMatches P query)

include hmatch

theorem onlyOperand
    (hs : findShardKeyValuesExprPhase1 names query (.init names) = some s) (hi : i < names.length)
    {operand : Value} (hoperand : atField names i inOperands (conditions query) = [operand]) :
    ∃ es, operand = .array es ∧ es.any (valueMatches P names[i]) := by
  have hstate := (MatchState.init hP).of_phase1 hP hmatch hs
  have hclause : (s.inClauses.getD [])[i]? = some ⟨operand, 1⟩ := by
    rw [(Collected.phase1 query hs).inClauses_eq, getElem?_map, getElem?_range hi]
    simp [hoperand, InClause.push]
  exact hstate.operand hclause Nat.one_pos (getElem?_eq_getElem hi)

theorem shardKeyInLists_eq (hs : findShardKeyValuesExprPhase1 names query (.init names) = some s) :
    shardKeyInLists (s.fieldValues.zip (s.inClauses.getD []))
      = some (candidateLists names query) := by
  have hcollected := Collected.phase1 query hs
  rw [hcollected.fieldValues_eq, hcollected.inClauses_eq, zip_map']
  apply shardKeyInLists_map
  intro i hi
  unfold candidates
  cases (atField names i requiredValues (conditions query)).getLast? with
  | some value => rfl
  | none =>
    cases hoperands : atField names i inOperands (conditions query) with
    | nil => rfl
    | cons operand rest =>
      cases rest with
      | nil =>
        obtain ⟨es, rfl, -⟩ := onlyOperand hP hmatch hs (mem_range.1 hi) hoperands
        rfl
      | cons operand' rest =>
        unfold shardKeyInValues
        have hcount : (foldl InClause.push {} (operand :: operand' :: rest)).setCount ≠ 1 := by
          rw [foldl_push_setCount, length_cons, length_cons]
          omega
        simp only [if_neg hcount]

variable {lists : List (List Value)}

theorem exists_candidate (hlists : candidateLists names query = some lists) :
    Forall₂ (fun w xs => ∃ v ∈ xs, v.isRegex ∨ bsonValueEquals w v) values lists := by
  obtain ⟨s, hs, hstate⟩ := MatchState.phase1 hP query (.init hP) hmatch
  obtain ⟨hlen, hget⟩ := candidateLists_getElem hlists
  refine forall₂_iff_get.2 ⟨by rw [hlen, hP.length_eq], ?_⟩
  intro i hi hi'
  have hname : i < names.length := hlen ▸ hi'
  have hcandidates := hget i hi'
  rw [get_eq_getElem, get_eq_getElem]
  unfold candidates at hcandidates
  cases hrequired : (atField names i requiredValues (conditions query)).getLast? with
  | some v =>
    rw [hrequired] at hcandidates
    have hconsistent := hstate.consistent
    rw [(Collected.phase1 query hs).fieldValues_eq] at hconsistent
    have hv := hconsistent.get (i := i) hi (by simpa using hname) v
      (by simpa using hrequired)
    refine ⟨v, ?_, hv⟩
    rw [← some.inj hcandidates]
    exact mem_singleton_self v
  | none =>
    rw [hrequired] at hcandidates
    simp only at hcandidates
    split at hcandidates
    · rename_i operand hoperand
      obtain ⟨es, rfl, hany⟩ := onlyOperand hP hmatch hs hname hoperand
      obtain ⟨v, hv, hmatches⟩ := List.any_eq_true.1 hany
      have hes : es = lists[i] := some.inj hcandidates
      refine ⟨v, hes ▸ hv, ?_⟩
      have hvalue : EqualsOnly P names[i] values[i] := hP.get hname hi
      cases v <;> first | exact Or.inl rfl | exact Or.inr (hvalue _ hmatches)
    · cases hcandidates

omit hP hmatch in
theorem exists_choice
    (h : Forall₂ (fun w xs => ∃ v ∈ xs, v.isRegex ∨ bsonValueEquals w v) values lists)
    (hregex : ∀ xs ∈ lists, ∀ v ∈ xs, v.isRegex = false) :
    ∃ vs, Forall₂ (fun w v => bsonValueEquals w v) values vs
      ∧ Forall₂ (fun v xs => v ∈ xs) vs lists := by
  induction h with
  | nil => exact ⟨[], .nil, .nil⟩
  | cons hxs _ ih =>
    obtain ⟨hregex, hrest⟩ := forall_mem_cons.1 hregex
    obtain ⟨vs, hequal, hmem⟩ := ih hrest
    obtain ⟨v, hv, hvalue⟩ := hxs
    have hv' := hvalue.resolve_left (by rw [hregex v hv]; decide)
    exact ⟨v :: vs, .cons hv' hequal, .cons hv hmem⟩

theorem inFilterComplete_of_no_regex
    (h : ∀ lists, candidateLists names query = some lists → (lists.map List.length).prod < 2 ^ 31
        ∧ ∀ xs ∈ lists, ∀ v ∈ xs, v.isRegex = false) : InFilterComplete names query values := by
  intro lists hlists _
  obtain ⟨hsize, hregex⟩ := h lists hlists
  obtain ⟨vs, hequal, hmem⟩ := exists_choice (exists_candidate hP hmatch hlists) hregex
  obtain ⟨i, hi, hpick⟩ := exists_pick hmem
  refine ⟨pick i lists, ?_, vs, hpick, ?_, hequal⟩
  · refine List.mem_map.2 ⟨i, mem_range.2 ?_, rfl⟩
    rw [Int32.toInt_ofNat_of_lt hsize]
    exact hi
  · intro v hv
    obtain ⟨j, hj, rfl⟩ := getElem_of_mem hv
    have hj' : j < lists.length := hmem.length_eq ▸ hj
    exact hregex lists[j] (getElem_mem hj') vs[j] (hmem.get hj hj')

section Complete

variable (H : ShardHash)

omit hP hmatch in
theorem evalAny_of_combination {combinations : List (List (Option Value))}
    (h : ∃ c ∈ combinations, IsCombinationOf values c) : evalAny (storedShardKeyValue H.hash values)
      (combinations.filterMap (createShardKeyFilterCore H.hash)) := by
  obtain ⟨c, hc, vs, rfl, hvs, hequal⟩ := h
  refine evalAny_iff.2 ⟨.eq (storedShardKeyValue H.hash vs), ?_, ?_⟩
  · exact mem_filterMap.2 ⟨_, hc, createShardKeyFilterCore_iff.2 ⟨vs, rfl, hvs, rfl⟩⟩
  · show (_ == _)
    rw [beq_iff_eq]
    exact foldl_hash_congr H hequal 0

/-- The newer derivation leaves out no shard with a matching document, where
the product of the `$in` lists is complete. -/
theorem findShardKeyValuesExprNew_sound (hcomplete : InFilterComplete names query values) {e : ShardKeyExpr}
    (h : findShardKeyValuesExprNew H.hash names query = some (some e)) :
    e.eval (storedShardKeyValue H.hash values) := by
  unfold findShardKeyValuesExprNew at h
  obtain ⟨s, hs, h⟩ := bind_eq_some_iff.1 h
  have hstate := (MatchState.init hP).of_phase1 hP hmatch hs
  cases hsingle : createShardKeyFilterCore H.hash s.fieldValues with
  | some single =>
    rw [hsingle] at h
    cases h
    exact hstate.consistent.eval H hsingle
  | none =>
    rw [hsingle] at h
    obtain ⟨inKey, hin, h⟩ := bind_eq_some_iff.1 h
    cases inKey with
    | none =>
      exact considerShardKeyFiltersForOrClauses_sound hP H hstate.consistent hstate.orClauses h
    | some inBasedKey =>
      cases h
      obtain ⟨lists, hlists, h⟩ := bind_eq_some_iff.1 hin
      cases lists with
      | none => cases h
      | some lists =>
        have h := some.inj h
        rw [shardKeyCombinations_eq] at h
        rw [shardKeyInLists_eq hP hmatch hs] at hlists
        rw [eval_makeOrs h]
        apply evalAny_of_combination H
        apply hcomplete lists (some.inj hlists)
        -- there is a filter, so some combination has a hash
        by_contra hnone
        have hempty : (triedCombinations lists).filterMap
            (createShardKeyFilterCore H.hash) = [] := by
          refine filterMap_eq_nil_iff.2 fun c hc => ?_
          refine createShardKeyFilterCore_eq_none.2 ?_
          exact Bool.not_eq_true _ ▸ fun hhash => hnone ⟨c, hc, hhash⟩
        rw [makeOrs_eq_none.2 hempty] at h
        cases h

end Complete

/-- A hash that counts how many values of a list were met, and never gets there
after another value. -/
def countingHash (values : List Value) : ShardHash where
  hash v seed :=
    match values[seed.toNat]? with
    | some w =>
      if bsonValueEquals w v then seed + 1
      else UInt64.ofNat (values.length + 1)
    | none => UInt64.ofNat (values.length + 1)
  congr := by
    intro a b seed hab
    cases values[seed.toNat]? with
    | none => rfl
    | some w =>
      have heq : bsonValueEquals w a = bsonValueEquals w b :=
        Bool.eq_iff_iff.2 ⟨fun h => bsonValueEquals_trans h hab,
          fun h => bsonValueEquals_trans h (bsonValueEquals_symm hab)⟩
      simp only [heq]

section Counting

variable (hlen : values.length < 2 ^ 31)

omit hP hmatch

include hlen

variable {k : Nat}

omit [BidLib] in
theorem toNat_counting (hk : k ≤ values.length + 1) : (UInt64.ofNat k).toNat = k := by
  rw [UInt64.toNat_ofNat']
  omega

theorem foldl_countingHash_failed (vs : List Value) :
    vs.foldl (fun k v => (countingHash values).hash v k)
      (UInt64.ofNat (values.length + 1)) = UInt64.ofNat (values.length + 1) := by
  induction vs with
  | nil => rfl
  | cons v vs ih =>
    show foldl _ (match values[(UInt64.ofNat (values.length + 1)).toNat]?
      with | some w => _ | none => _) vs = _
    rw [toNat_counting hlen (Nat.le_refl _), getElem?_eq_none (Nat.le_succ _)]
    exact ih

theorem countingHash_ofNat (hk : k ≤ values.length) (v : Value) :
    (countingHash values).hash v (UInt64.ofNat k) = match values[k]? with
        | some w =>
          if bsonValueEquals w v then UInt64.ofNat (k + 1)
          else UInt64.ofNat (values.length + 1)
        | none => UInt64.ofNat (values.length + 1) := by
  have hsucc : UInt64.ofNat (k + 1) = UInt64.ofNat k + 1 := UInt64.ofNat_add k 1
  show (match values[(UInt64.ofNat k).toNat]? with
    | some w => _ | none => _) = _
  rw [toNat_counting hlen (Nat.le_succ_of_le hk), hsucc]

theorem foldl_countingHash_iff {vs : List Value} (hk : k ≤ values.length) :
    vs.foldl (fun k v => (countingHash values).hash v k) (UInt64.ofNat k)
        = UInt64.ofNat values.length
      ↔ Forall₂ (fun w v => bsonValueEquals w v) (values.drop k)
        vs := by
  have hinj (j : Nat) (hj : j ≤ values.length + 1) :
      UInt64.ofNat j = UInt64.ofNat values.length ↔ j = values.length := by
    rw [← UInt64.toNat_inj, toNat_counting hlen hj, toNat_counting hlen (Nat.le_succ _)]
  induction vs generalizing k with
  | nil =>
    rw [foldl_nil, hinj k (Nat.le_succ_of_le hk), forall₂_nil_right_iff, drop_eq_nil_iff]
    omega
  | cons v vs ih =>
    have hfail : ¬ UInt64.ofNat (values.length + 1) = UInt64.ofNat values.length := by
      rw [hinj _ (Nat.le_refl _)]
      omega
    rw [foldl_cons, countingHash_ofNat hlen hk]
    by_cases hlt : k < values.length
    · rw [getElem?_eq_getElem hlt, drop_eq_getElem_cons hlt, forall₂_cons]
      by_cases hw : bsonValueEquals values[k] v
      · simp only [hw, if_true, true_and]
        exact ih hlt
      · simp only [hw, if_false, Bool.false_eq_true, false_and,
          foldl_countingHash_failed hlen, hfail]
    · have hend : values.drop k = [] :=
        drop_eq_nil_iff.2 (Nat.le_of_not_lt hlt)
      rw [getElem?_eq_none (Nat.le_of_not_lt hlt), hend]
      simp only [foldl_countingHash_failed hlen, hfail, false_iff]
      exact nofun

theorem forall₂_of_countingHash {vs : List Value}
    (h : storedShardKeyValue (countingHash values).hash vs
      = storedShardKeyValue (countingHash values).hash values) :
    Forall₂ (fun w v => bsonValueEquals w v) values vs := by
  have hself : Forall₂ (fun w v => bsonValueEquals w v) values
      values :=
    forall₂_same.2 fun v _ =>
      bsonValueEquals_iff.2 (compareBsonValueAndType_self v)
  have hvalues := (foldl_countingHash_iff hlen (Nat.zero_le _)).2 hself
  exact (foldl_countingHash_iff hlen (Nat.zero_le _)).1 (h.trans hvalues)

end Counting

theorem inFilterComplete_of_hashable
    (hs : findShardKeyValuesExprPhase1 names query (.init names) = some s)
    (h : isHashable s.fieldValues) : InFilterComplete names query values := by
  apply inFilterComplete_of_no_regex hP hmatch
  intro lists hlists
  obtain ⟨hlen, hget⟩ := candidateLists_getElem hlists
  rw [(Collected.phase1 query hs).fieldValues_eq, isHashable, List.all_map, List.all_eq_true] at h
  have hsingle : ∀ xs ∈ lists, ∃ v, xs = [v] ∧ v.isRegex = false := by
    intro xs hxs
    obtain ⟨i, hi, rfl⟩ := getElem_of_mem hxs
    have hcandidates := hget i hi
    have hvalue := h i (mem_range.2 (hlen ▸ hi))
    unfold candidates at hcandidates
    cases hrequired : (atField names i requiredValues (conditions query)).getLast? with
    | none =>
      rw [Function.comp_apply, hrequired] at hvalue
      cases hvalue
    | some v =>
      rw [Function.comp_apply, hrequired] at hvalue
      rw [hrequired] at hcandidates
      refine ⟨v, (some.inj hcandidates).symm, ?_⟩
      simpa using hvalue
  refine ⟨?_, ?_⟩
  · rw [prod_eq_one]
    · decide
    · intro n hn
      obtain ⟨xs, hxs, rfl⟩ := List.mem_map.1 hn
      obtain ⟨v, rfl, -⟩ := hsingle xs hxs
      rfl
  · intro xs hxs v hv
    obtain ⟨v', rfl, hv'⟩ := hsingle xs hxs
    rw [mem_singleton.1 hv]
    exact hv'

/-- Only where the product of the `$in` lists is complete does the newer
derivation leave out no shard with a matching document, whatever the hash. -/
theorem inFilterComplete_of_sound (hlen : values.length < 2 ^ 31)
    (h : ∀ (H : ShardHash) (e : ShardKeyExpr),
      findShardKeyValuesExprNew H.hash names query = some (some e) →
      e.eval (storedShardKeyValue H.hash values)) : InFilterComplete names query values := by
  obtain ⟨s, hs, hstate⟩ := MatchState.phase1 hP query (.init hP) hmatch
  by_cases hfields : isHashable s.fieldValues
  · exact inFilterComplete_of_hashable hP hmatch hs hfields
  intro lists hlists hsome
  obtain ⟨c, hc, hhash⟩ := hsome
  have hsingle : createShardKeyFilterCore (countingHash values).hash s.fieldValues = none :=
    createShardKeyFilterCore_eq_none.2 (Bool.not_eq_true _ ▸ hfields)
  have hin : considerShardKeyFiltersForInClauses (countingHash values).hash
      s.fieldValues (s.inClauses.getD []) = some (makeOrs ((triedCombinations lists).filterMap
          (createShardKeyFilterCore (countingHash values).hash))) := by
    rw [considerShardKeyFiltersForInClauses, shardKeyInLists_eq hP hmatch hs,
      hlists, ← shardKeyCombinations_eq]
    rfl
  -- a combination has a hash, so there is a filter
  cases hors : makeOrs ((triedCombinations lists).filterMap
      (createShardKeyFilterCore (countingHash values).hash)) with
  | none =>
    have hnone := filterMap_eq_nil_iff.1 (makeOrs_eq_none.1 hors) c hc
    rw [createShardKeyFilterCore_eq_none.1 hnone] at hhash
    cases hhash
  | some e =>
    have hnew : findShardKeyValuesExprNew (countingHash values).hash names
        query = some (some e) := by
      rw [findShardKeyValuesExprNew, hs]
      dsimp only [bind_eq_bind, bind_some]
      rw [hsingle]
      rw [hin, hors]
      rfl
    have heval := h (countingHash values) e hnew
    rw [eval_makeOrs hors] at heval
    obtain ⟨e', he', heval⟩ := evalAny_iff.1 heval
    obtain ⟨c', hc', hfilter⟩ := mem_filterMap.1 he'
    obtain ⟨vs, rfl, hvs, rfl⟩ := createShardKeyFilterCore_iff.1 hfilter
    exact ⟨_, hc', vs, rfl, hvs, forall₂_of_countingHash hlen (eq_of_beq heval)⟩

end Matching

-- ==== `$eq` at the key

theorem traverseBsonCore_findField {σ : Type}
    (f : TraverseBsonExecutionFuncs σ) (skip : Bool) (path : Bytes) (fs : Fields) (state : σ) :
    traverseBsonCore f skip path false fs state = match findField (traverseKey path) fs with
        | none => (true, f.setTraverseResult .pathNotFound state)
        | some v => traverseFound f skip path false (traverseKey path) v state := by
  induction fs with
  | nil => rfl
  | cons field fs ih =>
    obtain ⟨k, v⟩ := field
    rw [traverseBsonCore, findField]
    by_cases hk : k = traverseKey path
    · rw [if_pos hk, if_pos hk, hk]
    · rw [if_neg hk, if_neg hk, ih]

variable {matchFunc : Value → Bool → Bool} {forNulls : Bool}

theorem visitField_compare {k : Bytes} {start : CompareResult} (hv : ∀ es, v ≠ .array es) :
    visitField (compareExecutionFuncs matchFunc forNulls) path false (k, v) start
      = if matchFunc v false then .match else .mismatch := by
  have hmismatch : (compareExecutionFuncs matchFunc forNulls).setTraverseResult
      .typeMismatch .mismatch = .mismatch := ite_self _
  have hvisit : (compareExecutionFuncs matchFunc forNulls).visitTopLevelField
      (k, v) path start = if matchFunc v false then (false, .match)
        else (true, .mismatch) := rfl
  unfold visitField
  rw [hvisit]
  by_cases hm : matchFunc v false
  · rw [if_pos hm, if_pos hm]
  · rw [if_neg hm, if_neg hm]
    cases v with
    | array es => exact absurd rfl (hv es)
    | _ => exact hmismatch

/-- At a path of the shard key, a traversal visits the value of a document that
can be stored; otherwise the value is missing. -/
theorem traverse_of_stored {skip : Bool} {path : Bytes} {fs : Fields} {w : Value}
    (h : findShardKeyFieldValue (segments dot path) fs = some w) (start : CompareResult) :
    (traverseBson (compareExecutionFuncs matchFunc forNulls) skip fs path start
        = if matchFunc w false then .match else .mismatch)
      ∨ w = .null ∧ traverseBson (compareExecutionFuncs matchFunc forNulls)
        skip fs path start = .pathNotFound := by
  -- on the names of the path, which the traversal takes off one by one
  generalize hsegs : segments dot path = segs at h
  induction segs generalizing path fs with
  | nil =>
    rw [segments_eq_traverseKey] at hsegs
    cases hsegs
  | cons name rest ih =>
    have hname : traverseKey path = name := by
      rw [segments_eq_traverseKey] at hsegs
      exact head_eq_of_cons_eq hsegs
    have htail : (segments dot path).tail = rest := by rw [hsegs]; rfl
    unfold traverseBson
    rw [traverseBsonCore_findField, hname]
    cases hprefix : stringViewFindPrefix path dot with
    | none =>
      obtain rfl : [] = rest := (segments_tail_of_none hprefix).symm.trans htail
      rw [findShardKeyFieldValue] at h
      cases hfind : findField name fs with
      | none =>
        rw [hfind] at h
        cases h
        exact Or.inr ⟨rfl, rfl⟩
      | some v =>
        rw [hfind] at h
        have hv : (∀ es, v ≠ .array es) ∧ v = w := by
          cases v <;> first | exact ⟨by simp, some.inj h⟩ | cases h
        rw [← hv.2]
        simp only [traverseFound, hprefix]
        exact Or.inl (visitField_compare hv.1)
    | some dotKey =>
      have hrest := (segments_tail_of_some hprefix).symm.trans htail
      -- the rest of the path is not empty
      obtain ⟨next, rest, rfl⟩ : ∃ next rest', rest = next :: rest' := by
        rw [← hrest, segments_eq_traverseKey]
        exact ⟨_, _, rfl⟩
      rw [findShardKeyFieldValue] at h
      · cases hfind : findField name fs with
        | none =>
          rw [hfind] at h
          cases h
          exact Or.inr ⟨rfl, rfl⟩
        | some v =>
          rw [hfind] at h
          simp only [traverseFound, hprefix]
          cases v with
          | document gs => exact ih hrest h
          | array es => cases h
          | _ =>
            cases h
            exact Or.inr ⟨rfl, rfl⟩
      · exact cons_ne_nil _ _

theorem bsonDollarEq_of_stored [BidLib]
    {fs : Fields} {w : Value} (h : findShardKeyFieldValue (segments dot path) fs = some w)
    (heq : bsonDollarEq useLegacy skip fs (path, v)) : bsonValueEquals w v := by
  unfold bsonDollarEq compareBsonAgainstQuery at heq
  simp only [decide_eq_true_eq] at heq
  generalize hforNulls : (decide (v.type = .null) && !useLegacy) = forNulls at heq
  generalize (if forNulls = true then CompareResult.mismatch
    else CompareResult.pathNotFound) = start at heq
  rcases @traverse_of_stored (fun v' _ => compareEqualMatch v' v) forNulls skip
    path fs w h start with hvisit | ⟨rfl, hmissing⟩
  · rw [hvisit] at heq
    by_cases hm : compareEqualMatch w v
    · rwa [compareEqualMatch_eq] at hm
    · simp [hm] at heq
  · rw [hmissing] at heq
    by_cases hnull : v.type = .null
    · obtain rfl : v = .null := by
        cases v <;> first | rfl | cases hnull
      exact bsonValueEquals_iff.2 (compareBsonValueAndType_self .null)
    · simp [hnull] at heq

theorem equalsOnly_of_stored [BidLib] {shardKey : Pgbson} {doc : Fields} {values : List Value}
    (hstored : shardKeyValuesOf shardKey doc = some values)
    (hP : ∀ path v, P.equals path v = bsonDollarEq useLegacy skip doc (path, v)) :
    Forall₂ (EqualsOnly P) (shardKeyNames shardKey) values := by
  have hvalues := forall₂_of_mapM_eq_some hstored
  rw [shardKeyPaths, forall₂_map_left_iff] at hvalues
  rw [shardKeyNames, forall₂_map_left_iff]
  refine hvalues.imp fun f w hw v hv => ?_
  rw [hP] at hv
  exact bsonDollarEq_of_stored hw hv

-- ==== routing

section Keeps

variable [BidLib]

/-- The filter of a query, if it has one, lets the stored shard key value of a
document through. -/
def KeepsDocument (H : ShardHash) (useNewShardKeyCalculation : Bool)
    (shardKey : Pgbson) (collectionId : UInt64) (query document : Fields) : Prop :=
  ∀ shardKeyValue e, shardKeyValueOfDocument H.hash shardKey document = some shardKeyValue →
    computeShardKeyExprForQueryValue H.hash useNewShardKeyCalculation
      (some shardKey) collectionId query = some (some e) →
    e.eval shardKeyValue = true

/-- A document that matches a query is kept by the filter of the older
derivation, and by that of the newer one exactly if the product of the `$in`
lists is complete. -/
theorem keepsDocument_iff (P : DocumentPredicates) (useLegacy skip : Bool)
    (shardKey : Pgbson) (collectionId : UInt64) (query document : Fields) (values : List Value)
    (hstored : shardKeyValuesOf shardKey document = some values)
    (hP : ∀ path v, P.equals path v = bsonDollarEq useLegacy skip document (path, v))
    (hmatch : queryMatches P query = true) :
    (∀ H : ShardHash, KeepsDocument H false shardKey collectionId query document)
    ∧ ((∀ H : ShardHash, KeepsDocument H true shardKey collectionId query document)
      ↔ InFilterComplete (shardKeyNames shardKey) query values) := by
  have hkey := equalsOnly_of_stored hstored hP
  have hvalue (H : ShardHash) : shardKeyValueOfDocument H.hash shardKey document
        = some (storedShardKeyValue H.hash values) := by
    rw [shardKeyValueOfDocument, hstored]
    rfl
  have hlen : values.length < 2 ^ 31 := by
    have hpaths := length_shardKeyPaths shardKey
    rw [(forall₂_of_mapM_eq_some hstored).length_eq] at hpaths
    exact hpaths
  refine ⟨?_, ?_, ?_⟩
  · intro H shardKeyValue e hdocument hfilter
    rw [hvalue] at hdocument
    cases hdocument
    exact findShardKeyValuesExpr_sound hkey hmatch hfilter
  · intro hkeeps
    apply inFilterComplete_of_sound hkey hmatch hlen
    intro H e hfilter
    exact hkeeps H _ e (hvalue H) hfilter
  · intro hcomplete H shardKeyValue e hdocument hfilter
    rw [hvalue] at hdocument
    cases hdocument
    exact findShardKeyValuesExprNew_sound hkey hmatch H hcomplete hfilter

end Keeps

/-- The query `{a: {$in: elements}}`. -/
def inQuery (elements : List Value) : Fields := [([97], .document [(inOperator, .array elements)])]

/-- What holds of the document `{a: "x"}`; of the patterns only `x` matches. -/
def onlyX [BidLib] : DocumentPredicates where
  equals path v := bsonDollarEq true true [([97], .utf8 [120])] (path, v)
  regexMatch _ pattern _ := pattern = [120]
  operator _ _ _ := false
  topLevel _ _ := false

/-- A query for one of two strings finds the document. -/
theorem in_of_strings_keeps : let _ : BidLib := BidLib.reference
    ∀ H : ShardHash, KeepsDocument H true hashedOnA 7
      (inQuery [.utf8 [120], .utf8 [121]]) [([97], .utf8 [120])] := by
  intro _
  refine (keepsDocument_iff onlyX true true hashedOnA 7 _ _ [.utf8 [120]] rfl
    (fun _ _ => rfl) (by decide +kernel)).2.2 ?_
  apply inFilterComplete_of_no_regex (P := onlyX)
  · exact equalsOnly_of_stored rfl fun _ _ => rfl
  · decide +kernel
  · intro lists hlists
    cases hlists
    decide

/-- The query `{a: {$in: ["y", /x/]}}` matches the document `{a: "x"}`. Its
filter asks for the hash of `"y"` alone. -/
theorem in_of_pattern_is_lost : let _ : BidLib := BidLib.reference
    queryMatches onlyX (inQuery [.utf8 [121], .regex [120] []]) = true
    ∧ ¬ KeepsDocument (countingHash [.utf8 [120]]) true hashedOnA 7
      (inQuery [.utf8 [121], .regex [120] []]) [([97], .utf8 [120])] := by
  intro _
  refine ⟨by decide +kernel, ?_⟩
  intro hkeeps
  have hlost := hkeeps 1 (.eq 2) (by decide +kernel) rfl
  revert hlost
  decide

end DocumentDb
