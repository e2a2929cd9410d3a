/-
The sorted accumulators: `$first`, `$top`, `$firstN`, `$topN` and their mirror images.

The state has at most `numAggValues` results in sort order. `BsonOrderTransition` walks down
from the last one, shifts every result that sorts behind the document by one slot and writes
the document into the free slot. `BsonOrderCombine` does this for the results of a second
state, never below the slot of the one before (`minPos`). Both are merges: the state is the
beginning of the stable sort of the input (`Lib/StableMerge`).
-/
import DocumentDb.Bson.Element
import DocumentDb.Bson.Order
import DocumentDb.Bson.Reference
import DocumentDb.Lib.StableMerge

namespace DocumentDb

open ThreeWay StableMerge Option Function
open List hiding merge nil_merge length_merge

-- ==== states

/-- A result with its sort keys. The array of the keys has a place for each key a
specification can have; unused places are null. -/
structure BsonOrderAggValue where
  value : Option Pgbson
  sortKeyValues : Nat → Option Pgbson

/-- As it is serialized between two calls: the results up to the current count. -/
structure BsonOrderAggState where
  numAggValues : Nat
  currentResult : List (Option BsonOrderAggValue)
  sortDirections : List Bool

/-- The array of results while a call works on it; the results may be given by the
pointers in them. -/
abbrev SlotsOf (V : Type) := Nat → Option V

abbrev Slots := SlotsOf BsonOrderAggValue

variable (state : BsonOrderAggState)

/-- `DeserializeOrderState`, and the memory behind the results. -/
def BsonOrderAggState.slots : Slots :=
  fun i => state.currentResult[i]?.join

/-- `SerializeOrderState`. -/
def BsonOrderAggState.serialize (slots : Slots) (currentCount : Nat) : BsonOrderAggState :=
  { state with currentResult := (List.range currentCount).map slots }

-- ==== comparisons

/-- Whether the result `current` sorts behind the new one: the first sort
key that differs decides. -/
def replaceCurrentAggregate {Key : Type} (compareNullable : Option Key → Option Key → Int)
    (invertSort : Bool) (current new : Nat → Option Key) (i : Nat) : List Bool → Bool
  | [] => false
  | ascOrder :: sortDirections =>
    let comparisonResult :=
      if invertSort then -compareNullable (current i) (new i)
      else compareNullable (current i) (new i)
    if 0 < comparisonResult then ascOrder
    else if comparisonResult < 0 then !ascOrder
    else replaceCurrentAggregate compareNullable invertSort current new (i + 1) sortDirections

section Loops

variable {V : Type}

/-- The loop that looks for the slot of a new result, from the slot below
`pos` down to `minPos`. A null slot is skipped by the combine function; the
transition function would read through the null pointer. -/
def findPosition (replaces : V → Bool) (skipNull : Bool)
    (numAggValues minPos : Nat) : Nat → SlotsOf V → Option (Nat × SlotsOf V)
  | 0, slots => some (0, slots)
  | pos + 1, slots =>
    if pos < minPos then some (pos + 1, slots)
    else
      match slots pos with
      | none =>
        if skipNull then
          findPosition replaces skipNull numAggValues minPos pos slots
        else none
      | some current =>
        if !replaces current then some (pos + 1, slots)
        else if pos + 1 = numAggValues then
          -- the last result can be removed
          findPosition replaces skipNull numAggValues minPos pos (Function.update slots pos none)
        else
          findPosition replaces skipNull numAggValues minPos pos
            (Function.update (Function.update slots (pos + 1) (some current)) pos none)

/-- The loop over the results of the right state: the slots, the count and
whether the left state was changed. -/
def insertResults (replaces : V → V → Bool) (numAggValues : Nat) :
    List (Option V) → SlotsOf V → Nat → Nat → Bool → Option (SlotsOf V × Nat × Bool)
  | [], slots, currentCount, _, updatedLeft =>
    some (slots, currentCount, updatedLeft)
  -- no more results in right
  | none :: _, slots, currentCount, _, updatedLeft =>
    some (slots, currentCount, updatedLeft)
  | some right :: rest, slots, currentCount, minPos, updatedLeft => do
    let (leftPos, slots) ← findPosition (replaces · right) true numAggValues minPos
      currentCount slots
    if leftPos ≠ numAggValues then
      insertResults replaces numAggValues rest (Function.update slots leftPos (some right))
        (if currentCount ≠ numAggValues then currentCount + 1
          else currentCount)
        (leftPos + 1) true
    else
      insertResults replaces numAggValues rest slots currentCount (leftPos + 1) updatedLeft

end Loops

-- ==== transition

section Accumulator

variable (compareNullable : Option Pgbson → Option Pgbson → Int) (invertSort : Bool)

variable (bsonOrderby : Pgbson → PgbsonElement → Pgbson) (numResults : Nat)
  (sortSpecs : List PgbsonElement)

/-- The result a document would be. The source computes the sort keys as the
comparisons ask for them. -/
def newAggValue (inputDocument : Option Pgbson) : BsonOrderAggValue where
  value := inputDocument
  sortKeyValues i := sortSpecs[i]?.bind fun spec => inputDocument.map (bsonOrderby · spec)

def directions : List Bool :=
  sortSpecs.map fun spec => bsonValueAsInt32 spec.bsonValue == 1

def initialOrderState : BsonOrderAggState where
  numAggValues := numResults
  currentResult := []
  sortDirections := directions sortSpecs

/-- The outer option is an error: there are more than 32 sort keys, or a null pointer was
read. -/
def bsonOrderTransition (state : Option BsonOrderAggState) (inputDocument : Option Pgbson) :
    Option (Option BsonOrderAggState) :=
  if 32 < sortSpecs.length then none
  else do
    let input := state.getD (initialOrderState numResults sortSpecs)
    let newValue := newAggValue bsonOrderby sortSpecs inputDocument
    let currentCount := input.currentResult.length
    let (currentPos, slots) ← findPosition
      (fun current => replaceCurrentAggregate compareNullable invertSort
        current.sortKeyValues newValue.sortKeyValues 0 input.sortDirections)
      false input.numAggValues 0 currentCount input.slots
    if currentPos ≠ input.numAggValues then
      some (some (input.serialize (Function.update slots currentPos (some newValue))
        (if currentCount < input.numAggValues then currentCount + 1
          else currentCount)))
    else some state

/-- `BsonOrderTransition` over a sequence of documents. -/
def bsonOrderFold (documents : List (Option Pgbson)) : Option (Option BsonOrderAggState) :=
  documents.foldlM (bsonOrderTransition compareNullable invertSort
    bsonOrderby numResults sortSpecs) none

-- ==== combine

def combineResults (numAggValues : Nat) (sortDirections : List Bool) :
    List (Option BsonOrderAggValue) → Slots → Nat → Nat → Bool → Option (Slots × Nat × Bool) :=
  insertResults (fun left right => replaceCurrentAggregate compareNullable invertSort
    left.sortKeyValues right.sortKeyValues 0 sortDirections) numAggValues

def bsonOrderCombine (left right : Option BsonOrderAggState) : Option (Option BsonOrderAggState) :=
  match left, right with
  | none, right => some right
  | left, none => some left
  | some left, some right => do
    let (slots, currentCount, updatedLeft) ←
      combineResults compareNullable invertSort left.numAggValues
        left.sortDirections right.currentResult left.slots
        left.currentResult.length 0 false
    some (some (if updatedLeft then left.serialize slots currentCount
      else left))

-- ==== the order

/-- The verdict on two lists of sort keys from a position on. -/
def compareSortKeys (i : Nat) : List Bool → (Nat → Option Pgbson) → (Nat → Option Pgbson) → Int
  | [], _, _ => 0
  | ascOrder :: sortDirections, left, right =>
    let comparisonResult :=
      if invertSort then -compareNullable (left i) (right i)
      else compareNullable (left i) (right i)
    andThen (if ascOrder then comparisonResult else -comparisonResult)
      (compareSortKeys (i + 1) sortDirections left right)

theorem replaceCurrentAggregate_eq (current new : Nat → Option Pgbson)
    (i : Nat) (dirs : List Bool) :
    replaceCurrentAggregate compareNullable invertSort current new i dirs
      = decide (0 < compareSortKeys compareNullable invertSort i dirs current new) := by
  induction dirs generalizing i with
  | nil => rfl
  | cons ascOrder dirs ih =>
    unfold replaceCurrentAggregate compareSortKeys
    simp only [ih]
    generalize (if invertSort = true then
      -compareNullable (current i) (new i)
      else compareNullable (current i) (new i)) = c
    rcases lt_trichotomy c 0 with hc | hc | hc
    · have hc' : ¬0 < c := by omega
      have hne : c ≠ 0 := by omega
      cases ascOrder <;> simp [andThen, hc, hc', hne]
    · simp [hc]
    · have hne : c ≠ 0 := by omega
      have hc' : ¬c < 0 := by omega
      cases ascOrder <;> simp [andThen, hc, hc', hne]

variable {compareNullable}

theorem totalPreorder_compareSortKeys (h : TotalPreorder compareNullable)
    (i : Nat) (dirs : List Bool) :
    TotalPreorder (compareSortKeys compareNullable invertSort i dirs) := by
  induction dirs generalizing i with
  | nil => exact TotalPreorder.zero
  | cons ascOrder dirs ih =>
    have hkey := h.comap fun keys : Nat → Option Pgbson => keys i
    have hinv : TotalPreorder fun left right : Nat → Option Pgbson =>
        if invertSort then -compareNullable (left i) (right i)
        else compareNullable (left i) (right i) := by
      cases invertSort with
      | false => exact hkey
      | true => exact hkey.neg
    have hdir : TotalPreorder fun left right : Nat → Option Pgbson =>
        if ascOrder then
          if invertSort then -compareNullable (left i) (right i)
          else compareNullable (left i) (right i)
        else -if invertSort then -compareNullable (left i) (right i)
          else compareNullable (left i) (right i) := by
      cases ascOrder with
      | false => exact hinv.neg
      | true => exact hinv
    exact hdir.andThen (ih (i + 1))

variable (compareNullable)

/-- The result `left` stays in front of the result `right`. -/
def StaysBefore (sortDirections : List Bool) (left right : BsonOrderAggValue) : Prop :=
  replaceCurrentAggregate compareNullable invertSort left.sortKeyValues
    right.sortKeyValues 0 sortDirections = false

instance (sortDirections : List Bool) :
    DecidableRel (StaysBefore compareNullable invertSort sortDirections) :=
  fun _ _ => inferInstanceAs (Decidable (_ = false))

variable {compareNullable invertSort}

theorem staysBefore_iff {dirs : List Bool} {left right : BsonOrderAggValue} :
    StaysBefore compareNullable invertSort dirs left right
      ↔ compareSortKeys compareNullable invertSort 0 dirs
          left.sortKeyValues right.sortKeyValues ≤ 0 := by
  unfold StaysBefore
  rw [replaceCurrentAggregate_eq, decide_eq_false_iff_not, not_lt]

theorem total_staysBefore (h : TotalPreorder compareNullable) (dirs : List Bool) :
    Std.Total (StaysBefore compareNullable invertSort dirs) := by
  refine ⟨fun a b => ?_⟩
  rw [staysBefore_iff, staysBefore_iff]
  have hflip := ((totalPreorder_compareSortKeys invertSort h 0
    dirs).flip a.sortKeyValues b.sortKeyValues).pos_iff
  omega

theorem isTrans_staysBefore (h : TotalPreorder compareNullable) (dirs : List Bool) :
    IsTrans BsonOrderAggValue (StaysBefore compareNullable invertSort dirs) := by
  refine ⟨fun a b c hab hbc => ?_⟩
  rw [staysBefore_iff] at hab hbc ⊢
  exact ((totalPreorder_compareSortKeys invertSort h 0 dirs).trans _ _ _).le hab hbc

end Accumulator

-- ==== the slots

def Holds (slots : Slots) (l : List BsonOrderAggValue) : Prop := ∀ i < l.length, slots i = l[i]?

theorem map_range_of_holds {slots : Slots} {l : List BsonOrderAggValue}
    (h : Holds slots l) : (List.range l.length).map slots = l.map some := by
  apply ext_getElem
  · simp
  · intro i hi hi'
    rw [length_map, length_range] at hi
    simp [h i hi, getElem?_eq_getElem hi]

variable {replaces : BsonOrderAggValue → Bool} {skipNull : Bool}

/-- What the loop for a new result does: it stops behind the slots that are
not replaced, and every slot from there on has moved up by one, the last one
of a full array apart. -/
theorem findPosition_spec {size minPos pos : Nat} (hmin : minPos ≤ pos) (n : Nat)
    (slots : Slots) (hstop : minPos = pos ∨ ∃ v, slots (pos - 1) = some v ∧ replaces v = false)
    (hrep : ∀ i, pos ≤ i → i < pos + n → ∃ v, slots i = some v ∧ replaces v) :
    ∃ slots', findPosition replaces skipNull size minPos (pos + n) slots = some (pos, slots')
      ∧ (∀ i < pos, slots' i = slots i)
      ∧ (∀ i, pos ≤ i → i < pos + n → i + 1 < size → slots' (i + 1) = slots i)
      ∧ ∀ i, pos + n < i → slots' i = slots i := by
  induction n generalizing slots with
  | zero =>
    refine ⟨slots, ?_, fun _ _ => rfl, fun i h₁ h₂ => by omega, fun _ _ => rfl⟩
    cases pos with
    | zero => rfl
    | succ pos =>
      rw [Nat.add_zero, findPosition]
      rcases hstop with heq | ⟨v, hv, hr⟩
      · rw [if_pos (by omega)]
      · rw [Nat.add_sub_cancel] at hv
        by_cases hlow : pos < minPos
        · rw [if_pos hlow]
        · rw [if_neg hlow, hv]
          simp [hr]
  | succ n ih =>
    obtain ⟨v, hv, hr⟩ := hrep (pos + n) (by omega) (by omega)
    -- the slots below are as before in what the loop goes on with
    have hnext : ∀ slots₁ : Slots, (∀ i < pos + n, slots₁ i = slots i) →
        ∃ slots', findPosition replaces skipNull size minPos (pos + n) slots₁ = some (pos, slots')
          ∧ (∀ i < pos, slots' i = slots i)
          ∧ (∀ i, pos ≤ i → i < pos + n → i + 1 < size → slots' (i + 1) = slots i)
          ∧ ∀ i, pos + n < i → slots' i = slots₁ i := by
      intro slots₁ hsame
      obtain ⟨slots', hrun, hlow, hmove, hhigh⟩ := ih slots₁ (by
          rcases hstop with heq | ⟨w, hw, hrw⟩
          · exact Or.inl heq
          · by_cases hpos : pos = 0
            · exact Or.inl (by omega)
            · exact Or.inr ⟨w, by rw [hsame _ (by omega), hw], hrw⟩)
        (fun i h₁ h₂ => by
          rw [hsame i h₂]
          exact hrep i h₁ (by omega))
      refine ⟨slots', hrun, fun i hi => ?_, fun i h₁ h₂ h₃ => ?_, hhigh⟩
      · rw [hlow i hi, hsame i (by omega)]
      · rw [hmove i h₁ h₂ h₃, hsame i h₂]
    rw [← Nat.add_assoc, findPosition, if_neg (by omega), hv]
    simp only [hr, Bool.not_true, Bool.false_eq_true, if_false]
    by_cases hlast : pos + n + 1 = size
    · -- the last result of a full array falls out
      rw [if_pos hlast]
      obtain ⟨slots', hrun, hlow, hmove, hhigh⟩ :=
        hnext (Function.update slots (pos + n) none) fun i hi => update_of_ne (by omega) _ _
      refine ⟨slots', hrun, hlow, fun i h₁ h₂ h₃ => ?_, fun i hi => ?_⟩
      · exact hmove i h₁ (by omega) h₃
      · rw [hhigh i (by omega), update_of_ne (by omega)]
    · -- the result moves to the next slot
      rw [if_neg hlast]
      obtain ⟨slots', hrun, hlow, hmove, hhigh⟩ := hnext
        (Function.update (Function.update slots (pos + n + 1) (some v)) (pos + n) none)
        fun i hi => by
          rw [update_of_ne (by omega), update_of_ne (by omega)]
      refine ⟨slots', hrun, hlow, fun i h₁ h₂ h₃ => ?_, fun i hi => ?_⟩
      · by_cases hi : i = pos + n
        · subst hi
          rw [hhigh _ (by omega), update_of_ne (by omega), update_self, hv]
        · exact hmove i h₁ (by omega) h₃
      · rw [hhigh i (by omega), update_of_ne (by omega), update_of_ne (by omega)]

theorem holds_insert {size minPos : Nat} {slots : Slots}
    {front back : List BsonOrderAggValue} {new : BsonOrderAggValue}
    (hslots : Holds slots (front ++ back)) (hmin : minPos ≤ front.length)
    (hfront : minPos = front.length ∨ ∃ v, front.getLast? = some v ∧ replaces v = false)
    (hback : ∀ v ∈ back, replaces v) : ∃ slots', findPosition replaces skipNull size minPos
          (front.length + back.length) slots = some (front.length, slots')
      ∧ (front.length < size →
          Holds (Function.update slots' front.length (some new)) ((front ++ new :: back).take size))
      ∧ (back = [] → Holds slots' front) := by
  have hget : ∀ i, front.length ≤ i → i < front.length + back.length →
      slots i = back[i - front.length]? := by
    intro i h₁ h₂
    rw [hslots i (by rw [length_append]; exact h₂), getElem?_append_right h₁]
  obtain ⟨slots', hrun, hlow, hmove, -⟩ := @findPosition_spec replaces
    skipNull size minPos front.length hmin back.length slots
    (by
      rcases hfront with heq | ⟨v, hv, hr⟩
      · exact Or.inl heq
      · refine Or.inr ⟨v, ?_, hr⟩
        have hpos : front.length - 1 < front.length := by
          cases front with
          | nil => simp at hv
          | cons a front => simp
        rw [hslots _ (by rw [length_append]; omega),
          getElem?_append_left hpos, ← getLast?_eq_getElem?, hv])
    (fun i h₁ h₂ => by
      have hlt : i - front.length < back.length := by omega
      refine ⟨back[i - front.length], ?_, hback _ (getElem_mem _)⟩
      rw [hget i h₁ h₂, getElem?_eq_getElem hlt])
  refine ⟨slots', hrun, fun hroom i hi => ?_, fun hnil i hi => ?_⟩
  · rw [length_take, length_append, length_cons] at hi
    rw [getElem?_take_of_lt (by omega)]
    rcases lt_trichotomy i front.length with h | h | h
    · rw [update_of_ne (by omega), hlow i h, hslots i (by rw [length_append]; omega),
        getElem?_append_left h, getElem?_append_left h]
    · rw [h, update_self, getElem?_append_right (le_refl _), Nat.sub_self]
      rfl
    · obtain ⟨j, rfl⟩ : ∃ j, i = j + 1 := ⟨i - 1, by omega⟩
      rw [update_of_ne (by omega), hmove j (by omega) (by omega) (by omega),
        hget j (by omega) (by omega), getElem?_append_right (by omega),
        show j + 1 - front.length = (j - front.length) + 1 by omega, getElem?_cons_succ]
  · rw [hlow i hi, hslots i (by rw [length_append]; omega), hnil, append_nil]

-- ==== the merges

section Runs

variable {cmp : Option Pgbson → Option Pgbson → Int}
  {invert : Bool} {dirs : List Bool}

theorem position_of_sorted (h : TotalPreorder cmp) {pre post : List BsonOrderAggValue}
    (new : BsonOrderAggValue) (hsorted : post.Pairwise (StaysBefore cmp invert dirs)) :
    let r := StaysBefore cmp invert dirs
    let front := pre ++ post.takeWhile (r · new)
    (pre.length = front.length ∨ ∃ v, front.getLast? = some v
          ∧ replaceCurrentAggregate cmp invert v.sortKeyValues new.sortKeyValues 0 dirs = false)
    ∧ ∀ v ∈ post.dropWhile (r · new),
        replaceCurrentAggregate cmp invert v.sortKeyValues new.sortKeyValues 0 dirs := by
  intro r front
  have htrans : IsTrans BsonOrderAggValue r := isTrans_staysBefore h dirs
  constructor
  · cases hlast : (post.takeWhile (r · new)).getLast? with
    | none =>
      rw [getLast?_eq_none_iff] at hlast
      exact Or.inl (by simp [front, hlast])
    | some v =>
      have hmem := mem_of_getLast? hlast
      have hv := mem_takeWhile_imp hmem
      refine Or.inr ⟨v, ?_, of_decide_eq_true hv⟩
      rw [getLast?_append, hlast]
      rfl
  · intro v hv
    have := not_rel_of_mem_dropWhile r hsorted hv
    exact Bool.of_not_eq_false this

/-- One result of the right state is taken in. -/
theorem combineResults_cons (size : Nat) (right : BsonOrderAggValue)
    (rest : List (Option BsonOrderAggValue)) (slots : Slots) (count minPos : Nat) (updated : Bool) :
    combineResults cmp invert size dirs (some right :: rest) slots count minPos updated
      = (findPosition (fun left => replaceCurrentAggregate cmp invert left.sortKeyValues
          right.sortKeyValues 0 dirs) true size minPos count slots).bind fun found =>
        if found.1 ≠ size then
          combineResults cmp invert size dirs rest
            (Function.update found.2 found.1 (some right))
            (if count ≠ size then count + 1 else count) (found.1 + 1) true
        else combineResults cmp invert size dirs rest found.2 count (found.1 + 1) updated := rfl

variable (cmp invert dirs) in
theorem combineResults_full (size : Nat)
    (right : List BsonOrderAggValue) (slots : Slots) (updated : Bool) :
    combineResults cmp invert size dirs (right.map some) slots size (size + 1) updated
      = some (slots, size, updated) := by
  induction right with
  | nil => rfl
  | cons x right ih =>
    have hpos : ∀ replaces, findPosition replaces true size
        (size + 1) size slots = some (size, slots) := by
      intro replaces
      cases size with
      | zero => rfl
      | succ n => rw [findPosition, if_pos (by omega)]
    simp only [map_cons, combineResults_cons, hpos,
      bind_some, ne_eq, not_true_eq_false, if_false]
    exact ih

theorem combineResults_spec (h : TotalPreorder cmp) {size : Nat} (right : List BsonOrderAggValue)
    {pre post : List BsonOrderAggValue} {slots : Slots} (updated : Bool)
    (hslots : Holds slots (pre ++ post)) (hcount : (pre ++ post).length ≤ size)
    (hsorted : post.Pairwise (StaysBefore cmp invert dirs)) :
    ∃ slots' updatedLeft', combineResults cmp invert size dirs
          (right.map some) slots (pre ++ post).length pre.length updated
        = some (slots', ((pre ++ merge (StaysBefore cmp invert dirs)
            post right).take size).length, updatedLeft')
      ∧ Holds slots' ((pre ++ merge (StaysBefore cmp invert dirs) post right).take size)
      ∧ (updatedLeft' = false → updated = false
          ∧ (pre ++ merge (StaysBefore cmp invert dirs) post right).take size = pre ++ post) := by
  set r := StaysBefore cmp invert dirs with hr
  induction right generalizing pre post slots updated with
  | nil =>
    rw [merge_nil, take_of_length_le hcount]
    exact ⟨slots, updated, rfl, hslots, fun hu => ⟨hu, rfl⟩⟩
  | cons x right ih =>
    obtain ⟨hfront, hback⟩ := @position_of_sorted _ _ _ h pre post x hsorted
    set front := pre ++ post.takeWhile (r · x) with hfdef
    set back := post.dropWhile (r · x) with hbdef
    have hsplit : pre ++ post = front ++ back := by
      rw [hfdef, hbdef, append_assoc, takeWhile_append_dropWhile]
    have hmerge : pre ++ merge r post (x :: right) = front ++ x :: merge r back right := by
      rw [merge_cons, hfdef, hbdef, append_assoc]
    rw [hsplit] at hslots hcount ⊢
    rw [length_append] at hcount
    obtain ⟨slots₁, hrun, hinsert, hfull⟩ := @holds_insert
      (fun left => replaceCurrentAggregate cmp invert left.sortKeyValues x.sortKeyValues 0 dirs)
      true size pre.length slots front back x hslots
      (by simp [hfdef]) hfront hback
    rw [hmerge, map_cons, combineResults_cons, length_append, hrun]
    simp only [bind_some]
    by_cases hroom : front.length = size
    · -- the array is full of results in front of this one
      have hnil : back = [] := length_eq_zero_iff.1 (by omega)
      rw [if_neg (by simpa using hroom), hnil, length_nil, Nat.add_zero, hroom,
        combineResults_full, take_left' hroom, hroom]
      exact ⟨slots₁, updated, rfl, hfull hnil, fun hu =>
        ⟨hu, (append_nil _).symm⟩⟩
    · have hlt : front.length < size := by omega
      have hheld := hinsert hlt
      have hlen₁ : (front ++ [x]).length = front.length + 1 := length_append
      have hafter : ∀ l : List BsonOrderAggValue, ((front ++ [x]) ++ l).take size
            = (front ++ [x]).take size ++ l.take (size - (front.length + 1)) := by
        intro l
        rw [take_append, hlen₁]
      -- what is held now, cut behind the new result
      have hcut : (front ++ x :: back).take size
          = (front ++ [x]) ++ back.take (size - (front.length + 1)) := by
        rw [append_cons front x back, hafter, take_of_length_le (by omega)]
      rw [hcut] at hheld
      have hlen : ((front ++ [x]) ++ back.take (size - (front.length + 1))).length
            = if front.length + back.length ≠ size
              then front.length + back.length + 1
              else front.length + back.length := by
        simp only [length_append, length_take, length_cons, length_nil]
        split_ifs <;> omega
      obtain ⟨slots', updatedLeft', hrun', hheld', hupd⟩ := ih true hheld
        (by rw [hlen]; split_ifs <;> omega)
        ((hsorted.sublist (dropWhile_sublist _)).sublist (take_sublist _ _))
      have hsame : ((front ++ [x]) ++ merge r
          (back.take (size - (front.length + 1))) right).take size
          = (front ++ x :: merge r back right).take size := by
        rw [append_cons front x (merge r back right), hafter, hafter]
        congr 1
        exact take_merge_take_left r _ back right
      rw [hsame] at hrun' hheld' hupd
      rw [if_pos hroom, ← hlen]
      refine ⟨slots', updatedLeft', ?_, hheld', fun hu => ?_⟩
      · rw [hlen₁] at hrun'
        exact hrun'
      · exact absurd (hupd hu).1 (by simp)

/-- The state that holds a list of results; there is none before the first
document. -/
def orderState (numAggValues : Nat) (sortDirections : List Bool)
    (results : List BsonOrderAggValue) : Option BsonOrderAggState :=
  if results = [] then none
  else some ⟨numAggValues, results.map some, sortDirections⟩

theorem holds_slots (size : Nat) (results : List BsonOrderAggValue) :
    Holds (BsonOrderAggState.slots ⟨size, results.map some, dirs⟩) results := by
  intro i hi
  simp [BsonOrderAggState.slots, getElem?_eq_getElem hi]

theorem bsonOrderCombine_orderState (h : TotalPreorder cmp) {size : Nat}
    {left right : List BsonOrderAggValue} (hleft : left.Pairwise (StaysBefore cmp invert dirs))
    (hleftLen : left.length ≤ size) (hrightLen : right.length ≤ size) :
    bsonOrderCombine cmp invert (orderState size dirs left) (orderState size dirs right)
      = some (orderState size dirs
          ((merge (StaysBefore cmp invert dirs) left right).take size)) := by
  by_cases hl : left = []
  · subst hl
    rw [nil_merge, take_of_length_le hrightLen]
    rfl
  by_cases hr : right = []
  · subst hr
    rw [merge_nil, take_of_length_le hleftLen]
    simp [orderState, hl, bsonOrderCombine]
  have hheld : Holds (BsonOrderAggState.slots ⟨size, left.map some, dirs⟩) ([] ++ left) :=
    holds_slots size left
  obtain ⟨slots', updatedLeft', hrun, hheld', hupd⟩ :=
    combineResults_spec h right false hheld hleftLen hleft
  rw [nil_append] at hrun hheld' hupd
  have hne : (merge (StaysBefore cmp invert dirs) left right).take size ≠ [] := by
    have := length_pos_of_ne_nil hl
    apply ne_nil_of_length_pos
    rw [length_take, length_merge]
    omega
  simp only [orderState, hl, hr, hne, if_false, bsonOrderCombine, length_map]
  rw [nil_append, length_nil] at hrun
  rw [hrun]
  simp only [bind_eq_bind, bind_some]
  cases updatedLeft' with
  | true =>
    rw [if_pos rfl, BsonOrderAggState.serialize, map_range_of_holds hheld']
  | false =>
    -- no result of the right state has found a slot
    rw [if_neg (by simp), (hupd rfl).2, nil_append]

-- ==== the runs

variable {orderby : Pgbson → PgbsonElement → Pgbson}

variable {size : Nat} {specs : List PgbsonElement}

theorem bsonOrderTransition_orderState (h : TotalPreorder cmp) (hN : 0 < size)
    (hspecs : specs.length ≤ 32) {results : List BsonOrderAggValue} (doc : Option Pgbson)
    (hsorted : results.Pairwise (StaysBefore cmp invert (directions specs)))
    (hlen : results.length ≤ size) :
    bsonOrderTransition cmp invert orderby size specs (orderState size (directions specs) results)
        doc
      = some (orderState size (directions specs) ((merge (StaysBefore cmp invert (directions specs))
            results [newAggValue orderby specs doc]).take size)) := by
  set new := newAggValue orderby specs doc with hnew
  set r := StaysBefore cmp invert (directions specs) with hr
  have hinput : (orderState size (directions specs) results).getD (initialOrderState size specs)
      = ⟨size, results.map some, directions specs⟩ := by
    unfold orderState
    split_ifs with hnil
    · rw [hnil]
      rfl
    · rfl
  have hheld : Holds (BsonOrderAggState.slots ⟨size, results.map some, directions specs⟩) results :=
    holds_slots size results
  obtain ⟨hfront, hback⟩ := @position_of_sorted _ _ _ h [] results new hsorted
  have hsplit : results.takeWhile (r · new) ++ results.dropWhile (r · new)
      = results := takeWhile_append_dropWhile
  rw [← hsplit] at hheld
  obtain ⟨slots', hrun, hinsert, -⟩ := @holds_insert
    (fun current => replaceCurrentAggregate cmp invert
      current.sortKeyValues new.sortKeyValues 0 (directions specs))
    false size 0 _ _ _ new hheld (Nat.zero_le _) hfront hback
  rw [← length_append, hsplit] at hrun
  have hmerge : merge (StaysBefore cmp invert (directions specs)) results [new]
      = results.takeWhile (r · new) ++ new :: results.dropWhile (r · new) := by
    rw [merge_cons, merge_nil]
  set front := results.takeWhile (r · new) with hfdef
  set back := results.dropWhile (r · new) with hbdef
  have hsum : front.length + back.length = results.length := by
    rw [← length_append, hsplit]
  unfold bsonOrderTransition
  rw [if_neg (by omega)]
  simp only [hinput, ← hnew, length_map, hrun, bind_eq_bind, bind_some, hmerge]
  by_cases hfull : front.length = size
  · -- the array is full of results in front of the new one
    have hnil : back = [] := length_eq_zero_iff.1 (by omega)
    rw [if_neg (by simpa using hfull), take_left' hfull, ← hsplit, hnil, append_nil]
  · have hheld' := hinsert (by omega)
    have hcount : ((front ++ new :: back).take size).length
        = if results.length < size then results.length + 1
          else results.length := by
      rw [length_take, length_append, length_cons]
      split_ifs <;> omega
    have hne : (front ++ new :: back).take size ≠ [] := by
      apply ne_nil_of_length_pos
      rw [length_take, length_append, length_cons]
      omega
    rw [if_pos hfull, ← hcount, BsonOrderAggState.serialize,
      map_range_of_holds hheld', orderState, if_neg hne]

theorem bsonOrderFold_eq (h : TotalPreorder cmp) (hN : 0 < size)
    (hspecs : specs.length ≤ 32) (docs : List (Option Pgbson)) :
    bsonOrderFold cmp invert orderby size specs docs = some (orderState size (directions specs)
          (((docs.map (newAggValue orderby specs)).insertionSort
            (StaysBefore cmp invert (directions specs))).take size)) := by
  have htotal := @total_staysBefore _ invert h (directions specs)
  have htrans := @isTrans_staysBefore _ invert h (directions specs)
  -- from the last document on: the sort of the documents before it is merged
  -- with one result
  induction docs using reverseRecOn with
  | nil =>
    rw [map_nil, insertionSort_nil, take_nil]
    rfl
  | append_singleton docs document ih =>
    unfold bsonOrderFold at ih ⊢
    rw [foldlM_append, ih, bind_eq_bind, bind_some, foldlM_cons,
      bsonOrderTransition_orderState h hN hspecs document
        ((pairwise_insertionSort _ _).sublist (take_sublist size _))
        (length_take_le _ _),
      take_merge_take_left, map_append, insertionSort_append]
    rfl

theorem bsonOrderFold_tooMany (hspecs : 32 < specs.length)
    {docs : List (Option Pgbson)} (hne : docs ≠ []) :
    bsonOrderFold cmp invert orderby size specs docs = none := by
  cases docs with
  | nil => exact absurd rfl hne
  | cons document docs =>
    rw [bsonOrderFold, foldlM_cons, bsonOrderTransition, if_pos hspecs]
    rfl

end Runs

-- ==== the comparison itself

/-- Null sorts first. -/
def compareNullablePgbson [BidLib] (left right : Option Pgbson) : Int :=
  match left, right with
  | none, none => 0
  | none, some _ => -1
  | some _, none => 1
  | some left, some right => comparePgbson left right

theorem totalPreorder_compareNullablePgbson [BidLib] : TotalPreorder compareNullablePgbson where
  flip a b := by
    cases a with
    | none => cases b <;> constructor <;> simp [compareNullablePgbson]
    | some a =>
      cases b with
      | none => constructor <;> simp [compareNullablePgbson]
      | some b =>
        show Flip (comparePgbson a b) (comparePgbson b a)
        rw [comparePgbson_eq, comparePgbson_eq]
        exact flip_compareBsonIter a.fields b.fields
  trans a b c := by
    cases a with
    | none =>
      cases b <;> cases c <;> constructor <;> simp [compareNullablePgbson]
    | some a =>
      cases b with
      | none => cases c <;> constructor <;> simp [compareNullablePgbson]
      | some b =>
        cases c with
        | none => constructor <;> simp [compareNullablePgbson]
        | some c =>
          show TransAt (comparePgbson a b) (comparePgbson b c) (comparePgbson a c)
          rw [comparePgbson_eq, comparePgbson_eq, comparePgbson_eq]
          exact trans_compareBsonIter a.fields b.fields c.fields

-- ==== parts of an input

def keptValues (state : Option BsonOrderAggState) : List (Option Pgbson) :=
  match state with
  | none => []
  | some state => state.currentResult.map fun result => result.bind (·.value)

/-- Running the accumulator on two parts of an input and combining the states
is running it on the whole; and with at most 32 sort keys the run succeeds and
keeps the beginning of the stable sort of the documents. -/
theorem bsonOrderCombine_of_folds {compareNullable : Option Pgbson → Option Pgbson → Int}
    (h : TotalPreorder compareNullable) (invertSort : Bool)
    (bsonOrderby : Pgbson → PgbsonElement → Pgbson) {numResults : Nat}
    (hN : 1 ≤ numResults) (sortSpecs : List PgbsonElement) (xs ys : List (Option Pgbson)) : (do
      let left ← bsonOrderFold compareNullable invertSort bsonOrderby numResults sortSpecs xs
      let right ← bsonOrderFold compareNullable invertSort bsonOrderby numResults sortSpecs ys
      bsonOrderCombine compareNullable invertSort left right)
      = bsonOrderFold compareNullable invertSort bsonOrderby numResults sortSpecs (xs ++ ys)
    ∧ (sortSpecs.length ≤ 32 → (bsonOrderFold compareNullable invertSort bsonOrderby numResults
          sortSpecs (xs ++ ys)).map keptValues
        = some (((((xs ++ ys).map (newAggValue bsonOrderby sortSpecs)).insertionSort
              (StaysBefore compareNullable invertSort
                (directions sortSpecs))).take numResults).map (·.value))) := by
  have htotal := @total_staysBefore _ invertSort h (directions sortSpecs)
  have htrans := @isTrans_staysBefore _ invertSort h (directions sortSpecs)
  constructor
  · by_cases hspecs : sortSpecs.length ≤ 32
    · rw [bsonOrderFold_eq h hN hspecs, bsonOrderFold_eq h hN hspecs, bsonOrderFold_eq h hN hspecs]
      simp only [bind_eq_bind, bind_some]
      rw [bsonOrderCombine_orderState h
        ((pairwise_insertionSort _ _).sublist (take_sublist numResults _))
        (length_take_le _ _) (length_take_le _ _),
        take_merge_take _ (le_refl _) (le_refl _), map_append,
        insertionSort_append]
    · -- the run of the first part that is not empty fails
      rw [not_le] at hspecs
      by_cases hxs : xs = []
      · subst hxs
        by_cases hys : ys = []
        · subst hys
          rfl
        · rw [nil_append, bsonOrderFold_tooMany hspecs hys]
          rfl
      · rw [bsonOrderFold_tooMany hspecs hxs,
          bsonOrderFold_tooMany hspecs (append_ne_nil_of_left_ne_nil hxs ys)]
        rfl
  · intro hspecs
    rw [bsonOrderFold_eq h hN hspecs, map_some]
    generalize take numResults _ = results
    unfold orderState
    split_ifs with hnil
    · rw [hnil]
      rfl
    · simp [keptValues]

/-- The document with one number below `a`. -/
def numberBelowA (n : Int32) : Pgbson where
  fields := [([97], .int32 n)]
  namesOk := by simp [namesOkFields, Value.namesOk]
  size_lt := by simp [encodeDoc, frame, encodeFields, encodeValue]

def ascendingOnA : PgbsonElement where
  path := [97]
  bsonValue := .int64 1
  namesOk := by decide
  size_lt := by decide

/-- `$top` over two and one, each in a part of its own. -/
theorem top_of_two_parts : let cmp := @compareNullablePgbson BidLib.reference
    let fold := bsonOrderFold cmp false (fun document _ => document) 1 [ascendingOnA]
    TotalPreorder cmp ∧ [ascendingOnA].length ≤ 32
    ∧ (do
        let left ← fold [some (numberBelowA 2)]
        let right ← fold [some (numberBelowA 1)]
        bsonOrderCombine cmp false left right)
      = fold [some (numberBelowA 2), some (numberBelowA 1)]
    ∧ (fold [some (numberBelowA 2), some (numberBelowA 1)]).map keptValues
      = some [some (numberBelowA 1)] := by
  have h := @totalPreorder_compareNullablePgbson BidLib.reference
  have hrun := bsonOrderCombine_of_folds h false
    (fun document _ => document) (le_refl 1) [ascendingOnA]
    [some (numberBelowA 2)] [some (numberBelowA 1)]
  exact ⟨h, by decide, hrun.1, (hrun.2 (by decide)).trans rfl⟩

end DocumentDb
