/-
`$densify` between two bounds.

The rows of a partition come in ascending order, rows without a value first. The state holds
the next value of the grid (`lastMinValue`): a row generates the values from there up to its
own, and a row behind the upper bound, or the last one, what is left (`Generates`). So the
output of the rows to come depends on the next value alone (`Fills`).

Integers are unbounded here, and a sum outside of 64 bits is an error. The limits on
documents and memory are parameters.
-/
import Mathlib
import DocumentDb.Lib.Except

namespace DocumentDb.Densify

open List
open Except (bind_eq_ok map_eq_ok)

-- ==== the model

/-- The value of the densified field. -/
inductive FieldValue where
  | eod | null
  | number (n : Int)

/-- The place in the order of the rows: null and missing values are first. -/
def FieldValue.place : FieldValue → WithBot Int
  | number n => n
  | _ => ⊥

/-- Of the type `range`. -/
structure DensifyArguments where
  lowerBound : Int
  upperBound : Int
  step : Int
  step_pos : 0 < step

inductive DensifyError where
  | limitExceeded | overflow

/-- `CheckEnoughRoomForNewDocuments`, and the counters after one more document, if it
is within the limits. -/
structure Limits (Counters : Type) where
  enoughRoom : Counters → Int → Int → Bool
  count : Counters → Int → Option Counters

/-- With the counters of the window. -/
structure PartitionAwareState (Counters : Type) where
  lastMinValue : Int
  skipRows : Bool
  counters : Counters

section Range

variable {Counters Document : Type} (args : DensifyArguments) (limits : Limits Counters)
  (field : Document → FieldValue)

def numericStepIncrementor (baseValue : Int) : Except DensifyError Int :=
  if baseValue + args.step < 2 ^ 63 then .ok (baseValue + args.step) else .error .overflow

/-- The loop of `GenerateAndWriteDocumentsInRange`: the values that are written, and
the next one. -/
def generateLoop (generatedValue maxValue : Int) (counters : Counters) :
    Except DensifyError (List Int × Int × Counters) :=
  if generatedValue < maxValue then
    match limits.count counters generatedValue with
    | none => .error .limitExceeded
    | some counters =>
      match numericStepIncrementor args generatedValue with
      | .error e => .error e
      | .ok _ =>
        (generateLoop (generatedValue + args.step) maxValue counters).map
          fun r => (generatedValue :: r.1, r.2)
  else if generatedValue = maxValue then
    (numericStepIncrementor args maxValue).map fun next => ([], next, counters)
  else .ok ([], generatedValue, counters)
termination_by (maxValue - generatedValue).toNat
decreasing_by
  have := args.step_pos
  omega

/-- Without the upper bound. -/
def generateAndWriteDocumentsInRange (minValue maxValue : Int) (counters : Counters) :
    Except DensifyError (List Int × Int × Counters) :=
  if limits.enoughRoom counters minValue maxValue then
    generateLoop args limits minValue maxValue counters
  else .error .limitExceeded

/-- The part of `DensifyDocsFromState` before the document is written. A null or missing
value is below the bounds. -/
def densifyUpTo (value : FieldValue) (state : PartitionAwareState Counters) :
    Except DensifyError (List Int × PartitionAwareState Counters) :=
  if state.skipRows then .ok ([], state)
  else
    match value with
    | .number v =>
      if args.upperBound < v then
        (generateAndWriteDocumentsInRange args limits state.lastMinValue args.upperBound
          state.counters).map fun r => (r.1, ⟨r.2.1, true, r.2.2⟩)
      else if state.lastMinValue < v then
        (generateAndWriteDocumentsInRange args limits state.lastMinValue v
          state.counters).map fun r => (r.1, ⟨r.2.1, false, r.2.2⟩)
      else if v = state.lastMinValue then
        (numericStepIncrementor args v).map fun next =>
          ([], { state with lastMinValue := next })
      else .ok ([], state)
    | _ => .ok ([], state)

/-- Of the type `range`: the input document and the generated ones around it. -/
def densifyDocsFromState (document : Document) (isLastRow : Bool)
    (state : PartitionAwareState Counters) :
    Except DensifyError (List (Document ⊕ Int) × PartitionAwareState Counters) := do
  let (written, state) ← densifyUpTo args limits (field document) state
  let docs := written.map .inr ++ [.inl document]
  if isLastRow then
    let (rest, _, counters) ← generateAndWriteDocumentsInRange args limits
      state.lastMinValue args.upperBound state.counters
    return (docs ++ rest.map .inr, { state with counters })
  else return (docs, state)

/-- `bson_densify_range` over the rows of a partition. -/
def densifyRows : List Document → PartitionAwareState Counters →
    Except DensifyError (List (Document ⊕ Int))
  | [], _ => .ok []
  | document :: rows, state => do
    let (docs, state) ← densifyDocsFromState args limits field document rows.isEmpty state
    let more ← densifyRows rows state
    return docs ++ more

-- ==== the grid

/-- A value the steps from `m` reach. -/
def OnGrid (m n : Int) : Prop := ∃ k : Nat, n = m + k * args.step

variable {args limits field} {m n : Int} {counters : Counters}

theorem OnGrid.le (h : OnGrid args m n) : m ≤ n := by
  obtain ⟨k, rfl⟩ := h
  have := mul_nonneg (Int.natCast_nonneg k) args.step_pos.le
  omega

theorem onGrid_step : OnGrid args m n ↔ n = m ∨ OnGrid args (m + args.step) n := by
  constructor
  · rintro ⟨k | k, rfl⟩
    · left
      simp
    · right
      exact ⟨k, by push_cast; ring⟩
  · rintro (rfl | ⟨k, rfl⟩)
    · exact ⟨0, by simp⟩
    · exact ⟨k + 1, by push_cast; ring⟩

theorem onGrid_next (h : OnGrid args m n) : m < n ↔ OnGrid args (m + args.step) n := by
  have hpos := args.step_pos
  constructor
  · intro hlt
    exact (onGrid_step.1 h).resolve_left (by omega)
  · intro hnext
    have := hnext.le
    omega

theorem numericStepIncrementor_eq (h : numericStepIncrementor args m = .ok n) :
    n = m + args.step := by
  unfold numericStepIncrementor at h
  split_ifs at h
  exact (Except.ok.inj h).symm

theorem OnGrid.refl : OnGrid args m m := ⟨0, by simp⟩

theorem OnGrid.trans {k : Int} (h : OnGrid args m k) (h' : OnGrid args k n) : OnGrid args m n := by
  obtain ⟨i, rfl⟩ := h
  obtain ⟨j, rfl⟩ := h'
  exact ⟨i + j, by push_cast; ring⟩

/-- The values of the grid from `m` that are below the bound, in order, and where the
grid goes on above it. -/
structure Generates (args : DensifyArguments) (m : Int) (bound : WithBot Int) (next : Int)
    (l : List Int) : Prop where
  mem : ∀ n, n ∈ l ↔ OnGrid args m n ∧ n < bound
  sorted : l.Pairwise (· < ·)
  on : OnGrid args m next
  behind : ∀ n, OnGrid args m n → (bound < n ↔ OnGrid args next n)

theorem Generates.stay {bound : WithBot Int} (h : bound < m) : Generates args m bound m [] where
  mem n := by
    have hle : OnGrid args m n → bound < n := fun hn => h.trans_le (by exact_mod_cast hn.le)
    simpa using fun hn => (hle hn).le
  sorted := .nil
  on := .refl
  behind n hn := ⟨fun _ => hn, fun _ => h.trans_le (by exact_mod_cast hn.le)⟩

theorem Generates.skip : Generates args m m (m + args.step) [] where
  mem n := by simpa using OnGrid.le
  sorted := .nil
  on := ⟨1, by simp⟩
  behind n hn := by simpa using onGrid_next hn

theorem Generates.cons {bound : WithBot Int} {next : Int} {l : List Int} (hlt : m < bound)
    (h : Generates args (m + args.step) bound next l) : Generates args m bound next (m :: l) where
  mem n := by
    rw [mem_cons, h.mem, onGrid_step (m := m)]
    grind
  sorted := by
    refine pairwise_cons.2 ⟨fun n hn => ?_, h.sorted⟩
    have := ((h.mem n).1 hn).1.le
    have := args.step_pos
    omega
  on := onGrid_step.2 (.inr h.on)
  behind n hn := by
    rcases onGrid_step.1 hn with rfl | hn
    · have := h.on.le
      have := args.step_pos
      have := fun hn : OnGrid args next n => hn.le
      grind
    · exact h.behind n hn

variable {maxValue next : Int} {l : List Int} {counters' : Counters}
  {state : PartitionAwareState Counters}

theorem generateLoop_spec
    (h : generateLoop args limits m maxValue counters = .ok (l, next, counters')) :
    Generates args m maxValue next l := by
  fun_induction generateLoop args limits m maxValue counters generalizing l with
  | case1 | case2 => cases h
  | case3 m counters hlt _ _ _ _ ih =>
    obtain ⟨⟨rest, next', counters'⟩, hr, h⟩ := map_eq_ok h
    cases h
    exact .cons (by exact_mod_cast hlt) (ih hr)
  | case4 counters =>
    obtain ⟨next', hs, h⟩ := map_eq_ok h
    cases h
    rw [numericStepIncrementor_eq hs]
    exact .skip
  | case5 m counters hge hne =>
    cases h
    have : maxValue < next := by omega
    exact .stay (by exact_mod_cast this)

theorem generateAndWriteDocumentsInRange_spec
    (h : generateAndWriteDocumentsInRange args limits m maxValue counters
      = .ok (l, next, counters')) : Generates args m maxValue next l := by
  unfold generateAndWriteDocumentsInRange at h
  split_ifs at h
  exact generateLoop_spec h

-- ==== one row

theorem densifyUpTo_spec {value : FieldValue} {state' : PartitionAwareState Counters}
    (hskip : state.skipRows → args.upperBound < state.lastMinValue)
    (h : densifyUpTo args limits value state = .ok (l, state')) :
    Generates args state.lastMinValue (min value.place args.upperBound) state'.lastMinValue l ∧
      (state'.skipRows → args.upperBound < state'.lastMinValue) := by
  unfold densifyUpTo at h
  split at h
  case isTrue hs =>
    cases h
    exact ⟨.stay (min_lt_of_right_lt (by exact_mod_cast hskip hs)), hskip⟩
  case isFalse hs =>
    rcases value with _ | _ | v
    iterate 2
      cases h
      exact ⟨.stay (min_lt_of_left_lt (WithBot.bot_lt_coe _)), by simp [hs]⟩
    have hmin : min (FieldValue.number v).place args.upperBound = (min v args.upperBound : Int) :=
      (WithBot.coe_min ..).symm
    rw [hmin]
    dsimp only at h
    split_ifs at h with hupper habove heq
    · obtain ⟨⟨_, next, _⟩, hr, h⟩ := map_eq_ok h
      cases h
      have hg := generateAndWriteDocumentsInRange_spec hr
      rw [min_eq_right hupper.le]
      exact ⟨hg, fun _ => by exact_mod_cast (hg.behind next hg.on).2 .refl⟩
    all_goals rw [min_eq_left (not_lt.1 hupper)]
    · obtain ⟨⟨_, next, _⟩, hr, h⟩ := map_eq_ok h
      cases h
      exact ⟨generateAndWriteDocumentsInRange_spec hr, by simp⟩
    · obtain ⟨next, hs', h⟩ := map_eq_ok h
      cases h
      rw [numericStepIncrementor_eq hs', ← heq]
      exact ⟨.skip, by simp [hs]⟩
    · cases h
      exact ⟨.stay (by exact_mod_cast (by omega : v < state.lastMinValue)), by simp [hs]⟩

-- ==== a partition

def place (field : Document → FieldValue) : Document ⊕ Int → WithBot Int :=
  Sum.elim (fun document => (field document).place) (↑)

/-- The output for rows of which the grid goes on at `m`: every row once, in its place,
and one document for every value of the grid that no row has. -/
structure Fills (args : DensifyArguments) (field : Document → FieldValue) (m : Int)
    (rows : List Document) (out : List (Document ⊕ Int)) : Prop where
  generated : ∀ n, .inr n ∈ out ↔ ((∃ k : Nat, n = m + k * args.step) ∧ n < args.upperBound) ∧
      ∀ document ∈ rows, (field document).place ≠ n
  once : (out.filterMap Sum.getRight?).Nodup
  inputs : out.filterMap Sum.getLeft? = rows
  ascending : out.Pairwise fun a b => place field a ≤ place field b

theorem Fills.last (h : Generates args m args.upperBound next l) :
    Fills args field m [] (l.map .inr) where
  generated n := by simpa [OnGrid] using h.mem n
  once := by
    have : l.Nodup := h.sorted.imp ne_of_lt
    simpa [filterMap_map, Function.comp_def]
  inputs := by simp
  ascending := pairwise_map.2 (h.sorted.imp fun h => by simpa [place] using h.le)

variable {out : List (Document ⊕ Int)} {rows : List Document}

theorem Fills.cons {doc : Document}
    (hg : Generates args m (min (field doc).place args.upperBound) next l)
    (h : Fills args field next rows out) (hrows : ∀ d ∈ rows, (field doc).place ≤ (field d).place) :
    Fills args field m (doc :: rows) (l.map .inr ++ .inl doc :: out) := by
  have hbelow {n : Int} (hn : n ∈ l) : n < (field doc).place := (lt_min_iff.1 ((hg.mem n).1 hn).2).1
  have habove {n : Int} (hn : .inr n ∈ out) : (field doc).place < n := by
    obtain ⟨⟨hon, hlt⟩, -⟩ := (h.generated n).1 hn
    have hless := (hg.behind n (hg.on.trans hon)).2 hon
    exact (min_lt_iff.1 hless).resolve_right (by exact_mod_cast hlt.not_gt)
  have hout : ∀ e ∈ out, (field doc).place ≤ place field e := by
    intro e he
    cases e with
    | inl d => exact hrows d (h.inputs ▸ mem_filterMap.2 ⟨_, he, rfl⟩)
    | inr n => exact (habove he).le
  refine ⟨fun n => ?_, ?_, by simp [filterMap_map, h.inputs], ?_⟩
  · have hmem : .inr n ∈ l.map .inr ++ .inl doc :: out ↔ n ∈ l ∨ .inr n ∈ out := by
      simp
    rw [hmem, forall_mem_cons]
    constructor
    · rintro (hn | hn)
      · obtain ⟨hon, -⟩ := (hg.mem n).1 hn
        have hlt := hbelow hn
        refine ⟨⟨hon, ?_⟩, hlt.ne', fun d hd => (hlt.trans_le (hrows d hd)).ne'⟩
        exact_mod_cast (lt_min_iff.1 ((hg.mem n).1 hn).2).2
      · obtain ⟨⟨hon, hlt⟩, hne⟩ := (h.generated n).1 hn
        exact ⟨⟨hg.on.trans hon, hlt⟩, (habove hn).ne, hne⟩
    · rintro ⟨⟨hon, hlt⟩, hne, hrest⟩
      rcases hne.lt_or_gt with hless | hless
      · right
        exact (h.generated n).2 ⟨⟨(hg.behind n hon).1 (min_lt_of_left_lt hless), hlt⟩, hrest⟩
      · left
        exact (hg.mem n).2 ⟨hon, lt_min hless (by exact_mod_cast hlt)⟩
  · simp only [filterMap_append, filterMap_map, Function.comp_def,
      Sum.getRight?_inr, filterMap_some, filterMap_cons, Sum.getRight?_inl]
    refine nodup_append.2 ⟨hg.sorted.imp ne_of_lt, h.once, fun n hn k hk => ?_⟩
    rintro rfl
    exact (hbelow hn).not_gt (habove (by simpa using hk))
  · refine pairwise_append.2 ⟨?_, pairwise_cons.2 ⟨hout, h.ascending⟩, ?_⟩
    · exact pairwise_map.2 (hg.sorted.imp fun h => by simpa [place] using h.le)
    · intro a ha b hb
      obtain ⟨n, hn, rfl⟩ := mem_map.1 ha
      rcases mem_cons.1 hb with rfl | hb
      · exact (hbelow hn).le
      · exact (hbelow hn).le.trans (hout b hb)

/-- The output of a partition whose rows come in ascending order, unless a limit is
exceeded or an addition overflows. -/
theorem densifyRows_fills {first : Document}
    (hsorted : (first :: rows).Pairwise fun a b => (field a).place ≤ (field b).place)
    (hskip : state.skipRows → args.upperBound < state.lastMinValue)
    (h : densifyRows args limits field (first :: rows) state = .ok out) :
    Fills args field state.lastMinValue (first :: rows) out := by
  induction rows generalizing first state out with
  | nil =>
    obtain ⟨⟨docs, state₁⟩, hdocs, h⟩ := bind_eq_ok h
    obtain ⟨⟨written, state₂⟩, hwritten, hdocs⟩ := bind_eq_ok hdocs
    obtain ⟨⟨rest, next, counters⟩, hrest, hdocs⟩ := bind_eq_ok hdocs
    cases hdocs
    cases h
    have hg := (densifyUpTo_spec hskip hwritten).1
    have := Fills.cons hg (.last (generateAndWriteDocumentsInRange_spec hrest)) (by simp)
    simpa using this
  | cons second rows ih =>
    obtain ⟨hfirst, hrest⟩ := pairwise_cons.1 hsorted
    obtain ⟨⟨docs, state₁⟩, hdocs, h⟩ := bind_eq_ok h
    obtain ⟨more, hmore, h⟩ := bind_eq_ok h
    obtain ⟨⟨written, state₂⟩, hwritten, hdocs⟩ := bind_eq_ok hdocs
    cases hdocs
    cases h
    obtain ⟨hg, hskip⟩ := densifyUpTo_spec hskip hwritten
    rw [append_assoc]
    exact .cons hg (ih hrest hskip hmore) hfirst

theorem densifyRows_range {first : Document} {rows : List Document} {out : List (Document ⊕ Int)}
    (hsorted : (first :: rows).Pairwise fun a b => (field a).place ≤ (field b).place)
    (h : densifyRows args limits field (first :: rows) ⟨args.lowerBound, false, counters⟩
      = .ok out) : Fills args field args.lowerBound (first :: rows) out :=
  densifyRows_fills hsorted (by simp) h

end Range

theorem gap_and_tail_filled : Fills ⟨0, 5, 2, by decide⟩ id 0 [.null, .number 2]
      [.inl .null, .inr 0, .inl (.number 2), .inr 4] :=
  densifyRows_range (by simp [FieldValue.place])
    (show densifyRows _ ⟨fun _ _ _ => true, fun n _ => some n⟩ id _ ⟨0, false, ()⟩ = _ by
      simp [densifyRows, densifyDocsFromState, densifyUpTo, generateAndWriteDocumentsInRange,
        generateLoop, numericStepIncrementor, bind, Except.bind, Except.map, pure, Except.pure])

end DocumentDb.Densify
