/-
`$bucketAuto`.

The rows come in the order of their group value, and the state of the partition is kept
between the calls of `bson_dollar_bucket_auto`. The first row of a bucket fixes its number
of rows and its bounds, by looking ahead. Without a granularity the buckets are the runs of
`EvenSplit.split` (`assignBuckets_eq_split`), so the partition is even (`buckets_even`).
-/
import DocumentDb.Lib.EvenSplit
import DocumentDb.Lib.Except

namespace DocumentDb.BucketAuto

open ThreeWay EvenSplit List Nat Int

variable {V : Type}

-- ==== the source

/-- A series of rounding numbers, with the checks of `ValidateValueIsNumberic`.
`findClosest findLarger value` is the number of the series next to a value. -/
structure Granularity (V : Type) where
  isNumber : V → Bool
  isNegative : V → Bool
  findClosest : Bool → V → V

/-- With the comparison of the values. -/
structure BucketAutoArguments (V : Type) where
  compareBsonValueAndType : V → V → Int
  numBuckets : Int
  granularity : Option (Granularity V) := none

/-- `BucketAutoState`; the memory of a partition starts with zeros. -/
structure BucketAutoState (V : Type) where
  totalRows : Int := 0
  nBuckets : Int := 0
  expectRowsLimit : Int := 0
  remainder : Int := 0
  bucketId : Int := 0
  rowIndex : Int := 0
  actualRowsLimit : Int := 0
  lowerBound : Option V := none
  upperBound : Option V := none

inductive BucketAutoError where
  | notNumeric
  | negative
  | failedToGetMaxValue
  | maxValueLarger
  deriving DecidableEq, Repr

structure BucketId (V : Type) where
  min : Option V
  max : Option V

/-- An `int64` that is stored in an `int32`. -/
def toInt32 (x : Int) : Int := x.bmod (2 ^ 32)

/-- From the current row. -/
def winGetFuncArgInPartition (rows : List V) (current : Nat) (relpos : Int) : Option V :=
  if current + relpos < 0 then none else rows[(current + relpos).toNat]?

/-- The rows from an offset on, as the loop of `SetUpperBound` reads them. -/
def rowsFrom (rows : List V) (current : Nat) (offset : Int) : List V :=
  if current + offset < 0 then [] else rows.drop (current + offset).toNat

def validateValueIsNumberic (granularity : Option (Granularity V)) (value : V) :
    Except BucketAutoError Unit :=
  match granularity with
  | none => .ok ()
  | some granularity =>
    if !granularity.isNumber value then .error .notNumeric
    else if granularity.isNegative value then .error .negative
    else .ok ()

variable (args : BucketAutoArguments V)

def initializeState (rows : List V) (state : BucketAutoState V) : BucketAutoState V :=
  let totalRows : Int := rows.length
  let expectRowsLimit := totalRows.tdiv args.numBuckets
  if expectRowsLimit = 0 then
    let nBuckets := toInt32 totalRows
    { state with
      totalRows
      nBuckets
      expectRowsLimit := 1
      remainder := totalRows.tmod nBuckets }
  else
    { state with
      totalRows
      nBuckets := args.numBuckets
      expectRowsLimit
      remainder := totalRows.tmod args.numBuckets }

variable (state : BucketAutoState V)

def setRowsLimit : BucketAutoState V :=
  let state :=
    if 0 < state.remainder then
      { state with
        actualRowsLimit := state.expectRowsLimit + 1
        remainder := state.remainder - 1 }
    else { state with actualRowsLimit := state.expectRowsLimit }
  if state.totalRows < state.actualRowsLimit then
    { state with actualRowsLimit := state.totalRows }
  else state

def setLowerBound (currentValue : V) (state : BucketAutoState V) : BucketAutoState V :=
  if 1 < state.bucketId then
    { state with lowerBound := state.upperBound, upperBound := none }
  else
    match args.granularity with
    | some granularity =>
      { state with lowerBound := some (granularity.findClosest false currentValue) }
    | none => { state with lowerBound := some currentValue }

def expandBucket : BucketAutoState V :=
  { state with
    actualRowsLimit := state.actualRowsLimit + 1
    remainder := if 0 < state.remainder then state.remainder - 1 else state.remainder }

/-- The loop over the rows behind the bucket: the upper bound and the state. -/
def expandLoop (args : BucketAutoArguments V) (maxOfBucket upperBound : V) :
    List V → BucketAutoState V → Except BucketAutoError (V × BucketAutoState V)
  | [], state => .ok (upperBound, state)
  | next :: rows, state =>
    match args.granularity with
    | some _ =>
      if 0 < args.compareBsonValueAndType upperBound next then
        expandLoop args maxOfBucket upperBound rows (expandBucket state)
      else .ok (upperBound, state)
    | none =>
      if 0 < args.compareBsonValueAndType maxOfBucket next then
        .error .maxValueLarger
      else if args.compareBsonValueAndType maxOfBucket next = 0 then
        expandLoop args maxOfBucket upperBound rows (expandBucket state)
      else .ok (next, state)

def setUpperBound (rows : List V) (current : Nat)
    (state : BucketAutoState V) : Except BucketAutoError (BucketAutoState V) :=
  match winGetFuncArgInPartition rows current (toInt32 (state.actualRowsLimit - 1)) with
  | none => .error .failedToGetMaxValue
  | some maxOfBucket => do
    validateValueIsNumberic args.granularity maxOfBucket
    let upperBound := match args.granularity with
      | some granularity => granularity.findClosest true maxOfBucket
      | none => maxOfBucket
    let (upperBound, state) ← expandLoop args maxOfBucket upperBound
      (rowsFrom rows current (toInt32 state.actualRowsLimit)) state
    .ok { state with upperBound := some upperBound }

def startBucket (rows : List V) (current : Nat)
    (currentValue : V) (state : BucketAutoState V) : Except BucketAutoError (BucketAutoState V) :=
  setUpperBound args rows current
    (setLowerBound args currentValue (setRowsLimit { state with bucketId := state.bucketId + 1 }))

def countRow : BucketAutoState V :=
  { state with
    rowIndex := if state.rowIndex = state.actualRowsLimit then 0 else state.rowIndex
    totalRows := state.totalRows - 1 }

/-- Called on a row of the partition. -/
def bsonDollarBucketAuto (rows : List V)
    (current : Nat) (currentValue : V) (state : BucketAutoState V) :
    Except BucketAutoError (BucketId V × BucketAutoState V) := do
  validateValueIsNumberic args.granularity currentValue
  let state := if state.bucketId = 0 then initializeState args rows state else state
  let state := { state with rowIndex := state.rowIndex + 1 }
  let state ← if state.rowIndex = 1
    then startBucket args rows current currentValue state else .ok state
  let state := countRow state
  .ok (⟨state.lowerBound, state.upperBound⟩, state)

/-- The calls on the rows of the partition in order, from a row on. -/
def callsFrom (args : BucketAutoArguments V) (rows : List V) : Nat → List V → BucketAutoState V →
      Except BucketAutoError (List (BucketId V) × BucketAutoState V)
  | _, [], state => .ok ([], state)
  | current, currentValue :: rest, state => do
    let (bucketId, state) ← bsonDollarBucketAuto args rows current currentValue state
    let (bucketIds, state) ← callsFrom args rows (current + 1) rest state
    .ok (bucketId :: bucketIds, state)

def assignBuckets (rows : List V) :
    Except BucketAutoError (List (BucketId V) × BucketAutoState V) :=
  callsFrom args rows 0 rows {}

-- ==== the bounds

section Bounds

variable {cmp : V → V → Int} {n quota surplus current : Nat} {first : V}
  {rows tail rest : List V} {state : BucketAutoState V}

def plainArguments (cmp : V → V → Int) (n : Nat) : BucketAutoArguments V := ⟨cmp, n, none⟩

theorem toInt32_eq {x : Nat} (h : x < 2 ^ 31) : toInt32 x = x := by
  unfold toInt32
  rw [bmod_eq_of_le] <;> omega

theorem setRowsLimit_eq (hquota : 1 ≤ quota) (hexpect : state.expectRowsLimit = quota)
    (hremainder : state.remainder = surplus) (htotal : state.totalRows = (first :: tail).length) :
    setRowsLimit state = { state with
      actualRowsLimit := (1 + min (followers quota surplus) tail.length : Nat)
      remainder := (surplus - 1 : Nat) } := by
  have hlimit : (1 + min (followers quota surplus) tail.length : Nat)
      = min (state.expectRowsLimit + if 0 < state.remainder then 1 else 0) state.totalRows := by
    rw [hexpect, hremainder, htotal, length_cons]
    unfold followers
    split_ifs <;> omega
  have hrest : ((surplus - 1 : Nat) : Int)
      = if 0 < state.remainder then state.remainder - 1 else state.remainder := by
    split_ifs <;> omega
  rw [hlimit, hrest]
  unfold setRowsLimit
  by_cases hpos : 0 < state.remainder
  · simp only [if_pos hpos]
    by_cases hmore : state.totalRows < state.expectRowsLimit + 1
    · rw [if_pos hmore, min_eq_right hmore.le]
    · rw [if_neg hmore, min_eq_left (not_lt.1 hmore)]
  · simp only [if_neg hpos, Int.add_zero]
    by_cases hmore : state.totalRows < state.expectRowsLimit
    · rw [if_pos hmore, min_eq_right hmore.le]
    · rw [if_neg hmore, min_eq_left (not_lt.1 hmore)]

theorem winGetFuncArgInPartition_eq (hrows : rows.drop current = rest) (k : Nat) :
    winGetFuncArgInPartition rows current k = rest[k]? := by
  unfold winGetFuncArgInPartition
  rw [if_neg (by omega), ← hrows, getElem?_drop, ← natCast_add, toNat_natCast]

theorem rowsFrom_eq (hrows : rows.drop current = rest) (k : Nat) :
    rowsFrom rows current k = rest.drop k := by
  unfold rowsFrom
  rw [if_neg (by omega), ← hrows, drop_drop, ← natCast_add, toNat_natCast]

theorem getElem?_lastItem : (first :: tail)[min (followers quota surplus) tail.length]?
      = some (lastItem quota surplus first tail) := by
  obtain ⟨init, hinit⟩ := exists_init quota surplus first tail
  have hlength := congrArg length hinit
  rw [length_cons, length_take, length_append, length_singleton,
    Nat.add_right_cancel_iff] at hlength
  have hsplit : first :: tail = init ++ ([lastItem quota surplus first tail]
      ++ tail.drop (followers quota surplus)) := by
    rw [← append_assoc, ← hinit, cons_append, take_append_drop]
  rw [hlength, hsplit, getElem?_append_right (Nat.le_refl _), Nat.sub_self]
  rfl

theorem expandLoop_eq {maxOfBucket upperBound : V}
    (hle : ∀ x ∈ rest, cmp maxOfBucket x ≤ 0) (hremainder : state.remainder = surplus) :
    expandLoop (plainArguments cmp n) maxOfBucket upperBound rest state
      = .ok ((rest.dropWhile fun x => cmp maxOfBucket x = 0).head?.getD upperBound,
        { state with
          actualRowsLimit := state.actualRowsLimit
            + (rest.takeWhile fun x => cmp maxOfBucket x = 0).length
          remainder := (surplus
            - (rest.takeWhile fun x => cmp maxOfBucket x = 0).length : Nat) }) := by
  induction rest generalizing state surplus with
  | nil =>
    rw [takeWhile_nil, length_nil, Nat.sub_zero, ← hremainder, Int.natCast_zero, Int.add_zero]
    rfl
  | cons next rest ih =>
    have hnext := hle next (mem_cons_self ..)
    unfold expandLoop plainArguments
    dsimp only
    rw [if_neg (by omega)]
    by_cases htie : cmp maxOfBucket next = 0
    · rw [if_pos htie]
      have hexpand : (expandBucket state).remainder = (surplus - 1 : Nat) := by
        show (if 0 < state.remainder then _ else _) = _
        split_ifs <;> omega
      have hstep := ih (fun x hx => hle x (mem_cons_of_mem _ hx)) hexpand
      unfold plainArguments at hstep
      simp only [hstep, takeWhile_cons, dropWhile_cons, htie, decide_true, if_true, length_cons]
      congr 3
      · omega
      · show state.actualRowsLimit + 1 + _ = _
        omega
    · simp only [takeWhile_cons, dropWhile_cons, htie, decide_false, Bool.false_eq_true,
        if_false, length_nil, Nat.sub_zero, ← hremainder, Int.natCast_zero, Int.add_zero]
      rfl

def bucketIdOf (state : BucketAutoState V) : BucketId V := ⟨state.lowerBound, state.upperBound⟩

/-- The state on the first row of a bucket, after the bounds are set. -/
def started (cmp : V → V → Int) (quota surplus : Nat) (first : V) (tail : List V)
    (state : BucketAutoState V) : BucketAutoState V :=
  { state with
    rowIndex := 1
    bucketId := state.bucketId + 1
    actualRowsLimit := (head cmp quota surplus first tail).items.length
    remainder := (surplus - 1 - (ties cmp quota surplus first tail).length : Nat)
    lowerBound := some first
    upperBound := some (head cmp quota surplus first tail).bound }

/-- The state between two buckets, with the rows that are left. -/
structure Between (cmp : V → V → Int) (n quota surplus : Nat) (rows rest : List V)
    (state : BucketAutoState V) : Prop where
  rowIndex : state.rowIndex = 0
  totalRows : state.totalRows = rest.length
  expectRowsLimit : state.expectRowsLimit = quota
  remainder : state.remainder = surplus
  bucketId : 0 ≤ state.bucketId
  initialized : state.bucketId = 0 → initializeState (plainArguments cmp n) rows state = state
  bound : state.bucketId ≠ 0 → rest ≠ [] → state.upperBound = rest.head?

theorem setLowerBound_eq (cmp : V → V → Int) (n : Nat) (state : BucketAutoState V)
    (hrow : state.bucketId = 0 ∨ state.upperBound = some first) (hid : 0 ≤ state.bucketId) :
    ∃ upperBound, setLowerBound (plainArguments cmp n) first
        { state with bucketId := state.bucketId + 1 }
      = { state with
        bucketId := state.bucketId + 1
        lowerBound := some first
        upperBound } := by
  unfold setLowerBound
  by_cases hzero : state.bucketId = 0
  · rw [if_neg (by dsimp only; omega)]
    exact ⟨_, rfl⟩
  · rw [if_pos (by dsimp only; omega)]
    rw [hrow.resolve_left hzero]
    exact ⟨_, rfl⟩

section FirstRow

variable (hlength : rows.length < 2 ^ 31) (hrows : rows.drop current = first :: tail)
  (hsorted : (first :: tail).Pairwise fun x y => cmp x y ≤ 0)

include hlength hrows hsorted

theorem setUpperBound_eq
    (hlimit : state.actualRowsLimit = (1 + min (followers quota surplus) tail.length : Nat))
    (hremainder : state.remainder = (surplus - 1 : Nat)) :
    setUpperBound (plainArguments cmp n) rows current state = .ok { state with
        actualRowsLimit := (head cmp quota surplus first tail).items.length
        remainder := (surplus - 1 - (ties cmp quota surplus first tail).length : Nat)
        upperBound := some (head cmp quota surplus first tail).bound } := by
  have htail : (first :: tail).length ≤ rows.length := by
    rw [← hrows]
    exact (drop_sublist ..).length_le
  rw [length_cons] at htail
  have hbehind : ∀ x ∈ tail.drop (followers quota surplus),
      cmp (lastItem quota surplus first tail) x ≤ 0 := by
    obtain ⟨init, hinit⟩ := exists_init quota surplus first tail
    rw [← take_append_drop (followers quota surplus) tail, ← cons_append,
      hinit, append_assoc] at hsorted
    exact (pairwise_cons.1 (pairwise_append.1 hsorted).2.1).1
  have hdrop : (first :: tail).drop (1 + min (followers quota surplus) tail.length)
      = tail.drop (followers quota surplus) := by
    rw [Nat.add_comm, drop_succ_cons]
    rcases Nat.le_total (followers quota surplus) tail.length with hle | hle
    · rw [Nat.min_eq_left hle]
    · rw [Nat.min_eq_right hle, drop_length, drop_eq_nil_of_le hle]
  have hmax : ((1 + min (followers quota surplus) tail.length : Nat) : Int) - 1
      = (min (followers quota surplus) tail.length : Nat) := by
    omega
  unfold setUpperBound
  rw [hlimit, hmax, toInt32_eq (by omega), winGetFuncArgInPartition_eq hrows,
    getElem?_lastItem, toInt32_eq (by omega), rowsFrom_eq hrows, hdrop]
  show (expandLoop _ _ _ _ _ >>= _) = _
  rw [expandLoop_eq hbehind hremainder, length_head, hlimit]
  rfl

variable (hquota : 1 ≤ quota) (h : Between cmp n quota surplus rows (first :: tail) state)

include hquota h

theorem startBucket_eq :
    startBucket (plainArguments cmp n) rows current first { state with rowIndex := 1 }
      = .ok (started cmp quota surplus first tail state) := by
  have hrow : state.bucketId = 0 ∨ state.upperBound = some first := by
    by_cases hzero : state.bucketId = 0
    · exact Or.inl hzero
    · exact Or.inr (h.bound hzero (cons_ne_nil _ _))
  have hlimit : setRowsLimit { state with
        rowIndex := 1
        bucketId := state.bucketId + 1 }
      = { state with
        rowIndex := 1
        bucketId := state.bucketId + 1
        actualRowsLimit := (1 + min (followers quota surplus) tail.length : Nat)
        remainder := (surplus - 1 : Nat) } :=
    setRowsLimit_eq hquota h.expectRowsLimit h.remainder h.totalRows
  obtain ⟨upperBound, hlower⟩ := setLowerBound_eq cmp n { state with
    rowIndex := 1
    actualRowsLimit := (1 + min (followers quota surplus) tail.length : Nat)
    remainder := (surplus - 1 : Nat) } hrow h.bucketId
  show setUpperBound _ _ _ (setLowerBound _ _ (setRowsLimit { state with
    rowIndex := 1
    bucketId := state.bucketId + 1 })) = _
  rw [hlimit, hlower]
  exact setUpperBound_eq hlength hrows hsorted rfl rfl

theorem firstRow_eq : bsonDollarBucketAuto (plainArguments cmp n) rows current first state
      = .ok (bucketIdOf (started cmp quota surplus first tail state),
        countRow (started cmp quota surplus first tail state)) := by
  have hready : (if state.bucketId = 0
      then initializeState (plainArguments cmp n) rows state else state) = state := by
    split_ifs with hzero
    · exact h.initialized hzero
    · rfl
  unfold bsonDollarBucketAuto
  dsimp only
  rw [hready, h.rowIndex, if_pos (Int.zero_add 1), Int.zero_add,
    startBucket_eq hlength hrows hsorted hquota h]
  rfl

end FirstRow

-- ==== the calls

theorem callsFrom_cons {args : BucketAutoArguments V} {currentValue : V}
    {bucketId : BucketId V} {state' final : BucketAutoState V} {bucketIds : List (BucketId V)}
    (h : bsonDollarBucketAuto args rows current currentValue state = .ok (bucketId, state'))
    (hrest : callsFrom args rows (current + 1) rest state' = .ok (bucketIds, final)) :
    callsFrom args rows current (currentValue :: rest) state
      = .ok (bucketId :: bucketIds, final) := by
  rw [callsFrom, h]
  show (callsFrom args rows (current + 1) rest state' >>= _) = _
  rw [hrest]
  rfl

theorem callsFrom_others (current : Nat) (state : BucketAutoState V)
    {others : List V} {final : BucketAutoState V}
    {bucketIds : List (BucketId V)} (hid : state.bucketId ≠ 0) (hindex : 1 ≤ state.rowIndex)
    (hlimit : state.rowIndex + others.length = state.actualRowsLimit)
    (hrest : callsFrom (plainArguments cmp n) rows (current + others.length) rest
      { state with
        rowIndex := 0
        totalRows := state.totalRows - 1 - others.length }
      = .ok (bucketIds, final)) :
    callsFrom (plainArguments cmp n) rows current (others ++ rest) (countRow state)
      = .ok (List.replicate others.length (bucketIdOf state) ++ bucketIds, final) := by
  induction others generalizing current state with
  | nil =>
    have hlast : state.rowIndex = state.actualRowsLimit := by
      rw [← hlimit]
      exact (Int.add_zero _).symm
    rw [length_nil, Int.natCast_zero, Int.sub_zero] at hrest
    unfold countRow
    rw [if_pos hlast]
    exact hrest
  | cons value others ih =>
    rw [length_cons] at hlimit hrest
    have hcount : countRow state = { state with totalRows := state.totalRows - 1 } := by
      unfold countRow
      rw [if_neg (by omega)]
    have hcall : bsonDollarBucketAuto (plainArguments cmp n) rows current value (countRow state)
        = .ok (bucketIdOf state, countRow { state with
          rowIndex := state.rowIndex + 1
          totalRows := state.totalRows - 1 }) := by
      rw [hcount]
      unfold bsonDollarBucketAuto
      rw [if_neg hid, if_neg (by dsimp only; omega)]
      rfl
    refine callsFrom_cons hcall (ih _ _ hid (by dsimp only; omega)
      (by dsimp only; omega) ?_)
    rw [Nat.add_assoc, Nat.add_comm 1]
    convert hrest using 3
    dsimp only
    omega

theorem Between.behind (h : Between cmp n quota surplus rows (first :: tail) state) :
    Between cmp n quota (surplus - 1 - (ties cmp quota surplus first tail).length) rows
      (EvenSplit.rest cmp quota surplus first tail)
      { started cmp quota surplus first tail state with
        rowIndex := 0
        totalRows := state.totalRows - 1
          - (head cmp quota surplus first tail).others.length } where
  rowIndex := rfl
  totalRows := by
    have hsplit := congrArg length (head_append_rest cmp quota surplus first tail)
    have htotal := h.totalRows
    rw [length_append, Run.items, length_cons] at hsplit
    dsimp only
    omega
  expectRowsLimit := h.expectRowsLimit
  remainder := rfl
  bucketId := by
    have hid := h.bucketId
    show 0 ≤ state.bucketId + 1
    omega
  initialized hzero := by
    have hid := h.bucketId
    have hzero : state.bucketId + 1 = 0 := hzero
    omega
  bound _ hne := by
    obtain ⟨next, others, hrest⟩ := exists_cons_of_ne_nil hne
    show some ((EvenSplit.rest cmp quota surplus first tail).head?.getD _) = _
    rw [hrest]
    rfl

def bucketIds (run : Run V) : List (BucketId V) :=
  List.replicate run.items.length ⟨some run.first, some run.bound⟩

theorem callsFrom_eq (hquota : 1 ≤ quota) (hlength : rows.length < 2 ^ 31)
    (hrows : rows.drop current = rest) (hsorted : rest.Pairwise fun x y => cmp x y ≤ 0)
    (h : Between cmp n quota surplus rows rest state) :
    ∃ final, callsFrom (plainArguments cmp n) rows current rest state
        = .ok ((split cmp quota surplus rest).flatMap bucketIds, final)
      ∧ final.bucketId = state.bucketId + (split cmp quota surplus rest).length := by
  induction surplus, rest using split.induct cmp quota generalizing current state with
  | case1 surplus =>
    rw [split_nil]
    exact ⟨state, rfl, (Int.add_zero _).symm⟩
  | case2 surplus first tail ih =>
    have hlist := head_append_rest cmp quota surplus first tail
    have hbehind : rows.drop (current + 1 + (head cmp quota surplus first tail).others.length)
        = EvenSplit.rest cmp quota surplus first tail := by
      rw [Nat.add_assoc, ← drop_drop, hrows, ← hlist, Nat.add_comm 1]
      exact drop_left
    have hsorted' : (EvenSplit.rest cmp quota surplus first tail).Pairwise
        fun x y => cmp x y ≤ 0 := by
      rw [← hlist] at hsorted
      exact (pairwise_append.1 hsorted).2.1
    obtain ⟨final, hcalls, hcount⟩ := ih hbehind hsorted' h.behind
    have hid := h.bucketId
    have hothers := callsFrom_others (current + 1) (started cmp quota surplus first tail state)
      (by show state.bucketId + 1 ≠ 0; omega) (Int.le_refl 1)
      (by show 1 + _ = ((_ + 1 : Nat) : Int); omega) hcalls
    have hfirst := callsFrom_cons (firstRow_eq hlength hrows hsorted hquota h) hothers
    refine ⟨final, ?_, ?_⟩
    · rw [split_cons, flatMap_cons]
      exact (congrArg (callsFrom _ rows current · state) hlist.symm).trans hfirst
    · rw [split_cons, length_cons, hcount]
      show state.bucketId + 1 + _ = _
      omega

-- ==== the first call

def rowsPerBucket (total n : Nat) : Nat := max 1 (total / n)

def rowsLeftOver (total n : Nat) : Nat := if total / n = 0 then 0 else total % n

theorem initializeState_bucketId (rows : List V)
    (state : BucketAutoState V) : (initializeState args rows state).bucketId = state.bucketId := by
  unfold initializeState
  dsimp only
  split_ifs
  · rfl
  · rfl

theorem initializeState_eq (cmp : V → V → Int) (n : Nat) (state : BucketAutoState V)
    (hlength : rows.length < 2 ^ 31) (hid : state.bucketId = 0) (hindex : state.rowIndex = 0) :
    Between cmp n (rowsPerBucket rows.length n) (rowsLeftOver rows.length n) rows rows
      (initializeState (plainArguments cmp n) rows state) := by
  have hdiv : ((rows.length : Int).tdiv n) = (rows.length / n : Nat) := rfl
  have hmod : ((rows.length : Int).tmod n) = (rows.length % n : Nat) := rfl
  have hself : ((rows.length : Int).tmod (toInt32 rows.length)) = 0 := by
    rw [toInt32_eq hlength, tmod_self]
  by_cases hzero : rows.length / n = 0
  · have heq : ∀ state : BucketAutoState V,
        initializeState (plainArguments cmp n) rows state = { state with
            totalRows := rows.length
            nBuckets := toInt32 rows.length
            expectRowsLimit := 1
            remainder := 0 } := by
      intro state
      unfold initializeState plainArguments
      dsimp only
      rw [hdiv, hzero, hself]
      rfl
    rw [heq, rowsPerBucket, rowsLeftOver, hzero, if_pos rfl]
    exact ⟨hindex, rfl, rfl, rfl, hid.symm.le, fun _ => heq _, fun h => absurd hid h⟩
  · have heq : ∀ state : BucketAutoState V,
        initializeState (plainArguments cmp n) rows state = { state with
            totalRows := rows.length
            nBuckets := n
            expectRowsLimit := (rows.length / n : Nat)
            remainder := (rows.length % n : Nat) } := by
      intro state
      unfold initializeState plainArguments
      dsimp only
      rw [hdiv, hmod, if_neg (natCast_ne_zero.2 hzero)]
    rw [heq, rowsPerBucket, rowsLeftOver, if_neg hzero, Nat.max_eq_right (Nat.pos_of_ne_zero hzero)]
    exact ⟨hindex, rfl, rfl, rfl, hid.symm.le, fun _ => heq _, fun h => absurd hid h⟩

theorem bsonDollarBucketAuto_new (hlength : rows.length < 2 ^ 31) :
    bsonDollarBucketAuto (plainArguments cmp n) rows current first {}
      = bsonDollarBucketAuto (plainArguments cmp n) rows current first
        (initializeState (plainArguments cmp n) rows {}) := by
  have hid := initializeState_bucketId (plainArguments cmp n) rows {}
  have hagain := (initializeState_eq cmp n {} hlength rfl rfl).initialized hid
  unfold bsonDollarBucketAuto
  rw [if_pos hid, if_pos rfl, hagain]

theorem assignBuckets_eq_split (cmp : V → V → Int) (n : Nat) (hlength : rows.length < 2 ^ 31)
    (hsorted : rows.Pairwise fun x y => cmp x y ≤ 0) :
    ∃ final, assignBuckets (plainArguments cmp n) rows
        = .ok ((split cmp (rowsPerBucket rows.length n) (rowsLeftOver rows.length n)
          rows).flatMap bucketIds, final)
      ∧ final.bucketId = (split cmp (rowsPerBucket rows.length n)
        (rowsLeftOver rows.length n) rows).length := by
  have hstart := initializeState_eq cmp n {} hlength rfl rfl
  obtain ⟨final, hcalls, hcount⟩ := callsFrom_eq (Nat.le_max_left ..) hlength
    (rfl : rows.drop 0 = rows) hsorted hstart
  cases rows with
  | nil =>
    rw [split_nil]
    exact ⟨{}, rfl, rfl⟩
  | cons first tail =>
    refine ⟨final, ?_, ?_⟩
    · simp only [assignBuckets, callsFrom, bsonDollarBucketAuto_new hlength] at hcalls ⊢
      exact hcalls
    · rw [hcount, initializeState_bucketId]
      exact Int.zero_add _

/-- The partition is even, and no internal error is raised. -/
theorem buckets_even (order : TotalPreorder cmp) (hn : 1 ≤ n) (hlength : rows.length < 2 ^ 31)
    (hsorted : rows.Pairwise fun x y => cmp x y ≤ 0) :
    ∃ buckets final, assignBuckets (plainArguments cmp n) rows
        = .ok (buckets.flatMap bucketIds, final)
      ∧ final.bucketId = buckets.length ∧ IsEven cmp n rows buckets := by
  obtain ⟨final, hcalls, hcount⟩ := assignBuckets_eq_split cmp n hlength hsorted
  refine ⟨_, final, hcalls, hcount, isEven_split order hsorted (Nat.le_max_left ..)
    (Nat.le_max_right ..) ?_ ?_⟩
  · unfold rowsLeftOver
    split_ifs
    · exact Nat.zero_le n
    · exact (mod_lt _ hn).le
  · have hdivision := div_add_mod rows.length n
    unfold rowsLeftOver rowsPerBucket
    split_ifs with hzero
    · rw [hzero, Nat.max_eq_left (Nat.zero_le 1), Nat.mul_one]
      exact ((div_eq_zero_iff_lt hn).1 hzero).le
    · rw [Nat.max_eq_right (Nat.pos_of_ne_zero hzero), hdivision]

/-- Seven rows in three buckets: the first two buckets take the ties. -/
theorem seven_rows_even : ∃ buckets final,
    assignBuckets (plainArguments ofOrder 3) [1, 1, 2, 2, 2, 5, (7 : Int)]
        = .ok (buckets.flatMap bucketIds, final)
      ∧ final.bucketId = buckets.length
      ∧ IsEven ofOrder 3 [1, 1, 2, 2, 2, 5, (7 : Int)] buckets :=
  buckets_even ⟨Flip.ofOrder, TransAt.ofOrder⟩ (by decide) (by decide) (by decide)

end Bounds

end DocumentDb.BucketAuto
