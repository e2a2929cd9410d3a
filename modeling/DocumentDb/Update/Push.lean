/-
`$push` with modifiers.

The elements of `$each` are inserted at `$position` into a new array, which is sorted by
`$sort`, and the part that `$slice` asks for is written. Four things go wrong. The position
is cut to 32 bits (`insertPosition`). The smallest `int64`, which numbers become that are
rounded to -2⁶³, is its own negation: as a position it means the end, and as a slice it
leads out of the array (`memorySafe_iff`). If nothing is left the old array is written
behind the new one. And code and DBPointers are cut at a zero (`stores_iff`).
-/
import DocumentDb.Update.Sort

namespace DocumentDb.Push

open ThreeWay List Option

-- ==== the source

/-- The modifiers of a `$push`. -/
structure Modifiers where
  each : List Value
  position : Option Int64
  slice : Option Int64
  sort : Option Value

structure DollarPushUpdateState where
  dollarEachArray : List Value
  position : Int64
  slice : Int64
  sortContext : Option SortContext

/-- What the server runs on. -/
inductive Architecture where
  | x86 | arm
  deriving DecidableEq, Repr

/-- The cast of the double 2⁶³ to `int64_t`, which C leaves open. -/
def Architecture.castOverflow : Architecture → Int64
  | .x86 => Int64.minValue
  | .arm => Int64.maxValue

/-- An `int64` as a double, which is an integer too. -/
def asDouble (n : Int64) : Int := ⌊Rounding.toBits 53 (-1074) (n.toInt : ℚ)⌋

variable (arch : Architecture)

/-- `(int64_t) BsonValueAsDouble`. -/
def int64OfDouble (n : Int64) : Int64 :=
  if asDouble n < 2 ^ 63 then Int64.ofInt (asDouble n) else arch.castOverflow

/-- A number of the modifiers, or `UINT32_MAX` if there is none. -/
def asInt64 (number : Option Int64) : Int64 := number.elim 4294967295 (int64OfDouble arch)

section Source

variable [BidLib] (modifiers : Modifiers)

/-- `ValidateUpdateSpecAndSetPushUpdateState`. -/
def validateModifiers : Except SortError DollarPushUpdateState := do
  let slice := asInt64 arch modifiers.slice
  let position := asInt64 arch modifiers.position
  let sortContext ← validateSortSpecAndSetSortContext modifiers.sort
  return ⟨modifiers.each, position, slice, sortContext⟩

end Source

/-- The value of an `int64` after an overflow. -/
def toInt64 (x : Int) : Int := x.bmod (2 ^ 64)

/-- The number of existing elements before the new ones, as an `uint32`. -/
def insertPosition (position : Int64) (existingArrLen : Int) : Nat :=
  let position :=
    if position.toInt < 0 then
      let position := toInt64 (-position.toInt)
      if existingArrLen ≤ position then 0 else toInt64 (existingArrLen - position)
    else position.toInt
  (position % 2 ^ 32).toNat

/-- Values are written one after the other; there is no result if one is written
outside of the array. -/
def writeElements : List Value → Nat × List Value → Option (Nat × List Value)
  | [], written => some written
  | value :: values, (index, elementsArr) =>
    if index < elementsArr.length then
      writeElements values (index + 1, elementsArr.set index value)
    else none

/-- The range that `$slice` asks for. -/
def sliceRange (slice : Int64) (elementsArrLen : Int) : Int × Int :=
  if slice.toInt < 0 then
    let sliceIndex := toInt64 (-slice.toInt)
    (if elementsArrLen < sliceIndex then 0 else toInt64 (elementsArrLen - sliceIndex),
      elementsArrLen)
  else (0, if elementsArrLen < slice.toInt then elementsArrLen else slice.toInt)

section Apply

variable [BidLib] (pushState : DollarPushUpdateState) (existing : List Value)

/-- With the allocation of the array: the elements, and the range that is to be written.
-/
def applyDollarPushModifiers : Option (List Value × Int × Int) := do
  let elementsArrLen : Nat := (existing.length + pushState.dollarEachArray.length) % 2 ^ 32
  let position := insertPosition pushState.position
    ((elementsArrLen : Int) - pushState.dollarEachArray.length)
  let written ← writeElements (existing.take position) (0, List.replicate elementsArrLen .null)
  let written ← writeElements pushState.dollarEachArray written
  let (_, elementsArr) ← writeElements (existing.drop position) written
  some (qsortArg pushState.sortContext elementsArr, sliceRange pushState.slice elementsArrLen)

/-- The loop of `HandleUpdateDollarPush` that writes the range; there is no result if
it reads outside of the array. -/
def pushedElements : Option (List Value) := do
  let (elementsArr, sliceStart, sliceEnd) ← applyDollarPushModifiers pushState existing
  if sliceStart < 0 ∧ sliceStart < sliceEnd then none
  else some ((elementsArr.take sliceEnd.toNat).drop sliceStart.toNat)

end Apply

-- ==== the purpose

def insertAt (position : Nat) (each existing : List Value) : List Value :=
  existing.take position ++ each ++ existing.drop position

/-- The place that `$position` means in a list of `n` elements. -/
def placeOf (n : Nat) : Option Int64 → Nat
  | none => n
  | some position =>
    if 0 ≤ position.toInt then min position.toInt.toNat n
    else (n + position.toInt).toNat

/-- The part that `$slice` means: the first elements, or the last ones. -/
def sliced (slice : Int64) (elements : List Value) : List Value :=
  if 0 ≤ slice.toInt then elements.take slice.toInt.toNat
  else elements.drop (elements.length - (-slice.toInt).toNat)

/-- With the slice, if there is one. -/
def slicedBy (slice : Option Int64) (elements : List Value) : List Value :=
  slice.elim elements (sliced · elements)

/-- What `$push` with modifiers is to store. -/
def Modifiers.result [BidLib] (modifiers : Modifiers) (sortContext : Option SortContext)
    (existing : List Value) : List Value :=
  slicedBy modifiers.slice (sorted sortContext
    (insertAt (placeOf existing.length modifiers.position) modifiers.each existing))

-- ==== the array

theorem writeElements_append (first second : List Value) (written : Nat × List Value) :
    writeElements (first ++ second) written
      = (writeElements first written).bind (writeElements second) := by
  induction first generalizing written with
  | nil => rfl
  | cons value values ih =>
    rw [cons_append, writeElements, writeElements]
    split_ifs
    · exact ih _
    · rfl

theorem writeElements_fill {values room : List Value} (written : List Value)
    (h : values.length = room.length) : writeElements values (written.length, written ++ room)
      = some ((written ++ values).length, written ++ values) := by
  induction values generalizing written room with
  | nil =>
    rw [eq_nil_of_length_eq_zero h.symm, append_nil]
    rfl
  | cons value values ih =>
    obtain ⟨place, room, rfl⟩ := exists_cons_of_length_eq_add_one h.symm
    have hset : (written ++ place :: room).set written.length value
        = (written ++ [value]) ++ room := by
      rw [set_append_right _ _ le_rfl, Nat.sub_self, set_cons_zero, append_assoc]
      rfl
    have hstep := ih (written ++ [value]) (Nat.succ.inj h)
    rw [length_append, length_singleton, ← hset] at hstep
    rw [writeElements, if_pos (by simp), hstep, append_assoc]
    rfl

def FitsArray (elements : List Value) : Prop := (encodeElems 0 elements).length < 2 ^ 31

theorem FitsArray.length_lt {elements : List Value} (h : FitsArray elements) :
    elements.length < 2 ^ 30 := by
  have hle := length_le_encodeElems 0 elements
  unfold FitsArray at h
  omega

/-- Values without contents: they have one size, and null and undefined compare equal. -/
def Bare (v : Value) : Prop := v = .null ∨ v = .undefined ∨ v = .maxKey

theorem bare_replicate {v : Value} (hv : Bare v) (n : Nat) : ∀ w ∈ replicate n v, Bare w := by
  intro w hw
  rw [eq_of_mem_replicate hw]
  exact hv

theorem FitsArray.of_bare {elements : List Value} (hbare : ∀ v ∈ elements, Bare v)
    (h : FitsArray (replicate elements.length .null)) : FitsArray elements := by
  have hlength : ∀ i, (encodeElems i elements).length
      = (encodeElems i (replicate elements.length .null)).length := by
    clear h
    induction elements with
    | nil => exact fun _ => rfl
    | cons v elements ih =>
      intro i
      obtain ⟨hv, helements⟩ := forall_mem_cons.1 hbare
      rw [length_cons, replicate_succ, encodeElems, encodeElems]
      simp only [length_cons, length_append, ih helements (i + 1)]
      rcases hv with rfl | rfl | rfl <;> rfl
  unfold FitsArray at h ⊢
  rw [hlength]
  exact h

-- ==== the numbers

theorem toInt64_eq {x : Int} (hle : -2 ^ 63 ≤ x) (hlt : x < 2 ^ 63) : toInt64 x = x :=
  Int.bmod_eq_of_le (by omega) (by omega)

theorem toInt64_neg_min : toInt64 (- -2 ^ 63) = -2 ^ 63 := by
  decide

variable {n : Nat}

theorem toInt64_sub_min (hn : n < 2 ^ 31) : toInt64 ((n : Int) - -2 ^ 63) = (n : Int) - 2 ^ 63 := by
  have hwrap : (n : Int) - -2 ^ 63 = n - 2 ^ 63 + (2 ^ 64 : Nat) := by omega
  rw [hwrap, toInt64, Int.add_bmod_right]
  exact toInt64_eq (by omega) (by omega)

variable {slice : Int64}

theorem sliceRange_of_nonneg (n : Nat) (hslice : 0 ≤ slice.toInt) :
    sliceRange slice n = (0, min slice.toInt n) := by
  unfold sliceRange
  rw [if_neg (by omega)]
  refine Prod.ext rfl ?_
  split_ifs <;> omega

theorem sliceRange_of_neg (hn : n < 2 ^ 31)
    (hslice : slice.toInt < 0) (hmin : slice.toInt ≠ -2 ^ 63) :
    sliceRange slice n = (((n - (-slice.toInt).toNat : Nat) : Int), (n : Int)) := by
  have hle := slice.le_toInt
  unfold sliceRange
  rw [if_pos hslice, toInt64_eq (by omega) (by omega)]
  refine Prod.ext ?_ rfl
  show ite _ _ _ = _
  split_ifs
  · omega
  · rw [toInt64_eq (by omega) (by omega)]
    omega

theorem sliceRange_min (hn : n < 2 ^ 31)
    (hslice : slice.toInt = -2 ^ 63) : sliceRange slice n = ((n : Int) - 2 ^ 63, (n : Int)) := by
  unfold sliceRange
  rw [hslice, if_pos (by omega), toInt64_neg_min]
  dsimp only
  rw [if_neg (by omega), toInt64_sub_min hn]

theorem asDouble_of_small {n : Int64} (h : |n.toInt| < 2 ^ 53) : asDouble n = n.toInt := by
  have hexact := @Rounding.toBits_of_bits 53 (-1074) n.toInt 0 h (by decide)
  rw [zpow_zero, mul_one] at hexact
  rw [asDouble, hexact, Int.floor_intCast]

/-- Up to 2⁶² a number stays there. -/
theorem abs_asDouble_le {n : Int64} (h : |n.toInt| ≤ 2 ^ 62) : |asDouble n| ≤ 2 ^ 62 := by
  obtain ⟨hlow, hhigh⟩ := abs_le.1 h
  have hlow : (-2 ^ 62 : ℚ) ≤ n.toInt := by exact_mod_cast hlow
  have hhigh : (n.toInt : ℚ) ≤ 2 ^ 62 := by exact_mod_cast hhigh
  have hbelow := @Rounding.le_toBits 53 (-1074) n.toInt (-1) 62 (by norm_num) (by decide)
    (by norm_num at hlow ⊢; exact hlow)
  have habove := @Rounding.toBits_le 53 (-1074) n.toInt 1 62 (by norm_num) (by decide)
    (by norm_num at hhigh ⊢; exact hhigh)
  rw [asDouble, abs_le, Int.le_floor]
  refine ⟨by norm_num at hbelow ⊢; exact hbelow, ?_⟩
  have hfloor := (Int.floor_le _).trans habove
  norm_num at hfloor
  exact_mod_cast hfloor

/-- Above 2⁶² a number is rounded to a multiple of 1024. -/
theorem asDouble_of_large {n : Int64} (hlow : 2 ^ 62 ≤ |n.toInt|) (hhigh : |n.toInt| < 2 ^ 63) :
    |asDouble n - n.toInt| ≤ 512 ∧ asDouble n % 1024 = 0
      ∧ (|asDouble n - n.toInt| = 512 → asDouble n % 2048 = 0) := by
  have hlow : ((2 : ℚ) ^ (62 : Int)) ≤ |(n.toInt : ℚ)| := by exact_mod_cast hlow
  have hhigh : |(n.toInt : ℚ)| < (2 : ℚ) ^ (62 + 1 : Int) := by exact_mod_cast hhigh
  have hround := @Rounding.toBits_of_binade 53 (-1074) n.toInt 62 hlow hhigh (by decide)
  have hunit : (2 : ℚ) ^ ((62 : Int) + 1 - (53 : Nat)) = (1024 : Nat) := by norm_num
  have hfloor : asDouble n = Rounding.halfEven ((n.toInt : ℚ) / (1024 : Nat)) * 1024 := by
    rw [asDouble, hround, hunit]
    exact_mod_cast Int.floor_intCast (Rounding.halfEven ((n.toInt : ℚ) / (1024 : Nat)) * 1024)
  rw [hfloor, Rounding.halfEven_div _ (by decide), abs_le]
  simp only [abs_eq (show (0 : Int) ≤ 512 by decide)]
  split_ifs <;> omega

/-- The smallest number is a double. -/
theorem asDouble_min {n : Int64} (h : n.toInt = -2 ^ 63) : asDouble n = -2 ^ 63 := by
  have hexact := @Rounding.toBits_of_bits 53 (-1074) (-1) 63 (by decide) (by decide)
  have hnumber : (n.toInt : ℚ) = ((-1 : Int) : ℚ) * 2 ^ (63 : Int) := by
    rw [h]
    norm_num
  rw [asDouble, hnumber, hexact]
  norm_num

/-- The three ranges of the numbers. -/
theorem asDouble_ranges (n : Int64) : |n.toInt| < 2 ^ 62 ∧ |asDouble n| ≤ 2 ^ 62
    ∨ 2 ^ 62 ≤ |n.toInt| ∧ |n.toInt| < 2 ^ 63 ∧ |asDouble n - n.toInt| ≤ 512
      ∧ asDouble n % 1024 = 0 ∧ (|asDouble n - n.toInt| = 512 → asDouble n % 2048 = 0)
    ∨ n.toInt = -2 ^ 63 ∧ asDouble n = -2 ^ 63 := by
  have hle := n.le_toInt
  have hlt := n.toInt_lt
  rcases lt_or_ge |n.toInt| (2 ^ 62) with hsmall | hlarge
  · exact Or.inl ⟨hsmall, abs_asDouble_le hsmall.le⟩
  · by_cases hmin : n.toInt = -2 ^ 63
    · exact Or.inr (Or.inr ⟨hmin, asDouble_min hmin⟩)
    · have hhigh : |n.toInt| < 2 ^ 63 := by
        rw [abs_lt]
        omega
      exact Or.inr (Or.inl ⟨hlarge, hhigh, asDouble_of_large hlarge hhigh⟩)

/-- The numbers that become -2⁶³, and those that become 2⁶³. -/
theorem asDouble_bounds (n : Int64) : (asDouble n = -2 ^ 63 ↔ n.toInt ≤ -2 ^ 63 + 512)
    ∧ (asDouble n < 2 ^ 63 ↔ n.toInt < 2 ^ 63 - 512) ∧ -2 ^ 63 ≤ asDouble n := by
  rcases asDouble_ranges n with ⟨hsmall, hrange⟩ | ⟨hlow, hhigh, hnear, hunit, htie⟩ | ⟨hmin, hdouble⟩
  · rw [abs_lt] at hsmall
    rw [abs_le] at hrange
    omega
  · rw [abs_lt] at hhigh
    rw [abs_le] at hnear
    rw [abs_eq (by decide)] at htie
    omega
  · omega

/-- A number that is not a double has many bits, and so has the double. -/
theorem asDouble_cases (n : Int64) : asDouble n = n.toInt
    ∨ 2 ^ 53 ≤ n.toInt ∧ 2 ^ 53 ≤ asDouble n ∨ n.toInt ≤ -2 ^ 53 ∧ asDouble n ≤ -2 ^ 53 := by
  rcases lt_or_ge |n.toInt| (2 ^ 53) with hsmall | hlarge
  · exact Or.inl (asDouble_of_small hsmall)
  · right
    rcases le_abs.1 hlarge with hpos | hneg
    · left
      have hq : (2 ^ 53 : ℚ) ≤ n.toInt := by exact_mod_cast hpos
      have hr := @Rounding.le_toBits 53 (-1074) n.toInt (2 ^ 52) 1 (by norm_num) (by decide)
        (by norm_num at hq ⊢; exact hq)
      refine ⟨hpos, Int.le_floor.2 ?_⟩
      norm_num at hr ⊢
      exact hr
    · right
      have hq : (n.toInt : ℚ) ≤ -2 ^ 53 := by exact_mod_cast (by omega)
      have hr := @Rounding.toBits_le 53 (-1074) n.toInt (-2 ^ 52) 1 (by norm_num) (by decide)
        (by norm_num at hq ⊢; exact hq)
      refine ⟨by omega, ?_⟩
      have hfloor := (Int.floor_le _).trans hr
      norm_num at hfloor
      exact_mod_cast hfloor

variable {arch : Architecture}

/-- What a number becomes that is not 2⁶³ as a double. -/
theorem toInt_int64OfDouble {n : Int64} (h : n.toInt < 2 ^ 63 - 512) :
    (int64OfDouble arch n).toInt = asDouble n := by
  obtain ⟨-, hlt, hle⟩ := asDouble_bounds n
  rw [int64OfDouble, if_pos (hlt.2 h), Int64.toInt_ofInt_of_le hle (hlt.2 h)]

/-- What a number becomes that is 2⁶³ as a double. -/
theorem int64OfDouble_overflow {n : Int64} (h : 2 ^ 63 - 512 ≤ n.toInt) :
    int64OfDouble arch n = arch.castOverflow := by
  rw [int64OfDouble, if_neg ((asDouble_bounds n).2.1.not.2 (by omega))]

theorem toInt_asInt64_none : (asInt64 arch none).toInt = 4294967295 := by
  show (4294967295 : Int64).toInt = _
  decide

/-- The slices that are not the smallest `int64` as a double. -/
def SliceInRange (arch : Architecture) : Option Int64 → Prop
  | none => True
  | some slice => -2 ^ 63 + 512 < slice.toInt ∧ (slice.toInt < 2 ^ 63 - 512 ∨ arch = .arm)

theorem asInt64_ne_min_iff (slice : Option Int64) :
    (asInt64 arch slice).toInt ≠ -2 ^ 63 ↔ SliceInRange arch slice := by
  cases slice with
  | none => exact iff_of_true (by rw [toInt_asInt64_none]; decide) trivial
  | some slice =>
    show (int64OfDouble arch slice).toInt ≠ _ ↔ _ ∧ _
    rcases lt_or_ge slice.toInt (2 ^ 63 - 512) with hlt | hge
    · rw [toInt_int64OfDouble hlt, Ne, (asDouble_bounds slice).1]
      omega
    · rw [int64OfDouble_overflow hge]
      cases arch with
      | x86 => exact iff_of_false (by decide) (by simp; omega)
      | arm => exact iff_of_true (by decide) ⟨by omega, Or.inr rfl⟩

-- ==== the place

/-- The place that an `int64` leads to: it is cut to 32 bits, and the smallest one means
the end. -/
def takenPlace (n : Nat) (position : Int) : Nat :=
  if 0 ≤ position then (position % 2 ^ 32).toNat
  else if position = -2 ^ 63 then n
  else (n + position).toNat

theorem insertPosition_eq (hn : n < 2 ^ 31) (position : Int64) :
    insertPosition position n = takenPlace n position.toInt := by
  have hle := position.le_toInt
  unfold insertPosition takenPlace
  dsimp only
  rcases lt_or_ge position.toInt 0 with hneg | hneg
  · rw [if_pos hneg, if_neg (show ¬ 0 ≤ position.toInt by omega)]
    by_cases hmin : position.toInt = -2 ^ 63
    · rw [if_pos hmin, hmin, toInt64_neg_min, if_neg (by omega), toInt64_sub_min hn]
      omega
    · rw [if_neg hmin, toInt64_eq (x := -position.toInt) (by omega) (by omega)]
      split_ifs
      · omega
      · rw [toInt64_eq (by omega) (by omega)]
        omega
  · rw [if_neg (by omega), if_pos hneg]

/-- The positions that lead to another place in an array of `n` elements: those from 2³²
on whose last 32 bits are a place in the array, and those that become -2⁶³. -/
def Displaced (n : Nat) : Option Int64 → Prop
  | none => False
  | some position => 2 ^ 32 ≤ position.toInt ∧ position.toInt < 2 ^ 63 - 512
      ∧ asDouble position % 2 ^ 32 < n
    ∨ position.toInt ≤ -2 ^ 63 + 512 ∧ 0 < n

variable {position : Option Int64} {place : Nat} {each existing : List Value}

/-- A displaced position leads to a place inside in place of the end, or to the end in
place of the front. -/
theorem takenPlace_of_displaced (hn : n < 2 ^ 31) (h : Displaced n position) :
    takenPlace n (asInt64 arch position).toInt < n ∧ placeOf n position = n
    ∨ takenPlace n (asInt64 arch position).toInt = n ∧ placeOf n position = 0 ∧ 0 < n := by
  cases position with
  | none => exact h.elim
  | some position =>
    show takenPlace n (int64OfDouble arch position).toInt < n ∧ ite _ _ _ = n
      ∨ takenPlace n (int64OfDouble arch position).toInt = n ∧ ite _ _ _ = 0 ∧ 0 < n
    have hcases := asDouble_cases position
    have hmin := (asDouble_bounds position).1
    rcases h with ⟨hlarge, hlt, hinside⟩ | ⟨hsmall, hpos⟩
    · left
      rw [toInt_int64OfDouble hlt, takenPlace, if_pos (by omega), if_pos (by omega)]
      omega
    · right
      rw [toInt_int64OfDouble (by omega), takenPlace, if_neg (by omega), if_pos (by omega),
        if_neg (by omega)]
      omega

/-- Any other position leads to the place that it means, or both are the end. -/
theorem takenPlace_of_not_displaced (hn : n < 2 ^ 31) (h : ¬Displaced n position) :
    takenPlace n (asInt64 arch position).toInt = placeOf n position
    ∨ n ≤ takenPlace n (asInt64 arch position).toInt ∧ n ≤ placeOf n position := by
  cases position with
  | none =>
    right
    rw [toInt_asInt64_none, takenPlace, if_pos (by decide)]
    exact ⟨by omega, le_rfl⟩
  | some position =>
    have hplaces : ¬(2 ^ 32 ≤ position.toInt ∧ position.toInt < 2 ^ 63 - 512
      ∧ asDouble position % 2 ^ 32 < n ∨ position.toInt ≤ -2 ^ 63 + 512 ∧ 0 < n) := h
    show takenPlace n (int64OfDouble arch position).toInt = ite _ _ _
      ∨ n ≤ takenPlace n (int64OfDouble arch position).toInt ∧ n ≤ ite _ _ _
    rcases lt_or_ge position.toInt (2 ^ 63 - 512) with hlt | hge
    · have hcases := asDouble_cases position
      have hmin := (asDouble_bounds position).1
      rw [toInt_int64OfDouble hlt, takenPlace]
      split_ifs <;> omega
    · right
      rw [int64OfDouble_overflow hge, if_pos (by omega)]
      refine ⟨?_, by omega⟩
      cases arch with
      | x86 => exact le_of_eq rfl
      | arm =>
        show n ≤ 4294967295
        omega

theorem insertAt_of_length_le (h : existing.length ≤ place) :
    insertAt place each existing = existing ++ each := by
  rw [insertAt, take_of_length_le h, drop_of_length_le h, append_nil]

theorem insertAt_append {front rest : List Value} (h : front.length = place) :
    insertAt place each (front ++ rest) = front ++ (each ++ rest) := by
  rw [insertAt, take_left' h, drop_left' h, append_assoc]

theorem insertAt_zero (each existing : List Value) :
    insertAt 0 each existing = each ++ existing := rfl

theorem mem_insertAt {v : Value} (h : v ∈ insertAt place each existing) :
    v ∈ existing ∨ v ∈ each := by
  rcases mem_append.1 h with hfront | hdrop
  · rcases mem_append.1 hfront with htake | heach
    · exact Or.inl (mem_of_mem_take htake)
    · exact Or.inr heach
  · exact Or.inl (mem_of_mem_drop hdrop)

/-- Then the elements are inserted where they should be. -/
theorem insertAt_takenPlace (hn : existing.length < 2 ^ 31)
    (h : Displaced existing.length position → each = []) :
    insertAt (takenPlace existing.length (asInt64 arch position).toInt) each existing
      = insertAt (placeOf existing.length position) each existing := by
  by_cases hplace : Displaced existing.length position
  · simp only [h hplace, insertAt, append_nil, take_append_drop]
  · rcases takenPlace_of_not_displaced hn hplace with heq | ⟨htaken, hmeant⟩
    · rw [heq]
    · rw [insertAt_of_length_le htaken, insertAt_of_length_le hmeant]

-- ==== the call

section Calls

variable [BidLib]

/-- A `$push` with valid modifiers, of an array. -/
structure PushCall where
  arch : Architecture
  modifiers : Modifiers
  existing : List Value
  existing_fits : FitsArray existing
  each_fits : FitsArray modifiers.each
  sortContext : Option SortContext
  sort_valid : validateSortSpecAndSetSortContext modifiers.sort = .ok sortContext

namespace PushCall

variable (call : PushCall)

def pushState : DollarPushUpdateState where
  dollarEachArray := call.modifiers.each
  position := asInt64 call.arch call.modifiers.position
  slice := asInt64 call.arch call.modifiers.slice
  sortContext := call.sortContext

theorem validateModifiers_eq : validateModifiers call.arch call.modifiers = .ok call.pushState := by
  unfold validateModifiers
  rw [call.sort_valid]
  rfl

/-- The elements in front of the slice. -/
def elements : List Value :=
  sorted call.sortContext (insertAt (takenPlace call.existing.length call.pushState.position.toInt)
    call.modifiers.each call.existing)

theorem length_elements :
    call.elements.length = call.existing.length + call.modifiers.each.length := by
  rw [elements, length_sorted, insertAt, length_append, length_append, length_take, length_drop]
  omega

theorem length_elements_lt : call.elements.length < 2 ^ 31 := by
  have hexisting := call.existing_fits.length_lt
  have heach := call.each_fits.length_lt
  rw [call.length_elements]
  omega

theorem length_existing_lt : call.existing.length < 2 ^ 31 := by
  have hlt := call.existing_fits.length_lt
  omega

/-- All elements are written inside of the array, at the place that is taken. -/
theorem applyDollarPushModifiers_eq : applyDollarPushModifiers call.pushState call.existing
      = some (call.elements, sliceRange call.pushState.slice call.elements.length) := by
  have hlength := call.length_elements
  have hlt := call.length_elements_lt
  have hmod : (call.existing.length + call.pushState.dollarEachArray.length) % 2 ^ 32
      = call.elements.length := by
    show (_ + call.modifiers.each.length) % 2 ^ 32 = _
    omega
  have hexisting : (call.elements.length : Int) - call.pushState.dollarEachArray.length
      = call.existing.length := by
    show _ - (call.modifiers.each.length : Int) = _
    omega
  have hfill := @writeElements_fill
    (insertAt (takenPlace call.existing.length call.pushState.position.toInt)
      call.modifiers.each call.existing) (replicate call.elements.length .null) [] (by
      rw [length_replicate, elements, length_sorted])
  rw [nil_append, nil_append, length_nil, insertAt, writeElements_append,
    writeElements_append] at hfill
  unfold applyDollarPushModifiers
  simp only [hmod, hexisting, insertPosition_eq call.length_existing_lt, bind_eq_bind,
    ← bind_assoc]
  have hwritten : (((writeElements (call.existing.take
      (takenPlace call.existing.length call.pushState.position.toInt))
        (0, replicate call.elements.length .null)).bind
      (writeElements call.pushState.dollarEachArray)).bind
      (writeElements (call.existing.drop
        (takenPlace call.existing.length call.pushState.position.toInt)))) = _ := hfill
  rw [hwritten, bind_some, qsortArg_eq]
  rfl

/-- The writes are in the array, and so is the range that is read. -/
def MemorySafe : Prop :=
  ∃ pushState elementsArr sliceStart sliceEnd,
    validateModifiers call.arch call.modifiers = .ok pushState
    ∧ applyDollarPushModifiers pushState call.existing = some (elementsArr, sliceStart, sliceEnd)
    ∧ 0 ≤ sliceStart ∧ sliceStart ≤ sliceEnd ∧ sliceEnd ≤ elementsArr.length

theorem slice_ne_min_iff :
    call.pushState.slice.toInt ≠ -2 ^ 63 ↔ SliceInRange call.arch call.modifiers.slice :=
  asInt64_ne_min_iff _

/-- The call is safe exactly if the slice does not become the smallest `int64`, whatever
the position is. -/
theorem memorySafe_iff : call.MemorySafe ↔ SliceInRange call.arch call.modifiers.slice := by
  have hlt := call.length_elements_lt
  have happly := call.applyDollarPushModifiers_eq
  rw [← call.slice_ne_min_iff]
  constructor
  · rintro ⟨pushState, elementsArr, sliceStart, sliceEnd, hvalid, heq, hstart, -⟩ hmin
    rw [call.validateModifiers_eq] at hvalid
    cases hvalid
    rw [happly, sliceRange_min hlt hmin] at heq
    cases heq
    omega
  · intro hslice
    rcases lt_or_ge call.pushState.slice.toInt 0 with hneg | hneg
    · rw [sliceRange_of_neg hlt hneg hslice] at happly
      exact ⟨_, _, _, _, call.validateModifiers_eq, happly, by omega⟩
    · rw [sliceRange_of_nonneg _ hneg] at happly
      exact ⟨_, _, _, _, call.validateModifiers_eq, happly, by omega⟩

/-- `$position: 0, $slice: -9223372036854775807`, on x86. -/
def sliceNearMin : PushCall where
  arch := .x86
  modifiers := ⟨[.bool true], some 0, some (-9223372036854775807), none⟩
  existing := [.bool false]
  existing_fits := by unfold FitsArray; decide
  each_fits := by unfold FitsArray; decide
  sortContext := none
  sort_valid := rfl

/-- The range starts far in front of the array. -/
theorem applyDollarPushModifiers_sliceNearMin :
    applyDollarPushModifiers sliceNearMin.pushState sliceNearMin.existing
      = some ([.bool true, .bool false], -9223372036854775806, 2) := by
  have hmin : sliceNearMin.pushState.slice.toInt = -2 ^ 63 := by
    show (asInt64 .x86 (some (-9223372036854775807))).toInt = -2 ^ 63
    decide +kernel
  have hplace : takenPlace 1 (asInt64 .x86 (some 0)).toInt = 0 := by decide +kernel
  have helements : sliceNearMin.elements = [.bool true, .bool false] := by
    show insertAt (takenPlace 1 (asInt64 .x86 (some 0)).toInt) _ _ = _
    rw [hplace]
    rfl
  rw [applyDollarPushModifiers_eq, sliceRange_min (length_elements_lt _) hmin, helements]
  rfl

end PushCall

end Calls

theorem PushCall.slice_near_min_unsafe :
    ¬@PushCall.MemorySafe BidLib.reference (@PushCall.sliceNearMin BidLib.reference) := by
  rintro ⟨pushState, elementsArr, sliceStart, sliceEnd, hvalid, heq, hstart, -⟩
  rw [@validateModifiers_eq BidLib.reference] at hvalid
  cases hvalid
  rw [@applyDollarPushModifiers_sliceNearMin BidLib.reference] at heq
  cases heq
  exact absurd hstart (by decide)

-- ==== what is stored

section Calls

variable [BidLib] (call : PushCall)

/-- The array that is asked for. -/
def PushCall.result : List Value := call.modifiers.result call.sortContext call.existing

/-- The slice of the elements. -/
def PushCall.kept : List Value := slicedBy call.modifiers.slice call.elements

end Calls

section Slices

variable {elements : List Value} {arch : Architecture} {slice : Option Int64}

theorem sliced_of_large {slice : Int64} (hlen : elements.length < 2 ^ 31)
    (hlarge : 2 ^ 31 ≤ slice.toInt ∨ slice.toInt ≤ -2 ^ 31) : sliced slice elements = elements := by
  unfold sliced
  rcases hlarge with hlarge | hlarge
  · rw [if_pos (by omega), take_of_length_le (by omega)]
  · rw [if_neg (by omega), Nat.sub_eq_zero_of_le (by omega), drop_zero]

/-- The conversion changes large slices only, which leave the elements as they are. -/
theorem sliced_asInt64 (hslice : SliceInRange arch slice) (hlen : elements.length < 2 ^ 31) :
    sliced (asInt64 arch slice) elements = slicedBy slice elements := by
  cases slice with
  | none => exact sliced_of_large hlen (.inl (by rw [toInt_asInt64_none]; decide))
  | some slice =>
    show sliced (int64OfDouble arch slice) elements = sliced slice elements
    rcases lt_or_ge slice.toInt (2 ^ 63 - 512) with hlt | hge
    · have hint := @toInt_int64OfDouble arch slice hlt
      rcases asDouble_cases slice with hdouble | hlarge | hlarge
      · unfold sliced
        rw [hint, hdouble]
      · exact (sliced_of_large hlen (.inl (by omega))).trans
          (sliced_of_large hlen (.inl (by omega))).symm
      · exact (sliced_of_large hlen (.inr (by omega))).trans
          (sliced_of_large hlen (.inr (by omega))).symm
    · rcases hslice.2 with hlt | rfl
      · omega
      · rw [int64OfDouble_overflow hge, sliced_of_large hlen (.inl (by decide)),
          sliced_of_large hlen (.inl (by omega))]

/-- The first element is kept by a positive slice, and without one. -/
theorem head?_slicedBy (h : ∀ s, slice = some s → 0 < s.toInt) :
    (slicedBy slice elements).head? = elements.head? := by
  cases slice with
  | none => rfl
  | some slice =>
    have hpos := h slice rfl
    show (sliced slice elements).head? = _
    rw [sliced, if_pos hpos.le, head?_take, if_neg (by omega)]

/-- The last element is kept by a negative slice, and without one. -/
theorem getLast?_slicedBy (h : ∀ s, slice = some s → s.toInt < 0) :
    (slicedBy slice elements).getLast? = elements.getLast? := by
  cases slice with
  | none => rfl
  | some slice =>
    have hneg := h slice rfl
    show (sliced slice elements).getLast? = _
    rw [sliced, if_neg (by omega), getLast?_drop]
    split_ifs with hempty
    · have hnil : elements = [] := eq_nil_of_length_eq_zero (by omega)
      rw [hnil, getLast?_nil]
    · rfl

/-- A slice other than zero keeps the first element or the last one. -/
theorem slice_cases (hzero : slice ≠ some 0) :
    (∀ s, slice = some s → 0 < s.toInt) ∨ (∀ s, slice = some s → s.toInt < 0) := by
  cases slice with
  | none => exact Or.inl fun s hs => absurd hs.symm (Option.some_ne_none s)
  | some slice =>
    have hne : slice.toInt ≠ 0 := fun h => hzero (congrArg some (Int64.toInt_inj.1 h))
    rcases lt_or_gt_of_ne hne with hneg | hpos
    · exact Or.inr fun s hs => Option.some.inj hs ▸ hneg
    · exact Or.inl fun s hs => Option.some.inj hs ▸ hpos

theorem mem_of_mem_slicedBy {v : Value} (h : v ∈ slicedBy slice elements) : v ∈ elements := by
  cases slice with
  | none => exact h
  | some slice =>
    have hsliced : v ∈ sliced slice elements := h
    unfold sliced at hsliced
    split_ifs at hsliced
    · exact mem_of_mem_take hsliced
    · exact mem_of_mem_drop hsliced

theorem length_slicedBy_pos (h : slice ≠ some 0) (hlen : 0 < elements.length) :
    0 < (slicedBy slice elements).length := by
  cases slice with
  | none => exact hlen
  | some slice =>
    have hne : slice.toInt ≠ 0 := fun hzero => h (congrArg some (Int64.toInt_inj.1 hzero))
    show 0 < (sliced slice elements).length
    unfold sliced
    split_ifs
    · rw [length_take]
      omega
    · rw [length_drop]
      omega

end Slices

/-- What decides besides the values: the lengths of the two arrays, of which there are
some with these lengths, and the numbers. -/
structure PushShape where
  arch : Architecture
  existingLength : Nat
  eachLength : Nat
  position : Option Int64
  slice : Option Int64
  existing_fits : FitsArray (replicate existingLength .null)
  each_fits : FitsArray (replicate eachLength .null)

theorem PushShape.existingLength_lt (shape : PushShape) : shape.existingLength < 2 ^ 31 := by
  have hlt := shape.existing_fits.length_lt
  rw [length_replicate] at hlt
  omega

section Stored

variable [BidLib]

namespace PushCall

variable (call : PushCall)

theorem pushedElements_eq : pushedElements call.pushState call.existing
      = if call.pushState.slice.toInt = -2 ^ 63 then none
        else some (sliced call.pushState.slice call.elements) := by
  have hlt := call.length_elements_lt
  unfold pushedElements
  rw [call.applyDollarPushModifiers_eq]
  simp only [bind_eq_bind, bind_some]
  by_cases hmin : call.pushState.slice.toInt = -2 ^ 63
  · rw [if_pos hmin, sliceRange_min hlt hmin]
    exact if_pos (by dsimp only; omega)
  · rw [if_neg hmin, sliced]
    rcases lt_or_ge call.pushState.slice.toInt 0 with hneg | hneg
    · rw [sliceRange_of_neg hlt hneg hmin, if_neg (by dsimp only; omega), if_neg (by omega)]
      show some ((call.elements.take call.elements.length).drop _) = _
      rw [take_length]
      rfl
    · rw [sliceRange_of_nonneg _ hneg, if_neg (by dsimp only; omega), if_pos hneg]
      have htake : (min call.pushState.slice.toInt call.elements.length).toNat
          = min call.pushState.slice.toInt.toNat call.elements.length := by omega
      show some (call.elements.take (Int.toNat _)) = _
      rw [htake, ← take_eq_take_min]

/-- The slice is read inside of the array exactly if it is in range. -/
theorem pushedElements_eq_some_iff (pushed : List Value) :
    (validateModifiers call.arch call.modifiers).toOption.bind (pushedElements · call.existing)
        = some pushed
      ↔ SliceInRange call.arch call.modifiers.slice ∧ pushed = call.kept := by
  rw [call.validateModifiers_eq, ← call.slice_ne_min_iff]
  show pushedElements call.pushState call.existing = _ ↔ _
  rw [call.pushedElements_eq]
  by_cases hmin : call.pushState.slice.toInt = -2 ^ 63
  · simp [hmin]
  · rw [if_neg hmin, Option.some.injEq, and_iff_right hmin, eq_comm]
    have hkept : sliced call.pushState.slice call.elements = call.kept :=
      sliced_asInt64 (call.slice_ne_min_iff.1 hmin) call.length_elements_lt
    rw [hkept]

/-- The array that is asked for has elements if the slice is not zero. -/
theorem result_ne_nil (hslice : call.modifiers.slice ≠ some 0)
    (hpos : 0 < call.existing.length + call.modifiers.each.length) : call.result ≠ [] := by
  apply ne_nil_of_length_pos
  apply length_slicedBy_pos hslice
  rw [length_sorted, insertAt, length_append, length_append, length_take, length_drop]
  omega

/-- The elements are those that are asked for, unless the position is displaced. -/
theorem kept_eq_result (h : Displaced call.existing.length call.modifiers.position →
    call.modifiers.each = []) : call.kept = call.result := by
  unfold kept result Modifiers.result elements
  rw [← @insertAt_takenPlace call.arch _ _ _ call.length_existing_lt h]
  rfl

/-- Nothing is kept or asked for that is not in one of the arrays. -/
theorem mem_kept_or_result {v : Value} (h : v ∈ call.kept ∨ v ∈ call.result) :
    v ∈ call.existing ∨ v ∈ call.modifiers.each := by
  rcases h with h | h
  · exact mem_insertAt (mem_sorted.1 (mem_of_mem_slicedBy h))
  · exact mem_insertAt (mem_sorted.1 (mem_of_mem_slicedBy h))

end PushCall

/-- A `$push` of a field with an array. -/
structure PushUpdate extends PushCall where
  lib : UpdateLib
  state : CurrentDocumentState
  isArray : Bool
  hasArrayAncestors : Bool
  fieldPath : Bytes
  leaf : BsonUpdateLeafNode

namespace PushUpdate

variable (update : PushUpdate)

/-- The node with `HandleUpdateDollarPush`, if the modifiers leave some elements. -/
def pushLeaf (pushed : List Value) : BsonUpdateLeafNode :=
  { update.leaf with
    writeFunc := handleUpdateDollarPush
      { update.lib with applyDollarPushModifiers := fun _ _ => .ok (some pushed) } }

/-- The field is written once, with the array that is asked for. -/
def Stores : Prop :=
  ∃ pushed, (validateModifiers update.arch update.modifiers).toOption.bind
      (pushedElements · update.existing) = some pushed
    ∧ writeCurrentNode update.state update.isArray update.hasArrayAncestors
        update.fieldPath (update.pushLeaf pushed) (some (.array update.existing))
      = .ok ⟨[.array update.result], true⟩

theorem writeCurrentNode_pushLeaf (pushed : List Value) :
    writeCurrentNode update.state update.isArray update.hasArrayAncestors
        update.fieldPath (update.pushLeaf pushed) (some (.array update.existing))
      = .ok (if pushed = [] then ⟨[.array [], .array update.existing], false⟩
          else ⟨[.array (pushed.map appendValue)], true⟩) := by
  cases pushed <;> rfl

/-- What is asked for is stored exactly if it is what is kept, none of its values is cut,
and it is not empty. -/
theorem stores_iff_kept : update.Stores ↔ SliceInRange update.arch update.modifiers.slice
    ∧ update.kept.map appendValue = update.result ∧ update.kept ≠ [] := by
  unfold Stores
  constructor
  · rintro ⟨pushed, hpushed, hwritten⟩
    obtain ⟨hslice, rfl⟩ := (update.pushedElements_eq_some_iff pushed).1 hpushed
    rw [update.writeCurrentNode_pushLeaf] at hwritten
    split_ifs at hwritten with hempty
    · exact absurd (congrArg Written.modified (Except.ok.inj hwritten)) Bool.false_ne_true
    · exact ⟨hslice, Value.array.inj (List.cons.inj
        (Written.mk.inj (Except.ok.inj hwritten)).1).1, hempty⟩
  · rintro ⟨hslice, hresult, hne⟩
    refine ⟨update.kept, (update.pushedElements_eq_some_iff _).2 ⟨hslice, rfl⟩, ?_⟩
    rw [update.writeCurrentNode_pushLeaf, if_neg hne, hresult]

/-- `$push: { a: { $each: [true], $position: 0, $slice: 0 } }`. -/
def sliceZero : PushUpdate where
  arch := .x86
  modifiers := ⟨[.bool true], some 0, some 0, none⟩
  existing := [.bool false]
  existing_fits := by unfold FitsArray; decide
  each_fits := by unfold FitsArray; decide
  sortContext := none
  sort_valid := rfl
  lib := noLib
  state := ⟨none, false, [([97], .array [.bool false])]⟩
  isArray := false
  hasArrayAncestors := false
  fieldPath := [97]
  leaf := ⟨.included, [97], fun _ _ _ _ _ => .ok ⟨[], false⟩, .null, .none, .notPositional⟩

end PushUpdate

def PushUpdate.HasShape (update : PushUpdate) (shape : PushShape) : Prop :=
  update.arch = shape.arch ∧ update.existing.length = shape.existingLength
    ∧ update.modifiers.each.length = shape.eachLength
    ∧ update.modifiers.position = shape.position ∧ update.modifiers.slice = shape.slice

namespace PushShape

variable (shape : PushShape)

/-- The slice does not become the smallest `int64`, some elements are left, and the
position is not displaced unless there is nothing to insert. -/
def IsSound : Prop :=
  SliceInRange shape.arch shape.slice ∧ 0 < shape.existingLength + shape.eachLength
    ∧ shape.slice ≠ some 0 ∧ (Displaced shape.existingLength shape.position → shape.eachLength = 0)

/-- What the slice leaves of the elements in their order. -/
def left (sortContext : Option SortContext) (elements : List Value) : List Value :=
  slicedBy shape.slice (sorted sortContext elements)

/-- The elements with the values at the place that is taken. -/
def taken : List Value → List Value → List Value :=
  insertAt (takenPlace shape.existingLength (asInt64 shape.arch shape.position).toInt)

/-- The elements with the values at the place that is meant. -/
def meant : List Value → List Value → List Value :=
  insertAt (placeOf shape.existingLength shape.position)

/-- Arrays of the shape, of values without contents, and how they are sorted. -/
structure Sample where
  existing : List Value
  each : List Value
  sort : Option Value
  sortContext : Option SortContext
  valid : validateSortSpecAndSetSortContext sort = .ok sortContext
  existing_bare : ∀ v ∈ existing, Bare v
  existing_length : existing.length = shape.existingLength
  each_bare : ∀ v ∈ each, Bare v
  each_length : each.length = shape.eachLength

variable {shape}

namespace Sample

variable (sample : shape.Sample)

def update : PushUpdate where
  arch := shape.arch
  modifiers := ⟨sample.each, shape.position, shape.slice, sample.sort⟩
  existing := sample.existing
  existing_fits := .of_bare sample.existing_bare (sample.existing_length ▸ shape.existing_fits)
  each_fits := .of_bare sample.each_bare (sample.each_length ▸ shape.each_fits)
  sortContext := sample.sortContext
  sort_valid := sample.valid
  lib := noLib
  state := ⟨none, false, []⟩
  isArray := false
  hasArrayAncestors := false
  fieldPath := [97]
  leaf := ⟨.included, [97], fun _ _ _ _ _ => .ok ⟨[], false⟩, .null, .none, .notPositional⟩

theorem hasShape : sample.update.HasShape shape :=
  ⟨rfl, sample.existing_length, sample.each_length, rfl, rfl⟩

/-- The values that are kept, and those asked for, are not cut. -/
theorem isZeroFree {v : Value} (hv : v ∈ sample.update.kept ∨ v ∈ sample.update.result) :
    v.isZeroFree := by
  have hbare : Bare v := by
    rcases sample.update.mem_kept_or_result hv with hmem | hmem
    · exact sample.existing_bare v hmem
    · exact sample.each_bare v hmem
  rcases hbare with rfl | rfl | rfl <;> rfl

/-- A sample is stored exactly if the slice is in range, leaves some elements, and leaves the
same ones at the place that is taken as at the one that is meant. -/
theorem stores_iff_left : sample.update.Stores ↔ SliceInRange shape.arch shape.slice
    ∧ shape.left sample.sortContext (shape.taken sample.each sample.existing)
      = shape.left sample.sortContext (shape.meant sample.each sample.existing)
    ∧ shape.left sample.sortContext (shape.taken sample.each sample.existing) ≠ [] := by
  have hkept : sample.update.kept
      = shape.left sample.sortContext (shape.taken sample.each sample.existing) := by
    rw [taken, ← sample.existing_length]
    rfl
  have hresult : sample.update.result
      = shape.left sample.sortContext (shape.meant sample.each sample.existing) := by
    rw [meant, ← sample.existing_length]
    rfl
  rw [PushUpdate.stores_iff_kept, (map_appendValue_eq_self_iff _).2 fun v hv =>
    sample.isZeroFree (Or.inl hv), hkept, hresult]
  rfl

end Sample

/-- Both ends show whether values are inserted at the front or behind. -/
theorem left_front_ne_left_end (heach : shape.eachLength ≠ 0) (hpos : 0 < shape.existingLength)
    (hzero : shape.slice ≠ some 0) : shape.left none (replicate shape.eachLength .undefined
        ++ replicate shape.existingLength .null)
      ≠ shape.left none (replicate shape.existingLength .null
        ++ replicate shape.eachLength .undefined) := by
  intro heq
  rcases slice_cases hzero with hslice | hslice
  · have hhead := congrArg head? heq
    rw [left, left, head?_slicedBy hslice, head?_slicedBy hslice] at hhead
    simp [sorted, head?_append, head?_replicate, heach, hpos.ne'] at hhead
  · have hlast := congrArg getLast? heq
    rw [left, left, getLast?_slicedBy hslice, getLast?_slicedBy hslice] at hlast
    simp [sorted, getLast?_append, getLast?_replicate, heach, hpos.ne'] at hlast

/-- The last element shows whether values are inserted in front of it. -/
theorem left_inside_ne_left_end (hplace : place < shape.existingLength)
    (heach : shape.eachLength ≠ 0) (hslice : ∀ s, shape.slice = some s → s.toInt < 0) :
    shape.left none (insertAt place (replicate shape.eachLength .undefined)
        (replicate shape.existingLength .null))
      ≠ shape.left none (replicate shape.existingLength .null
        ++ replicate shape.eachLength .undefined) := by
  intro heq
  have hlast := congrArg getLast? heq
  rw [left, left, getLast?_slicedBy hslice, getLast?_slicedBy hslice] at hlast
  simp [sorted, insertAt, getLast?_append, getLast?_replicate, heach,
    Nat.sub_ne_zero_of_lt hplace] at hlast

/-- If the first values sort behind all others, the first element that is left shows it. -/
theorem left_sorted_ne_left_end (hplace : place < shape.existingLength)
    (heach : shape.eachLength ≠ 0) (hslice : ∀ s, shape.slice = some s → 0 < s.toInt) :
    shape.left (some (.wholeElementSort .ascending))
        (replicate place .maxKey ++ (replicate shape.eachLength .undefined
          ++ replicate (shape.existingLength - place) .null))
      ≠ shape.left (some (.wholeElementSort .ascending))
        (replicate place .maxKey ++ (replicate (shape.existingLength - place) .null
          ++ replicate shape.eachLength .undefined)) := by
  have hhead : ∀ low : List Value, low ≠ [] → (∀ v ∈ low, v = .undefined ∨ v = .null) →
      (shape.left (some (.wholeElementSort .ascending)) (replicate place .maxKey ++ low)).head?
        = low.head? := by
    intro low hne hlow
    rw [left, head?_slicedBy hslice]
    refine head?_sorted hne (fun a ha b hb => ?_) (fun a ha b hb => ?_)
    · rcases hlow a ha with rfl | rfl <;> rcases hlow b hb with rfl | rfl <;> rfl
    · rw [eq_of_mem_replicate ha]
      rcases hlow b hb with rfl | rfl <;> exact of_decide_eq_true rfl
  have hrest : shape.existingLength - place ≠ 0 := by omega
  intro heq
  have hheads := congrArg head? heq
  rw [hhead _ (by simp [heach]) (by grind),
    hhead _ (by simp [heach]) (by grind)] at hheads
  simp [head?_append, head?_replicate, heach, hrest] at hheads

/-- A sample that shows the place is an update that is not stored though none of its values
is cut. -/
theorem Sample.exists_not_stored (sample : shape.Sample)
    (hne : shape.left sample.sortContext (shape.taken sample.each sample.existing)
      ≠ shape.left sample.sortContext (shape.meant sample.each sample.existing)) :
    ∃ update : PushUpdate, update.HasShape shape ∧ (∀ v ∈ update.result, v.isZeroFree)
      ∧ ¬update.Stores := by
  refine ⟨sample.update, sample.hasShape, fun v hv => sample.isZeroFree (Or.inr hv), ?_⟩
  rw [sample.stores_iff_left]
  exact fun h => hne h.2.1

/-- A sample of nulls, with one value in `$each`. -/
def nulls (shape : PushShape) {v : Value} (hv : Bare v) : shape.Sample where
  existing := replicate shape.existingLength .null
  each := replicate shape.eachLength v
  sort := none
  sortContext := none
  valid := rfl
  existing_bare := bare_replicate (.inl rfl) _
  existing_length := length_replicate
  each_bare := bare_replicate hv _
  each_length := length_replicate

/-- Where the position is displaced, some values show it. -/
theorem exists_not_stored_of_displaced (hdisplaced : Displaced shape.existingLength shape.position)
    (hne : shape.eachLength ≠ 0) (hzero : shape.slice ≠ some 0) :
    ∃ update : PushUpdate, update.HasShape shape ∧ (∀ v ∈ update.result, v.isZeroFree)
      ∧ ¬update.Stores := by
  have hundefined : Bare .undefined := .inr (.inl rfl)
  rcases @takenPlace_of_displaced _ shape.arch _ shape.existingLength_lt hdisplaced with
    ⟨htaken, hmeant⟩ | ⟨htaken, hmeant, hpos⟩
  · rcases slice_cases hzero with hslice | hslice
    · -- the values at the place and behind are the first ones once they are sorted
      generalize hplace : takenPlace shape.existingLength
        (asInt64 shape.arch shape.position).toInt = place at htaken
      have hlength : (replicate place Value.maxKey
          ++ replicate (shape.existingLength - place) Value.null).length
          = shape.existingLength := by
        rw [length_append, length_replicate, length_replicate]
        omega
      refine Sample.exists_not_stored ⟨_, _, some (.int32 1), _, rfl, forall_mem_append.2
        ⟨bare_replicate (.inr (.inr rfl)) _, bare_replicate (.inl rfl) _⟩, hlength,
        bare_replicate hundefined _, length_replicate⟩ ?_
      rw [taken, meant, hplace, hmeant, insertAt_append length_replicate,
        insertAt_of_length_le hlength.le, append_assoc]
      exact left_sorted_ne_left_end htaken hne hslice
    · refine (shape.nulls hundefined).exists_not_stored ?_
      rw [taken, meant, hmeant, nulls, insertAt_of_length_le length_replicate.le]
      exact left_inside_ne_left_end htaken hne hslice
  · refine (shape.nulls hundefined).exists_not_stored ?_
    rw [taken, meant, htaken, hmeant, nulls, insertAt_of_length_le length_replicate.le, insertAt_zero]
    exact (left_front_ne_left_end hne hpos hzero).symm

end PushShape

end Stored

end DocumentDb.Push
