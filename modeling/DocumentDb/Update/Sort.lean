/-
`$sort` of `$push`.

The value of the modifier is a direction, for the elements as a whole, or a document of
paths with a direction for each (`validateSortSpecAndSetSortContext`). The elements are
sorted with their positions, which decide between elements that compare equal: what the
sort gives is the stable sort by an order on the elements alone (`qsortArg_eq`).
-/
import DocumentDb.Update.Workflow

namespace DocumentDb.Push

open ThreeWay List

-- ==== the source

inductive SortDirection where
  | ascending | descending
  deriving DecidableEq, Repr

structure SortSpecData where
  key : Bytes
  direction : SortDirection

/-- Without `SortType_No_Sort`. -/
inductive SortContext where
  | wholeElementSort (direction : SortDirection)
  | objectFieldSort (sortSpecList : List SortSpecData)

/-- The errors of a `$sort`, with what their messages name. -/
inductive SortError where
  | emptyField
  | emptyPart (key : Bytes)
  | notOneOrMinusOne
  | emptyPattern
  | invalid
  deriving DecidableEq, Repr

def SortDirection.apply : SortDirection → Int → Int
  | .ascending, result => result
  | .descending, result => -result

theorem SortDirection.apply_eq_zero {direction : SortDirection} {result : Int} :
    direction.apply result = 0 ↔ result = 0 := by
  cases direction <;> simp [SortDirection.apply]

theorem totalPreorder_direction {α : Type} {cmp : α → α → Int} (h : TotalPreorder cmp)
    (direction : SortDirection) : TotalPreorder fun a b => direction.apply (cmp a b) := by
  cases direction with
  | ascending => exact h
  | descending => exact h.neg

section Source

variable [BidLib]

/-- The loop of `ValidateSortSpecAndSetSortContext` over the fields of a document. -/
def sortSpecs : Fields → Except SortError (List SortSpecData)
  | [] => .ok []
  | (key, sortVal) :: fields => do
    if key = [] then throw .emptyField
    if key.head? = some dot ∨ key.getLast? = some dot then throw (.emptyPart key)
    if numberAsDouble sortVal ≠ some (.fin 1) ∧ numberAsDouble sortVal ≠ some (.fin (-1)) then
      throw .notOneOrMinusOne
    let direction := if bsonValueAsInt64 sortVal = 1 then .ascending else .descending
    let sortSpecList ← sortSpecs fields
    return ⟨key, direction⟩ :: sortSpecList

/-- `ValidateSortSpecAndSetSortContext`; there is nothing to sort by without a value. -/
def validateSortSpecAndSetSortContext : Option Value → Except SortError (Option SortContext)
  | none => .ok none
  | some sortBsonValue =>
    if sortBsonValue.isNumber then
      if numberAsDouble sortBsonValue = some (.fin 1) then
        .ok (some (.wholeElementSort .ascending))
      else if numberAsDouble sortBsonValue = some (.fin (-1)) then
        .ok (some (.wholeElementSort .descending))
      else .error .notOneOrMinusOne
    else
      match sortBsonValue with
      | .document [] => .error .emptyPattern
      | .document fields => do
        let sortSpecList ← sortSpecs fields
        return some (.objectFieldSort sortSpecList)
      | _ => .error .invalid

/-- The value of an element that is compared: null if the path leads nowhere. -/
def sortValue (key : Bytes) (element : Value) : Value :=
  match element with
  | .document fields =>
    (iterFindDescendant (Dotted.segments dot key) (.document fields)).getD .null
  | _ => .null

/-- The loop of `CompareBsonValuesForSort` over the paths: the verdict and the direction
it is read in. -/
def compareSortValues (left right : Value) : List SortSpecData → Int × SortDirection
  | [] => (0, .ascending)
  | sortSpec :: sortSpecList =>
    let result := (compareBsonValueAndType (sortValue sortSpec.key left)
      (sortValue sortSpec.key right)).1
    if result ≠ 0 then (result, sortSpec.direction) else compareSortValues left right sortSpecList

/-- Of elements with their positions. -/
def compareBsonValuesForSort (sortContext : SortContext) (left right : Value × Nat) : Int :=
  let (result, direction) :=
    match sortContext with
    | .wholeElementSort direction => ((compareBsonValueAndType left.1 right.1).1, direction)
    | .objectFieldSort sortSpecList => compareSortValues left.1 right.1 sortSpecList
  if result = 0 then (left.2 : Int) - right.2
  else direction.apply result

/-- No two elements compare equal, so it does not matter how they are sorted. -/
def qsortArg (sortContext : Option SortContext) (elementsArr : List Value) : List Value :=
  match sortContext with
  | none => elementsArr
  | some sortContext =>
    (elementsArr.zipIdx.mergeSort fun left right =>
      compareBsonValuesForSort sortContext left right ≤ 0).map Prod.fst

-- ==== the order

/-- The order of the elements: as a whole, or by the paths one after the other. -/
def sortOrder : SortContext → Value → Value → Int
  | .wholeElementSort direction, a, b => direction.apply (compareBsonValueAndType a b).1
  | .objectFieldSort sortSpecList, a, b => sortSpecList.foldr (fun sortSpec rest =>
      andThen (sortSpec.direction.apply
        (compareBsonValueAndType (sortValue sortSpec.key a) (sortValue sortSpec.key b)).1) rest) 0

/-- The elements in the order of a `$sort`, equal ones as they stood. -/
def sorted (sortContext : Option SortContext) (elements : List Value) : List Value :=
  match sortContext with
  | none => elements
  | some sortContext => elements.mergeSort fun a b => sortOrder sortContext a b ≤ 0

variable {sortContext : SortContext}

theorem totalPreorder_compareBsonValueAndType :
    TotalPreorder fun a b : Value => (compareBsonValueAndType a b).1 :=
  ⟨flip_compareBsonValueAndType, trans_compareBsonValueAndType⟩

/-- What a `$sort` sorts by is an order. -/
theorem totalPreorder_sortOrder (sortContext : SortContext) :
    TotalPreorder (sortOrder sortContext) := by
  cases sortContext with
  | wholeElementSort direction =>
    exact totalPreorder_direction totalPreorder_compareBsonValueAndType direction
  | objectFieldSort sortSpecList =>
    induction sortSpecList with
    | nil => exact TotalPreorder.zero
    | cons sortSpec sortSpecList ih =>
      have hfirst := totalPreorder_compareBsonValueAndType.comap (sortValue sortSpec.key)
      exact (totalPreorder_direction hfirst sortSpec.direction).andThen ih

/-- The loop over the paths reads the first verdict that is not zero. -/
theorem compareSortValues_eq (left right : Value) (sortSpecList : List SortSpecData) :
    (compareSortValues left right sortSpecList).2.apply
        (compareSortValues left right sortSpecList).1
      = sortOrder (.objectFieldSort sortSpecList) left right := by
  induction sortSpecList with
  | nil => rfl
  | cons sortSpec sortSpecList ih =>
    unfold compareSortValues
    show _ = andThen _ (sortOrder (.objectFieldSort sortSpecList) left right)
    by_cases hzero : (compareBsonValueAndType (sortValue sortSpec.key left)
        (sortValue sortSpec.key right)).1 = 0
    · rw [if_neg (not_not.2 hzero), ih, andThen,
        if_neg (not_not.2 (SortDirection.apply_eq_zero.2 hzero))]
    · rw [if_pos hzero, andThen, if_pos (SortDirection.apply_eq_zero.not.2 hzero)]

/-- Elements are compared by the order, and then by their positions. -/
theorem compareBsonValuesForSort_eq (left right : Value × Nat) :
    compareBsonValuesForSort sortContext left right
      = if sortOrder sortContext left.1 right.1 = 0 then (left.2 : Int) - right.2
        else sortOrder sortContext left.1 right.1 := by
  have hread : ∀ (result : Int) (direction : SortDirection), (if result = 0 then
      (left.2 : Int) - right.2 else direction.apply result)
      = if direction.apply result = 0 then (left.2 : Int) - right.2
        else direction.apply result := by
    intro result direction
    simp only [SortDirection.apply_eq_zero]
  cases sortContext with
  | wholeElementSort direction => exact hread _ direction
  | objectFieldSort sortSpecList =>
    rw [← compareSortValues_eq]
    exact hread _ _

theorem length_sorted (sortContext : Option SortContext) (elements : List Value) :
    (sorted sortContext elements).length = elements.length := by
  cases sortContext with
  | none => rfl
  | some sortContext => exact length_mergeSort _

theorem mem_sorted {sortContext : Option SortContext} {elements : List Value} {v : Value} :
    v ∈ sorted sortContext elements ↔ v ∈ elements := by
  cases sortContext with
  | none => rfl
  | some sortContext => exact mem_mergeSort

/-- The sort with positions is the stable sort by the order. -/
theorem qsortArg_eq (sortContext : Option SortContext) (elementsArr : List Value) :
    qsortArg sortContext elementsArr = sorted sortContext elementsArr := by
  cases sortContext with
  | none => rfl
  | some sortContext =>
    have hle : (fun left right : Value × Nat =>
        decide (compareBsonValuesForSort sortContext left right ≤ 0))
        = zipIdxLE fun a b => decide (sortOrder sortContext a b ≤ 0) := by
      funext left right
      have hflip := (totalPreorder_sortOrder sortContext).flip left.1 right.1
      have hneg := hflip.neg_iff
      rw [compareBsonValuesForSort_eq]
      unfold zipIdxLE
      by_cases hzero : sortOrder sortContext left.1 right.1 = 0
      · have hback : sortOrder sortContext right.1 left.1 = 0 := hflip.eq_zero.1 hzero
        simp [hzero, hback]
      · by_cases hlt : sortOrder sortContext left.1 right.1 ≤ 0
        · have hback : ¬ sortOrder sortContext right.1 left.1 ≤ 0 := by omega
          simp [hzero, hlt, hback]
        · simp [hzero, hlt]
    rw [qsortArg, hle, sorted]
    exact mergeSort_zipIdx

/-- Elements that are all equal, and below others in front of them, come first and in
their order. -/
theorem head?_sorted {above low : List Value} (hne : low ≠ [])
    (hlow : ∀ a ∈ low, ∀ b ∈ low, sortOrder sortContext a b = 0)
    (habove : ∀ a ∈ above, ∀ b ∈ low, 0 < sortOrder sortContext a b) :
    (sorted (some sortContext) (above ++ low)).head? = low.head? := by
  have order := totalPreorder_sortOrder sortContext
  have htrans : ∀ a b c : Value, decide (sortOrder sortContext a b ≤ 0) = true →
      decide (sortOrder sortContext b c ≤ 0) = true →
      decide (sortOrder sortContext a c ≤ 0) = true := by
    intro a b c hab hbc
    simp only [decide_eq_true_eq] at *
    exact (order.trans a b c).le hab hbc
  have htotal : ∀ a b : Value, (decide (sortOrder sortContext a b ≤ 0)
      || decide (sortOrder sortContext b a ≤ 0)) = true := by
    intro a b
    have hneg := (order.flip a b).neg_iff
    simp only [Bool.or_eq_true, decide_eq_true_eq]
    omega
  obtain ⟨y, low', rfl⟩ := exists_cons_of_ne_nil hne
  have hpair : (y :: low').Pairwise fun a b => decide (sortOrder sortContext a b ≤ 0) = true :=
    pairwise_of_forall_mem_list fun a ha b hb => by simp [hlow a ha b hb]
  have hsub := sublist_mergeSort htrans htotal hpair (sublist_append_right above (y :: low'))
  have hperm := mergeSort_perm (above ++ y :: low') fun a b => sortOrder sortContext a b ≤ 0
  have hsorted := pairwise_mergeSort htrans htotal (above ++ y :: low')
  rw [sorted]
  generalize mergeSort (above ++ y :: low') (fun a b => sortOrder sortContext a b ≤ 0) = result
    at hsub hperm hsorted ⊢
  cases result with
  | nil => simp at hsub
  | cons x rest =>
    -- an element from above is not first, and a low one is not left out
    cases hsub with
    | cons_cons _ _ => rfl
    | cons _ hrest =>
      have hcount := hperm.countP_eq fun v => decide (sortOrder sortContext v y ≤ 0)
      have hx : sortOrder sortContext x y ≤ 0 := by
        have := rel_of_pairwise_cons hsorted (hrest.subset mem_cons_self)
        simpa using this
      have habove' : countP (fun v => decide (sortOrder sortContext v y ≤ 0)) above = 0 := by
        rw [countP_eq_zero]
        intro a ha
        have := habove a ha y mem_cons_self
        simp only [decide_eq_true_eq]
        omega
      have hlow' : countP (fun v => decide (sortOrder sortContext v y ≤ 0)) (y :: low')
          = (y :: low').length := by
        rw [countP_eq_length]
        intro a ha
        simp [hlow a ha y mem_cons_self]
      have hle := hrest.countP_le (p := fun v => decide (sortOrder sortContext v y ≤ 0))
      rw [countP_append, habove', hlow', countP_cons_of_pos (by simpa using hx)] at hcount
      omega

end Source

end DocumentDb.Push
