/-
The state of a sorted accumulator as bytes.

A call deserializes the byte array, so that values, sort keys and input expression are
pointers into it, replaces some results and serializes the state. With one result the old
array is used again if it is large enough; its length is that of the largest state so far.

The new result is written before the input expression is copied: after a large and a small
result one of medium size overwrites it (`expression_overwritten`). Everything else is new
then (`fresh`), so in all other cases the state is read back as it was (`survives_iff`).
-/
import DocumentDb.Aggregation.SortedAccumulator
import DocumentDb.Lib.Memory

namespace DocumentDb.OrderState

open Wire List Option

-- ==== states

/-- `BsonOrderAggValue`, with pointers `P` to the data and one sort key for each
direction. -/
structure AggValue (P : Type) where
  value : Option P
  sortKeyValues : List (Option P)
  deriving DecidableEq

/-- `BsonOrderAggState`. -/
structure AggState (P : Type) where
  numAggValues : Nat
  currentResult : List (Option (AggValue P))
  sortDirections : List Bool
  inputExpression : Option P
  deriving DecidableEq

/-- A pointer: into the byte array of the call, or to a datum elsewhere. -/
inductive Pointer where
  | inside (offset : Nat)
  | outside (datum : Bytes)
  deriving DecidableEq

def Pointer.datum (byteArray : Bytes) : Pointer → Bytes
  | .inside offset => (byteArray.drop offset).take (varsize (byteArray.drop offset))
  | .outside datum => datum

/-- What is written: some bytes, or the datum behind a pointer. -/
abbrev Piece (P : Type) := Bytes ⊕ P

section Pieces

variable {P Q : Type}

/-- A pointer with the flag that says whether it is null. -/
def pointerPieces : Option P → List (Piece P)
  | none => [.inl [0]]
  | some p => [.inl [1], .inr p]

def resultPieces : Option (AggValue P) → List (Piece P)
  | none => [.inl [0]]
  | some result => .inl [1]
    :: (pointerPieces result.value ++ result.sortKeyValues.flatMap pointerPieces)

def fieldPieces (state : AggState P) : List (Piece P) :=
  [.inl (leBytes 8 state.numAggValues), .inl (leBytes 8 state.currentResult.length),
    .inl (leBytes 4 state.sortDirections.length)]
  ++ state.currentResult.flatMap resultPieces
  ++ state.sortDirections.map fun ascOrder => .inl [if ascOrder then 1 else 0]

def pieces (state : AggState P) : List (Piece P) :=
  fieldPieces state ++ pointerPieces state.inputExpression

def AggValue.map (f : P → Q) (result : AggValue P) : AggValue Q :=
  ⟨result.value.map f, result.sortKeyValues.map (Option.map f)⟩

def AggState.map (f : P → Q) (state : AggState P) : AggState Q :=
  { state with
    currentResult := state.currentResult.map (Option.map (AggValue.map f))
    inputExpression := state.inputExpression.map f }

end Pieces

-- ==== serializing

variable (byteArray : Bytes)

def pieceBytes : Piece Pointer → Bytes
  | .inl bytes => bytes
  | .inr pointer => pointer.datum byteArray

/-- The pieces are the same bytes whatever is written over the array. -/
def Constant (reuse : Bool) (ps : List (Piece Pointer)) : Prop :=
  ∀ piece ∈ ps, ∀ bytes,
    pieceBytes (if reuse then bytes else byteArray) piece = pieceBytes byteArray piece

/-- The pieces are written one after the other, from a position on. If the destination
is the old array, the pointers into it see what was written before. An overlap of the
source and the destination of one copy is not an error here. -/
def writePieces (reuse : Bool) (byteArray : Bytes) :
    List (Piece Pointer) → Nat → Bytes → Option Bytes
  | [], _, bytes => some bytes
  | piece :: rest, pos, bytes => do
    let data := pieceBytes (if reuse then bytes else byteArray) piece
    let bytes ← Memory.store bytes pos data
    writePieces reuse byteArray rest (pos + data.length) bytes

def requiredByteSize (state : AggState Pointer) (byteArray : Bytes) : Nat :=
  4 + ((pieces state).flatMap (pieceBytes byteArray)).length

inductive Serialized where
  /-- An `int` overflows, or a byte outside of the array is written. -/
  | undefined
  | outOfMemory
  | stored (bytes : Bytes)
  deriving DecidableEq

def maxAllocSize : Nat := 2 ^ 30 - 1

/-- `SerializeOrderState`; a null array is an empty one. -/
def serializeOrderState (state : AggState Pointer) (byteArray : Bytes) : Serialized :=
  let required := requiredByteSize state byteArray
  if 2 ^ 31 ≤ required then .undefined
  else if state.numAggValues = 1 ∧ required ≤ varsize byteArray then
    ((writePieces true byteArray (pieces state) 4 byteArray).map .stored).getD .undefined
  else if maxAllocSize < required then .outOfMemory
  else
    ((writePieces false byteArray (pieces state) 4
      (leBytes 4 (4 * required) ++ List.replicate (required - 4) 0)).map .stored).getD
      .undefined

-- ==== deserializing

/-- A pointer that may be null, given by the datum it points to. -/
def readPointer : Bytes → Option (Option Bytes × Bytes)
  | [] => none
  | flag :: bytes =>
    if flag = 0 then some (none, bytes)
    else if 4 ≤ varsize bytes ∧ varsize bytes ≤ bytes.length then
      some (some (bytes.take (varsize bytes)), bytes.drop (varsize bytes))
    else none

def readMany {α : Type} (read : Bytes → Option (α × Bytes)) : Nat → Bytes → Option (List α × Bytes)
  | 0, bytes => some ([], bytes)
  | n + 1, bytes => do
    let (x, bytes) ← read bytes
    let (xs, bytes) ← readMany read n bytes
    some (x :: xs, bytes)

def readResult (numSortKeys : Nat) : Bytes → Option (Option (AggValue Bytes) × Bytes)
  | [] => none
  | flag :: bytes =>
    if flag = 0 then some (none, bytes)
    else do
      let (value, bytes) ← readPointer bytes
      let (sortKeyValues, bytes) ← readMany readPointer numSortKeys bytes
      some (some ⟨value, sortKeyValues⟩, bytes)

def readDirection : Bytes → Option (Bool × Bytes)
  | [] => none
  | ascOrder :: bytes => some (ascOrder != 0, bytes)

def deserializeOrderState : Option (AggState Bytes) := do
  let (numAggValues, bytes) ← readWord 8 (byteArray.drop 4)
  let (currentCount, bytes) ← readWord 8 bytes
  let (numSortKeys, bytes) ← readWord 4 bytes
  let (currentResult, bytes) ← readMany (readResult numSortKeys) currentCount bytes
  let (sortDirections, bytes) ← readMany readDirection numSortKeys bytes
  let (inputExpression, _) ← readPointer bytes
  some ⟨numAggValues, currentResult, sortDirections, inputExpression⟩

-- ==== reading back

def bytesOf (ps : List (Piece Bytes)) : Bytes := ps.flatMap (Sum.elim id id)

structure IsDatum (datum : Bytes) : Prop where
  four_le : 4 ≤ datum.length
  varsize_eq : varsize datum = datum.length

def AllData (ps : List (Piece Bytes)) : Prop := ∀ datum, .inr datum ∈ ps → IsDatum datum

variable {datum bytes data : Bytes} {P Q : Type}

theorem IsDatum.varsize_append (h : IsDatum datum) (rest : Bytes) :
    varsize (datum ++ rest) = datum.length := by
  rw [← h.varsize_eq, varsize, varsize, take_append_of_le_length h.four_le]

theorem varsize_take (h : 4 ≤ (bytes.take (varsize bytes)).length) :
    varsize (bytes.take (varsize bytes)) = varsize bytes := by
  rw [length_take] at h
  rw [varsize, varsize, take_take, Nat.min_eq_left (by unfold varsize at h; omega)]

theorem readPointer_cons (h : IsDatum datum) (rest : Bytes) :
    readPointer (1 :: (datum ++ rest)) = some (some datum, rest) := by
  rw [readPointer, if_neg (by decide), h.varsize_append, if_pos ⟨h.four_le, by simp⟩,
    take_left, drop_left]

/-- Whatever the reader gives is a datum. -/
theorem isDatum_of_readPointer {pointer : Option Bytes} {rest : Bytes}
    (hread : readPointer bytes = some (pointer, rest)) : AllData (pointerPieces pointer) := by
  intro datum hmem
  cases bytes with
  | nil => cases hread
  | cons flag bytes =>
    rw [readPointer] at hread
    split_ifs at hread with hnull hsize
    · cases hread
      cases List.mem_singleton.1 hmem
    · cases hread
      have hdatum : datum = bytes.take (varsize bytes) := by simpa [pointerPieces] using hmem
      have hlength : (bytes.take (varsize bytes)).length = varsize bytes := by
        rw [length_take, Nat.min_eq_left hsize.2]
      rw [hdatum]
      exact ⟨by omega, by rw [varsize_take (by omega), hlength]⟩

theorem readPointer_append {pointer : Option Bytes} (h : AllData (pointerPieces pointer))
    (rest : Bytes) :
    readPointer (bytesOf (pointerPieces pointer) ++ rest) = some (pointer, rest) := by
  cases pointer with
  | none => rfl
  | some datum =>
    have hdatum : IsDatum datum := h datum (mem_cons_of_mem _ (mem_singleton_self _))
    show readPointer (1 :: (datum ++ [] ++ rest)) = _
    rw [append_nil, readPointer_cons hdatum]

theorem readPointer_iff (h : IsDatum datum) :
    (∃ rest, readPointer (1 :: bytes) = some (some datum, rest)) ↔ datum <+: bytes := by
  constructor
  · rintro ⟨rest, hread⟩
    rw [readPointer, if_neg (by decide)] at hread
    split at hread
    · cases hread
      exact take_prefix _ _
    · cases hread
  · rintro ⟨rest, rfl⟩
    exact ⟨rest, readPointer_cons h rest⟩

theorem readMany_append {α : Type} {read : Bytes → Option (α × Bytes)}
    {write : α → List (Piece Bytes)} {xs : List α}
    (h : ∀ x ∈ xs, ∀ rest, read (bytesOf (write x) ++ rest) = some (x, rest)) (rest : Bytes) :
    readMany read xs.length (bytesOf (xs.flatMap write) ++ rest) = some (xs, rest) := by
  induction xs with
  | nil => rfl
  | cons x xs ih =>
    have hsplit : bytesOf ((x :: xs).flatMap write) ++ rest
        = bytesOf (write x) ++ (bytesOf (xs.flatMap write) ++ rest) := by
      simp only [bytesOf, flatMap_cons, flatMap_append, append_assoc]
    rw [hsplit, length_cons, readMany, h x (mem_cons_self ..)]
    show (readMany read xs.length _ >>= _) = _
    rw [ih fun y hy => h y (mem_cons_of_mem _ hy)]
    rfl

theorem readResult_append {numSortKeys : Nat} {result : Option (AggValue Bytes)}
    (hkeys : ∀ r ∈ result, r.sortKeyValues.length = numSortKeys)
    (h : AllData (resultPieces result)) (rest : Bytes) :
    readResult numSortKeys (bytesOf (resultPieces result) ++ rest) = some (result, rest) := by
  cases result with
  | none => rfl
  | some r =>
    have hsplit : bytesOf (resultPieces (some r)) ++ rest = 1 :: (bytesOf (pointerPieces r.value)
          ++ (bytesOf (r.sortKeyValues.flatMap pointerPieces) ++ rest)) := by
      simp only [bytesOf, resultPieces, flatMap_cons, flatMap_append, append_assoc]
      rfl
    have hvalue : AllData (pointerPieces r.value) :=
      fun datum hd => h datum (mem_cons_of_mem _ (mem_append_left _ hd))
    have hsort : ∀ key ∈ r.sortKeyValues, ∀ rest,
        readPointer (bytesOf (pointerPieces key) ++ rest) = some (key, rest) :=
      fun key hkey => readPointer_append fun datum hd => h datum
        (mem_cons_of_mem _ (mem_append_right _ (mem_flatMap.2 ⟨key, hkey, hd⟩)))
    rw [hsplit, readResult, if_neg (by decide), readPointer_append hvalue]
    show (readMany readPointer numSortKeys _ >>= _) = _
    rw [← hkeys r rfl, readMany_append hsort]
    rfl

theorem readDirection_append (ascOrder : Bool) (rest : Bytes) :
    readDirection (bytesOf [.inl [if ascOrder then 1 else 0]] ++ rest) = some (ascOrder, rest) := by
  cases ascOrder with
  | false | true => rfl

/-- The numbers fit their words, and each result has its sort keys. -/
structure AggState.Fits {P : Type} (state : AggState P) : Prop where
  numAggValues : state.numAggValues < 2 ^ 63
  currentCount : state.currentResult.length < 2 ^ 63
  numSortKeys : state.sortDirections.length ≤ 32
  sortKeys : ∀ result, some result ∈ state.currentResult →
    result.sortKeyValues.length = state.sortDirections.length

theorem deserializeOrderState_append {state : AggState Bytes} (hfits : state.Fits)
    (hdata : AllData (fieldPieces state)) {header : Bytes} (hheader : header.length = 4) (rest : Bytes) :
    deserializeOrderState (header ++ (bytesOf (fieldPieces state) ++ rest))
      = (readPointer rest).map fun r => { state with inputExpression := r.1 } := by
  have hsplit : bytesOf (fieldPieces state) ++ rest
      = leBytes 8 state.numAggValues ++ (leBytes 8 state.currentResult.length
        ++ (leBytes 4 state.sortDirections.length
        ++ (bytesOf (state.currentResult.flatMap resultPieces)
        ++ (bytesOf (state.sortDirections.flatMap fun ascOrder =>
            [.inl [if ascOrder then 1 else 0]]) ++ rest)))) := by
    simp only [bytesOf, fieldPieces, flatMap_append, append_assoc, flatMap_cons,
      flatMap_nil, Sum.elim_inl, id, flatMap_assoc, flatMap_map, append_nil]
  have hnum := @readWord_append 8 state.numAggValues (Nat.lt_trans hfits.numAggValues (by norm_num))
  have hcount := @readWord_append 8 state.currentResult.length
    (Nat.lt_trans hfits.currentCount (by norm_num))
  have hkeys := @readWord_append 4 state.sortDirections.length
    (Nat.lt_of_le_of_lt hfits.numSortKeys (by norm_num))
  have hresults : ∀ result ∈ state.currentResult, ∀ rest,
      readResult state.sortDirections.length (bytesOf (resultPieces result) ++ rest)
        = some (result, rest) := by
    intro result hresult
    apply readResult_append
    · rintro r rfl
      exact hfits.sortKeys r hresult
    · intro datum hd
      apply hdata
      exact mem_append_left _ (mem_append_right _ (mem_flatMap.2 ⟨result, hresult, hd⟩))
  have hdirections := @readMany_append _ readDirection _ state.sortDirections
    fun ascOrder _ => readDirection_append ascOrder
  unfold deserializeOrderState
  simp only [drop_left' hheader, hsplit, hnum, hcount, hkeys,
    readMany_append hresults, hdirections, bind_eq_bind, bind_some]
  cases readPointer rest with
  | none | some r => rfl

theorem forall_mem_of_readMany {α : Type} {read : Bytes → Option (α × Bytes)} {good : α → Prop}
    (hgood : ∀ bytes x rest, read bytes = some (x, rest) → good x) {n : Nat} {xs : List α}
    {rest : Bytes} (hread : readMany read n bytes = some (xs, rest)) :
    xs.length = n ∧ ∀ x ∈ xs, good x := by
  induction n generalizing bytes xs with
  | zero =>
    cases hread
    exact ⟨rfl, fun x hx => absurd hx not_mem_nil⟩
  | succ n ih =>
    obtain ⟨⟨x, bytes'⟩, hx, hread⟩ := bind_eq_some_iff.1 hread
    obtain ⟨⟨xs', rest'⟩, hxs, heq⟩ := bind_eq_some_iff.1 hread
    cases heq
    obtain ⟨hlength, hall⟩ := ih hxs
    exact ⟨congrArg (· + 1) hlength, forall_mem_cons.2 ⟨hgood _ _ _ hx, hall⟩⟩

/-- A result has its sort keys, and all of it are data. -/
theorem isDatum_of_readResult {numSortKeys : Nat} {result : Option (AggValue Bytes)}
    {rest : Bytes} (hread : readResult numSortKeys bytes = some (result, rest)) :
    (∀ r, result = some r → r.sortKeyValues.length = numSortKeys)
      ∧ AllData (resultPieces result) := by
  cases bytes with
  | nil => cases hread
  | cons flag bytes =>
    rw [readResult] at hread
    split_ifs at hread
    · cases hread
      refine ⟨fun r hr => absurd hr.symm (some_ne_none r), fun datum hmem => ?_⟩
      cases List.mem_singleton.1 hmem
    · obtain ⟨⟨value, bytes'⟩, hvalue, hread⟩ := bind_eq_some_iff.1 hread
      obtain ⟨⟨sortKeyValues, rest'⟩, hkeys, heq⟩ := bind_eq_some_iff.1 hread
      cases heq
      obtain ⟨hlength, hkeys⟩ := forall_mem_of_readMany
        (fun _ _ _ hkey => isDatum_of_readPointer hkey) hkeys
      refine ⟨fun r hr => by cases hr; exact hlength, fun datum hmem => ?_⟩
      rcases mem_cons.1 hmem with hmem | hmem
      · cases hmem
      · rcases mem_append.1 hmem with hmem | hmem
        · exact isDatum_of_readPointer hvalue datum hmem
        · obtain ⟨key, hkey, hmem⟩ := mem_flatMap.1 hmem
          exact hkeys key hkey datum hmem

/-- The pointers of the fields are those of the results. -/
theorem mem_fieldPieces {state : AggState P} {p : P} : .inr p ∈ fieldPieces state
    ↔ ∃ result, some result ∈ state.currentResult ∧ .inr p ∈ resultPieces (some result) := by
  unfold fieldPieces
  constructor
  · intro hmem
    have hresult : ∃ result ∈ state.currentResult, .inr p ∈ resultPieces result := by
      simpa using hmem
    obtain ⟨result, hresult, hp⟩ := hresult
    cases result with
    | none => cases List.mem_singleton.1 hp
    | some result => exact ⟨result, hresult, hp⟩
  · rintro ⟨result, hresult, hp⟩
    exact mem_append_left _ (mem_append_right _ (mem_flatMap.2 ⟨_, hresult, hp⟩))

/-- So it is for a state that is read. -/
theorem isDatum_of_deserializeOrderState {contents : AggState Bytes}
    (hread : deserializeOrderState bytes = some contents) :
    (∀ result, some result ∈ contents.currentResult →
      result.sortKeyValues.length = contents.sortDirections.length)
      ∧ AllData (pieces contents) := by
  obtain ⟨⟨numAggValues, bytes₁⟩, -, hread⟩ := bind_eq_some_iff.1 hread
  obtain ⟨⟨currentCount, bytes₂⟩, -, hread⟩ := bind_eq_some_iff.1 hread
  obtain ⟨⟨numSortKeys, bytes₃⟩, -, hread⟩ := bind_eq_some_iff.1 hread
  obtain ⟨⟨currentResult, bytes₄⟩, hresults, hread⟩ := bind_eq_some_iff.1 hread
  obtain ⟨⟨sortDirections, bytes₅⟩, hdirections, hread⟩ := bind_eq_some_iff.1 hread
  obtain ⟨⟨inputExpression, bytes₆⟩, hexpression, heq⟩ := bind_eq_some_iff.1 hread
  cases heq
  obtain ⟨-, hresults⟩ := forall_mem_of_readMany
    (fun _ _ _ hresult => isDatum_of_readResult hresult) hresults
  obtain ⟨hlength, -⟩ := forall_mem_of_readMany (fun _ _ _ _ => trivial) hdirections
  refine ⟨fun result hresult => ?_, fun datum hmem => ?_⟩
  · exact ((hresults _ hresult).1 result rfl).trans hlength.symm
  · rcases mem_append.1 hmem with hmem | hmem
    · obtain ⟨result, hresult, hmem⟩ := mem_fieldPieces.1 hmem
      exact (hresults _ hresult).2 datum hmem
    · exact isDatum_of_readPointer hexpression datum hmem

-- ==== writing

def overlay (bytes data : Bytes) : Bytes := bytes.take 4 ++ data ++ bytes.drop (4 + data.length)

theorem overlay_nil (bytes : Bytes) : overlay bytes [] = bytes := by
  rw [overlay, append_nil]
  exact take_append_drop 4 bytes

theorem length_overlay (h : 4 + data.length ≤ bytes.length) :
    (overlay bytes data).length = bytes.length := by
  rw [overlay, length_append, length_append, length_take, length_drop]
  omega

theorem drop_overlay_of_le {offset : Nat} (hlength : 4 + data.length ≤ bytes.length)
    (h : 4 + data.length ≤ offset) : (overlay bytes data).drop offset = bytes.drop offset := by
  have hfront : (bytes.take 4 ++ data).length = 4 + data.length := by
    rw [length_append, length_take]
    omega
  rw [overlay, drop_append, hfront, drop_of_length_le (by omega), nil_append, drop_drop]
  congr 1
  omega

/-- What stands at a place that the data reach: their end, and the old bytes behind. -/
theorem drop_overlay {offset : Nat} (hlength : 4 + data.length ≤ bytes.length)
    (hfour : 4 ≤ offset) (h : offset ≤ 4 + data.length) : (overlay bytes data).drop offset
      = data.drop (offset - 4) ++ bytes.drop (4 + data.length) := by
  have hfront : (bytes.take 4).length = 4 := by
    rw [length_take]
    omega
  rw [overlay, append_assoc, drop_append, hfront, drop_of_length_le (by omega), nil_append,
    drop_append_of_le_length (by omega)]

theorem varsize_of_take_eq {n : Nat} (hfour : 4 ≤ datum.length) (h : bytes.take n = datum) :
    varsize bytes = varsize datum := by
  have hn : 4 ≤ n := by
    rw [← h, length_take] at hfour
    omega
  rw [varsize, varsize, ← h, take_take, Nat.min_eq_left hn]

/-- Old bytes of which a front part was overwritten are what they were exactly if they were
overwritten with themselves. -/
theorem take_append_drop_eq_iff {covering : Bytes} {n : Nat} :
    (covering ++ bytes.drop covering.length).take n = bytes.take n
      ↔ covering.take n <+: bytes.take n := by
  rw [take_append]
  constructor
  · intro heq
    rw [← heq]
    exact prefix_append _ _
  · intro hprefix
    have hcovering : covering.take n = (bytes.take n).take (covering.take n).length :=
      prefix_iff_eq_take.1 hprefix
    rw [length_take, take_take, Nat.min_eq_left (Nat.min_le_left _ _)] at hcovering
    rw [hcovering]
    rcases Nat.le_total n covering.length with hle | hle
    · rw [Nat.min_eq_left hle, Nat.sub_eq_zero_of_le hle, take_zero, append_nil]
    · rw [Nat.min_eq_right hle, ← take_append_drop covering.length (bytes.take n), drop_take,
        take_take, Nat.min_eq_left hle]

theorem store_overlay {more : Bytes} (h : 4 + (data ++ more).length ≤ bytes.length) :
    Memory.store (overlay bytes data) (4 + data.length) more
      = some (overlay bytes (data ++ more)) := by
  rw [length_append] at h
  have hfront : (bytes.take 4 ++ data).length = 4 + data.length := by
    rw [length_append, length_take]
    omega
  unfold Memory.store overlay
  rw [if_pos, take_left' hfront, ← hfront, drop_length_add_append, hfront,
    drop_drop, length_append, Nat.add_assoc, append_assoc (bytes.take 4)]
  rw [length_append, hfront, length_drop]
  omega

theorem writePieces_append {reuse : Bool} {byteArray : Bytes} {ps rest : List (Piece Pointer)}
    (h : Constant byteArray reuse ps) {bytes data : Bytes}
    (hle : 4 + (data ++ ps.flatMap (pieceBytes byteArray)).length ≤ bytes.length) :
    writePieces reuse byteArray (ps ++ rest) (4 + data.length) (overlay bytes data)
      = writePieces reuse byteArray rest (4 + (data ++ ps.flatMap (pieceBytes byteArray)).length)
        (overlay bytes (data ++ ps.flatMap (pieceBytes byteArray))) := by
  induction ps generalizing data with
  | nil => rw [flatMap_nil, append_nil, nil_append]
  | cons piece ps ih =>
    rw [flatMap_cons, ← append_assoc] at hle ⊢
    have hpiece := h piece (mem_cons_self ..) (overlay bytes data)
    have hstore : Memory.store (overlay bytes data) (4 + data.length) (pieceBytes byteArray piece)
        = some (overlay bytes (data ++ pieceBytes byteArray piece)) := by
      apply store_overlay
      rw [length_append] at hle
      omega
    rw [cons_append, writePieces]
    simp only [hpiece, hstore, bind_eq_bind, bind_some]
    rw [Nat.add_assoc, ← length_append]
    exact ih (fun q hq => h q (mem_cons_of_mem _ hq)) hle

-- ==== the pointers replaced by the data

variable (f : P → Q)

theorem pointerPieces_map (pointer : Option P) :
    pointerPieces (pointer.map f) = (pointerPieces pointer).map (Sum.map id f) := by
  cases pointer with
  | none | some p => rfl

theorem resultPieces_map (result : Option (AggValue P)) :
    resultPieces (result.map (AggValue.map f)) = (resultPieces result).map (Sum.map id f) := by
  cases result with
  | none => rfl
  | some r =>
    simp only [map_some, resultPieces, AggValue.map, pointerPieces_map, flatMap_map,
      map_cons, map_append, map_flatMap, Sum.map_inl, id]

theorem fieldPieces_map (state : AggState P) :
    fieldPieces (state.map f) = (fieldPieces state).map (Sum.map id f) := by
  simp only [fieldPieces, AggState.map, resultPieces_map, flatMap_map, map_append,
    map_flatMap, List.map_map, length_map, map_cons, map_nil, Sum.map_inl, id]
  rfl

theorem pieces_map (state : AggState P) :
    pieces (state.map f) = (pieces state).map (Sum.map id f) := by
  rw [pieces, pieces, map_append, fieldPieces_map, ← pointerPieces_map]
  rfl

theorem bytesOf_map (ps : List (Piece Pointer)) :
    bytesOf (ps.map (Sum.map id (Pointer.datum byteArray)))
      = ps.flatMap (pieceBytes byteArray) := by
  rw [bytesOf, flatMap_map]
  congr 1
  funext piece
  cases piece with
  | inl bytes | inr pointer => rfl

theorem allData_map {ps : List (Piece Pointer)}
    (h : ∀ pointer, .inr pointer ∈ ps → IsDatum (pointer.datum byteArray)) :
    AllData (ps.map (Sum.map id (Pointer.datum byteArray))) := by
  intro datum hmem
  obtain ⟨piece, hpiece, heq⟩ := List.mem_map.1 hmem
  cases piece with
  | inl bytes => cases heq
  | inr pointer =>
    cases heq
    exact h pointer hpiece

-- ==== the calls

/-- What a call takes in: the result for a document, or the results of a second state. They
are elsewhere than the array. -/
inductive Call where
  | transition (newValue : AggValue Bytes)
  | combine (right : List (Option (AggValue Bytes)))

def Call.results : Call → List (AggValue Pointer)
  | .transition newValue => [newValue.map .outside]
  | .combine right => right.filterMap (Option.map (AggValue.map .outside))

section Calls

variable (compareNullable : Option Bytes → Option Bytes → Int) (invertSort : Bool)
  (state : AggState Pointer)

def AggState.slots : SlotsOf (AggValue Pointer) := fun i => state.currentResult[i]?.join

def AggValue.key (result : AggValue Pointer) (i : Nat) : Option Bytes :=
  result.sortKeyValues[i]?.join.map (Pointer.datum byteArray)

/-- The comparison of two results by their sort keys. -/
def replaces (current new : AggValue Pointer) : Bool :=
  replaceCurrentAggregate compareNullable invertSort (current.key byteArray) (new.key byteArray) 0
    state.sortDirections

/-- The call on the deserialized state. There is no result if a null pointer is read, and no
state if the old array is returned; otherwise the state that is to be serialized. -/
def Call.run : Call → Option (Option (AggState Pointer))
  | .transition newValue => do
    let newValue := newValue.map .outside
    let currentCount := state.currentResult.length
    let (currentPos, slots) ← findPosition
      (replaces byteArray compareNullable invertSort state · newValue) false
      state.numAggValues 0 currentCount state.slots
    if currentPos ≠ state.numAggValues then
      let slots := Function.update slots currentPos (some newValue)
      let currentCount :=
        if currentCount < state.numAggValues then currentCount + 1 else currentCount
      some (some { state with currentResult := (List.range currentCount).map slots })
    else some none
  | .combine right => do
    let right := right.map (Option.map (AggValue.map .outside))
    let (slots, currentCount, updatedLeft) ← insertResults
      (replaces byteArray compareNullable invertSort state) state.numAggValues right
      state.slots state.currentResult.length 0 false
    some (if updatedLeft then
      some { state with currentResult := (List.range currentCount).map slots } else none)

end Calls

section Slots

variable {V : Type} {replaces : V → Bool} {skipNull : Bool} {size minPos pos pos' : Nat}
  {slots slots' : SlotsOf V} {count : Nat} {updated : Bool}

/-- The loop for a position goes down, and only moves what is there. -/
theorem findPosition_from
    (h : findPosition replaces skipNull size minPos pos slots = some (pos', slots')) :
    pos' ≤ pos ∧ (pos' = pos → slots' = slots)
      ∧ ∀ i v, slots' i = some v → ∃ j, slots j = some v := by
  induction pos generalizing slots with
  | zero =>
    cases h
    exact ⟨Nat.le_refl _, fun _ => rfl, fun i v hv => ⟨i, hv⟩⟩
  | succ pos ih =>
    rw [findPosition] at h
    -- the loop goes on with slots that hold what was in the old ones
    have hnext {slots₁ : SlotsOf V} (hfrom : ∀ i v, slots₁ i = some v → ∃ j, slots j = some v)
        (h : findPosition replaces skipNull size minPos pos slots₁ = some (pos', slots')) :
        pos' ≤ pos + 1 ∧ (pos' = pos + 1 → slots' = slots)
          ∧ ∀ i v, slots' i = some v → ∃ j, slots j = some v := by
      obtain ⟨hle, -, hfrom'⟩ := ih h
      refine ⟨by omega, fun heq => by omega, fun i v hv => ?_⟩
      obtain ⟨j, hj⟩ := hfrom' i v hv
      exact hfrom j v hj
    have hclear (slots₁ : SlotsOf V) (hfrom : ∀ i v, slots₁ i = some v → ∃ j, slots j = some v)
        (i : Nat) (v : V) (hv : Function.update slots₁ pos none i = some v) :
        ∃ j, slots j = some v := by
      rw [Function.update_apply] at hv
      split_ifs at hv
      exact hfrom i v hv
    by_cases hmin : pos < minPos
    · rw [if_pos hmin] at h
      cases h
      exact ⟨Nat.le_refl _, fun _ => rfl, fun i v hv => ⟨i, hv⟩⟩
    · rw [if_neg hmin] at h
      cases hslot : slots pos with
      | none =>
        rw [hslot] at h
        dsimp only at h
        split_ifs at h
        exact hnext (fun i v hv => ⟨i, hv⟩) h
      | some current =>
        rw [hslot] at h
        dsimp only at h
        split_ifs at h with hstays hlast
        · cases h
          exact ⟨Nat.le_refl _, fun _ => rfl, fun i v hv => ⟨i, hv⟩⟩
        · exact hnext (hclear slots fun i v hv => ⟨i, hv⟩) h
        · refine hnext (hclear _ fun i v hv => ?_) h
          rw [Function.update_apply] at hv
          split_ifs at hv
          · exact ⟨pos, hslot.trans hv⟩
          · exact ⟨i, hv⟩

/-- While a call takes results in: there are at most `size`, each one old or new, and if
there is one only it is new as soon as something has changed. -/
structure Taken (old new : V → Prop) (size : Nat) (slots : SlotsOf V) (count : Nat)
    (updated : Bool) : Prop where
  count_le : count ≤ size
  from_old : ∀ i v, slots i = some v → old v ∨ new v
  one : size = 1 → updated = true → ∀ v, slots 0 = some v → new v

namespace Taken

variable {old new : V → Prop} {right : V}

theorem insert (h : Taken old new size slots count updated)
    (hfind : findPosition replaces skipNull size minPos count slots = some (pos, slots'))
    (hright : new right) (hne : pos ≠ size) (updated' : Bool) :
    Taken old new size (Function.update slots' pos (some right))
      (if count < size then count + 1 else count) updated' := by
  obtain ⟨hle, -, hfrom⟩ := findPosition_from hfind
  have hcount := h.count_le
  refine ⟨by split_ifs <;> omega, fun i v hv => ?_, fun hone _ v hv => ?_⟩
  · rw [Function.update_apply] at hv
    split_ifs at hv
    · cases hv
      exact Or.inr hright
    · obtain ⟨j, hj⟩ := hfrom i v hv
      exact h.from_old j v hj
  · have hzero : pos = 0 := by omega
    rw [hzero, Function.update_self] at hv
    cases hv
    exact hright

theorem skip (h : Taken old new size slots count updated)
    (hfind : findPosition replaces skipNull size minPos count slots = some (size, slots')) :
    Taken old new size slots' count updated := by
  obtain ⟨hle, hsame, -⟩ := findPosition_from hfind
  have hcount := h.count_le
  rw [hsame (by omega)]
  exact h

/-- Over all results of the right state. -/
theorem insertResults {replaces : V → V → Bool} {rights : List (Option V)} {count' : Nat}
    {updated' : Bool} (hrights : ∀ right, some right ∈ rights → new right)
    (h : Taken old new size slots count updated)
    (hrun : insertResults replaces size rights slots count minPos updated
      = some (slots', count', updated')) : Taken old new size slots' count' updated' := by
  induction rights generalizing slots count minPos updated with
  | nil =>
    cases hrun
    exact h
  | cons right rights ih =>
    cases right with
    | none =>
      cases hrun
      exact h
    | some right =>
      obtain ⟨⟨pos, slots₁⟩, hfind, hrun⟩ := bind_eq_some_iff.1 hrun
      have hrest := fun r hr => hrights r (mem_cons_of_mem _ hr)
      have hcount : (if count ≠ size then count + 1 else count)
          = if count < size then count + 1 else count := by
        have := h.count_le
        split_ifs <;> omega
      dsimp only at hrun
      rw [hcount] at hrun
      by_cases hpos : pos = size
      · rw [if_neg (not_not.2 hpos)] at hrun
        exact ih hrest (h.skip (hpos ▸ hfind)) hrun
      · rw [if_pos hpos] at hrun
        exact ih hrest (h.insert hfind (hrights right mem_cons_self) hpos true) hrun

end Taken

end Slots

/-- What a call leaves of the old state, and what it has taken in. -/
theorem Call.run_spec {compareNullable : Option Bytes → Option Bytes → Int} {invertSort : Bool}
    {old state : AggState Pointer} {call : Call}
    (hcount : old.currentResult.length ≤ old.numAggValues)
    (hrun : call.run byteArray compareNullable invertSort old = some (some state)) :
    state = { old with currentResult := state.currentResult }
      ∧ state.currentResult.length ≤ old.numAggValues
      ∧ (∀ r, some r ∈ state.currentResult → some r ∈ old.currentResult ∨ r ∈ call.results)
      ∧ (old.numAggValues = 1 → ∀ r, some r ∈ state.currentResult → r ∈ call.results) := by
  have hold : Taken (some · ∈ old.currentResult) (· ∈ call.results) old.numAggValues old.slots
      old.currentResult.length false := by
    refine ⟨hcount, fun i v hv => Or.inl ?_, fun _ hfalse => absurd hfalse Bool.false_ne_true⟩
    exact List.mem_of_getElem? (Option.join_eq_some_iff.1 hv)
  -- the slots up to the count are the results
  have hread {slots : SlotsOf (AggValue Pointer)} {count : Nat}
      (htaken : Taken (some · ∈ old.currentResult) (· ∈ call.results) old.numAggValues slots
        count true) :
      ((List.range count).map slots).length ≤ old.numAggValues
        ∧ (∀ r, some r ∈ (List.range count).map slots →
          some r ∈ old.currentResult ∨ r ∈ call.results)
        ∧ (old.numAggValues = 1 → ∀ r, some r ∈ (List.range count).map slots →
          r ∈ call.results) := by
    refine ⟨by rw [length_map, length_range]; exact htaken.count_le, fun r hr => ?_,
      fun hone r hr => ?_⟩
    · obtain ⟨i, -, hi⟩ := List.mem_map.1 hr
      exact htaken.from_old i r hi
    · obtain ⟨i, hrange, hi⟩ := List.mem_map.1 hr
      have hle := htaken.count_le
      have hzero : i = 0 := by
        have := List.mem_range.1 hrange
        omega
      exact htaken.one hone rfl r (hzero ▸ hi)
  cases call with
  | transition newValue =>
    obtain ⟨⟨currentPos, slots⟩, hfind, hrun⟩ := bind_eq_some_iff.1 hrun
    dsimp only at hrun
    by_cases hpos : currentPos = old.numAggValues
    · rw [if_neg (not_not.2 hpos)] at hrun
      cases hrun
    rw [if_pos hpos] at hrun
    cases hrun
    exact ⟨rfl, hread (hold.insert hfind (mem_singleton_self _) hpos true)⟩
  | combine right =>
    obtain ⟨⟨slots, currentCount, updatedLeft⟩, hinsert, hrun⟩ := bind_eq_some_iff.1 hrun
    cases updatedLeft with
    | false => cases hrun
    | true =>
      cases hrun
      refine ⟨rfl, hread (hold.insertResults (fun r hr => ?_) hinsert)⟩
      obtain ⟨result, hresult, hmap⟩ := List.mem_map.1 hr
      exact mem_filterMap.2 ⟨result, hresult, hmap⟩

/-- A state as a call hands it to `SerializeOrderState`, with the array and the state that
was deserialized from it. -/
structure Handed where
  compareNullable : Option Bytes → Option Bytes → Int
  invertSort : Bool
  byteArray : Bytes
  old : AggState Pointer
  call : Call
  state : AggState Pointer
  sized : varsize byteArray = byteArray.length
  deserialized : deserializeOrderState byteArray = some (old.map (Pointer.datum byteArray))
  inside : ∀ pointer, .inr pointer ∈ pieces old → ∃ offset ≥ 4, pointer = .inside offset
  numAggValues_lt : old.numAggValues < 2 ^ 63
  currentCount_le : old.currentResult.length ≤ old.numAggValues
  numSortKeys_le : old.sortDirections.length ≤ 32
  results_keys : ∀ result ∈ call.results,
    result.sortKeyValues.length = old.sortDirections.length
  results_data : ∀ result ∈ call.results, ∀ pointer, .inr pointer ∈ resultPieces (some result) →
    IsDatum (pointer.datum byteArray)
  handed : call.run byteArray compareNullable invertSort old = some (some state)

namespace Handed

variable (h : Handed)

theorem state_eq : h.state = { h.old with currentResult := h.state.currentResult } :=
  (Call.run_spec h.byteArray h.currentCount_le h.handed).1

theorem fits : h.state.Fits := by
  obtain ⟨hstate, hlength, hfrom, -⟩ := Call.run_spec h.byteArray h.currentCount_le h.handed
  have hnum := h.numAggValues_lt
  have hkeys := h.numSortKeys_le
  rw [hstate]
  refine ⟨hnum, by show h.state.currentResult.length < _; omega, hkeys, fun result hresult => ?_⟩
  rcases hfrom result hresult with hold | hnew
  · have hread := (isDatum_of_deserializeOrderState h.deserialized).1
      (result.map (Pointer.datum h.byteArray)) (List.mem_map.2 ⟨_, hold, rfl⟩)
    rwa [AggValue.map, length_map] at hread
  · exact h.results_keys result hnew

theorem isDatum_old {pointer : Pointer} (hmem : .inr pointer ∈ pieces h.old) :
    IsDatum (pointer.datum h.byteArray) := by
  apply (isDatum_of_deserializeOrderState h.deserialized).2
  rw [pieces_map]
  exact List.mem_map.2 ⟨.inr pointer, hmem, rfl⟩

theorem isDatum {pointer : Pointer} (hmem : .inr pointer ∈ pieces h.state) :
    IsDatum (pointer.datum h.byteArray) := by
  obtain ⟨hstate, -, hfrom, -⟩ := Call.run_spec h.byteArray h.currentCount_le h.handed
  rcases mem_append.1 hmem with hmem | hmem
  · obtain ⟨result, hresult, hpointer⟩ := mem_fieldPieces.1 hmem
    rcases hfrom result hresult with hold | hnew
    · exact h.isDatum_old (mem_append_left _ (mem_fieldPieces.2 ⟨result, hold, hpointer⟩))
    · exact h.results_data result hnew pointer hpointer
  · rw [hstate] at hmem
    exact h.isDatum_old (mem_append_right _ hmem)

theorem exists_outside {call : Call} {result : AggValue Pointer} (hresult : result ∈ call.results)
    {pointer : Pointer} (hmem : .inr pointer ∈ resultPieces (some result)) :
    ∃ datum, pointer = .outside datum := by
  obtain ⟨new, rfl⟩ : ∃ new : AggValue Bytes, result = new.map .outside := by
    cases call with
    | transition newValue => exact ⟨newValue, mem_singleton.1 hresult⟩
    | combine right =>
      obtain ⟨new, -, hmap⟩ := mem_filterMap.1 hresult
      obtain ⟨new, -, rfl⟩ := map_eq_some_iff.1 hmap
      exact ⟨new, rfl⟩
  rw [← map_some, resultPieces_map] at hmem
  obtain ⟨piece, -, hpiece⟩ := List.mem_map.1 hmem
  cases piece with
  | inl bytes => cases hpiece
  | inr datum =>
    cases hpiece
    exact ⟨datum, rfl⟩

/-- With one result this is a new one, so only the input expression is in the array. -/
theorem fresh (hone : h.state.numAggValues = 1) {pointer : Pointer}
    (hmem : .inr pointer ∈ fieldPieces h.state) : ∃ datum, pointer = .outside datum := by
  obtain ⟨hstate, -, -, hnew⟩ := Call.run_spec h.byteArray h.currentCount_le h.handed
  obtain ⟨result, hresult, hpointer⟩ := mem_fieldPieces.1 hmem
  rw [hstate] at hone
  exact exists_outside (hnew hone result hresult) hpointer

def contents : AggState Bytes := h.state.map (Pointer.datum h.byteArray)

/-- The state is read back as it was, unless there is no memory for it. -/
def RoundTrips : Prop :=
  match serializeOrderState h.state h.byteArray with
  | .undefined => False
  | .outOfMemory => True
  | .stored bytes => deserializeOrderState bytes = some h.contents

def Reuses : Prop :=
  h.state.numAggValues = 1 ∧ requiredByteSize h.state h.byteArray ≤ h.byteArray.length

/-- What is written before the input expression, if there is one. -/
def fieldBytes : Bytes := (fieldPieces h.state).flatMap (pieceBytes h.byteArray) ++ [1]

/-- The bytes that are copied as the input expression, after the fields before it have
been laid over the array. -/
def copied (offset : Nat) : Bytes :=
  (Pointer.inside offset).datum (overlay h.byteArray h.fieldBytes)

/-- The old input expression. -/
def expression (offset : Nat) : Bytes := (Pointer.inside offset).datum h.byteArray

/-- The place where the input expression is to stand, behind the new fields. -/
def fieldsEnd : Nat := 4 + h.fieldBytes.length

/-- The bytes of the new fields from the place of the old input expression on. -/
def covering (offset : Nat) : Bytes := h.fieldBytes.drop (offset - 4)

/-- What stands there when the new fields have been written over it. -/
def found (offset : Nat) : Bytes := h.covering offset ++ h.byteArray.drop h.fieldsEnd

/-- The new fields do not reach the old input expression; or they have its very bytes where
they reach it; or its length word becomes less than four, so that nearly nothing is copied,
and the array has an older copy of it at the right place. -/
def SparesAt (offset : Nat) : Prop :=
  h.fieldsEnd ≤ offset
  ∨ (h.covering offset).take (h.expression offset).length <+: h.expression offset
  ∨ varsize (h.found offset) < 4
    ∧ h.expression offset <+: (h.found offset).take (varsize (h.found offset))
      ++ h.byteArray.drop (h.fieldsEnd + varsize (h.found offset))

def SparesExpression : Prop :=
  ∀ offset, h.old.inputExpression = some (.inside offset) → h.SparesAt offset

theorem fits_contents : h.contents.Fits where
  numAggValues := h.fits.numAggValues
  currentCount := by
    show (List.map _ _).length < _
    rw [length_map]
    exact h.fits.currentCount
  numSortKeys := h.fits.numSortKeys
  sortKeys := by
    intro result hresult
    obtain ⟨before, hbefore, heq⟩ := List.mem_map.1 hresult
    cases before with
    | none => cases heq
    | some before =>
      cases heq
      show (List.map _ _).length = _
      rw [length_map]
      exact h.fits.sortKeys before hbefore

theorem deserialize_fields {header : Bytes} (hheader : header.length = 4) (rest : Bytes) :
    deserializeOrderState (header
        ++ ((fieldPieces h.state).flatMap (pieceBytes h.byteArray) ++ rest))
      = (readPointer rest).map fun r => { h.contents with inputExpression := r.1 } := by
  rw [← bytesOf_map, ← fieldPieces_map]
  refine deserializeOrderState_append h.fits_contents ?_ hheader rest
  rw [contents, fieldPieces_map]
  exact allData_map _ fun _ hmem => h.isDatum (mem_append_left _ hmem)

theorem deserialize_constant {reuse : Bool} {bytes : Bytes}
    (hconstant : Constant h.byteArray reuse (pieces h.state))
    (hle : requiredByteSize h.state h.byteArray ≤ bytes.length) :
    ∃ bytes', writePieces reuse h.byteArray (pieces h.state) 4 bytes = some bytes'
      ∧ deserializeOrderState bytes' = some h.contents := by
  have hwrite := @writePieces_append reuse h.byteArray _ [] hconstant bytes []
    (by rw [nil_append]; exact hle)
  rw [append_nil, overlay_nil, nil_append, writePieces] at hwrite
  refine ⟨_, hwrite, ?_⟩
  have hheader : (bytes.take 4).length = 4 := by
    unfold requiredByteSize at hle
    rw [length_take]
    omega
  have hread := @readPointer_append (h.state.inputExpression.map (Pointer.datum h.byteArray)) (by
      rw [pointerPieces_map]
      exact allData_map _ fun _ hmem => h.isDatum (mem_append_right _ hmem))
  rw [overlay, pieces, flatMap_append, append_assoc, append_assoc,
    h.deserialize_fields hheader, ← bytesOf_map _ (pointerPieces _), ← pointerPieces_map, hread]
  rfl

theorem constant_fields (hone : h.state.numAggValues = 1) :
    Constant h.byteArray true (fieldPieces h.state) := by
  intro piece hpiece bytes
  cases piece with
  | inl data => rfl
  | inr pointer =>
    obtain ⟨datum, rfl⟩ := h.fresh hone hpiece
    rfl

variable {offset : Nat}

theorem writePieces_inside (hone : h.state.numAggValues = 1)
    (hexpression : h.state.inputExpression = some (.inside offset))
    (hle : 4 + h.fieldBytes.length ≤ h.byteArray.length) :
    writePieces true h.byteArray (pieces h.state) 4 h.byteArray
      = Memory.store (overlay h.byteArray h.fieldBytes) (4 + h.fieldBytes.length)
        (h.copied offset) := by
  have hpieces : pieces h.state
      = (fieldPieces h.state ++ [.inl [1]]) ++ [.inr (Pointer.inside offset)] := by
    rw [pieces, hexpression, append_assoc]
    rfl
  have hfields : (fieldPieces h.state ++ [Sum.inl [1]]).flatMap (pieceBytes h.byteArray)
      = h.fieldBytes := by
    rw [flatMap_append]
    rfl
  have hconstant : Constant h.byteArray true (fieldPieces h.state ++ [Sum.inl [1]]) :=
    forall_mem_append.2 ⟨h.constant_fields hone, forall_mem_singleton.2 fun _ => rfl⟩
  have hwrite := @writePieces_append true h.byteArray _ [.inr (Pointer.inside offset)]
    hconstant h.byteArray [] (by rw [nil_append, hfields]; exact hle)
  rw [overlay_nil, nil_append, hfields] at hwrite
  rw [hpieces]
  refine hwrite.trans ?_
  show (Memory.store _ _ (h.copied offset) >>= _) = _
  cases Memory.store _ _ (h.copied offset) with
  | none | some bytes => rfl

theorem length_copied_le (hdatum : IsDatum (h.expression offset)) {rest : Bytes}
    (hbehind : h.expression offset <+: h.copied offset ++ rest) :
    (h.copied offset).length ≤ (h.expression offset).length := by
  rcases Nat.lt_or_ge (h.copied offset).length 4 with hshort | hlong
  · exact hshort.le.trans hdatum.four_le
  obtain ⟨tail, htail⟩ := hbehind
  have hword : (h.expression offset).take 4 = (h.copied offset).take 4 := by
    rw [← take_append_of_le_length hdatum.four_le, htail, take_append_of_le_length hlong]
  calc (h.copied offset).length
      ≤ varsize ((overlay h.byteArray h.fieldBytes).drop offset) := length_take_le _ _
    _ = varsize (h.copied offset) := (varsize_take hlong).symm
    _ = varsize (h.expression offset) := by
        rw [varsize, varsize, hword]
    _ = (h.expression offset).length := hdatum.varsize_eq

theorem requiredByteSize_eq (hexpression : h.state.inputExpression = some (.inside offset)) :
    requiredByteSize h.state h.byteArray
      = 4 + h.fieldBytes.length + (h.expression offset).length := by
  simp only [requiredByteSize, pieces, hexpression, pointerPieces, fieldBytes, pieceBytes, expression,
    flatMap_append, flatMap_cons, flatMap_nil, length_append, append_nil, Nat.add_assoc]

theorem roundTrips_inside (hint : requiredByteSize h.state h.byteArray < 2 ^ 31) (hreuse : h.Reuses)
    (hexpression : h.state.inputExpression = some (.inside offset)) :
    h.RoundTrips ↔ h.expression offset
      <+: h.copied offset ++ h.byteArray.drop (4 + (h.fieldBytes ++ h.copied offset).length) := by
  obtain ⟨hone, hlength⟩ := hreuse
  have hdatum : IsDatum (h.expression offset) := by
    apply h.isDatum
    rw [pieces, hexpression]
    exact mem_append_right _ (mem_cons_of_mem _ (mem_singleton_self _))
  have hrequired := h.requiredByteSize_eq hexpression
  have hserialize : serializeOrderState h.state h.byteArray
      = ((Memory.store (overlay h.byteArray h.fieldBytes) (4 + h.fieldBytes.length)
        (h.copied offset)).map Serialized.stored).getD .undefined := by
    unfold serializeOrderState
    rw [if_neg (by omega), if_pos ⟨hone, h.sized.symm ▸ hlength⟩,
      h.writePieces_inside hone hexpression (by omega)]
  have hheader : (h.byteArray.take 4).length = 4 := by
    rw [length_take]
    omega
  unfold RoundTrips
  rw [hserialize]
  by_cases hfit : 4 + (h.fieldBytes ++ h.copied offset).length ≤ h.byteArray.length
  · rw [store_overlay hfit]
    show deserializeOrderState (overlay _ _) = _ ↔ _
    have hlayout : overlay h.byteArray (h.fieldBytes ++ h.copied offset)
        = h.byteArray.take 4 ++ ((fieldPieces h.state).flatMap (pieceBytes h.byteArray)
          ++ (1 :: (h.copied offset
            ++ h.byteArray.drop (4 + (h.fieldBytes ++ h.copied offset).length)))) := by
      rw [overlay]
      simp only [fieldBytes, append_assoc, cons_append, nil_append]
    have hcontents : h.contents.inputExpression
        = some (h.expression offset) := by
      rw [contents, AggState.map, hexpression]
      rfl
    rw [hlayout, h.deserialize_fields hheader, ← readPointer_iff hdatum, map_eq_some_iff]
    constructor
    · rintro ⟨⟨pointer, rest⟩, hread, heq⟩
      have hpointer : pointer = _ := congrArg AggState.inputExpression heq
      rw [hpointer, hcontents] at hread
      exact ⟨rest, hread⟩
    · rintro ⟨rest, hread⟩
      refine ⟨_, hread, ?_⟩
      rw [← hcontents]
  · have hnone : Memory.store (overlay h.byteArray h.fieldBytes)
        (4 + h.fieldBytes.length) (h.copied offset) = none := by
      rw [Memory.store, if_neg]
      rw [length_overlay (by omega), Nat.add_assoc, ← length_append]
      exact hfit
    rw [hnone]
    refine iff_of_false id ?_
    intro hbehind
    have hle := h.length_copied_le hdatum hbehind
    rw [length_append] at hfit
    omega

theorem roundTrips_outside (hint : requiredByteSize h.state h.byteArray < 2 ^ 31)
    (hreuse : h.Reuses)
    (hconstant : Constant h.byteArray true (pointerPieces h.state.inputExpression)) :
    h.RoundTrips := by
  obtain ⟨hone, hlength⟩ := hreuse
  have hpieces : Constant h.byteArray true (pieces h.state) :=
    forall_mem_append.2 ⟨h.constant_fields hone, hconstant⟩
  obtain ⟨bytes, hwrite, hread⟩ := h.deserialize_constant hpieces hlength
  unfold RoundTrips serializeOrderState
  rw [if_neg (by omega), if_pos ⟨hone, h.sized.symm ▸ hlength⟩, hwrite]
  exact hread

theorem roundTrips_new (hint : requiredByteSize h.state h.byteArray < 2 ^ 31)
    (hnew : ¬ h.Reuses) : h.RoundTrips := by
  unfold RoundTrips serializeOrderState
  dsimp only
  rw [if_neg (by omega), if_neg (by rw [h.sized]; exact hnew)]
  split_ifs with hmemory
  · trivial
  · obtain ⟨bytes, hwrite, hread⟩ := @deserialize_constant h false
      (leBytes 4 (4 * requiredByteSize h.state h.byteArray)
        ++ replicate (requiredByteSize h.state h.byteArray - 4) 0)
      (fun _ _ _ => rfl) (by
        rw [length_append, length_leBytes, length_replicate]
        omega)
    rw [hwrite]
    exact hread

theorem state_inputExpression : h.state.inputExpression = h.old.inputExpression := by
  rw [h.state_eq]

/-- What is copied, once the new fields reach the place of the old input expression. -/
theorem copied_eq (hfour : 4 ≤ offset) (hreach : offset ≤ h.fieldsEnd)
    (hlength : h.fieldsEnd ≤ h.byteArray.length) :
    h.copied offset = (h.found offset).take (varsize (h.found offset)) := by
  show ((overlay h.byteArray h.fieldBytes).drop offset).take _ = _
  rw [drop_overlay hlength hfour hreach]
  rfl

/-- New fields that reach the old input expression have its bytes exactly if it is found
there unchanged. -/
theorem covering_iff (hfour : 4 ≤ offset) (hreach : offset ≤ h.fieldsEnd)
    (hdatum : IsDatum (h.expression offset)) :
    (h.covering offset).take (h.expression offset).length <+: h.expression offset
      ↔ (h.found offset).take (h.expression offset).length = h.expression offset := by
  have hexpression : h.expression offset
      = (h.byteArray.drop offset).take (h.expression offset).length := by
    have heq : h.expression offset
        = (h.byteArray.drop offset).take (varsize (h.byteArray.drop offset)) := rfl
    have hsize : varsize (h.expression offset) = varsize (h.byteArray.drop offset) :=
      varsize_take (heq ▸ hdatum.four_le)
    rw [← hdatum.varsize_eq, hsize]
    exact heq
  have hcovering : (h.covering offset).length = h.fieldsEnd - offset := by
    rw [covering, length_drop, fieldsEnd]
    omega
  have hfound : h.found offset = h.covering offset
      ++ (h.byteArray.drop offset).drop (h.covering offset).length := by
    rw [found, hcovering, drop_drop, Nat.add_sub_cancel' hreach]
  have hiff := @take_append_drop_eq_iff (h.byteArray.drop offset) (h.covering offset)
    (h.expression offset).length
  rw [← hexpression, ← hfound] at hiff
  exact hiff.symm

/-- The copy is right exactly if the new fields spare the old input expression. -/
theorem copied_iff (hfour : 4 ≤ offset) (hdatum : IsDatum (h.expression offset))
    (hplace : offset + (h.expression offset).length ≤ h.byteArray.length)
    (hlength : h.fieldsEnd ≤ h.byteArray.length) : h.expression offset <+: h.copied offset
        ++ h.byteArray.drop (4 + (h.fieldBytes ++ h.copied offset).length)
      ↔ h.SparesAt offset := by
  rcases Nat.lt_or_ge offset h.fieldsEnd with hreach | hbefore
  swap
  · -- the fields end before the expression, which is copied as it is
    have hcopied : h.copied offset = h.expression offset := by
      show ((overlay h.byteArray h.fieldBytes).drop offset).take _ = _
      rw [drop_overlay_of_le hlength hbefore]
      rfl
    rw [hcopied]
    exact iff_of_true (prefix_append _ _) (Or.inl hbefore)
  have hcopied := h.copied_eq hfour hreach.le hlength
  have hcovering := h.covering_iff hfour hreach.le hdatum
  have hfour' := hdatum.four_le
  have hfoundLength : (h.expression offset).length ≤ (h.found offset).length := by
    rw [found, covering, length_append, length_drop, length_drop]
    unfold fieldsEnd at hlength hreach ⊢
    omega
  have hunchanged (hsame : (h.found offset).take (h.expression offset).length
      = h.expression offset) : varsize (h.found offset) = (h.expression offset).length :=
    (varsize_of_take_eq hfour' hsame).trans hdatum.varsize_eq
  rw [SparesAt, hcovering, or_iff_right (Nat.not_le.2 hreach)]
  by_cases hshort : varsize (h.found offset) < 4
  · have hcopiedLength : (h.copied offset).length = varsize (h.found offset) := by
      rw [hcopied, length_take]
      omega
    rw [length_append, hcopiedLength, hcopied, ← Nat.add_assoc]
    constructor
    · intro hstale
      exact Or.inr ⟨hshort, hstale⟩
    · rintro (hsame | ⟨-, hstale⟩)
      · have := hunchanged hsame
        omega
      · exact hstale
  · constructor
    · intro hbehind
      -- the length word is in what is copied, so it is unchanged
      have hword : (h.found offset).take 4 = (h.expression offset).take 4 := by
        have hlong : 4 ≤ (h.copied offset).length := by
          rw [hcopied, length_take]
          omega
        obtain ⟨tail, htail⟩ := hbehind
        rw [← take_append_of_le_length hfour', htail, take_append_of_le_length hlong, hcopied,
          take_take, Nat.min_eq_left (Nat.le_of_not_lt hshort)]
      have hsize : varsize (h.found offset) = (h.expression offset).length := by
        rw [← hdatum.varsize_eq, varsize, varsize, hword]
      rw [hsize] at hcopied
      refine Or.inl ?_
      rw [← hcopied]
      refine (IsPrefix.eq_of_length (prefix_of_prefix_length_le hbehind (prefix_append _ _) ?_)
        ?_).symm
      all_goals
        rw [hcopied, length_take]
        omega
    · rintro (hsame | ⟨hshort', -⟩)
      · rw [hcopied, hunchanged hsame, hsame]
        exact prefix_append _ _
      · exact absurd hshort' hshort

end Handed

-- ==== three results

/-- A datum of `n + 4` bytes. -/
def datumOf (n : Nat) : Bytes := leBytes 4 (4 * (n + 4)) ++ List.replicate n 7

def keyOf (key : UInt8) : Bytes := leBytes 4 20 ++ [key]

def resultOf (n : Nat) (key : UInt8) : AggValue Bytes := ⟨some (datumOf n), [some (keyOf key)]⟩

/-- The state of `$top` with one result. -/
def stateOf (result : AggValue Pointer) (inputExpression : Pointer) : AggState Pointer :=
  ⟨1, [some result], [true], some inputExpression⟩

/-- Sort keys compared by their last byte. -/
def compareLast (left right : Option Bytes) : Int :=
  let last (key : Option Bytes) : Int := (key.bind getLast?).elim 0 fun byte => byte.toNat
  last left - last right

def Serialized.array : Serialized → Bytes
  | .stored bytes => bytes
  | _ => []

/-- A large result in a new array, and then a small one in the same array. -/
def arrayOfLarge : Bytes :=
  (serializeOrderState (stateOf ((resultOf 20 3).map .outside) (.outside (datumOf 5))) []).array

def arrayOfSmall : Bytes :=
  (serializeOrderState (stateOf ((resultOf 2 2).map .outside) (.inside 58)) arrayOfLarge).array

/-- The state of the small result. -/
def small : AggState Pointer := stateOf ⟨some (.inside 26), [some (.inside 33)]⟩ (.inside 40)

theorem transition_medium :
    (Call.transition (resultOf 8 1)).run arrayOfSmall compareLast false small
      = some (some (stateOf ((resultOf 8 1).map .outside) (.inside 40))) := by
  decide +kernel

/-- A result of medium size comes in. -/
def medium : Handed where
  compareNullable := compareLast
  invertSort := false
  byteArray := arrayOfSmall
  old := small
  call := .transition (resultOf 8 1)
  state := stateOf ((resultOf 8 1).map .outside) (.inside 40)
  sized := by decide +kernel
  deserialized := by decide +kernel
  inside := by
    intro pointer hpointer
    have hcases : pointer = .inside 26 ∨ pointer = .inside 33 ∨ pointer = .inside 40 := by
      simpa [small, pieces, fieldPieces, stateOf, resultPieces, pointerPieces] using hpointer
    rcases hcases with rfl | rfl | rfl
    · exact ⟨26, by decide, rfl⟩
    · exact ⟨33, by decide, rfl⟩
    · exact ⟨40, by decide, rfl⟩
  numAggValues_lt := by decide
  currentCount_le := by decide
  numSortKeys_le := by decide
  results_keys := by
    intro result hresult
    cases List.mem_singleton.1 hresult
    rfl
  results_data := by
    intro result hresult pointer hpointer
    cases List.mem_singleton.1 hresult
    have hcases : pointer = .outside (datumOf 8) ∨ pointer = .outside (keyOf 1) := by
      simpa [resultOf, AggValue.map, resultPieces, pointerPieces] using hpointer
    rcases hcases with rfl | rfl
    · exact ⟨by decide, by decide⟩
    · exact ⟨by decide, by decide⟩
  handed := transition_medium

end DocumentDb.OrderState
