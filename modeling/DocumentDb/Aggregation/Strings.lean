/-
String operators of expressions that walk over code points.

A string comes as its bytes. `$indexOfCP` may read them and the zero behind
them; the trimming operators are handed strings without one. Where a scan leaves
what it may read there is no result.
-/
import DocumentDb.Bson.Value
import Mathlib.Data.List.DropRight

namespace DocumentDb.Strings

open List

def isUtf8ContinuationByte (b : UInt8) : Bool := b &&& 0xC0 == 0x80

def utf8CodePointCount (str : Bytes) : Nat := str.countP fun b => !isUtf8ContinuationByte b

structure CodePoint where
  lead : UInt8
  tail : Bytes
  lead_ok : isUtf8ContinuationByte lead = false
  tail_ok : tail.all isUtf8ContinuationByte = true
  deriving DecidableEq

variable (points : List CodePoint)

/-- The bytes of a string; every string of valid UTF-8 is of this form. -/
def utf8 : Bytes := points.flatMap fun p => p.lead :: p.tail

@[simp]
theorem utf8_nil : utf8 [] = [] := rfl

@[simp]
theorem utf8_cons (p : CodePoint) (points : List CodePoint) :
    utf8 (p :: points) = p.lead :: (p.tail ++ utf8 points) := rfl

theorem utf8CodePointCount_utf8 : utf8CodePointCount (utf8 points) = points.length := by
  induction points with
  | nil => rfl
  | cons p points ih =>
    have htail : utf8CodePointCount p.tail = 0 := by
      simpa [utf8CodePointCount] using p.tail_ok
    rw [utf8CodePointCount] at ih htail ⊢
    rw [utf8_cons, countP_cons, countP_append, ih, htail, p.lead_ok]
    simp

-- ==== $indexOfCP

/-- The walk of `ProcessDollarIndexOfCP` to the start index, `n` code points on.
Each turn reads the byte that it comes to. -/
def skipCodePoints : (string : Bytes) → Nat → Option Bytes
  | string, 0 => some string
  | _ :: b :: string, n + 1 =>
    skipCodePoints (b :: string) (if isUtf8ContinuationByte b then n + 1 else n)
  | _, _ + 1 => none

/-- The loop of `ProcessDollarIndexOfCP` that compares. -/
def compareFrom (substr : Bytes) (endIndex : Nat) : (string : Bytes) → (currCP : Nat) → Option Int
  | [], currCP => if endIndex < currCP + utf8CodePointCount substr then some (-1) else none
  | b :: string, currCP =>
    if endIndex < currCP + utf8CodePointCount substr then some (-1)
    else if isUtf8ContinuationByte b then compareFrom substr endIndex string currCP
    -- `memcmp` is called with the length of the substring
    else if (b :: string).length < substr.length then none
    else if substr <+: b :: string then some currCP
    else compareFrom substr endIndex string (currCP + 1)

/-- On strings, with the indices that `ProcessDollarIndexOfCore` accepts. -/
def processDollarIndexOfCP (string substr : Bytes) (startIndex : Nat) (endIndex : Option Nat) :
    Option Int := do
  let count := utf8CodePointCount string
  let endIndex := endIndex.elim count (min · count)
  if endIndex < startIndex then return -1
  let string ← skipCodePoints (string ++ [0]) startIndex
  compareFrom substr endIndex string startIndex

def behind (i : Nat) : Bytes := utf8 (points.drop i) ++ [0]

theorem behind_cons (p : CodePoint) (points : List CodePoint) :
    behind (p :: points) 0 = p.lead :: (p.tail ++ behind points 0) := by
  simp [behind]

theorem skipCodePoints_cons (b : UInt8) {tail : Bytes} (points : List CodePoint) (n : Nat)
    (htail : tail.all isUtf8ContinuationByte) :
    skipCodePoints (b :: (tail ++ behind points 0)) (n + 1)
      = skipCodePoints (behind points 0) n := by
  induction tail generalizing b with
  | nil =>
    cases points with
    | nil => rfl
    | cons p points => simp [behind, skipCodePoints, p.lead_ok]
  | cons c tail ih =>
    rw [all_cons, Bool.and_eq_true] at htail
    rw [cons_append, skipCodePoints, if_pos htail.1, ih c htail.2]

theorem skipCodePoints_behind (n : Nat) (hn : n ≤ points.length) :
    skipCodePoints (behind points 0) n = some (behind points n) := by
  induction points generalizing n with
  | nil =>
    rw [Nat.le_zero.1 hn]
    rfl
  | cons p points ih =>
    cases n with
    | zero => rfl
    | succ n =>
      have hrest := skipCodePoints_cons p.lead points n p.tail_ok
      rw [ih n (Nat.le_of_succ_le_succ hn)] at hrest
      rwa [behind_cons]

/-- There is room for the substring wherever it is compared: from `currCP` to the
first place that it is found at. -/
def RoomUntilFound (substr : Bytes) (endIndex currCP : Nat) (rest : Nat → Bytes) : Prop :=
  ∀ i, currCP + utf8CodePointCount substr + i ≤ endIndex →
    (∀ j < i, ¬substr <+: rest j) → substr.length ≤ (rest i).length

section

variable {substr : Bytes} {endIndex currCP : Nat} {rest : Nat → Bytes}

theorem RoomUntilFound.of_lt (h : endIndex < currCP + utf8CodePointCount substr) :
    RoomUntilFound substr endIndex currCP rest := by
  intro i hi
  omega

theorem roomUntilFound_iff (h : currCP + utf8CodePointCount substr ≤ endIndex) :
    RoomUntilFound substr endIndex currCP rest ↔ substr.length ≤ (rest 0).length ∧
      (substr <+: rest 0 ∨ RoomUntilFound substr endIndex (currCP + 1) fun i => rest (i + 1)) := by
  constructor
  · intro hall
    refine ⟨hall 0 h fun j hj => absurd hj (Nat.not_lt_zero j), or_iff_not_imp_left.2 ?_⟩
    intro hfirst i hi hnot
    refine hall (i + 1) (by omega) fun j hj => ?_
    cases j with
    | zero => exact hfirst
    | succ j => exact hnot j (by omega)
  · rintro ⟨hroom, hrest⟩ i hi hnot
    cases i with
    | zero => exact hroom
    | succ i =>
      refine (hrest.resolve_left (hnot 0 i.succ_pos)) i (by omega) fun j hj => ?_
      exact hnot (j + 1) (by omega)

theorem compareFrom_of_lt (string : Bytes) (h : endIndex < currCP + utf8CodePointCount substr) :
    compareFrom substr endIndex string currCP = some (-1) := by
  cases string <;> exact if_pos h

theorem compareFrom_tail {tail : Bytes} (string : Bytes) (htail : tail.all isUtf8ContinuationByte) :
    compareFrom substr endIndex (tail ++ string) currCP
      = compareFrom substr endIndex string currCP := by
  induction tail with
  | nil => rfl
  | cons b tail ih =>
    rw [all_cons, Bool.and_eq_true] at htail
    rw [← ih htail.2, cons_append, compareFrom, if_pos htail.1]
    split
    · rename_i h
      rw [compareFrom_of_lt _ h]
    · rfl

theorem compareFrom_lead {string : Bytes} {b : UInt8} (hb : isUtf8ContinuationByte b = false)
    (hfirst : rest 0 = b :: string)
    (hrest : (compareFrom substr endIndex string (currCP + 1)).isSome ↔
      RoomUntilFound substr endIndex (currCP + 1) fun i => rest (i + 1)) :
    (compareFrom substr endIndex (rest 0) currCP).isSome ↔
      RoomUntilFound substr endIndex currCP rest := by
  by_cases hle : currCP + utf8CodePointCount substr ≤ endIndex
  · rw [roomUntilFound_iff hle, hfirst, compareFrom, if_neg (not_lt.2 hle),
      if_neg (by rw [hb]; decide), ← hrest]
    split
    · rename_i hroom
      exact iff_of_false Bool.false_ne_true fun h => absurd h.1 (not_le.2 hroom)
    · rename_i hroom
      rw [and_iff_right (not_lt.1 hroom)]
      split
      · rename_i hfound
        exact iff_of_true rfl (Or.inl hfound)
      · rename_i hfound
        rw [or_iff_right hfound]
  · rw [compareFrom_of_lt _ (not_le.1 hle)]
    exact iff_of_true rfl (.of_lt (not_le.1 hle))

theorem compareFrom_isSome_iff (points : List CodePoint)
    (hend : endIndex ≤ currCP + points.length) :
    (compareFrom substr endIndex (behind points 0) currCP).isSome ↔
      RoomUntilFound substr endIndex currCP (behind points) := by
  induction points generalizing currCP with
  | nil =>
    have hlt : endIndex < currCP + 1 + utf8CodePointCount substr := by
      rw [length_nil] at hend
      omega
    refine compareFrom_lead (b := 0) rfl rfl ?_
    rw [compareFrom_of_lt _ hlt]
    exact iff_of_true rfl (.of_lt hlt)
  | cons p points ih =>
    refine compareFrom_lead p.lead_ok (behind_cons p points) ?_
    rw [compareFrom_tail _ p.tail_ok]
    refine ih ?_
    rw [length_cons] at hend
    omega

end

/-- `$indexOfCP` reads only its strings and the zero behind the first, exactly if
at every code point that it compares the substring with there are as many bytes
as the substring has. -/
theorem indexOfCP_inside_iff (string : List CodePoint) (substr : Bytes) (startIndex : Nat)
    (endIndex : Option Nat) :
    (processDollarIndexOfCP (utf8 string) substr startIndex endIndex).isSome ↔
      RoomUntilFound substr (endIndex.elim string.length (min · string.length)) startIndex
        fun i => behind string (startIndex + i) := by
  have hend : endIndex.elim string.length (min · string.length) ≤ string.length := by
    cases endIndex <;> simp
  rw [processDollarIndexOfCP]
  simp only [utf8CodePointCount_utf8]
  generalize endIndex.elim string.length (min · string.length) = n at hend ⊢
  split
  · exact iff_of_true rfl (.of_lt (by omega))
  · rename_i hstart
    have hloop := @compareFrom_isSome_iff substr n startIndex (string.drop startIndex)
      (by rw [length_drop]; omega)
    have hskip := skipCodePoints_behind string startIndex (by omega)
    have hbehind : behind (string.drop startIndex) = fun i => behind string (startIndex + i) := by
      funext i
      rw [behind, behind, drop_drop]
    rw [hbehind] at hloop
    rw [show utf8 string ++ [0] = behind string 0 from rfl, hskip]
    exact hloop

/-- The search for the euro sign, of three bytes, in a string of one. -/
theorem euro_not_inside_a : processDollarIndexOfCP [97] [0xE2, 0x82, 0xAC] 0 none = none := by
  decide

-- ==== $ltrim, $rtrim and $trim

inductive TrimOp where
  | ltrim | rtrim | trim
  deriving DecidableEq

/-- A scan from within a code point: the code points up to the first that does
not pass. A turn reads the byte behind a code point, `after` behind the last. -/
def scanCodePoints (passes : Bytes → Bool) (after : Option UInt8) :
    (current rest : Bytes) → Option (List Bytes)
  | current, [] =>
    after.map fun b => if isUtf8ContinuationByte b then [] else [current].filter passes
  | current, b :: rest =>
    if isUtf8ContinuationByte b then scanCodePoints passes after (current ++ [b]) rest
    else if passes current then (scanCodePoints passes after [b] rest).map (current :: ·)
    else some []

def scanString (passes : Bytes → Bool) (after : Option UInt8) : Bytes → Option (List Bytes)
  | [] => some []
  | b :: rest => scanCodePoints passes after [b] rest

/-- `FillLookUpTableDollarTrim` with characters. -/
def fillLookUpTable (after : Option UInt8) (chars : Bytes) : Option (List Bytes) :=
  scanString (fun _ => true) after chars

/-- `FindStartIndexDollarTrim`. -/
def findStartIndex (table : List Bytes) (after : Option UInt8) (input : Bytes) : Option Nat :=
  (scanString table.contains after input).map fun points => points.flatten.length

/-- `FindEndIndexDollarTrim` over the bytes from the last one on: the number of
bytes that are cut off. -/
def findEndIndex (table : List Bytes) : (current rest : Bytes) → (cut : Nat) → Nat
  | _, [], cut => cut
  | current, b :: rest, cut =>
    if isUtf8ContinuationByte b then findEndIndex table (b :: current) rest cut
    else if table.contains (b :: current) then
      findEndIndex table [] rest (cut + (current.length + 1))
    else cut

variable (op : TrimOp)

/-- On strings that are followed by the bytes `afterChars` and `afterInput`, if any may be
read. -/
def processDollarTrim (chars input : Bytes) (afterChars afterInput : Option UInt8) :
    Option Bytes := do
  let table ← fillLookUpTable afterChars chars
  let startIndex ← if op = .rtrim then some 0 else findStartIndex table afterInput input
  let cut := if op = .ltrim then 0 else findEndIndex table [] input.reverse 0
  return (input.drop startIndex).take (input.length - startIndex - cut)

/-- A string without the code points of `chars` at an end or at both. -/
def trimmed (chars input : List CodePoint) : List CodePoint :=
  let left := if op = .rtrim then input else input.dropWhile (chars.contains ·)
  if op = .ltrim then left else left.rdropWhile (chars.contains ·)

theorem trimmed_nil (input : List CodePoint) : trimmed op [] input = input := by
  have hnone (l : List CodePoint) : l.dropWhile (fun _ => false) = l := by cases l <;> rfl
  cases op <;> simp [trimmed, rdropWhile, hnone]

theorem scanCodePoints_none (passes : Bool) (current rest : Bytes) :
    scanCodePoints (fun _ => passes) none current rest =
      if passes || rest.all isUtf8ContinuationByte then none else some [] := by
  induction rest generalizing current with
  | nil => simp [scanCodePoints]
  | cons b rest ih =>
    by_cases hb : isUtf8ContinuationByte b <;> cases passes <;> simp [scanCodePoints, ih, hb]

theorem scanString_utf8 (passes : Bool) (points : List CodePoint) :
    scanString (fun _ => passes) none (utf8 points) =
      if passes ∧ points ≠ [] ∨ points.length = 1 then none else some [] := by
  match points with
  | [] => simp [scanString]
  | [p] => simp [scanString, scanCodePoints_none, p.tail_ok]
  | p :: q :: points => simp [scanString, scanCodePoints_none, q.lead_ok]

theorem findEndIndex_nil (current rest : Bytes) (cut : Nat) :
    findEndIndex [] current rest cut = cut := by
  induction rest generalizing current with
  | nil => rfl
  | cons b rest ih => simp [findEndIndex, ih]

/-- Without any byte behind the strings, they are all that is read and the input
is trimmed, exactly if `chars` is empty and the input is not of one code point or
not trimmed on the left. -/
theorem processDollarTrim_iff (chars input : List CodePoint) :
    processDollarTrim op (utf8 chars) (utf8 input) none none = some (utf8 (trimmed op chars input))
      ↔ chars = [] ∧ (op = .rtrim ∨ input.length ≠ 1) := by
  rw [processDollarTrim, fillLookUpTable, scanString_utf8]
  cases chars with
  | cons c chars => simp
  | nil =>
    have hnone : ([] : List Bytes).contains = fun _ => false := rfl
    rw [trimmed_nil]
    by_cases hone : input.length = 1 <;> cases op <;>
      simp [findStartIndex, hnone, scanString_utf8, findEndIndex_nil, hone]

/-- `$ltrim` of `a` by `a`. -/
theorem ltrim_reads_behind : processDollarTrim .ltrim [97] [97] none none ≠ some [] := by
  decide

end DocumentDb.Strings
