/-
The values at a dotted path.

A path leads through documents by name, and through arrays by position or into every element
that is a document. At its end an array stands for itself and for its elements, unless it
was reached by its own position in another array (`Reach`). The traversal of a query and the
generation of index terms compute this in their own ways.
-/
import DocumentDb.Bson.Value
import DocumentDb.Lib.Dotted
import Mathlib.Data.Nat.Digits.Lemmas

namespace DocumentDb

open Dotted List Nat

/-- The byte that separates the names of a path. -/
abbrev dot : UInt8 := 46

def dollar : UInt8 := 36

/-- `IdFieldStringView`: `_id`. -/
def idField : Bytes := [95, 105, 100]

/-- The values that are reached from a value by some names. `inArray` says
that the value was reached by its position in an array. -/
inductive Reach : Bool → List Bytes → Value → Value → Prop
  | here (inArray : Bool) (v : Value) : Reach inArray [] v v
  | elem {es : List Value} {e : Value} (he : e ∈ es) :
      Reach false [] (.array es) e
  | field {inArray : Bool} {s : Bytes} {rest : List Bytes} {fs : Fields}
      {v w : Value} (hv : (s, v) ∈ fs) (hw : Reach false rest v w) :
      Reach inArray (s :: rest) (.document fs) w
  | position {inArray : Bool} {i : Nat} {rest : List Bytes}
      {es : List Value} {e w : Value} (he : es[i]? = some e)
      (hw : Reach true rest e w) :
      Reach inArray (arrayKey i :: rest) (.array es) w
  | elemField {inArray : Bool} {s : Bytes} {rest : List Bytes}
      {es : List Value} {fs : Fields} {v w : Value}
      (hfs : .document fs ∈ es) (hv : (s, v) ∈ fs)
      (hw : Reach false rest v w) :
      Reach inArray (s :: rest) (.array es) w

def ValueAt (path : Bytes) (fs : Fields) (v : Value) : Prop :=
  Reach false (segments dot path) (.document fs) v

-- ==== one step

variable {inArray : Bool} {w : Value} {rest : List Bytes} {s : Bytes}

theorem reach_nil_iff {v : Value} :
    Reach inArray [] v w ↔ w = v ∨ inArray = false ∧ ∃ es, v = .array es ∧ w ∈ es := by
  constructor
  · intro h
    cases h with
    | here => exact Or.inl rfl
    | elem he => exact Or.inr ⟨rfl, _, rfl, he⟩
  · rintro (rfl | ⟨rfl, es, rfl, he⟩)
    · exact .here _ _
    · exact .elem he

theorem reach_document_iff {fs : Fields} :
    Reach inArray (s :: rest) (.document fs) w ↔ ∃ v, (s, v) ∈ fs ∧ Reach false rest v w := by
  constructor
  · intro h
    cases h with
    | field hv hw => exact ⟨_, hv, hw⟩
  · rintro ⟨v, hv, hw⟩
    exact .field hv hw

theorem reach_array_iff {es : List Value} : Reach inArray (s :: rest) (.array es) w
      ↔ (∃ i e, es[i]? = some e ∧ s = arrayKey i ∧ Reach true rest e w)
        ∨ ∃ fs, .document fs ∈ es ∧ Reach false (s :: rest) (.document fs) w := by
  constructor
  · intro h
    cases h with
    | position he hw => exact Or.inl ⟨_, _, he, rfl, hw⟩
    | elemField hfs hv hw => exact Or.inr ⟨_, hfs, .field hv hw⟩
  · rintro (⟨i, e, he, rfl, hw⟩ | ⟨fs, hfs, hw⟩)
    · exact .position he hw
    · obtain ⟨v, hv, hw⟩ := reach_document_iff.1 hw
      exact .elemField hfs hv hw

theorem not_reach_scalar {v : Value} (hd : v.type ≠ .document) (ha : v.type ≠ .array) :
    ¬Reach inArray (s :: rest) v w := by
  intro h
  cases h with
  | field => exact hd rfl
  | position | elemField => exact ha rfl

-- ==== well named

mutual

/-- The names of all documents that a path can lead through are not empty,
without a dot, and unique. -/
def Value.wellNamed : Value → Bool
  | .document fs => (fs.map Prod.fst).Nodup && wellNamedFields fs
  | .array es => wellNamedElems es
  | _ => true

def wellNamedFields : Fields → Bool
  | [] => true
  | (k, v) :: fs =>
    k ≠ [] && (dot ∉ k : Bool) && v.wellNamed && wellNamedFields fs

def wellNamedElems : List Value → Bool
  | [] => true
  | v :: es => v.wellNamed && wellNamedElems es

end

theorem wellNamedFields_iff {fs : Fields} :
    wellNamedFields fs ↔ ∀ f ∈ fs, f.1 ≠ [] ∧ dot ∉ f.1 ∧ f.2.wellNamed := by
  induction fs with
  | nil => simp [wellNamedFields]
  | cons f fs ih =>
    obtain ⟨k, v⟩ := f
    simp [wellNamedFields, ih, and_assoc]

theorem wellNamedElems_iff {es : List Value} : wellNamedElems es ↔ ∀ e ∈ es, e.wellNamed := by
  induction es with
  | nil => simp [wellNamedElems]
  | cons e es ih => simp [wellNamedElems, ih]

theorem dot_notMem_arrayKey (i : Nat) : dot ∉ arrayKey i := by
  intro h
  exact absurd (arrayKey_digit h).1 (by decide)

theorem arrayKey_injective : Function.Injective arrayKey := by
  let value (key : Bytes) : Nat := ofDigits 10 (key.reverse.map fun b => b.toNat - 48)
  refine Function.LeftInverse.injective (g := value) fun i => ?_
  by_cases hi : i = 0
  · subst hi
    rfl
  have hread : ∀ d ∈ digits 10 i, (UInt8.ofNat (48 + d)).toNat - 48 = d := by
    intro d hd
    have hlt : d < 10 := digits_lt_base (by norm_num) hd
    simp only [UInt8.toNat_ofNat']
    omega
  simp only [value, arrayKey, if_neg hi, ← map_reverse, reverse_reverse, map_map]
  rw [map_congr_left (g := id) (by simpa using hread), map_id, ofDigits_digits]

theorem length_arrayKey_le {i k : Nat} (hk : 0 < k) (h : i < 10 ^ k) : (arrayKey i).length ≤ k := by
  unfold arrayKey
  split
  · exact hk
  · rw [length_map, length_reverse]
    exact (digits_length_le_iff (by norm_num) i).2 h

def arrayFields (elems : List Value) : Fields := elems.zipIdx.map fun e => (arrayKey e.2, e.1)

end DocumentDb
