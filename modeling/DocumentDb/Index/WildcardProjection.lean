/-
The paths of an index with a wildcard projection:
`GetWildcardProjectionPathIndexTraverseOption`.

The listed paths are tried in their order, and the first that says something
about the current path decides: one that covers it, or a longer one that starts
with its bytes. The second test does not ask for a dot behind these bytes, so
`ab` takes the terms of `a` from the index if it is listed before `a`.
-/
import DocumentDb.Index.Generate

namespace DocumentDb

open Dotted ThreeWay List

-- ==== the option of a path

/-- With the paths of `pathSpec`. -/
structure BsonGinWildcardProjectionPathOptions where
  isExclusion : Bool
  includeId : Bool
  pathSpec : List Bytes

def optionAtIndexPath (isExclusion : Bool) (currentPath indexPath : Bytes) :
    Option IndexTraverseOption :=
  let strncmp (n : Nat) := strcmp (indexPath.take n) (currentPath.take n)
  if (indexPath.length ≤ currentPath.length ∧ strncmp indexPath.length = 0)
      ∧ (indexPath.length + 1 ≤ currentPath.length ∧ currentPath[indexPath.length]? = some dot
        ∨ indexPath.length = currentPath.length) then
    some (if isExclusion then .invalid else .matchAndRecurse)
  else if currentPath.length < indexPath.length ∧ strncmp currentPath.length = 0
      ∧ isExclusion = false then
    some .recurse
  else none

def getWildcardProjectionPathIndexTraverseOption (option : BsonGinWildcardProjectionPathOptions)
    (currentPath : Bytes) : IndexTraverseOption :=
  match option.pathSpec.findSome? (optionAtIndexPath option.isExclusion currentPath) with
  | some traverse => traverse
  | none =>
    if currentPath = idField then
      if option.includeId then .matchAndRecurse else .invalid
    else if option.isExclusion then .matchAndRecurse
    else .invalid

-- ==== one listed path

variable (p q : Bytes)

/-- The path `p` is `q` or lies below it. -/
def IsAtOrBelow : Prop := p = q ∨ q ++ [dot] <+: p

instance decidableIsAtOrBelow : Decidable (IsAtOrBelow p q) :=
  inferInstanceAs (Decidable (_ ∨ _))

/-- The bytes of `p` are the start of the longer path `q`. -/
abbrev StartsLonger : Prop := p <+: q ∧ p.length < q.length

section Inclusion

variable {p q : Bytes}

theorem not_startsLonger_of_isAtOrBelow (h : IsAtOrBelow p q) : ¬ StartsLonger p q := by
  intro hstarts
  have hlt := hstarts.2
  rcases h with rfl | h
  · exact Nat.lt_irrefl _ hlt
  · have hle := h.length_le
    rw [length_append] at hle
    omega

theorem startsLonger_of_isAtOrBelow (h : IsAtOrBelow q p) (hne : q ≠ p) : StartsLonger p q := by
  have hpre := h.resolve_left hne
  have hle := hpre.length_le
  rw [length_append, length_singleton] at hle
  exact ⟨(prefix_append p [dot]).trans hpre, hle⟩

theorem isAtOrBelow_iff : IsAtOrBelow p q ↔ (q.length ≤ p.length ∧ q = p.take q.length)
      ∧ (q.length + 1 ≤ p.length ∧ p[q.length]? = some dot ∨ q.length = p.length) := by
  constructor
  · rintro (rfl | ⟨rest, rfl⟩) <;> simp
  · rintro ⟨⟨-, htake⟩, ⟨-, hdot⟩ | hlength⟩
    · right
      rw [prefix_iff_eq_take, length_append, length_singleton, take_add_one, hdot, ← htake]
      rfl
    · left
      rw [htake, hlength, take_length]

theorem optionAtIndexPath_eq (hp : 0 ∉ p) (hq : 0 ∉ q) : optionAtIndexPath false p q
      = if IsAtOrBelow p q then some .matchAndRecurse
        else if StartsLonger p q then some .recurse
        else none := by
  have hcmp (n : Nat) : strcmp (q.take n) (p.take n) = 0 ↔ q.take n = p.take n :=
    strcmp_eq_zero (fun h => hq (mem_of_mem_take h)) fun h => hp (mem_of_mem_take h)
  unfold optionAtIndexPath
  refine if_congr ?_ rfl (if_congr ?_ rfl rfl)
  · rw [isAtOrBelow_iff, hcmp, take_length]
  · rw [hcmp, take_length, StartsLonger, prefix_iff_eq_take, @eq_comm _ p, and_comm]
    exact and_congr_left fun _ => and_iff_left rfl

end Inclusion

-- ==== the listed paths

/-- The option of a path for an inclusion of some paths. -/
abbrev inclusionOption (includeId : Bool) (paths : List Bytes) (p : Bytes) : IndexTraverseOption :=
  getWildcardProjectionPathIndexTraverseOption ⟨false, includeId, paths⟩ p

/-- The terms of `p` are those that the listed paths select, in whichever order
they are listed. -/
structure SelectsByPaths (includeId : Bool) (paths : List Bytes) (p : Bytes) : Prop where
  perm : ∀ paths', paths'.Perm paths →
    inclusionOption includeId paths' p = inclusionOption includeId paths p
  matches_iff : inclusionOption includeId paths p = .matchAndRecurse ↔ ∃ q ∈ paths, IsAtOrBelow p q
  invalid : inclusionOption includeId paths p = .invalid → ∀ q ∈ paths, ¬ IsAtOrBelow q p

section Listed

variable {includeId : Bool} {paths : List Bytes} {p : Bytes}

theorem inclusionOption_of_first {q : Bytes} {traverse : IndexTraverseOption}
    (hq : optionAtIndexPath false p q = some traverse) :
    inclusionOption includeId (q :: paths) p = traverse := by
  unfold inclusionOption getWildcardProjectionPathIndexTraverseOption
  rw [findSome?_cons_of_isSome (by rw [hq]; rfl), hq]

/-- One listed path covers `p`, and another one starts with its bytes. -/
def Ambiguous (paths : List Bytes) (p : Bytes) : Prop :=
  (∃ q ∈ paths, IsAtOrBelow p q) ∧ ∃ q ∈ paths, StartsLonger p q

theorem Ambiguous.perm {paths' : List Bytes} (hperm : paths'.Perm paths)
    (h : Ambiguous paths' p) : Ambiguous paths p := by
  simpa only [Ambiguous, hperm.mem_iff] using h

variable (hid : p ≠ idField) (hp : 0 ∉ p) (hpaths : ∀ q ∈ paths, 0 ∉ q)
include hid hp hpaths

theorem inclusionOption_eq (h : ¬ Ambiguous paths p) : inclusionOption includeId paths p
      = if ∃ q ∈ paths, IsAtOrBelow p q then .matchAndRecurse
        else if ∃ q ∈ paths, StartsLonger p q then .recurse
        else .invalid := by
  unfold inclusionOption getWildcardProjectionPathIndexTraverseOption
  cases hfind : paths.findSome? (optionAtIndexPath false p) with
  | some traverse =>
    obtain ⟨before, q, after, hlist, hq, -⟩ := findSome?_eq_some_iff.1 hfind
    have hmem : q ∈ paths := by simp [hlist]
    rw [optionAtIndexPath_eq hp (hpaths q hmem)] at hq
    split_ifs at hq with hbelow hstarts
    · cases hq
      exact (if_pos ⟨q, hmem, hbelow⟩).symm
    · cases hq
      have hnot (hbelow : ∃ q ∈ paths, IsAtOrBelow p q) := h ⟨hbelow, q, hmem, hstarts⟩
      exact ((if_neg hnot).trans (if_pos ⟨q, hmem, hstarts⟩)).symm
  | none =>
    have hnone (q : Bytes) (hq : q ∈ paths) : ¬ IsAtOrBelow p q ∧ ¬ StartsLonger p q := by
      have hoption := findSome?_eq_none_iff.1 hfind q hq
      rw [optionAtIndexPath_eq hp (hpaths q hq)] at hoption
      split_ifs at hoption with hbelow hstarts
      exact ⟨hbelow, hstarts⟩
    rw [if_neg (show ¬ ∃ q ∈ paths, IsAtOrBelow p q from
        not_exists.2 fun q h => (hnone q h.1).1 h.2),
      if_neg (show ¬ ∃ q ∈ paths, StartsLonger p q from
        not_exists.2 fun q h => (hnone q h.1).2 h.2)]
    exact if_neg hid

/-- An inclusion selects by its paths alone if and only if they are not
ambiguous. -/
theorem selectsByPaths_iff : SelectsByPaths includeId paths p ↔ ¬ Ambiguous paths p := by
  constructor
  · rintro h ⟨⟨q, hq, hbelow⟩, r, hr, hstarts⟩
    -- with the one or the other in front
    have hfirst (q : Bytes) (hq : q ∈ paths) := h.perm _ (perm_cons_erase hq).symm
    have hmatch : optionAtIndexPath false p q = some .matchAndRecurse := by
      rw [optionAtIndexPath_eq hp (hpaths q hq), if_pos hbelow]
    have hrecurse : optionAtIndexPath false p r = some .recurse := by
      rw [optionAtIndexPath_eq hp (hpaths r hr),
        if_neg fun hat => not_startsLonger_of_isAtOrBelow hat hstarts, if_pos hstarts]
    have hsame := (hfirst q hq).trans (hfirst r hr).symm
    rw [inclusionOption_of_first hmatch, inclusionOption_of_first hrecurse] at hsame
    cases hsame
  · intro h
    have hoption := @inclusionOption_eq includeId paths p hid hp hpaths h
    constructor
    · intro paths' hperm
      have hpaths' (q : Bytes) (hq : q ∈ paths') := hpaths q (hperm.mem_iff.1 hq)
      rw [hoption, inclusionOption_eq hid hp hpaths' fun h' => h (h'.perm hperm)]
      simp only [hperm.mem_iff]
    · rw [hoption]
      split_ifs with hbelow hstarts <;> simp [hbelow]
    · rw [hoption]
      split_ifs with hbelow hstarts
      · simp
      · simp
      · intro _ q hq hat
        by_cases heq : q = p
        · exact hbelow ⟨q, hq, Or.inl heq.symm⟩
        · exact hstarts ⟨q, hq, startsLonger_of_isAtOrBelow hat heq⟩

end Listed

theorem selectsByPaths_a_b : SelectsByPaths true [[97], [98]] [97] := by
  refine (selectsByPaths_iff (by decide) (by decide) (by decide)).2 ?_
  simp [Ambiguous]

/-- `ab` in front of `a` takes the terms of `a` from the index. -/
theorem not_selectsByPaths_ab_a : ¬ SelectsByPaths true [[97, 98], [97]] [97] := by
  intro h
  exact absurd (h.matches_iff.2 ⟨[97], by simp, Or.inl rfl⟩) (by decide)

end DocumentDb
