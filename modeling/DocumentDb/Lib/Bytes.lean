/-
Reading and writing the pieces of a binary format: little-endian words,
counted byte strings and zero-terminated strings.

A reader takes the front of a byte string and answers what it read with the
rest, or nothing when the bytes do not suffice. Each writer comes with the
law that its reader gets back what was written, whatever follows it.
-/
import Mathlib.Data.List.Basic
import Mathlib.Data.List.TakeWhile
import Mathlib.Data.Nat.ModEq

namespace Wire

-- ==== little-endian words

/-- The low `w` bytes of `n`, the lowest first. -/
def leBytes : Nat → Nat → List UInt8
  | 0, _ => []
  | w + 1, n => UInt8.ofNat (n % 256) :: leBytes w (n / 256)

def leNat : List UInt8 → Nat
  | [] => 0
  | b :: bs => b.toNat + 256 * leNat bs

@[simp] theorem length_leBytes (w n : Nat) : (leBytes w n).length = w := by
  induction w generalizing n with
  | zero => rfl
  | succ w ih => simp [leBytes, ih]

theorem leNat_leBytes (w n : Nat) : leNat (leBytes w n) = n % 256 ^ w := by
  induction w generalizing n with
  | zero => simp [leBytes, leNat, Nat.mod_one]
  | succ w ih =>
    have hb : (UInt8.ofNat (n % 256)).toNat = n % 256 := by
      simp [UInt8.toNat_ofNat']
    rw [leBytes, leNat, ih, hb, Nat.pow_succ, Nat.mul_comm _ 256, Nat.mod_mul]

theorem leNat_leBytes_of_lt {w n : Nat} (h : n < 256 ^ w) : leNat (leBytes w n) = n := by
  rw [leNat_leBytes, Nat.mod_eq_of_lt h]

theorem leNat_lt (bs : List UInt8) : leNat bs < 256 ^ bs.length := by
  induction bs with
  | nil => exact Nat.one_pos
  | cons b bs ih =>
    have hb : b.toNat < 256 := b.toNat_lt
    rw [leNat, List.length_cons, Nat.pow_succ]
    omega

theorem leBytes_word_inj {x y : UInt64} : leBytes 8 x.toNat = leBytes 8 y.toNat ↔ x = y := by
  constructor
  · intro h
    have := congrArg leNat h
    rw [leNat_leBytes_of_lt x.toNat_lt, leNat_leBytes_of_lt y.toNat_lt] at this
    exact UInt64.toNat_inj.1 this
  · intro h
    rw [h]

-- ==== readers

/-- The next `n` bytes. -/
def readBytes (n : Nat) (bs : List UInt8) : Option (List UInt8 × List UInt8) :=
  if n ≤ bs.length then some (bs.take n, bs.drop n) else none

/-- The next word of `w` bytes. -/
def readWord (w : Nat) (bs : List UInt8) : Option (Nat × List UInt8) :=
  (readBytes w bs).map fun p => (leNat p.1, p.2)

/-- What a C program takes the bytes for: all of them up to the first zero. -/
def cString (s : List UInt8) : List UInt8 := s.takeWhile (· ≠ 0)

theorem cString_eq_self_iff (s : List UInt8) : cString s = s ↔ 0 ∉ s := by
  unfold cString
  rw [List.takeWhile_eq_self_iff]
  simp only [decide_eq_true_eq]
  exact ⟨fun h h0 => h 0 h0 rfl, fun h b hb hb0 => h (hb0 ▸ hb)⟩

theorem zero_notMem_cString (s : List UInt8) : 0 ∉ cString s := by
  intro h
  simpa using List.mem_takeWhile_imp h

def readCString : List UInt8 → Option (List UInt8 × List UInt8)
  | [] => none
  | b :: bs =>
    if b = 0 then some ([], bs)
    else (readCString bs).map fun p => (b :: p.1, p.2)

theorem readBytes_append {n : Nat} {a : List UInt8} (h : a.length = n)
    (r : List UInt8) : readBytes n (a ++ r) = some (a, r) := by
  unfold readBytes
  rw [if_pos (by simp [h]), List.take_left' h, List.drop_left' h]

theorem readWord_append {w n : Nat} (h : n < 256 ^ w) (r : List UInt8) :
    readWord w (leBytes w n ++ r) = some (n, r) := by
  rw [readWord, readBytes_append (length_leBytes w n)]
  simp [leNat_leBytes_of_lt h]

theorem readCString_append {a : List UInt8} (h : 0 ∉ a)
    (r : List UInt8) : readCString (a ++ 0 :: r) = some (a, r) := by
  induction a with
  | nil => simp [readCString]
  | cons b a ih =>
    obtain ⟨hb, ha⟩ : 0 ≠ b ∧ 0 ∉ a := by simpa using h
    simp [readCString, ih ha, Ne.symm hb]

end Wire
