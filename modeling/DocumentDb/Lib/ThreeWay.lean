/-
Three-way comparators: functions that answer an integer whose sign is the verdict, as
`memcmp` does.

Such a comparator is an order when exchanging the arguments flips the sign and "at most
zero" is transitive. For the lexicographic step transitivity is too weak: one strict verdict
among the two has to make the composed one strict. `TransAt` is that law at three fixed
verdicts. Both laws have a rule for sequencing (`andThen`); the basic comparators are by an
integer key, by a linear order, and lexicographic on byte strings.
-/
import Mathlib.Data.List.TakeWhile
import Mathlib.Order.Lattice

namespace ThreeWay

open List Int

-- ==== sequencing two verdicts

/-- The first verdict if it decides, the second otherwise. -/
def andThen (x y : Int) : Int := if x ≠ 0 then x else y

@[simp] theorem andThen_zero_left (y : Int) : andThen 0 y = y := rfl

theorem andThen_assoc (x y z : Int) : andThen (andThen x y) z = andThen x (andThen y z) := by
  by_cases hx : x = 0 <;> simp [andThen, hx]

variable {x y ab ba : Int} {a b : List UInt8}

theorem andThen_congr {y' : Int} (h : x = 0 → y = y') : andThen x y = andThen x y' := by
  unfold andThen
  split_ifs with hx
  · rfl
  · exact h (not_not.1 hx)

theorem andThen_eq_zero : andThen x y = 0 ↔ x = 0 ∧ y = 0 := by
  unfold andThen
  split_ifs <;> omega

theorem andThen_le_zero : andThen x y ≤ 0 ↔ x < 0 ∨ (x = 0 ∧ y ≤ 0) := by
  unfold andThen
  split_ifs <;> omega

theorem andThen_lt_zero : andThen x y < 0 ↔ x < 0 ∨ (x = 0 ∧ y < 0) := by
  unfold andThen
  split_ifs <;> omega

theorem andThen_pos : 0 < andThen x y ↔ 0 < x ∨ x = 0 ∧ 0 < y := by
  unfold andThen
  split_ifs <;> omega

-- ==== flip

/-- The verdicts of a pair and of the exchanged pair have opposite sign. -/
structure Flip (ab ba : Int) : Prop where
  neg_iff : ab < 0 ↔ 0 < ba
  pos_iff : 0 < ab ↔ ba < 0

theorem Flip.zero : Flip 0 0 := by
  constructor <;> omega

theorem Flip.eq_zero (h : Flip ab ba) : ab = 0 ↔ ba = 0 := by
  have h₁ := h.neg_iff
  have h₂ := h.pos_iff
  omega

theorem Flip.sign (h : Flip ab ba) : ab.sign = -ba.sign := by
  have h₁ := h.neg_iff
  have h₂ := h.pos_iff
  rcases lt_trichotomy ab 0 with hab | hab | hab
  · rw [sign_eq_neg_one_of_neg hab, sign_eq_one_of_pos (h₁.1 hab)]
  · have hba : ba = 0 := by omega
    rw [hab, hba]
    rfl
  · rw [sign_eq_one_of_pos hab, sign_eq_neg_one_of_neg (h₂.1 hab)]
    rfl

variable {ab' : Int} {α : Type*} {cmp cmp' : α → α → Int}

theorem Flip.andThen {ba' : Int} (h : Flip ab ba) (h' : ab = 0 → Flip ab' ba') :
    Flip (andThen ab ab') (andThen ba ba') := by
  have hz := h.eq_zero
  unfold ThreeWay.andThen
  split_ifs with h₁ h₂ h₂
  · exact h
  · omega
  · omega
  · exact h' (by omega)

-- ==== transitivity

/-- The three verdicts of a triple compose: two verdicts of "at most" give
"at most", and one strict verdict among the two makes the result strict. -/
structure TransAt (ab bc ac : Int) : Prop where
  le : ab ≤ 0 → bc ≤ 0 → ac ≤ 0
  lt_of_lt : ab < 0 → bc ≤ 0 → ac < 0
  lt_of_le : ab ≤ 0 → bc < 0 → ac < 0

theorem TransAt.zero : TransAt 0 0 0 := by
  constructor <;> omega

theorem TransAt.andThen {bc ac bc' ac' : Int} (h : TransAt ab bc ac)
    (h' : ab = 0 → bc = 0 → TransAt ab' bc' ac') :
    TransAt (andThen ab ab') (andThen bc bc') (andThen ac ac') := by
  have h₁ := h.le
  have h₂ := h.lt_of_lt
  have h₃ := h.lt_of_le
  by_cases hz : ab = 0 ∧ bc = 0
  · have h' := h' hz.1 hz.2
    have h₁' := h'.le
    have h₂' := h'.lt_of_lt
    have h₃' := h'.lt_of_le
    refine ⟨?_, ?_, ?_⟩ <;> simp only [andThen_le_zero, andThen_lt_zero] <;> omega
  · refine ⟨?_, ?_, ?_⟩ <;> simp only [andThen_le_zero, andThen_lt_zero] <;> omega

-- ==== total preorders

structure TotalPreorder {α : Type*} (cmp : α → α → Int) : Prop where
  flip : ∀ a b, Flip (cmp a b) (cmp b a)
  trans : ∀ a b c, TransAt (cmp a b) (cmp b c) (cmp a c)

theorem TotalPreorder.refl (h : TotalPreorder cmp) (a : α) : cmp a a = 0 := by
  have h₁ := (h.flip a a).neg_iff
  omega

theorem TotalPreorder.zero : TotalPreorder fun _ _ : α => 0 where
  flip _ _ := Flip.zero
  trans _ _ _ := TransAt.zero

theorem TotalPreorder.neg (h : TotalPreorder cmp) : TotalPreorder fun a b => -cmp a b where
  flip a b := by
    have h₁ := (h.flip a b).neg_iff
    have h₂ := (h.flip a b).pos_iff
    constructor <;> omega
  trans a b c := by
    have hab := (h.flip a b).neg_iff
    have hbc := (h.flip b c).neg_iff
    have hac := (h.flip a c).neg_iff
    have hab' := (h.flip a b).pos_iff
    have hbc' := (h.flip b c).pos_iff
    have hac' := (h.flip a c).pos_iff
    have hle := (h.trans c b a).le
    have hlt := (h.trans c b a).lt_of_lt
    have hlt' := (h.trans c b a).lt_of_le
    constructor <;> omega

theorem TotalPreorder.andThen (h : TotalPreorder cmp) (h' : TotalPreorder cmp') :
    TotalPreorder fun a b => andThen (cmp a b) (cmp' a b) where
  flip a b := (h.flip a b).andThen fun _ => h'.flip a b
  trans a b c := (h.trans a b c).andThen fun _ _ => h'.trans a b c

theorem TotalPreorder.comap {β : Type*} (h : TotalPreorder cmp) (f : β → α) :
    TotalPreorder fun a b => cmp (f a) (f b) where
  flip a b := h.flip (f a) (f b)
  trans a b c := h.trans (f a) (f b) (f c)

/-- The two laws, for one first argument and for others that are related to it. -/
structure LawsAt {α : Type*} (cmp : α → α → Int) (R : α → α → Prop) (a : α) : Prop where
  flip : ∀ b, R a b → Flip (cmp a b) (cmp b a)
  trans : ∀ b c, R a b → R b c → TransAt (cmp a b) (cmp b c) (cmp a c)

theorem TotalPreorder.lawsAt (h : TotalPreorder cmp)
    (R : α → α → Prop) (a : α) : LawsAt cmp R a where
  flip b _ := h.flip a b
  trans b c _ _ := h.trans a b c

theorem LawsAt.andThen {R R' : α → α → Prop} {a : α}
    (h : LawsAt cmp R a) (h' : LawsAt cmp' R' a) (hR : ∀ {a b}, R a b → cmp a b = 0 → R' a b) :
    LawsAt (fun a b => andThen (cmp a b) (cmp' a b)) R a where
  flip b hb := (h.flip b hb).andThen fun hz => h'.flip b (hR hb hz)
  trans b c hb hc := (h.trans b c hb hc).andThen fun hz hz' =>
    h'.trans b c (hR hb hz) (hR hc hz')

-- ==== keys and linear orders

theorem Flip.sub (x y : Int) : Flip (x - y) (y - x) := by
  constructor <;> omega

theorem TransAt.sub (x y z : Int) : TransAt (x - y) (y - z) (x - z) := by
  constructor <;> omega

theorem TotalPreorder.sub : TotalPreorder fun x y : Int => x - y where
  flip := Flip.sub
  trans := TransAt.sub

section Linear

variable {α : Type*} [LinearOrder α]

/-- `a > b ? 1 : (a == b ? 0 : -1)`. -/
def ofOrder (a b : α) : Int := if b < a then 1 else if a = b then 0 else -1

@[simp] theorem ofOrder_self (a : α) : ofOrder a a = 0 := by
  simp [ofOrder]

variable {a b : α}

theorem ofOrder_eq_zero : ofOrder a b = 0 ↔ a = b := by
  unfold ofOrder
  split_ifs with h₁ h₂
  · exact ⟨by omega, fun h => absurd (h ▸ h₁) (lt_irrefl _)⟩
  · simp [h₂]
  · simp [h₂]

theorem ofOrder_le_zero : ofOrder a b ≤ 0 ↔ a ≤ b := by
  unfold ofOrder
  split_ifs with h₁ h₂
  · simpa using h₁
  · simp [h₂]
  · simp [not_lt.1 h₁]

theorem ofOrder_lt_zero : ofOrder a b < 0 ↔ a < b := by
  unfold ofOrder
  split_ifs with h₁ h₂
  · simp [h₁.le]
  · simp [h₂]
  · simp [lt_of_le_of_ne (not_lt.1 h₁) h₂]

theorem ofOrder_pos : 0 < ofOrder a b ↔ b < a := by
  rw [← not_le, ofOrder_le_zero, not_le]

theorem Flip.ofOrder (a b : α) : Flip (ofOrder a b) (ofOrder b a) where
  neg_iff := by rw [ofOrder_lt_zero, ofOrder_pos]
  pos_iff := by rw [ofOrder_lt_zero, ofOrder_pos]

theorem TransAt.ofOrder (a b c : α) : TransAt (ofOrder a b) (ofOrder b c) (ofOrder a c) := by
  refine ⟨?_, ?_, ?_⟩ <;> simp only [ofOrder_le_zero, ofOrder_lt_zero]
  · exact le_trans
  · exact lt_of_lt_of_le
  · exact lt_of_le_of_lt

theorem TotalPreorder.ofOrder : TotalPreorder fun a b : α => ofOrder a b where
  flip := Flip.ofOrder
  trans := TransAt.ofOrder

theorem ofOrder_map {β : Type*} [LinearOrder β] {f : α → β} (hab : a < b → f a < f b)
    (hba : b < a → f b < f a) : ofOrder (f a) (f b) = ofOrder a b := by
  rcases lt_trichotomy a b with h | h | h
  · simp [ThreeWay.ofOrder, (hab h).not_gt, (hab h).ne, h.not_gt, h.ne]
  · simp [h]
  · simp [ThreeWay.ofOrder, hba h, h]

end Linear

-- ==== lists

/-- Element by element; a list that ends first is the smaller one. -/
def listCompare {α : Type*} (cmp : α → α → Int) : List α → List α → Int
  | [], [] => 0
  | _ :: _, [] => 1
  | [], _ :: _ => -1
  | a :: as, b :: bs => andThen (cmp a b) (listCompare cmp as bs)

theorem LawsAt.listCompare {as : List α} (h : ∀ a ∈ as, LawsAt cmp (fun _ _ => True) a) :
    LawsAt (listCompare cmp) (fun _ _ => True) as := by
  induction as with
  | nil =>
    constructor
    · intro bs _
      cases bs <;> constructor <;> simp [ThreeWay.listCompare]
    · intro bs cs _ _
      cases bs <;> cases cs <;> constructor <;> simp [ThreeWay.listCompare]
  | cons a as ih =>
    have ha := h a mem_cons_self
    have has := ih fun a ha => h a (mem_cons_of_mem _ ha)
    constructor
    · intro bs _
      cases bs with
      | nil => constructor <;> simp [ThreeWay.listCompare]
      | cons b bs => exact (ha.flip b trivial).andThen fun _ => has.flip bs trivial
    · intro bs cs _ _
      cases bs with
      | nil => constructor <;> simp [ThreeWay.listCompare]
      | cons b bs =>
        cases cs with
        | nil => constructor <;> simp [ThreeWay.listCompare]
        | cons c cs =>
          exact (ha.trans b c trivial trivial).andThen fun _ _ =>
            has.trans bs cs trivial trivial

-- ==== byte strings

/-- The difference at the first position where two strings differ; zero
when one of them ends first. -/
def memcmp : List UInt8 → List UInt8 → Int
  | x :: xs, y :: ys =>
    if x ≠ y then (x.toNat : Int) - y.toNat else memcmp xs ys
  | _, _ => 0

/-- Lexicographic order: the first difference, then the length. -/
def lex (a b : List UInt8) : Int := andThen (memcmp a b) ((a.length : Int) - b.length)

@[simp] theorem lex_nil_left (b : List UInt8) : lex [] b = -(b.length : Int) := by
  simp [lex, memcmp]

@[simp] theorem lex_nil_right (a : List UInt8) : lex a [] = (a.length : Int) := by
  cases a <;> simp [lex, memcmp]

theorem byte_sub_ne_zero {x y : UInt8} (h : x ≠ y) : (x.toNat : Int) - y.toNat ≠ 0 := by
  intro hz
  exact h (UInt8.toNat_inj.1 (by omega))

theorem lex_cons (x y : UInt8) (xs ys : List UInt8) :
    lex (x :: xs) (y :: ys) = andThen ((x.toNat : Int) - y.toNat) (lex xs ys) := by
  by_cases h : x = y
  · have hlen : ((x :: xs).length : Int) - (y :: ys).length = xs.length - ys.length := by
      simp only [length_cons]
      omega
    rw [lex, hlen]
    simp [lex, memcmp, h]
  · have hne := byte_sub_ne_zero h
    simp [lex, memcmp, h, andThen, hne]

theorem Flip.lex (a b : List UInt8) : Flip (lex a b) (lex b a) := by
  induction a generalizing b with
  | nil => constructor <;> simp
  | cons x xs ih =>
    cases b with
    | nil => constructor <;> simp <;> omega
    | cons y ys =>
      rw [lex_cons, lex_cons]
      exact (Flip.sub _ _).andThen fun _ => ih ys

theorem TransAt.lex (a b c : List UInt8) : TransAt (lex a b) (lex b c) (lex a c) := by
  induction a generalizing b c with
  | nil =>
    -- an empty first string is below everything but the empty string
    cases c with
    | nil => cases b <;> constructor <;> simp <;> omega
    | cons z zs => constructor <;> simp <;> intros <;> omega
  | cons x xs ih =>
    cases b with
    | nil => constructor <;> simp <;> omega
    | cons y ys =>
      cases c with
      | nil => constructor <;> simp <;> omega
      | cons z zs =>
        rw [lex_cons, lex_cons, lex_cons]
        exact (TransAt.sub _ _ _).andThen fun _ _ => ih ys zs

theorem TotalPreorder.lex : TotalPreorder lex where
  flip := Flip.lex
  trans := TransAt.lex

theorem memcmp_eq_lex (h : a.length = b.length) : memcmp a b = lex a b := by
  unfold lex andThen
  split_ifs with h₁
  · rfl
  · omega

/-- The strings end at their first zero byte. -/
def strcmp (a b : List UInt8) : Int := lex (a.takeWhile (· ≠ 0)) (b.takeWhile (· ≠ 0))

theorem lex_eq_zero : lex a b = 0 ↔ a = b := by
  induction a generalizing b with
  | nil => cases b <;> simp; omega
  | cons x xs ih =>
    cases b with
    | nil => simp; omega
    | cons y ys =>
      rw [lex_cons, andThen_eq_zero, ih, List.cons.injEq]
      refine and_congr_left' ⟨fun h => ?_, fun h => by simp [h]⟩
      exact UInt8.toNat_inj.1 (by omega)

theorem strcmp_eq_zero (ha : 0 ∉ a) (hb : 0 ∉ b) : strcmp a b = 0 ↔ a = b := by
  have hself : ∀ {s : List UInt8}, 0 ∉ s → s.takeWhile (· ≠ 0) = s := by
    intro s hs
    refine takeWhile_eq_self_iff.2 fun x hx => ?_
    simpa using fun h : x = 0 => hs (h ▸ hx)
  rw [strcmp, hself ha, hself hb, lex_eq_zero]

theorem lex_take (m : Nat) (h : lex a b < 0) :
    lex (a.take m) (b.take m) < 0 ∨ a.take m = b.take m ∧ m ≤ a.length ∧ m ≤ b.length := by
  induction m generalizing a b with
  | zero => exact Or.inr (by simp)
  | succ m ih =>
    cases a with
    | nil =>
      cases b with
      | nil => simp at h
      | cons y ys =>
        left
        simp only [take_nil, take_succ_cons, lex_nil_left, length_cons]
        omega
    | cons x xs =>
      cases b with
      | nil =>
        rw [lex_nil_right] at h
        omega
      | cons y ys =>
        rw [lex_cons, andThen_lt_zero] at h
        simp only [take_succ_cons, lex_cons, andThen_lt_zero]
        rcases h with hxy | ⟨hxy, hrest⟩
        · exact Or.inl (Or.inl hxy)
        · have hx : x = y := by
            by_contra hne
            exact byte_sub_ne_zero hne hxy
          rcases ih hrest with hlt | ⟨heq, hxs, hys⟩
          · exact Or.inl (Or.inr ⟨hxy, hlt⟩)
          · refine Or.inr ⟨by rw [hx, heq], ?_, ?_⟩
            · exact Nat.succ_le_succ hxs
            · exact Nat.succ_le_succ hys

end ThreeWay
