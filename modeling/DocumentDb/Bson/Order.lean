/-
The comparison of BSON values and documents is an order.

For the contents of one class this is an induction on the first value: the elements of two
containers are compared by class before their contents, so the laws may assume that the
classes agree, and the rules of `ThreeWay` assemble the rest. Numbers enter through
`compareNumbers_fst`.
-/
import DocumentDb.Bson.Compare
import DocumentDb.Bson.Encode

namespace DocumentDb

open ThreeWay

-- ==== strings and classes

variable {s t : Bytes} {v w : Value}

theorem isNumberOrBool_of_class (h : v.sortOrderType = w.sortOrderType)
    (hw : w.isNumberOrBool) : v.isNumberOrBool := by
  have hv := v.class_cases
  rw [h] at hv
  cases w <;> first | exact hv | simp [Value.isNumberOrBool, Value.isNumber] at hw

theorem isNumber_of_class (h : v.sortOrderType = w.sortOrderType) (hw : w.isNumber) :
    v.isNumber := by
  cases w <;> simp [Value.isNumber] at hw <;>
    cases v <;> first | rfl | simp [Value.sortOrderType] at h

theorem isScalar_of_class (h : v.sortOrderType = w.sortOrderType) (hv : v.isScalar) :
    w.isScalar := by
  have hc := v.class_cases
  rw [h] at hc
  cases w with
  | document gs => obtain ⟨fs, rfl⟩ := hc; exact hv
  | array gs => obtain ⟨es, rfl⟩ := hc; exact hv
  | codeWScope c gs => obtain ⟨c, fs, rfl⟩ := hc; exact hv
  | _ => rfl

-- ==== scalars that are equal

/-- One representative of the scalars that compare equal, numbers apart:
symbols are strings, undefined is null, C strings end at their zero. -/
def Value.canonScalar : Value → Value
  | symbol s => utf8 s
  | undefined => null
  | regex pat opt => regex (pat.takeWhile (· ≠ 0)) (opt.takeWhile (· ≠ 0))
  | v => v

theorem eq_of_memcmp_oid {o o' : Oid} (h : memcmp o.bytes o'.bytes = 0) : o = o' := by
  rw [memcmp_eq_lex (o.length_eq.trans o'.length_eq.symm), lex_eq_zero] at h
  cases o
  cases o'
  simpa using h

theorem eq_of_compareStrings (h : compareStrings s t = 0) : s = t := by
  rwa [compareStrings_eq, lex_eq_zero] at h

theorem int64_eq_of_ofOrder {m n : Int64} (h : ofOrder m.toInt n.toInt = 0) : m = n :=
  Int64.toInt_inj.1 (ofOrder_eq_zero.1 h)

theorem uint32_eq_of_ofOrder {m n : UInt32} (h : ofOrder m.toNat n.toNat = 0) : m = n :=
  UInt32.toNat_inj.1 (ofOrder_eq_zero.1 h)

theorem bool_eq_of_compare [BidLib] {c d : Bool}
    (h : (compareScalar (.bool c) (.bool d)).1 = 0) : c = d := by
  rw [compareScalar_number rfl, compareNumbers_fst rfl rfl,
    ofOrder_numberKey rfl rfl (by simp) (by simp), ofOrder_eq_zero] at h
  have h' := Num.fin.inj h
  cases c <;> cases d <;> simp at h' ⊢

theorem canonScalar_eq_of_compare [BidLib] {a b : Value}
    (ha : a.isScalar) (hn : a.isNumber = false) (hab : a.sortOrderType = b.sortOrderType)
    (h : (compareScalar a b).1 = 0) : a.canonScalar = b.canonScalar := by
  have hb := b.class_cases
  rw [← hab] at hb
  cases a with
  | utf8 s =>
    obtain ⟨t, rfl | rfl⟩ := hb
    · rw [eq_of_compareStrings h]
    · rw [eq_of_compareStrings h]
      rfl
  | symbol s =>
    obtain ⟨t, rfl | rfl⟩ := hb
    · rw [eq_of_compareStrings h]
      rfl
    · rw [eq_of_compareStrings h]
  | binary sub data =>
    obtain ⟨sub', data', rfl⟩ := hb
    obtain ⟨hlen, h⟩ := andThen_eq_zero.1 h
    obtain ⟨hsub, hdata⟩ := andThen_eq_zero.1 h
    have hsub' : sub = sub' := UInt8.toNat_inj.1 (by omega)
    rw [memcmp_eq_lex (by omega), lex_eq_zero] at hdata
    rw [hsub', hdata]
  | oid o =>
    obtain ⟨o', rfl⟩ := hb
    rw [eq_of_memcmp_oid h]
  | bool c =>
    cases b with
    | bool d => rw [bool_eq_of_compare h]
    | _ => simp [Value.sortOrderType] at hab
  | dateTime ms =>
    obtain ⟨ms', rfl⟩ := hb
    rw [int64_eq_of_ofOrder h]
  | timestamp sec inc =>
    obtain ⟨sec', inc', rfl⟩ := hb
    obtain ⟨hsec, hinc⟩ := andThen_eq_zero.1 h
    rw [uint32_eq_of_ofOrder hsec, uint32_eq_of_ofOrder hinc]
  | regex pat opt =>
    obtain ⟨pat', opt', rfl⟩ := hb
    obtain ⟨hpat, hopt⟩ := andThen_eq_zero.1 h
    rw [strcmp, lex_eq_zero] at hpat hopt
    rw [Value.canonScalar, Value.canonScalar, hpat, hopt]
  | code s =>
    obtain ⟨t, rfl⟩ := hb
    rw [eq_of_compareStrings h]
  | dbPointer s o =>
    obtain ⟨t, o', rfl⟩ := hb
    obtain ⟨hs, ho⟩ := andThen_eq_zero.1 h
    rw [eq_of_compareStrings hs, eq_of_memcmp_oid ho]
  | document fs | array es | codeWScope c fs => simp [Value.isScalar] at ha
  | double _ | int32 _ | int64 _ | decimal128 _ => simp [Value.isNumber] at hn
  | minKey => rw [show b = .minKey from hb]
  | maxKey => rw [show b = .maxKey from hb]
  | null | undefined => obtain rfl | rfl := hb <;> rfl

section Order

variable [BidLib]

-- ==== scalars

variable {a b : Value} {fs : Fields}

omit [BidLib] in
theorem memcmp_oid_eq (o o' : Oid) : memcmp o.bytes o'.bytes = lex o.bytes o'.bytes :=
  memcmp_eq_lex (o.length_eq.trans o'.length_eq.symm)

/-- The parts of a scalar that are compared: texts, a time, and two numbers. -/
private def parts : Value → (Bytes × Bytes) × Int × Nat × Nat
  | .utf8 s | .symbol s | .code s => ((s, []), 0, 0, 0)
  | .oid o => ((o.bytes, []), 0, 0, 0)
  | .binary sub data => ((data, []), 0, sub.toNat, 0)
  | .dateTime ms => (([], []), ms.toInt, 0, 0)
  | .timestamp sec inc => (([], []), 0, sec.toNat, inc.toNat)
  | .regex pat opt => ((pat.takeWhile (· ≠ 0), opt.takeWhile (· ≠ 0)), 0, 0, 0)
  | .dbPointer s o => ((s, o.bytes), 0, 0, 0)
  | _ => (([], []), 0, 0, 0)

theorem exists_key (ha : a.isScalar) :
    ∃ (K : Type) (cmp : K → K → Int) (key : Value → K), TotalPreorder cmp
      ∧ ∀ b c, a.sortOrderType = b.sortOrderType → a.sortOrderType = c.sortOrderType →
        (compareScalar b c).1 = cmp (key b) (key c) := by
  by_cases hn : a.isNumberOrBool
  · refine ⟨_, _, numberKey, TotalPreorder.ofOrder, fun b c hb hc => ?_⟩
    have hb := isNumberOrBool_of_class hb.symm hn
    have hc := isNumberOrBool_of_class hc.symm hn
    rw [compareScalar_number hb, compareNumbers_fst hb hc]
  have hform : ∀ b : Value, a.sortOrderType = b.sortOrderType → _ := fun b h => h ▸ b.class_cases
  have hfirst := TotalPreorder.lex.comap fun x : (Bytes × Bytes) × Int × Nat × Nat => x.1.1
  have hboth := hfirst.andThen (TotalPreorder.lex.comap fun x => x.1.2)
  cases a with
  | utf8 _ | symbol _ =>
    refine ⟨_, _, parts, hfirst, fun b c hb hc => ?_⟩
    obtain ⟨s, rfl | rfl⟩ := hform b hb <;> obtain ⟨t, rfl | rfl⟩ := hform c hc <;>
      exact compareStrings_eq s t
  | code _ =>
    refine ⟨_, _, parts, hfirst, fun b c hb hc => ?_⟩
    obtain ⟨s, rfl⟩ := hform b hb
    obtain ⟨t, rfl⟩ := hform c hc
    exact compareStrings_eq s t
  | oid _ =>
    refine ⟨_, _, parts, hfirst, fun b c hb hc => ?_⟩
    obtain ⟨o, rfl⟩ := hform b hb
    obtain ⟨o', rfl⟩ := hform c hc
    exact memcmp_oid_eq o o'
  | binary _ _ =>
    refine ⟨_, _, parts, (TotalPreorder.sub.comap fun x => (x.1.1.length : Int)).andThen
      ((TotalPreorder.sub.comap fun x => (x.2.2.1 : Int)).andThen hfirst),
      fun b c hb hc => ?_⟩
    obtain ⟨sub, data, rfl⟩ := hform b hb
    obtain ⟨sub', data', rfl⟩ := hform c hc
    exact andThen_congr fun hlength => andThen_congr fun _ => memcmp_eq_lex (by omega)
  | dateTime _ =>
    refine ⟨_, _, parts, TotalPreorder.ofOrder.comap fun x => x.2.1, fun b c hb hc => ?_⟩
    obtain ⟨ms, rfl⟩ := hform b hb
    obtain ⟨ms', rfl⟩ := hform c hc
    rfl
  | timestamp _ _ =>
    refine ⟨_, _, parts, (TotalPreorder.ofOrder.comap fun x => x.2.2.1).andThen
      (TotalPreorder.ofOrder.comap fun x => x.2.2.2), fun b c hb hc => ?_⟩
    obtain ⟨sec, inc, rfl⟩ := hform b hb
    obtain ⟨sec', inc', rfl⟩ := hform c hc
    rfl
  | regex _ _ =>
    refine ⟨_, _, parts, hboth, fun b c hb hc => ?_⟩
    obtain ⟨pat, opt, rfl⟩ := hform b hb
    obtain ⟨pat', opt', rfl⟩ := hform c hc
    rfl
  | dbPointer _ _ =>
    refine ⟨_, _, parts, hboth, fun b c hb hc => ?_⟩
    obtain ⟨s, o, rfl⟩ := hform b hb
    obtain ⟨t, o', rfl⟩ := hform c hc
    show andThen (compareStrings s t) (memcmp o.bytes o'.bytes) = _
    rw [compareStrings_eq, memcmp_oid_eq]
    rfl
  | minKey | maxKey =>
    refine ⟨Unit, _, fun _ => (), TotalPreorder.zero, fun b c hb hc => ?_⟩
    rw [hform b hb, hform c hc]
    rfl
  | null | undefined =>
    refine ⟨Unit, _, fun _ => (), TotalPreorder.zero, fun b c hb hc => ?_⟩
    obtain rfl | rfl := hform b hb <;> obtain rfl | rfl := hform c hc <;> rfl
  | document _ | array _ | codeWScope _ _ => simp [Value.isScalar] at ha
  | _ => exact absurd rfl hn

-- ==== containers

def compareElement (f g : Bytes × Value) : Int :=
  andThen (compareBsonSortOrderType f.2 g.2)
    (andThen (compareStrings f.1 g.1) (compareBsonValue f.2 g.2).1)

theorem compareBsonIter_eq : compareBsonIter = listCompare compareElement := by
  funext fs gs
  induction fs generalizing gs with
  | nil => cases gs <;> rfl
  | cons f fs ih =>
    cases gs with
    | nil => rfl
    | cons g gs =>
      rw [listCompare, compareElement, andThen_assoc, andThen_assoc, ← ih]
      rfl

theorem compareArrayIter_eq :
    compareArrayIter = listCompare fun v w => (compareBsonValueAndType v w).1 := by
  funext es gs
  induction es generalizing gs with
  | nil => cases gs <;> rfl
  | cons v es ih =>
    cases gs with
    | nil => rfl
    | cons w gs =>
      rw [listCompare, compareBsonValueAndType_fst, andThen_assoc, ← ih]
      rfl

def ContentLaws (a : Value) : Prop :=
  LawsAt (fun a b => (compareBsonValue a b).1) (fun a b => a.sortOrderType = b.sortOrderType) a

theorem ContentLaws.compareBsonValueAndType (h : ContentLaws a) :
    LawsAt (fun a b => (compareBsonValueAndType a b).1) (fun _ _ => True) a := by
  simp only [compareBsonValueAndType_fst]
  exact ((TotalPreorder.sub.comap Value.sortOrderType).lawsAt _ a).andThen h fun _ => sub_eq_zero.1

omit [BidLib] in
theorem compareStrings_totalPreorder : TotalPreorder compareStrings := by
  rw [show compareStrings = lex from funext₂ compareStrings_eq]
  exact TotalPreorder.lex

theorem ContentLaws.compareBsonIter (h : ∀ f ∈ fs, ContentLaws f.2) :
    LawsAt compareBsonIter (fun _ _ => True) fs := by
  rw [compareBsonIter_eq]
  refine LawsAt.listCompare fun f hf => ?_
  have hvalue : LawsAt (fun f g : Bytes × Value => (compareBsonValue f.2 g.2).1)
      (fun f g => f.2.sortOrderType = g.2.sortOrderType) f :=
    ⟨fun g => (h f hf).flip g.2, fun g g' => (h f hf).trans g.2 g'.2⟩
  exact ((TotalPreorder.sub.comap fun f => f.2.sortOrderType).lawsAt _ f).andThen
    (((compareStrings_totalPreorder.comap Prod.fst).lawsAt _ f).andThen hvalue
      fun h _ => h) fun _ => sub_eq_zero.1

theorem contentLaws (a : Value) : ContentLaws a := by
  have hform : ∀ {a b : Value}, a.sortOrderType = b.sortOrderType → _ :=
    fun {a b} h => h ▸ b.class_cases
  induction a using Value.induction with
  | document fs ih =>
    have hlist := ContentLaws.compareBsonIter ih
    constructor
    · intro b hb
      obtain ⟨gs, rfl⟩ := hform hb
      exact hlist.flip gs trivial
    · intro b c hb hc
      obtain ⟨gs, rfl⟩ := hform hb
      obtain ⟨hs, rfl⟩ := hform hc
      exact hlist.trans gs hs trivial trivial
  | array es ih =>
    have hlist : LawsAt compareArrayIter (fun _ _ => True) es := by
      rw [compareArrayIter_eq]
      exact LawsAt.listCompare fun v hv => (ih v hv).compareBsonValueAndType
    constructor
    · intro b hb
      obtain ⟨gs, rfl⟩ := hform hb
      exact hlist.flip gs trivial
    · intro b c hb hc
      obtain ⟨gs, rfl⟩ := hform hb
      obtain ⟨hs, rfl⟩ := hform hc
      exact hlist.trans gs hs trivial trivial
  | codeWScope s fs ih =>
    have hlist := ContentLaws.compareBsonIter ih
    constructor
    · intro b hb
      obtain ⟨t, gs, rfl⟩ := hform hb
      exact (compareStrings_totalPreorder.flip s t).andThen fun _ => hlist.flip gs trivial
    · intro b c hb hc
      obtain ⟨t, gs, rfl⟩ := hform hb
      obtain ⟨u, hs, rfl⟩ := hform hc
      exact (compareStrings_totalPreorder.trans s t u).andThen fun _ _ =>
        hlist.trans gs hs trivial trivial
  | scalar a ha =>
    obtain ⟨K, cmp, key, hcmp, hkey⟩ := exists_key ha
    have hscalar : ∀ {b c : Value}, a.sortOrderType = b.sortOrderType →
        a.sortOrderType = c.sortOrderType →
        (compareBsonValue b c).1 = cmp (key b) (key c) := by
      intro b c hb hc
      rw [compareBsonValue_scalar (isScalar_of_class hb ha), hkey b c hb hc]
    constructor
    · intro b hb
      show Flip (compareBsonValue a b).1 (compareBsonValue b a).1
      rw [hscalar rfl hb, hscalar hb rfl]
      exact hcmp.flip _ _
    · intro b c hb hc
      rw [hscalar rfl hb, hscalar hb (hb.trans hc), hscalar rfl (hb.trans hc)]
      exact hcmp.trans _ _ _

-- ==== the laws

theorem flip_compareBsonIter (fs gs : Fields) :
    Flip (compareBsonIter fs gs) (compareBsonIter gs fs) :=
  (ContentLaws.compareBsonIter fun f _ => contentLaws f.2).flip gs trivial

theorem trans_compareBsonIter (fs gs hs : Fields) :
    TransAt (compareBsonIter fs gs) (compareBsonIter gs hs) (compareBsonIter fs hs) :=
  (ContentLaws.compareBsonIter fun f _ => contentLaws f.2).trans gs hs trivial trivial

theorem flip_compareBsonValueAndType (a b : Value) :
    Flip (compareBsonValueAndType a b).1 (compareBsonValueAndType b a).1 :=
  (contentLaws a).compareBsonValueAndType.flip b trivial

theorem trans_compareBsonValueAndType (a b c : Value) :
    TransAt (compareBsonValueAndType a b).1 (compareBsonValueAndType b c).1
      (compareBsonValueAndType a c).1 :=
  (contentLaws a).compareBsonValueAndType.trans b c trivial trivial

theorem compareBsonIter_self (fs : Fields) : compareBsonIter fs fs = 0 := by
  have h := flip_compareBsonIter fs fs
  have h₁ := h.neg_iff
  omega

theorem compareBsonValueAndType_self (a : Value) : (compareBsonValueAndType a a).1 = 0 := by
  have h := flip_compareBsonValueAndType a a
  have h₁ := h.neg_iff
  omega

/-- The values compare equal. -/
def bsonValueEquals (a b : Value) : Bool := (compareBsonValueAndType a b).1 = 0

theorem bsonValueEquals_iff : bsonValueEquals a b ↔ (compareBsonValueAndType a b).1 = 0 := by
  simp [bsonValueEquals]

theorem bsonValueEquals_symm (h : bsonValueEquals a b) : bsonValueEquals b a := by
  rw [bsonValueEquals_iff] at h ⊢
  exact (flip_compareBsonValueAndType a b).eq_zero.1 h

theorem bsonValueEquals_trans {c : Value} (hab : bsonValueEquals a b)
    (hbc : bsonValueEquals b c) : bsonValueEquals a c := by
  have hba := bsonValueEquals_symm hab
  have hcb := bsonValueEquals_symm hbc
  rw [bsonValueEquals_iff] at hab hbc hba hcb ⊢
  have h₁ := (trans_compareBsonValueAndType a b c).le (by omega) (by omega)
  have h₂ := (trans_compareBsonValueAndType c b a).le (by omega) (by omega)
  have hf := (flip_compareBsonValueAndType c a).pos_iff
  omega

theorem compareBsonValueAndType_lt_congr {a' b' : Value}
    (ha : bsonValueEquals a' a) (hb : bsonValueEquals b' b)
    (h : (compareBsonValueAndType a b).1 < 0) : (compareBsonValueAndType a' b').1 < 0 := by
  have hb' := bsonValueEquals_iff.1 (bsonValueEquals_symm hb)
  rw [bsonValueEquals_iff] at ha
  exact (trans_compareBsonValueAndType a' a b').lt_of_le (by omega)
    ((trans_compareBsonValueAndType a b b').lt_of_lt h (by omega))

theorem compareBsonValue_snd (h : (compareBsonValue a b).1 = 0) : (compareBsonValue a b).2 := by
  have hscalar : ∀ l r : Value, (compareScalar l r).1 = 0 → (compareScalar l r).2 := by
    intro l r h
    unfold compareScalar at h ⊢
    split_ifs at h ⊢
    · exact compareNumbers_snd h
    · rfl
  unfold compareBsonValue at h ⊢
  split at h
  · rfl
  · rfl
  · rfl
  · exact hscalar _ _ h

theorem bsonValueEquals_content (h : bsonValueEquals a b) :
    a.sortOrderType = b.sortOrderType ∧ (compareBsonValue a b).1 = 0 := by
  rw [bsonValueEquals_iff, compareBsonValueAndType_fst, andThen_eq_zero] at h
  exact ⟨sub_eq_zero.1 h.1, h.2⟩

theorem map_fst_eq_of_compareBsonIter {gs : Fields} (h : compareBsonIter fs gs = 0) :
    fs.map Prod.fst = gs.map Prod.fst := by
  induction fs generalizing gs with
  | nil =>
    cases gs with
    | nil => rfl
    | cons g gs => simp [compareBsonIter] at h
  | cons f fs ih =>
    cases gs with
    | nil => simp [compareBsonIter] at h
    | cons g gs =>
      simp only [compareBsonIter, andThen_eq_zero] at h
      obtain ⟨-, hkey, -, hrest⟩ := h
      rw [List.map_cons, List.map_cons, eq_of_compareStrings hkey, ih hrest]

theorem exists_document_of_bsonValueEquals (h : bsonValueEquals w (.document fs)) :
    ∃ gs, w = .document gs ∧ gs.map Prod.fst = fs.map Prod.fst := by
  obtain ⟨hclass, hcontent⟩ := bsonValueEquals_content h
  cases w with
  | document gs =>
    refine ⟨gs, rfl, map_fst_eq_of_compareBsonIter ?_⟩
    simpa [compareBsonValue] using hcontent
  | _ => cases hclass

-- ==== ComparePgbson

/-- The same bytes. -/
def pgbsonEquals (left right : Pgbson) : Bool := left.data = right.data

def comparePgbson (left right : Pgbson) : Int :=
  if pgbsonEquals left right then 0
  else compareBsonIter left.fields right.fields

theorem compareBsonIter_of_pgbsonEquals {a b : Pgbson} (h : pgbsonEquals a b) :
    compareBsonIter a.fields b.fields = 0 := by
  rw [Pgbson.fields_eq_of_data (of_decide_eq_true h)]
  exact compareBsonIter_self b.fields

theorem comparePgbson_eq (a b : Pgbson) :
    comparePgbson a b = compareBsonIter a.fields b.fields := by
  unfold comparePgbson
  split_ifs with h
  · exact (compareBsonIter_of_pgbsonEquals h).symm
  · rfl

/-- `ComparePgbson` is a total preorder on well-formed documents, and its
fast path for equal bytes agrees with the comparison by elements. -/
theorem comparePgbson_total_preorder (a b c : Pgbson) :
    (comparePgbson a b).sign = -(comparePgbson b a).sign
      ∧ (comparePgbson a b ≤ 0 → comparePgbson b c ≤ 0 → comparePgbson a c ≤ 0)
      ∧ (pgbsonEquals a b = true → compareBsonIter a.fields b.fields = 0) := by
  refine ⟨?_, ?_, compareBsonIter_of_pgbsonEquals⟩
  · rw [comparePgbson_eq, comparePgbson_eq]
    exact (flip_compareBsonIter a.fields b.fields).sign
  · rw [comparePgbson_eq, comparePgbson_eq, comparePgbson_eq]
    exact (trans_compareBsonIter a.fields b.fields c.fields).le

end Order

end DocumentDb
