/-
Index terms of documents, and when they keep the order of the documents.

Fields are compared by class, name and content. One whose name does not fit under the soft
limit is written with MaxKey, the greatest class. So the loops run in step as for arrays
(`ArrayOrder`), but the first field that differs may turn the order around
(`reordersFields`): the name of the smaller document does not fit and the other one does; or
neither fits, the class decided, and the cut names are the other way.
-/
import DocumentDb.Index.Monotone

namespace DocumentDb

open Wire ThreeWay Option

mutual

def Value.isPlainDocument : Value → Bool
  | .document fs => arePlainDocuments fs
  | .maxKey => false
  | v => v.isPlain

def arePlainDocuments : Fields → Bool
  | [] => true
  | (_, v) :: fs => v.isPlainDocument && arePlainDocuments fs

end

section DocumentOrder

variable [BidLib]

-- ==== the first difference

mutual

def fitsNested (sizeBudget currentLength : Int) : Value → Bool
  | .document fs =>
    fitsFields currentLength (sizeBudget - 17) sizeBudget 5 fs
  | .utf8 s | .symbol s => (s.length : Int) ≤ sizeBudget - currentLength - 6
  | _ => true

/-- The fields of a document are written without being flagged. -/
def fitsFields (existingTermSize softLimit hardLimit n : Int) : Fields → Bool
  | [] => n + existingTermSize ≤ softLimit
  | (k, v) :: fs =>
    n + existingTermSize + k.length + 2 < softLimit
      && fitsNested (hardLimit - existingTermSize - k.length - 2) n v
      && fitsFields existingTermSize softLimit hardLimit (n + fieldSize k (rewriteNested v)) fs

end

mutual

def reordersNested (sizeBudget currentLength : Int) : Value → Value → Bool
  | .document fs, .document gs =>
    reordersFields currentLength (sizeBudget - 17) sizeBudget 5 fs gs
  | _, _ => false

/-- Writing two lists of fields, the first one not greater, turns their order
around. -/
def reordersFields (existingTermSize softLimit hardLimit n : Int) : Fields → Fields → Bool
  | (k, v) :: fs, (k', v') :: gs =>
    if softLimit < n + existingTermSize then false
    else
      let fits (name : Bytes) : Bool := n + existingTermSize + name.length + 2 < softLimit
      if v.sortOrderType = v'.sortOrderType ∧ k = k' then
        let room := hardLimit - existingTermSize - k.length - 2
        fits k && if bsonValueEquals v v' then
              fitsNested room n v && reordersFields existingTermSize softLimit hardLimit
                    (n + fieldSize k (rewriteNested v)) fs gs
            else reordersNested room n v v'
      else
        let cut := (hardLimit - n - existingTermSize - 2).toNat
        !fits k && (fits k'
          || 0 < compareStrings (k.take cut) (k'.take cut))
  | _, _ => false

end

-- ==== one field

/-- What an entry says about the value it is written for: the class stays,
the flag says that it does not fit, and one that fits is only rewritten. -/
private def EntrySpec (x : Value) : Prop :=
  ∀ sizeBudget currentLength v t f, x.isPlainDocument = true →
    truncateNestedEntry sizeBudget currentLength x = some (v, t, f) →
    v.sortOrderType = x.sortOrderType ∧ f = false ∧ t = !fitsNested sizeBudget currentLength x
      ∧ (t = false → v = rewriteNested x)

variable {termSize hard soft n : Int} {fs xs gs ys : Fields}
  {t t' : Bool} {k : Bytes} {v x y : Value}

theorem fields_spec (ih : ∀ f ∈ fs, EntrySpec f.2) (n : Int) (hfs : arePlainDocuments fs)
    (h : documentTail termSize soft hard false n fs = some (xs, t)) :
    t = !fitsFields termSize soft hard n fs ∧ (t = false → xs = rewriteFields fs) := by
  induction fs generalizing n xs t with
  | nil =>
    simp only [documentTail, some.injEq, Prod.mk.injEq, Bool.not_false, Bool.and_true] at h
    obtain ⟨rfl, rfl⟩ := h
    refine ⟨?_, fun _ => rfl⟩
    simp only [fitsFields, ← decide_not, not_le]
  | cons f fs ihfs =>
    obtain ⟨k, v⟩ := f
    simp only [arePlainDocuments, Bool.and_eq_true] at hfs
    rcases documentTail_cons h with ⟨hsoft, hr⟩ | ⟨-, hname, hr⟩
      | ⟨-, hname, v', u, f, hv, hr⟩
    · cases hr
      have hnot : ¬ n + termSize + k.length + 2 < soft := by
        omega
      simp [fitsFields, hnot]
    · cases hr
      simp [fitsFields, not_lt.2 hname]
    · obtain ⟨-, rfl, hu, hrw⟩ := ih (k, v) (by simp) _ _ _ _ _ hfs.1 hv
      simp only [fitsFields, hname, decide_true, Bool.true_and]
      rcases hr with ⟨rfl, hr⟩ | ⟨rfl, r, hrun, hr⟩
      · cases hr
        simp [hu]
      · obtain ⟨xs', t'⟩ := r
        cases hr
        rw [hrw rfl] at hrun ⊢
        obtain ⟨ht, hxs⟩ := ihfs (fun f hf => ih f (by simp [hf])) _ hfs.2 hrun
        rw [eq_comm, Bool.not_eq_false'] at hu
        rw [hu, Bool.true_and]
        exact ⟨ht, fun hno => by rw [rewriteFields, hxs hno]⟩

theorem entrySpec (x : Value) : EntrySpec x := by
  induction x using Value.induction with
  | document fs ih =>
    intro budget len v t f hx h
    rw [truncateNestedEntry_document, map_eq_some_iff] at h
    obtain ⟨⟨xs, t⟩, hr, hv⟩ := h
    obtain ⟨rfl, rfl, rfl⟩ := hv
    obtain ⟨ht, hxs⟩ := fields_spec ih 5 hx hr
    exact ⟨rfl, rfl, ht, fun hno => by rw [rewriteNested, hxs hno]⟩
  | array es _ | codeWScope c fs _ =>
    intro budget len v t f hx
    simp [Value.isPlainDocument, Value.isPlain, Value.isInteger, Value.isFixed] at hx
  | scalar x hs =>
    intro budget len v t f hx h
    have hp : x.isPlain := by
      cases x <;> first
        | exact hx
        | rfl
        | simp [Value.isScalar] at hs
    rw [truncateNestedEntry_scalar (by cases x <;> simp [Value.isScalar,
      Value.type] at hs ⊢) (by cases x <;> simp [Value.isScalar, Value.type] at hs ⊢)] at h
    obtain ⟨hclass, rfl⟩ := truncateNestedScalar_plain _ _ hp h
    have hrw : rewriteNested x = rewriteScalar x := by
      cases x <;> first | rfl | simp [Value.isScalar] at hs
    refine ⟨hclass, rfl, ?_, fun hno => ?_⟩
    · rcases Value.isPlain_cases hp with ⟨mk, s, hmk, rfl⟩ | hint | hfix
      · obtain ⟨-, hr⟩ := truncateNestedScalar_string hmk h
        rw [(Prod.mk.inj (Prod.mk.inj hr).2).1]
        rcases hmk with rfl | rfl <;> simp only [fitsNested, ← decide_not, not_le]
      · rw [truncateNestedScalar_integer hint] at h
        obtain ⟨-, rfl, -⟩ := by
          simpa only [some.injEq, Prod.mk.injEq] using h
        cases x <;> first | rfl | simp [Value.isInteger] at hint
      · rw [truncateNestedScalar_fixed hfix] at h
        obtain ⟨-, rfl, -⟩ := by
          simpa only [some.injEq, Prod.mk.injEq] using h
        cases x <;> first | rfl | simp [Value.isFixed] at hfix
    · subst hno
      rw [hrw, truncateNestedScalar_kept _ _ h]

private def ValueOutcome (x : Value) : Prop :=
  ∀ y sizeBudget currentLength v t f w t' f', x.isPlainDocument = true → y.isPlainDocument = true →
    truncateNestedEntry sizeBudget currentLength x = some (v, t, f) →
    truncateNestedEntry sizeBudget currentLength y = some (w, t', f') →
    Outcome (compareBsonValueAndType x y).1 (reordersNested sizeBudget currentLength x y)
      (compareBsonValueAndType v w).1
      ((encodeValue v).length = (encodeValue w).length) (t = t')
      (Full sizeBudget currentLength v t ∧ Full sizeBudget currentLength w t')

/-- What two loops from one state do. -/
private abbrev FieldsOutcome (cmp : Int) (reordered : Bool) (xs ys : Fields × Bool) : Prop :=
  LoopOutcome compareBsonIter (fun l => (encodeFields l).length) cmp reordered xs ys

theorem documentTail_full (h : soft < n + termSize) :
    documentTail termSize soft hard false n fs = some ([], true) := by
  cases fs <;> simp [documentTail, h]

-- ==== the loops

theorem outcome_of_head_ne {k' : Bytes} (hx : x.isPlainDocument) (hy : y.isPlainDocument)
    (hne : ¬(x.sortOrderType = y.sortOrderType ∧ k = k')) (hsoft : n + termSize ≤ soft)
    (h : documentTail termSize soft hard false n ((k, x) :: fs) = some (xs, t))
    (h' : documentTail termSize soft hard false n ((k', y) :: gs) = some (ys, t')) :
    FieldsOutcome (compareBsonIter ((k, x) :: fs) ((k', y) :: gs))
      (reordersFields termSize soft hard n ((k, x) :: fs) ((k', y) :: gs)) (xs, t) (ys, t') := by
  have hhead : compareBsonIter ((k, x) :: fs) ((k', y) :: gs) ≤ 0 →
      x.sortOrderType < y.sortOrderType ∨ x.sortOrderType = y.sortOrderType ∧ lex k k' < 0 := by
    intro hc
    simp only [compareBsonIter, andThen_le_zero, compareStrings_eq,
      lex_eq_zero, compareBsonSortOrderType] at hc
    rcases hc with hc | ⟨hc, hk | ⟨hk, -⟩⟩
    · exact Or.inl (by omega)
    · exact Or.inr ⟨by omega, hk⟩
    · exact absurd ⟨by omega, hk⟩ hne
  have hmax : ∀ {z : Value}, z.isPlainDocument → z.sortOrderType < Value.maxKey.sortOrderType := by
    intro z hz
    cases z <;> first
      | exact absurd hz (by decide)
      | (simp only [Value.sortOrderType]; norm_num)
  have hnz : compareBsonIter ((k, x) :: fs) ((k', y) :: gs) ≠ 0 := by
    intro hz
    simp only [compareBsonIter, andThen_eq_zero, compareStrings_eq,
      lex_eq_zero, compareBsonSortOrderType] at hz
    exact hne ⟨by omega, hz.2.1⟩
  -- the classes decide what is written first
  have hclass : ∀ {a b : Value} {l r : Bytes} {ls rs : Fields}, a.sortOrderType < b.sortOrderType →
      compareBsonIter ((l, a) :: ls) ((r, b) :: rs) < 0
        ∧ 0 < compareBsonIter ((r, b) :: rs) ((l, a) :: ls) := by
    intro a b l r ls rs hlt
    simp only [compareBsonIter, andThen_lt_zero, andThen_pos, compareBsonSortOrderType]
    omega
  simp only [reordersFields, if_neg (not_lt.2 hsoft), if_neg hne]
  rcases documentTail_cons h with ⟨hno, -⟩ | ⟨-, hname, hr⟩
    | ⟨-, hname, v, u, f, hv, hr⟩
  · omega
  · cases hr
    rcases documentTail_cons h' with ⟨hno, -⟩ | ⟨-, hname', hr'⟩
      | ⟨-, hname', w, u', g, hw, hr'⟩
    · omega
    · -- neither name fits
      cases hr'
      generalize (hard - n - termSize - 2).toNat = cut
      simp only [not_lt.2 hname, not_lt.2 hname', decide_false,
        Bool.not_false, Bool.true_and, Bool.false_or]
      refine ⟨fun hz => absurd hz hnz, fun _ hre => ?_, fun _ hre => ?_⟩
      · rw [decide_eq_false_iff_not, not_lt] at hre
        rcases hre.lt_or_eq with hlt | heq
        · left
          simp only [compareBsonIter, compareBsonSortOrderType, sub_self,
            andThen_zero_left, andThen_lt_zero]
          exact Or.inl hlt
        · rw [compareStrings_eq, lex_eq_zero] at heq
          rw [heq]
          exact Or.inr ⟨compareBsonIter_self _, rfl, rfl, rfl⟩
      · rw [decide_eq_true_eq] at hre
        simp only [compareBsonIter, compareBsonSortOrderType, sub_self,
          andThen_zero_left, andThen_pos]
        exact Or.inl hre
    · obtain ⟨hwc, rfl, -⟩ := entrySpec y _ _ _ _ _ hy hw
      obtain ⟨rest, rfl⟩ := WrittenFirst.head hr'
      simp only [not_lt.2 hname, hname', decide_false, decide_true,
        Bool.not_false, Bool.true_and, Bool.true_or]
      have hlt := hmax hy
      rw [← hwc] at hlt
      exact ⟨fun hz => absurd hz hnz, fun _ hre => by simp at hre, fun _ _ => (hclass hlt).2⟩
  · obtain ⟨hvc, rfl, -⟩ := entrySpec x _ _ _ _ _ hx hv
    obtain ⟨rest, rfl⟩ := WrittenFirst.head hr
    simp only [hname, decide_true, Bool.not_true, Bool.false_and]
    refine ⟨fun hz => absurd hz hnz, fun hlt _ => Or.inl ?_, fun _ hre => by simp at hre⟩
    rcases documentTail_cons h' with ⟨hno, -⟩ | ⟨-, hname', hr'⟩
      | ⟨-, hname', w, u', g, hw, hr'⟩
    · omega
    · cases hr'
      exact (hclass (by rw [hvc]; exact hmax hx)).1
    · obtain ⟨hwc, rfl, -⟩ := entrySpec y _ _ _ _ _ hy hw
      obtain ⟨rest', rfl⟩ := WrittenFirst.head hr'
      rcases hhead hlt.le with hc | ⟨hc, hk⟩
      · exact (hclass (by rwa [hvc, hwc])).1
      · simp only [compareBsonIter, compareBsonSortOrderType, hvc, hwc, hc,
          sub_self, andThen_zero_left, andThen_lt_zero, compareStrings_eq]
        exact Or.inl hk

theorem compareBsonIter_cons_same : compareBsonIter ((k, x) :: fs) ((k, y) :: gs)
      = andThen (compareBsonValueAndType x y).1 (compareBsonIter fs gs) := by
  have hk : compareStrings k k = 0 := by rw [compareStrings_eq, lex_eq_zero]
  simp only [compareBsonIter, compareBsonValueAndType_fst, hk, andThen_zero_left, andThen_assoc]

theorem fields_outcome (ih : ∀ f ∈ fs, ValueOutcome f.2) (hlimits : soft + 1 < hard) (gs : Fields)
    (n : Int) (hfs : arePlainDocuments fs) (hgs : arePlainDocuments gs)
    (h : documentTail termSize soft hard false n fs = some (xs, t))
    (h' : documentTail termSize soft hard false n gs = some (ys, t')) :
    FieldsOutcome (compareBsonIter fs gs)
      (reordersFields termSize soft hard n fs gs) (xs, t) (ys, t') := by
  induction fs generalizing gs n xs ys t t' with
  | nil =>
    simp only [documentTail, some.injEq, Prod.mk.injEq, Bool.not_false, Bool.and_true] at h
    obtain ⟨rfl, rfl⟩ := h
    cases gs with
    | nil =>
      simp only [documentTail, some.injEq, Prod.mk.injEq, Bool.not_false, Bool.and_true] at h'
      obtain ⟨rfl, rfl⟩ := h'
      exact ⟨fun _ => ⟨rfl, rfl, rfl, rfl⟩, fun hl => absurd hl (by simp [compareBsonIter]),
        fun hl => absurd hl (by simp [compareBsonIter])⟩
    | cons g gs =>
      obtain ⟨k', y⟩ := g
      refine ⟨fun hz => absurd hz (by simp [compareBsonIter]),
        fun _ _ => ?_, fun _ hre => by simp [reordersFields] at hre⟩
      rcases documentTail_cons h' with ⟨hsoft, hr⟩ | ⟨-, -, hr⟩
        | ⟨-, -, w, u, g, -, ⟨-, hr⟩ | ⟨-, r, -, hr⟩⟩
      · cases hr
        exact Or.inr ⟨rfl, rfl, by simpa using hsoft, rfl⟩
      all_goals
        obtain ⟨rfl, -⟩ := Prod.mk.inj hr
        exact Or.inl (by simp [compareBsonIter])
  | cons f fs ihfs =>
    obtain ⟨k, x⟩ := f
    cases gs with
    | nil =>
      exact ⟨fun hz => absurd hz (by simp [compareBsonIter]),
        fun hl => absurd hl (by simp [compareBsonIter]),
        fun hl => absurd hl (by simp [compareBsonIter])⟩
    | cons g gs =>
      obtain ⟨k', y⟩ := g
      simp only [arePlainDocuments, Bool.and_eq_true] at hfs hgs
      by_cases hsoft : soft < n + termSize
      · -- there is no room for either
        rw [documentTail_full hsoft, some.injEq] at h h'
        rw [← h, ← h', reordersFields, if_pos hsoft]
        exact .same rfl
      by_cases hhead : x.sortOrderType = y.sortOrderType ∧ k = k'
      swap
      · exact outcome_of_head_ne hfs.1 hgs.1 hhead (not_lt.1 hsoft) h h'
      obtain ⟨hclass, rfl⟩ := hhead
      simp only [reordersFields, if_neg hsoft, hclass, and_self, if_true]
      rcases documentTail_cons h with ⟨hno, -⟩ | ⟨-, hname, hr⟩
        | ⟨-, hname, v, u, f, hv, hr⟩
      · exact absurd hno hsoft
      · -- the name is cut in both
        rcases documentTail_cons h' with ⟨hno, -⟩ | ⟨-, -, hr'⟩
          | ⟨-, hno, -⟩
        · exact absurd hno hsoft
        · cases hr
          cases hr'
          simp only [not_lt.2 hname, decide_false, Bool.false_and]
          exact .same (compareBsonIter_self _)
        · omega
      rcases documentTail_cons h' with ⟨hno, -⟩ | ⟨-, hno, -⟩
        | ⟨-, -, w, u', g, hw, hr'⟩
      · exact absurd hno hsoft
      · omega
      obtain ⟨-, rfl, hu, hrw⟩ := entrySpec x _ _ _ _ _ hfs.1 hv
      obtain ⟨-, rfl, -⟩ := entrySpec y _ _ _ _ _ hgs.1 hw
      have hval := ih (k, x) (by simp) y _ _ _ _ _ _ _ _ hfs.1 hgs.1 hv hw
      have hroom {z : Value} {b : Bool} (hfull : Full (hard - termSize - k.length - 2) n z b)
          (hb : b = false) : soft < n + fieldSize k z + termSize := by
        rcases hfull with hfull | hfull
        · cases hb.symm.trans hfull
        · unfold fieldSize
          omega
      have hsize (hs : (encodeValue v).length = (encodeValue w).length) (l r : Fields)
          (hrest : (encodeFields l).length = (encodeFields r).length) :
          (encodeFields ((k, v) :: l)).length = (encodeFields ((k, w) :: r)).length := by
        simp only [encodeFields, List.length_cons, List.length_append, hs, hrest]
      simp only [hname, decide_true, Bool.true_and]
      rw [compareBsonIter_cons_same]
      refine LoopOutcome.step (fun _ _ => compareBsonIter_cons_same) rfl hsize hval hr hr'
        (fun hf hu => documentTail_full (hroom hf hu))
        (fun hf hu => documentTail_full (hroom hf hu))
        (fun hs r r' hrun hrun' => ihfs (fun f hf => ih f (by simp [hf])) gs _ hfs.2
          hgs.2 hrun ?_) ?_
      · have hsame : fieldSize k w = fieldSize k v := by simp only [fieldSize, hs]
        rwa [hsame] at hrun'
      · simp only [bsonValueEquals_iff]
        cases u with
        | true => simp [Bool.not_eq_eq_eq_not.1 hu.symm]
        | false => simp [hu, hrw rfl]

theorem valueOutcome (x : Value) : ValueOutcome x := by
  induction x using Value.induction with
  | document fs ih =>
    intro y budget len v t f w t' f' hx hy h h'
    by_cases hclass : (Value.document fs).sortOrderType = y.sortOrderType
    swap
    · have hre : reordersNested budget len (.document fs) y = false := by
        cases y <;> first | rfl | exact absurd rfl hclass
      rw [hre]
      exact (keeps_of_class_ne (entrySpec _ _ _ _ _ _ hx h).1
        (entrySpec _ _ _ _ _ _ hy h').1 hclass).outcome
    have hcases := y.class_cases
    rw [← hclass] at hcases
    obtain ⟨gs, rfl⟩ := hcases
    rw [truncateNestedEntry_document, map_eq_some_iff] at h h'
    obtain ⟨⟨xs, t⟩, hr, hv⟩ := h
    obtain ⟨⟨ys, t'⟩, hr', hw⟩ := h'
    obtain ⟨rfl, rfl, -⟩ := hv
    obtain ⟨rfl, rfl, -⟩ := hw
    have hout := fields_outcome ih (by omega) gs 5 hx hy hr hr'
    have hlen : (encodeFields xs).length = (encodeFields ys).length →
        (encodeValue (.document xs)).length = (encodeValue (.document ys)).length := by
      intro hs
      simp only [encodeValue, length_frame, hs]
    refine ⟨fun hz => ?_, fun hl hno => ?_, hout.gt⟩
    · obtain ⟨hre, hc, hs, ht⟩ := hout.eq hz
      exact ⟨hre, hc, hlen hs, ht⟩
    · rcases hout.lt hl hno with hc | ⟨hc, hs, ht, ht'⟩
      · exact Or.inl hc
      · exact Or.inr ⟨hc, hlen hs, Or.inl ht, Or.inl ht'⟩
  | array es _ | codeWScope c fs _ =>
    intro y budget len v t f w t' f' hx
    simp [Value.isPlainDocument, Value.isPlain, Value.isInteger, Value.isFixed] at hx
  | scalar x hs =>
    intro y budget len v t f w t' f' hx hy h h'
    have hre : reordersNested budget len x y = false := by
      cases x <;> first | rfl | simp [Value.isScalar] at hs
    rw [hre]
    by_cases hclass : x.sortOrderType = y.sortOrderType
    swap
    · exact (keeps_of_class_ne (entrySpec _ _ _ _ _ _ hx h).1
        (entrySpec _ _ _ _ _ _ hy h').1 hclass).outcome
    have hys := isScalar_of_class hclass hs
    have hscalar : ∀ {z : Value} {r : Value × Bool × Bool}, z.isScalar → z.isPlainDocument →
        truncateNestedEntry budget len z = some r →
        z.isPlain ∧ truncateNestedScalar budget len z = some r := by
      intro z r hz hp hr
      cases z <;> first
        | exact ⟨hp, hr⟩
        | exact absurd hp (by decide)
        | simp [Value.isScalar] at hz
    obtain ⟨hxp, h⟩ := hscalar hs hx h
    obtain ⟨hyp, h'⟩ := hscalar hys hy h'
    exact (plain_keeps _ _ hxp hyp h h').outcome

-- ==== terms

/-- The terms of two documents, the first one not greater, are in the other
order. -/
def documentsReordered (indexTermSizeLimit dataSize : Int) (fs gs : Fields) : Bool :=
  0 < indexTermSizeLimit
    && reordersFields dataSize (indexTermSizeLimit - 17) (indexTermSizeLimit - 2) 5 fs gs

/-- The index terms of two documents of plain values below one path are in
the order of the documents, unless the first field that differs turns it
around. -/
theorem compareBsonIndexTerm_document_mono_iff {termMetadata : IndexTermCreateMetadata}
    {a b : PgbsonElement} {fs gs : Fields} (ha : a.bsonValue = .document fs)
    (hb : b.bsonValue = .document gs) (hpath : a.path = b.path) (hfs : arePlainDocuments fs = true)
    (hgs : arePlainDocuments gs = true)
    (hcmp : (compareBsonValueAndType a.bsonValue b.bsonValue).1 ≤ 0) {path : Bytes}
    (hterm : termMetadata.termPath a.path = some path) {s t : BsonIndexTermSerialized}
    (hs : serializeBsonIndexTerm termMetadata a = some s)
    (ht : serializeBsonIndexTerm termMetadata b = some t) :
    ∃ left right : BsonIndexTerm PgbsonElement,
      initializeBsonIndexTerm s.indexTermVal = some left.raw
        ∧ initializeBsonIndexTerm t.indexTermVal = some right.raw
        ∧ (compareBsonIndexTerm left right ≤ 0 ↔ documentsReordered termMetadata.indexTermSizeLimit
              (5 + path.length + 2) fs gs = false) := by
  refine @compareBsonIndexTerm_of_outcome _ termMetadata a b _ hpath hcmp
    (by rw [ha]; exact ⟨rfl, rfl⟩) (by rw [hb]; exact ⟨rfl, rfl⟩)
    (fun path' v u w u' hpath' hv hw => ?_) _ _ hs ht
  obtain rfl : path' = path := some.inj (hpath'.symm.trans hterm)
  rw [ha, serializeTermValue_document, map_eq_some_iff] at hv
  rw [hb, serializeTermValue_document, map_eq_some_iff] at hw
  obtain ⟨⟨xs, u⟩, hrun, hv⟩ := hv
  obtain ⟨⟨ys, u'⟩, hrun', hw⟩ := hw
  cases hv
  cases hw
  have hout := fields_outcome (fun f _ => valueOutcome f.2) (by omega) gs 5 hfs hgs hrun hrun'
  rw [ha, hb]
  exact ⟨rfl, rfl, _, hout⟩

end DocumentOrder

/-- A document of one integer, below `a`. -/
def oneIntElement (name : Bytes) (n : Int32) (h : 0 ∉ name)
    (hlen : name.length < 100) : PgbsonElement where
  path := [97]
  bsonValue := .document [(name, .int32 n)]
  namesOk := by simp [namesOkFields, Value.namesOk, h]
  size_lt := by
    simp only [encodeDoc, encodeFields, encodeValue, length_frame,
      List.length_append, List.length_cons, length_leBytes, List.length_nil]
    omega

/-- The documents `{"a": 1}` and `{"b": 2}` keep their order: there is room
for both names. -/
theorem short_names_keep_order : ∃ left right : BsonIndexTerm PgbsonElement, initializeBsonIndexTerm
          ((@serializeBsonIndexTerm BidLib.reference (indexOnA 34)
            (oneIntElement [97] 1 (by decide) (by decide))).get
              (by decide +kernel)).indexTermVal = some left.raw
        ∧ initializeBsonIndexTerm ((@serializeBsonIndexTerm BidLib.reference (indexOnA 34)
            (oneIntElement [98] 2 (by decide) (by decide))).get
              (by decide +kernel)).indexTermVal = some right.raw
        ∧ (@compareBsonIndexTerm BidLib.reference left right ≤ 0
          ↔ @documentsReordered BidLib.reference 34 8 [([97], .int32 1)]
              [([98], .int32 2)] = false) :=
  @compareBsonIndexTerm_document_mono_iff BidLib.reference (indexOnA 34)
    (oneIntElement [97] 1 (by decide) (by decide))
    (oneIntElement [98] 2 (by decide) (by decide)) _ _ rfl rfl rfl
    (by decide +kernel) (by decide +kernel) (by decide +kernel) [36] rfl
    _ _ (some_get _).symm (some_get _).symm

/-- The terms of `{"aa": 1}` and `{"b": 2}`: the name `aa` does not fit under
the soft limit, so its value is MaxKey. -/
theorem long_name_reordered : ∃ left right : BsonIndexTerm PgbsonElement,
      (@compareBsonValueAndType BidLib.reference (.document [([97, 97], .int32 1)])
          (.document [([98], .int32 2)])).1 ≤ 0
        ∧ (@serializeBsonIndexTerm BidLib.reference (indexOnA 34)
            (oneIntElement [97, 97] 1 (by decide) (by decide))).map
              (fun t => initializeBsonIndexTerm t.indexTermVal)
            = some (some left.raw)
        ∧ (@serializeBsonIndexTerm BidLib.reference (indexOnA 34)
            (oneIntElement [98] 2 (by decide) (by decide))).map
              (fun t => initializeBsonIndexTerm t.indexTermVal)
            = some (some right.raw)
        ∧ 0 < @compareBsonIndexTerm BidLib.reference left right :=
  ⟨⟨true, false, false, false, [36], .document [([97, 97], .maxKey)], by decide, by decide⟩,
    ⟨true, false, false, false, [36], .document [([98], .int32 2)],
      by decide, by decide⟩, by decide +kernel⟩

end DocumentDb
