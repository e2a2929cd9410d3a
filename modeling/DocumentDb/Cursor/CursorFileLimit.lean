/-
Is the limit for cursor files enforced?

A file with a limit below 4096 MB is never written beyond it by more than a block. A limit
of 4096 MB, the default, or more is greater than any value of the counter, so the check
always passes; after `2 ^ 32` bytes the counter is zero again, and the first blocks are
overwritten. So writing is in order exactly if the last block starts below `2 ^ 32`
(`limitEnforced_iff`).
-/
import DocumentDb.Cursor.CursorFile
import Mathlib.Data.List.Induction

namespace DocumentDb.CursorStore

open List

open Wire (leBytes leNat)

-- ==== the expectation

/-- A document, with the memory behind it: all can be read that `VARSIZE` says. -/
structure Datum where
  memory : Bytes
  readable : varsize memory ≤ memory.length

def InOrder (writes : List (Nat × Nat)) : Prop :=
  ∀ before write after, writes = before ++ write :: after → write.1 = (before.map Prod.snd).sum

/-- The error is raised, or the blocks are written one behind the other and the
file is not greater than the limit by more than a block. -/
def LimitEnforced (limit : Nat) (documents : List Datum) : Prop :=
  (∃ offset, writeFile limit (documents.map Datum.memory) = .error (.sizeLimit offset limit))
  ∨ ∃ s, writeFile limit (documents.map Datum.memory) = .ok s ∧ InOrder s.bufFile.writes
    ∧ s.bufFile.contents.length ≤ limit * 1024 * 1024 + blckSz

-- ==== the writes

theorem length_contents_write (file : File) (offset : Nat) (data : Bytes) :
    (file.write offset data).contents.length = max file.contents.length (offset + data.length) := by
  show (take _ _ ++ _ ++ List.drop _ _).length = _
  simp only [length_append, length_take, length_drop, length_replicate]
  omega

theorem sum_flushed_writes (chunks : List Bytes) :
    ((flushed chunks).writes.map Prod.snd).sum = chunks.flatten.length := by
  induction chunks using reverseRecOn with
  | nil => rfl
  | append_singleton chunks chunk ih =>
    rw [flushed_concat, flatten_append, flatten_singleton, length_append, ← ih]
    show (((flushed chunks).writes ++ [(_, chunk.length)]).map Prod.snd).sum = _
    rw [map_append, sum_append]
    rfl

def StartsBelow (bound : Nat) (chunks : List Bytes) : Prop :=
  ∀ before chunk after, chunks = before ++ chunk :: after → before.flatten.length < bound

variable {chunks : List Bytes}

theorem StartsBelow.init {bound : Nat} {chunk : Bytes}
    (h : StartsBelow bound (chunks ++ [chunk])) : StartsBelow bound chunks := by
  intro before c after hsplit
  refine h before c (after ++ [chunk]) ?_
  rw [hsplit, append_assoc, cons_append]

theorem InOrder.concat {writes : List (Nat × Nat)} (h : InOrder writes)
    {write : Nat × Nat} (hwrite : write.1 = (writes.map Prod.snd).sum) :
    InOrder (writes ++ [write]) := by
  intro before w after hsplit
  rcases eq_nil_or_concat after with rfl | ⟨rest, last, rfl⟩
  · obtain ⟨rfl, heq⟩ := append_inj' hsplit rfl
    obtain rfl := head_eq_of_cons_eq heq
    exact hwrite
  · rw [concat_eq_append, ← cons_append, ← append_assoc] at hsplit
    obtain ⟨hold, -⟩ := append_inj' hsplit rfl
    exact h before w rest hold

theorem inOrder_flushed (h : StartsBelow (2 ^ 32) chunks) : InOrder (flushed chunks).writes := by
  induction chunks using reverseRecOn with
  | nil =>
    intro before write after hsplit
    cases append_ne_nil_of_right_ne_nil before (cons_ne_nil write after) hsplit.symm
  | append_singleton chunks chunk ih =>
    rw [flushed_concat]
    refine (ih h.init).concat ?_
    rw [sum_flushed_writes]
    exact Nat.mod_eq_of_lt (h chunks chunk [] rfl)

theorem length_contents_flushed_le {limit : Nat} (hchunk : ∀ chunk ∈ chunks, chunk.length ≤ blckSz)
    (hpassed : ∀ before after, chunks = before ++ after →
      before.flatten.length % 2 ^ 32 ≤ limit * 1024 * 1024) :
    (flushed chunks).contents.length ≤ limit * 1024 * 1024 + blckSz := by
  induction chunks using reverseRecOn with
  | nil => exact Nat.zero_le _
  | append_singleton chunks chunk ih =>
    have hlength := hchunk chunk (mem_append_right _ mem_cons_self)
    have hstart := hpassed chunks [chunk] rfl
    have hrest := ih (fun c hc => hchunk c (mem_append_left _ hc))
      (fun before after hsplit => hpassed before (after ++ [chunk]) (by rw [hsplit, append_assoc]))
    rw [flushed_concat, length_contents_write]
    omega

-- ==== the limit

section Limit

variable {limit : Nat} {s : CursorFileState} {chunks : List Bytes}

theorem Holds.startsBelow (h : Holds limit s chunks []) (hlimit : limit < 4096) :
    StartsBelow (2 ^ 32) chunks := by
  have hle : ∀ before after, chunks = before ++ after →
      before.flatten.length ≤ limit * 1024 * 1024 := by
    intro before
    induction before using reverseRecOn with
    | nil => exact fun after _ => Nat.zero_le _
    | append_singleton before chunk ih =>
      intro after hsplit
      have hbefore := ih (chunk :: after) (by
        rw [hsplit, append_assoc, singleton_append])
      have hlength := (h.chunk chunk (by
        rw [hsplit]
        exact mem_append_left _ (mem_append_right _ mem_cons_self))).2
      have hpassed := h.passed (before ++ [chunk]) after hsplit
      rw [blckSz] at hlength
      rw [flatten_append, flatten_singleton, length_append] at hpassed ⊢
      omega
  intro before chunk after hsplit
  have hbefore := hle before (chunk :: after) hsplit
  omega

theorem lastBlock_le (memories : List Bytes) : lastBlock memories ≤ blckSz := by
  unfold lastBlock
  rcases eq_nil_or_concat memories with rfl | ⟨rest, last, rfl⟩
  · exact Nat.zero_le _
  · rw [concat_eq_append, foldl_append]
    show afterRecord _ _ ≤ _
    rw [afterRecord, fillTo, if_neg (by omega), blckSz]
    omega

variable {memories : List Bytes}

theorem lastBlock_pos (h : memories ≠ []) : 0 < lastBlock memories := by
  unfold lastBlock
  rcases eq_nil_or_concat memories with rfl | ⟨rest, last, rfl⟩
  · exact absurd rfl h
  · rw [concat_eq_append, foldl_append]
    show 0 < afterRecord _ _
    rw [afterRecord, fillTo, if_neg (by omega)]
    exact Nat.succ_pos _

theorem StartsBelow.withPending {pending : Bytes} {bound : Nat}
    (h : chunks.flatten.length < bound) : StartsBelow bound (withPending chunks pending) := by
  intro before chunk after hsplit
  have hle : before.flatten.length ≤ chunks.flatten.length := by
    unfold CursorStore.withPending at hsplit
    split at hsplit
    · rw [hsplit, flatten_append, length_append]
      exact Nat.le_add_right _ _
    · rcases eq_nil_or_concat after with rfl | ⟨rest, last, rfl⟩
      · obtain ⟨rfl, -⟩ := append_inj' hsplit rfl
        exact Nat.le_refl _
      · rw [concat_eq_append, ← cons_append, ← append_assoc] at hsplit
        obtain ⟨rfl, -⟩ := append_inj' hsplit rfl
        rw [flatten_append, length_append]
        exact Nat.le_add_right _ _
  exact Nat.lt_of_le_of_lt hle h

theorem writeFile_cases (hsize : ∀ memory ∈ memories, varsize memory ≤ memory.length) :
    (∃ offset, writeFile limit memories = .error (.sizeLimit offset limit))
    ∨ ∃ s, writeFile limit memories = .ok s := by
  rcases @writeDocuments_initial_outcome limit _ hsize with
    ⟨s, chunks, pending, hok, hholds, hstream, -⟩ | ⟨place, offset, -, -, herror⟩
  · rw [writeFile, hok, Except.ok_bind]
    rcases flushBuffer_cases hholds hstream with ⟨t, ht, -⟩ | ⟨-, herror⟩
    · exact Or.inr ⟨t, ht⟩
    · exact Or.inl ⟨_, herror⟩
  · refine Or.inl ⟨offset, ?_⟩
    rw [writeFile, herror]
    rfl

end Limit

variable {limit : Nat} {docs : List Datum}

theorem readable_of_mem (docs : List Datum) :
    ∀ memory ∈ docs.map Datum.memory, varsize memory ≤ memory.length := by
  intro memory hmemory
  obtain ⟨d, -, rfl⟩ := mem_map.1 hmemory
  exact d.readable

def lastStart (documents : List Datum) : Nat :=
  fileSize (documents.map Datum.memory) - lastBlock (documents.map Datum.memory)

theorem lastStart_eq {pending : Bytes}
    (hstream : chunks.flatten ++ pending = ((docs.map Datum.memory).map record).flatten)
    (hleft : pending.length = lastBlock (docs.map Datum.memory)) :
    lastStart docs = chunks.flatten.length := by
  have hlength := congrArg length hstream
  rw [length_records (readable_of_mem docs), length_append] at hlength
  unfold lastStart
  omega

theorem limitEnforced_of_lt (h : limit < 4096 ∨ lastStart docs < 2 ^ 32) :
    LimitEnforced limit docs := by
  rcases @writeFile_cases limit _ (readable_of_mem docs) with
    herror | ⟨s, hok⟩
  · exact Or.inl herror
  obtain ⟨chunks, pending, hholds, hstream, hleft⟩ := writeFile_ok (readable_of_mem docs) hok
  have hstarts : StartsBelow (2 ^ 32) (withPending chunks pending) := by
    rcases h with hlimit | hstart
    · exact hholds.startsBelow hlimit
    · rw [lastStart_eq hstream hleft] at hstart
      exact StartsBelow.withPending hstart
  refine Or.inr ⟨s, hok, ?_, ?_⟩
  · rw [hholds.bufFile]
    exact inOrder_flushed hstarts
  · rw [hholds.bufFile]
    exact length_contents_flushed_le (fun c hc => (hholds.chunk c hc).2) hholds.passed

theorem not_limitEnforced (hlimit : 4096 ≤ limit)
    (hstart : 2 ^ 32 ≤ lastStart docs) : ¬ LimitEnforced limit docs := by
  obtain ⟨s, hok⟩ := @exists_writeFile limit _ (readable_of_mem docs) (fun place _ => by
      omega)
  rintro (⟨offset, herror⟩ | ⟨s', hok', horder, -⟩)
  · rw [hok] at herror
    cases herror
  cases hok.symm.trans hok'
  obtain ⟨chunks, pending, hholds, hstream, hleft⟩ := writeFile_ok (readable_of_mem docs) hok
  have hne : pending ≠ [] := by
    apply ne_nil_of_length_pos
    rw [hleft]
    apply lastBlock_pos
    intro hnil
    unfold lastStart at hstart
    rw [hnil] at hstart
    exact absurd hstart (by decide)
  rw [lastStart_eq hstream hleft] at hstart
  rw [hholds.bufFile, withPending, if_neg hne, flushed_concat] at horder
  have hplace : chunks.flatten.length % 2 ^ 32 = _ := horder (flushed chunks).writes _ [] rfl
  rw [sum_flushed_writes] at hplace
  have hlt := Nat.mod_lt chunks.flatten.length (Nat.two_pow_pos 32)
  rw [hplace] at hlt
  exact absurd hstart (Nat.not_le.2 hlt)

/-- The limit is enforced, and nothing is overwritten, exactly if the limit is less
than 4096 MB or the last block starts below `2 ^ 32`. -/
theorem limitEnforced_iff (limit : Nat) (documents : List Datum) :
    LimitEnforced limit documents ↔ limit < 4096 ∨ lastStart documents < 2 ^ 32 := by
  refine ⟨fun h => ?_, limitEnforced_of_lt⟩
  by_contra hcon
  obtain ⟨hlimit, hstart⟩ := not_or.1 hcon
  exact not_limitEnforced (Nat.not_lt.1 hlimit) (Nat.not_lt.1 hstart) h

def sixteenMegabytes : Datum where
  memory := leBytes 4 (4 * 2 ^ 24) ++ List.replicate (2 ^ 24 - 4) 0
  readable := by
    rw [varsize, List.take_left' (Wire.length_leBytes _ _), Wire.leNat_leBytes_of_lt (by decide),
      List.length_append, Wire.length_leBytes, List.length_replicate]
    decide

theorem varsize_sixteenMegabytes : varsize sixteenMegabytes.memory = 2 ^ 24 := by
  unfold varsize sixteenMegabytes
  rw [take_left' (Wire.length_leBytes _ _), Wire.leNat_leBytes_of_lt (by decide),
    Nat.mul_div_cancel_left _ (Nat.succ_pos 3)]

/-- With the default of 4096 MB, 257 documents of 16 MB are accepted
without an error, and the last ones overwrite the first. -/
theorem first_documents_overwritten :
    ¬ LimitEnforced 4096 (List.replicate 257 sixteenMegabytes) := by
  apply not_limitEnforced (Nat.le_refl _)
  have hlast := lastBlock_le ((replicate 257 sixteenMegabytes).map Datum.memory)
  have hsize : fileSize ((replicate 257 sixteenMegabytes).map Datum.memory)
      = 257 * (4 + 2 ^ 24) := by
    rw [fileSize, map_map, map_replicate, sum_replicate_nat,
      Function.comp_apply, varsize_sixteenMegabytes]
  rw [blckSz] at hlast
  rw [lastStart, hsize]
  omega

end DocumentDb.CursorStore
