/-
The life of a request, from its submission to its removal.

A request is removed when its index was built, and then its record is valid, or when it was
pruned, and then it has none (`Sound.written`), since only one session builds the index of a
request (`Sound.request_unique`):

  - one that has picked a request has the lock of its collection, and the request is not in
    progress, or its process is gone;
  - one that builds an index, or has still to commit it, is the process in the row of the
    request, which protects it after the lock is released;
  - a request that is pruned is skippable, and no session builds its index
    (`Sound.toPrune_ne`).
-/
import DocumentDb.IndexBuild.Locks

namespace DocumentDb.IndexBuild

open List Option Nat Function

variable {ι : Type} {shared shared' : Shared ι} {i j : ι} {id : Nat}

-- ==== what stands behind a stage

/-- The request that a session has picked to build its index, until it has committed
the build or recorded its failure. -/
def Stage.toBuild : Stage ι → Option (IndexCmdRequest ι)
  | .picked request | .building request | .built request | .committing request =>
    some request
  | _ => none

/-- The request that a session is about to prune. -/
def Stage.toPrune : Stage ι → Option (IndexCmdRequest ι)
  | .pruneFound _ _ request | .pruneLocked _ request | .pruneCommit _ request => some request
  | _ => none

variable (shared : Shared ι)

def Picks (request : IndexCmdRequest ι) : Prop :=
  shared.queue.lookup request.indexId = some request.row
  ∧ request.row.status ≠ .skippable
  ∧ (request.row.status = .inprogress → ∃ pid ∈ shared.ended, request.row.globalPid = some pid)

def Builds (i : ι) (request : IndexCmdRequest ι) : Prop :=
  ∃ row, shared.queue.lookup request.indexId = some row
    ∧ row.status = .inprogress ∧ row.globalPid = some i
    ∧ row.collectionId = request.row.collectionId

/-- A request that is pruned has no record, and its row is skippable. -/
def Prunes (request : IndexCmdRequest ι) : Prop :=
  request.indexId < shared.nextIndexId
  ∧ shared.records.lookup request.indexId = none
  ∧ ∀ row, shared.queue.lookup request.indexId = some row → row.status = .skippable

def Backed (i : ι) : Stage ι → Prop
  | .picked request => Picks shared request
  | .building request | .built request | .committing request =>
    Builds shared i request
  | .pruneFound _ _ request | .pruneLocked _ request | .pruneCommit _ request =>
    Prunes shared request
  | _ => True

def Gone (id : Nat) : Prop :=
  id < shared.nextIndexId ∧ shared.queue.lookup id = none ∧ shared.records.lookup id = none

variable {shared} {request : IndexCmdRequest ι} {e : ι × Action ι} {events : List (ι × Action ι)}

theorem gone_removeRequest (h : Prunes shared request) :
    Gone (removeRequest request shared) request.indexId := by
  obtain ⟨hlt, hnone, -⟩ := h
  refine ⟨?_, ?_, ?_⟩
  · rw [(removeRequest_sameRest request).nextIndexId]
    exact hlt
  · rw [removeRequest, queue_delete]
    exact AList.lookup_erase request.indexId shared.queue
  · apply lookup_delete
    intro record hrecord
    cases hnone.symm.trans hrecord

variable {a : Action ι} {stage stage' : Stage ι}

theorem backed_request (h : Backed shared i stage) (hrequest : stage.toBuild = some request) :
    (Picks shared request ∧ stage.lockOf = some request.row.collectionId)
      ∨ Builds shared i request := by
  cases stage with
  | picked r =>
    cases hrequest
    exact Or.inl ⟨h, rfl⟩
  | building r | built r | committing r =>
    cases hrequest
    exact Or.inr h
  | _ => cases hrequest

variable [DecidableEq ι] {cfg : Settings} {s s' : Server ι}

structure Sound (s : Server ι) : Prop where
  locked : ∀ i c, (s.stages i).keeps c ≤ held i c s.shared
  ended : ∀ i ∈ s.shared.ended, s.stages i = .ended
  queue_lt : ∀ {id row}, s.shared.queue.lookup id = some row → id < s.shared.nextIndexId
  records_lt : ∀ {id record}, s.shared.records.lookup id = some record → id < s.shared.nextIndexId
  recorded : ∀ {id row}, s.shared.queue.lookup id = some row → row.status ≠ .skippable →
    ∃ record, s.shared.records.lookup id = some record ∧ record.collectionId = row.collectionId
  unrecorded : ∀ {id row}, s.shared.queue.lookup id = some row →
    row.status = .skippable → s.shared.records.lookup id = none
  backed : ∀ i, Backed s.shared i (s.stages i)

theorem Sound.start : Sound (start : Server ι) where
  locked _ _ := Nat.zero_le _
  ended := nofun
  queue_lt h := by cases h
  records_lt h := by cases h
  recorded h := by cases h
  unrecorded h := by cases h
  backed _ := trivial

theorem Sound.row {request : IndexCmdRequest ι} (h : Sound s)
    (hrequest : (s.stages i).toBuild = some request) :
    ∃ row, s.shared.queue.lookup request.indexId = some row
      ∧ row.status ≠ .skippable ∧ row.collectionId = request.row.collectionId := by
  rcases backed_request (h.backed i) hrequest with
    ⟨⟨hrow, hstatus, -⟩, -⟩ | ⟨row, hrow, hstatus, -, hcollection⟩
  · exact ⟨request.row, hrow, hstatus, rfl⟩
  · refine ⟨row, hrow, ?_, hcollection⟩
    rw [hstatus]
    nofun

/-- A request that is pruned is skippable, and one that is built is not. -/
theorem Sound.toPrune_ne {request' : IndexCmdRequest ι} (h : Sound s)
    (hi : (s.stages i).toBuild = some request) (hj : (s.stages j).toPrune = some request') :
    request.indexId ≠ request'.indexId := by
  intro hid
  obtain ⟨row, hrow, hstatus, -⟩ := h.row hi
  have hbacked := h.backed j
  generalize s.stages j = stage at hj hbacked
  have hprunes : Prunes s.shared request' := by
    cases stage with
    | pruneFound _ _ _ | pruneLocked _ _ | pruneCommit _ _ =>
      cases hj
      exact hbacked
    | _ => cases hj
  exact hstatus (hprunes.2.2 row (hid ▸ hrow))

theorem Sound.lock_unique {c : Nat} (h : Sound s)
    (hi : (s.stages i).lockOf = some c) (hj : (s.stages j).lockOf = some c) : i = j := by
  have hpos : ∀ {k}, (s.stages k).lockOf = some c → 0 < held k c s.shared := by
    intro k hk
    have hkeeps := h.locked k c
    rw [Stage.keeps_some hk, if_pos rfl] at hkeeps
    exact hkeeps
  exact held_exclusive (hpos hi) (hpos hj)

theorem Sound.request_unique {request' : IndexCmdRequest ι} (h : Sound s)
    (hi : (s.stages i).toBuild = some request) (hj : (s.stages j).toBuild = some request')
    (hid : request.indexId = request'.indexId) : i = j := by
  -- a request that was picked is not that of a process
  have hpicked : ∀ {k l r r'}, (s.stages l).toBuild = some r' →
      r.indexId = r'.indexId → Picks s.shared r → Builds s.shared l r' → k = l := by
    intro k l r r' hl hid hpicks hbuilds
    obtain ⟨hrow, -, hprocess⟩ := hpicks
    obtain ⟨row, hrow', hstatus, hpid, -⟩ := hbuilds
    rw [hid, hrow'] at hrow
    cases hrow
    obtain ⟨pid, hended, hpid'⟩ := hprocess hstatus
    cases hpid.symm.trans hpid'
    rw [h.ended l hended] at hl
    cases hl
  rcases backed_request (h.backed i) hi with ⟨hpicks, hlock⟩ | hbuilds
  · rcases backed_request (h.backed j) hj with ⟨hpicks', hlock'⟩ | hbuilds'
    · obtain ⟨hrow, -, -⟩ := hpicks
      obtain ⟨hrow', -, -⟩ := hpicks'
      rw [hid, hrow'] at hrow
      rw [← some.inj hrow] at hlock
      exact h.lock_unique hlock hlock'
    · exact hpicked hj hid hpicks hbuilds'
  · rcases backed_request (h.backed j) hj with ⟨hpicks', hlock'⟩ | hbuilds'
    · exact (hpicked hi hid.symm hpicks' hbuilds).symm
    · obtain ⟨row, hrow, -, hpid, -⟩ := hbuilds
      obtain ⟨row', hrow', -, hpid', -⟩ := hbuilds'
      rw [hid, hrow'] at hrow
      rw [← some.inj hrow] at hpid
      exact some.inj (hpid.symm.trans hpid')

-- ==== what a step writes

def target (shared : Shared ι) : Action ι → Stage ι → Option Nat
  | .handle, .picked request | .fail _ _, .building request
  | .commit, .pruneCommit _ request | .commit, .committing request =>
    some request.indexId
  | .submit _, .idle => some shared.nextIndexId
  | _, _ => none

omit [DecidableEq ι] in
theorem giveUp_of_ne (comment : Option Comment) (h : id ≠ request.indexId) :
    (giveUp request comment shared).queue.lookup id = shared.queue.lookup id
      ∧ (giveUp request comment shared).records.lookup id = shared.records.lookup id := by
  unfold giveUp
  rw [queue_delete, lookup_mark_of_ne h, lookup_delete_of_ne h, records_mark]
  exact ⟨rfl, rfl⟩

omit [DecidableEq ι] in
theorem removeRequest_of_ne (h : id ≠ request.indexId) :
    (removeRequest request shared).queue.lookup id = shared.queue.lookup id
      ∧ (removeRequest request shared).records.lookup id = shared.records.lookup id := by
  unfold removeRequest
  rw [queue_delete, lookup_delete_of_ne h]
  exact ⟨AList.lookup_erase_ne h, rfl⟩

theorem Moves.frame (h : Moves cfg i shared a stage shared' stage')
    (hid : target shared a stage ≠ some id) : shared'.queue.lookup id = shared.queue.lookup id
      ∧ shared'.records.lookup id = shared.records.lookup id := by
  cases h with
  | submit =>
    have hne : id ≠ shared.nextIndexId := fun heq => hid (congrArg some heq.symm)
    exact ⟨AList.lookup_insert_ne hne, AList.lookup_insert_ne hne⟩
  | @handle request =>
    have hne : id ≠ request.indexId := fun heq => hid (congrArg some heq.symm)
    unfold handleRequest
    split
    · exact giveUp_of_ne none hne
    · split
      · dsimp only
        split
        · exact removeRequest_of_ne hne
        · exact ⟨rfl, rfl⟩
      · dsimp only
        rw [lookup_mark_of_ne hne, records_mark]
        exact ⟨rfl, rfl⟩
  | @fail request =>
    have hne : id ≠ request.indexId := fun heq => hid (congrArg some heq.symm)
    unfold recordFailure
    split
    · exact giveUp_of_ne _ hne
    · split
      · exact giveUp_of_ne _ hne
      · rw [lookup_mark_of_ne hne, records_mark]
        exact ⟨rfl, rfl⟩
  | @commitPruned exclude request =>
    exact removeRequest_of_ne fun heq => hid (congrArg some heq.symm)
  | @commitBuilt request =>
    have hne : id ≠ request.indexId := fun heq => hid (congrArg some heq.symm)
    constructor
    · show AList.lookup id ((markIndexAsValid _ shared).queue.erase _) = _
      rw [AList.lookup_erase_ne hne, queue_markIndexAsValid]
    · exact lookup_markIndexAsValid_of_ne hne
  | lockToPrune h | lock h =>
    obtain ⟨rfl, -⟩ := acquireLock_eq h
    exact ⟨rfl, rfl⟩
  | cannotPrune | unlockPruned | unlockNothing | unlockBuilt | unlockFailed =>
    rw [queue_releaseLock, records_releaseLock]
    exact ⟨rfl, rfl⟩
  | _ => exact ⟨rfl, rfl⟩

/-- What an action writes to the row and the record of an index. -/
inductive Written (shared shared' : Shared ι) (a : Action ι) (stage : Stage ι)
    (id : Nat) : Prop
  | changed {row row'} (hrow : shared.queue.lookup id = some row)
      (hstatus : row.status ≠ .skippable)
      (hrow' : shared'.queue.lookup id = some row')
      (hstatus' : row'.status ≠ .skippable)
      (hcollection : row'.collectionId = row.collectionId)
      (hrecord : shared'.records.lookup id = shared.records.lookup id)
  | givenUp {row row'} (hrow : shared.queue.lookup id = some row)
      (hstatus : row.status ≠ .skippable)
      (hrow' : shared'.queue.lookup id = some row')
      (hstatus' : row'.status = .skippable)
      (hrecord : shared'.records.lookup id = none)
  | pruned {exclude request} (ha : a = .commit)
      (hstage : stage = .pruneCommit exclude request) (hid : request.indexId = id)
      (hrow' : shared'.queue.lookup id = none)
      (hrecord : shared'.records.lookup id = none)
  | finished {row record'} (hrow : shared.queue.lookup id = some row)
      (hstatus : row.status ≠ .skippable)
      (hrow' : shared'.queue.lookup id = none)
      (hrecord : shared'.records.lookup id = some record')
      (hvalid : record'.isValid = true)
  | submitted {row' record'} (hid : id = shared.nextIndexId)
      (hnext : shared'.nextIndexId = shared.nextIndexId + 1)
      (hrow' : shared'.queue.lookup id = some row')
      (hstatus' : row'.status ≠ .skippable)
      (hrecord : shared'.records.lookup id = some record')
      (hcollection : record'.collectionId = row'.collectionId)

section Writing

variable {request : IndexCmdRequest ι} {row : Row ι}

theorem giveUp_written (h : Sound s) (comment : Option Comment)
    (hrow : s.shared.queue.lookup request.indexId = some row) (hstatus : row.status ≠ .skippable)
    (hcollection : row.collectionId = request.row.collectionId) :
    Written s.shared (giveUp request comment s.shared) a stage request.indexId := by
  unfold giveUp
  refine .givenUp hrow hstatus ((congrArg (AList.lookup request.indexId)
    queue_delete).trans (lookup_mark hrow hstatus)) rfl ?_
  · apply lookup_delete
    intro record hrecord
    rw [records_mark] at hrecord
    obtain ⟨record', hrecord', hcoll⟩ := h.recorded hrow hstatus
    cases hrecord.symm.trans hrecord'
    exact hcoll.trans hcollection

theorem Sound.handle_written (h : Sound s) (hstage : s.stages i = .picked request) :
    Written s.shared (handleRequest cfg i request s.shared).1 .handle
      (.picked request) request.indexId := by
  have hpicks : Picks s.shared request := by
    have hbacked := h.backed i
    rw [hstage] at hbacked
    exact hbacked
  obtain ⟨hrow, hstatus, -⟩ := hpicks
  unfold handleRequest
  by_cases hattempts : cfg.maxIndexBuildAttempts ≤ request.row.attemptCount
  · rw [if_pos hattempts]
    exact giveUp_written h none hrow hstatus rfl
  · rw [if_neg hattempts, if_neg hstatus]
    exact .changed hrow hstatus (lookup_mark hrow hstatus) nofun rfl
      (congrArg (AList.lookup request.indexId) records_mark)

theorem Sound.fail_written (h : Sound s) (hstage : s.stages i = .building request)
    (code : Int) (message : String) :
    Written s.shared (recordFailure cfg request code message s.shared) a stage request.indexId := by
  obtain ⟨row, hrow, hstatus, hcollection⟩ := @Sound.row _ i _ _ request h (by rw [hstage]; rfl)
  unfold recordFailure
  split
  · exact giveUp_written h _ hrow hstatus hcollection
  · split
    · exact giveUp_written h _ hrow hstatus hcollection
    · exact .changed hrow hstatus (lookup_mark hrow hstatus) nofun rfl
        (congrArg (AList.lookup request.indexId) records_mark)

theorem Sound.commitBuild_written (h : Sound s) (hstage : s.stages i = .committing request) :
    Written s.shared (commitBuild request s.shared) a stage request.indexId := by
  obtain ⟨row, hrow, hstatus, -⟩ := @Sound.row _ i _ _ request h (by rw [hstage]; rfl)
  obtain ⟨record, hrecord, -⟩ := h.recorded hrow hstatus
  refine .finished hrow hstatus ?_ (lookup_markIndexAsValid hrecord) rfl
  exact AList.lookup_erase request.indexId _

theorem Sound.removeRequest_written {exclude : List Nat} (h : Sound s)
    (hstage : s.stages i = .pruneCommit exclude request) :
    Written s.shared (removeRequest request s.shared) .commit
      (.pruneCommit exclude request) request.indexId := by
  have hprunes : Prunes s.shared request := by
    have hbacked := h.backed i
    rw [hstage] at hbacked
    exact hbacked
  obtain ⟨-, hrow, hrecord⟩ := gone_removeRequest hprunes
  exact .pruned rfl rfl rfl hrow hrecord

theorem Sound.written (h : Sound s) (hmoves : Moves cfg i s.shared a (s.stages i) shared' stage')
    (htarget : target s.shared a (s.stages i) = some id) :
    Written s.shared shared' a (s.stages i) id := by
  generalize hstage : s.stages i = stage at hmoves htarget
  cases hmoves with
  | submit =>
    cases htarget
    exact .submitted rfl rfl (AList.lookup_insert _) nofun (AList.lookup_insert _) rfl
  | handle =>
    cases htarget
    exact h.handle_written hstage
  | fail =>
    cases htarget
    exact h.fail_written hstage _ _
  | commitPruned =>
    cases htarget
    exact h.removeRequest_written hstage
  | commitBuilt =>
    cases htarget
    exact h.commitBuild_written hstage
  | _ => cases htarget

end Writing

-- ==== preservation

section

variable (h : Moves cfg i shared a stage shared' stage')
include h

theorem Moves.nextIndexId_cases : shared'.nextIndexId = shared.nextIndexId
      ∨ (shared'.nextIndexId = shared.nextIndexId + 1
        ∧ target shared a stage = some shared.nextIndexId) := by
  cases h with
  | submit => exact Or.inr ⟨rfl, rfl⟩
  | handle => exact Or.inl (handleRequest_sameRest _).nextIndexId
  | fail => exact Or.inl (recordFailure_sameRest _ _ _).nextIndexId
  | commitPruned => exact Or.inl (removeRequest_sameRest _).nextIndexId
  | commitBuilt => exact Or.inl (commitBuild_sameRest _).nextIndexId
  | lockToPrune h | lock h =>
    obtain ⟨rfl, -⟩ := acquireLock_eq h
    exact Or.inl rfl
  | cannotPrune | unlockPruned | unlockNothing | unlockBuilt | unlockFailed =>
    exact Or.inl nextIndexId_releaseLock
  | _ => exact Or.inl rfl

theorem Moves.nextIndexId_le : shared.nextIndexId ≤ shared'.nextIndexId := by
  rcases h.nextIndexId_cases with hsame | ⟨hsucc, -⟩
  · exact Nat.le_of_eq hsame.symm
  · rw [hsucc]
    exact le_succ _

theorem Moves.ended_eq : (shared'.ended = shared.ended ∧ (stage = .ended → stage' = .ended))
      ∨ (shared'.ended = i :: shared.ended ∧ stage' = .ended) := by
  cases h with
  | handle => exact Or.inl ⟨(handleRequest_sameRest _).ended, nofun⟩
  | fail => exact Or.inl ⟨(recordFailure_sameRest _ _ _).ended, nofun⟩
  | commitPruned => exact Or.inl ⟨(removeRequest_sameRest _).ended, nofun⟩
  | commitBuilt => exact Or.inl ⟨(commitBuild_sameRest _).ended, nofun⟩
  | lockToPrune h | lock h =>
    obtain ⟨rfl, -⟩ := acquireLock_eq h
    exact Or.inl ⟨rfl, nofun⟩
  | cannotPrune | unlockPruned | unlockNothing | unlockBuilt | unlockFailed =>
    exact Or.inl ⟨ended_releaseLock, nofun⟩
  | tick => exact Or.inl ⟨rfl, fun h => h⟩
  | terminate => exact Or.inr ⟨rfl, rfl⟩
  | _ => exact Or.inl ⟨rfl, nofun⟩

theorem Moves.mem_ended {k : ι} (hk : k ∈ shared.ended) : k ∈ shared'.ended := by
  rcases h.ended_eq with ⟨hsame, -⟩ | ⟨hmore, -⟩
  · rw [hsame]
    exact hk
  · rw [hmore]
    exact mem_cons_of_mem _ hk

end

theorem Sound.target_ne (h : Sound s) (hne : j ≠ i)
    (hrequest : (s.stages j).toBuild = some request) :
    target s.shared a (s.stages i) ≠ some request.indexId := by
  intro htarget
  obtain ⟨row, hrow, hstatus, -⟩ := h.row hrequest
  have hown : ∀ request', (s.stages i).toBuild = some request' →
      request'.indexId ≠ request.indexId := by
    intro request' hi hid
    exact hne (h.request_unique hrequest hi hid.symm)
  have hbacked := h.backed i
  generalize s.stages i = stage at htarget hown hbacked
  unfold target at htarget
  split at htarget
  · exact hown _ rfl (some.inj htarget)
  · exact hown _ rfl (some.inj htarget)
  · -- a request that is pruned is skippable
    obtain ⟨-, -, hskippable⟩ : Prunes s.shared _ := hbacked
    rw [some.inj htarget] at hskippable
    exact hstatus (hskippable row hrow)
  · exact hown _ rfl (some.inj htarget)
  · have hlt := h.queue_lt hrow
    rw [← some.inj htarget] at hlt
    exact Nat.lt_irrefl _ hlt
  · cases htarget

theorem stages_cases {P : ι → Stage ι → Prop} (hself : P i stage')
    (hothers : ∀ k, k ≠ i → P k (s.stages k)) (k : ι) :
    P k (Function.update s.stages i stage' k) := by
  by_cases hk : k = i
  · subst hk
    rw [update_self]
    exact hself
  · rw [update_of_ne hk]
    exact hothers k hk

section Step

variable (h : Sound s) (hmoves : Moves cfg i s.shared a (s.stages i) shared' stage')
include h hmoves

theorem Sound.step_locked (k : ι) (c : Nat) :
    (Function.update s.stages i stage' k).keeps c ≤ held k c shared' := by
  have heffect := hmoves.lockEffect
  apply stages_cases (P := fun k stage => stage.keeps c ≤ held k c shared')
  · by_cases ha : a = .terminate
    · subst ha
      cases hmoves
      exact Nat.zero_le _
    · have hheld : held i c s.shared
          = held i c s.shared - (s.stages i).keeps c + (s.stages i).keeps c :=
        (Nat.sub_add_cancel (h.locked i c)).symm
      rw [heffect.held_self ha hheld]
      exact Nat.le_add_left _ _
  · intro k hk
    rw [heffect.held_other hk]
    exact h.locked k c

theorem Sound.step_ended : ∀ k ∈ shared'.ended, Function.update s.stages i stage' k = .ended := by
  intro k
  apply stages_cases (P := fun k stage => k ∈ shared'.ended → stage = .ended)
  · intro hk
    rcases hmoves.ended_eq with ⟨hsame, hstay⟩ | ⟨-, hended⟩
    · rw [hsame] at hk
      exact hstay (h.ended i hk)
    · exact hended
  · intro k hne hk
    rcases hmoves.ended_eq with ⟨hsame, -⟩ | ⟨hmore, -⟩
    · rw [hsame] at hk
      exact h.ended k hk
    · rw [hmore] at hk
      exact h.ended k ((mem_cons.1 hk).resolve_left hne)

theorem Sound.step_cases (id : Nat) : Written s.shared shared' a (s.stages i) id
      ∨ (target s.shared a (s.stages i) ≠ some id
        ∧ shared'.queue.lookup id = s.shared.queue.lookup id
        ∧ shared'.records.lookup id = s.shared.records.lookup id) := by
  by_cases htarget : target s.shared a (s.stages i) = some id
  · exact Or.inl (h.written hmoves htarget)
  · exact Or.inr ⟨htarget, hmoves.frame htarget⟩

variable {id : Nat} {row : Row ι}

theorem Sound.step_queue_lt
    (hrow : shared'.queue.lookup id = some row) : id < shared'.nextIndexId := by
  have hle := hmoves.nextIndexId_le
  rcases h.step_cases hmoves id with hwritten | ⟨-, hqueue, -⟩
  · cases hwritten with
    | changed hold | givenUp hold => exact Nat.lt_of_lt_of_le (h.queue_lt hold) hle
    | pruned _ _ _ hnone | finished _ _ hnone => cases hnone.symm.trans hrow
    | submitted hid hnext =>
      rw [hid, hnext]
      exact lt_succ_self _
  · rw [hqueue] at hrow
    exact Nat.lt_of_lt_of_le (h.queue_lt hrow) hle

theorem Sound.step_records_lt {record : IndexRecord}
    (hrecord : shared'.records.lookup id = some record) : id < shared'.nextIndexId := by
  have hle := hmoves.nextIndexId_le
  rcases h.step_cases hmoves id with hwritten | ⟨-, -, hrecords⟩
  · cases hwritten with
    | changed hold | givenUp hold | finished hold =>
      exact Nat.lt_of_lt_of_le (h.queue_lt hold) hle
    | pruned _ _ _ _ hnone => cases hnone.symm.trans hrecord
    | submitted hid hnext =>
      rw [hid, hnext]
      exact lt_succ_self _
  · rw [hrecords] at hrecord
    exact Nat.lt_of_lt_of_le (h.records_lt hrecord) hle

theorem Sound.step_recorded
    (hrow : shared'.queue.lookup id = some row) (hstatus : row.status ≠ .skippable) :
    ∃ record, shared'.records.lookup id = some record ∧ record.collectionId = row.collectionId := by
  rcases h.step_cases hmoves id with hwritten | ⟨-, hqueue, hrecords⟩
  · cases hwritten with
    | changed hold hstatus' hnew _ hcollection hsame =>
      cases hnew.symm.trans hrow
      obtain ⟨record, hrecord, heq⟩ := h.recorded hold hstatus'
      exact ⟨record, hsame.trans hrecord, heq.trans hcollection.symm⟩
    | givenUp _ _ hnew hskippable =>
      cases hnew.symm.trans hrow
      exact absurd hskippable hstatus
    | pruned _ _ _ hnone | finished _ _ hnone => cases hnone.symm.trans hrow
    | submitted _ _ hnew _ hrecord hcollection =>
      cases hnew.symm.trans hrow
      exact ⟨_, hrecord, hcollection⟩
  · rw [hqueue] at hrow
    rw [hrecords]
    exact h.recorded hrow hstatus

theorem Sound.step_unrecorded
    (hrow : shared'.queue.lookup id = some row) (hstatus : row.status = .skippable) :
    shared'.records.lookup id = none := by
  rcases h.step_cases hmoves id with hwritten | ⟨-, hqueue, hrecords⟩
  · cases hwritten with
    | changed _ _ hnew hne | submitted _ _ hnew hne =>
      cases hnew.symm.trans hrow
      exact absurd hstatus hne
    | givenUp _ _ _ _ hnone => exact hnone
    | pruned _ _ _ hnone | finished _ _ hnone => cases hnone.symm.trans hrow
  · rw [hqueue] at hrow
    rw [hrecords]
    exact h.unrecorded hrow hstatus

theorem Sound.step_prunes (hprunes : Prunes s.shared request) : Prunes shared' request := by
  obtain ⟨hlt, hrecord, hskippable⟩ := hprunes
  refine ⟨Nat.lt_of_lt_of_le hlt hmoves.nextIndexId_le, ?_⟩
  rcases h.step_cases hmoves request.indexId with hwritten | ⟨-, hqueue, hrecords⟩
  · cases hwritten with
    | changed hold hne | givenUp hold hne | finished hold hne =>
      exact absurd (hskippable _ hold) hne
    | pruned _ _ _ hnone hnone' =>
      refine ⟨hnone', fun row hrow => ?_⟩
      cases hnone.symm.trans hrow
    | submitted hid => exact absurd hid (Nat.ne_of_lt hlt)
  · rw [hqueue, hrecords]
    exact ⟨hrecord, hskippable⟩

theorem Sound.step_backed_other {k : ι} (hk : k ≠ i) : Backed shared' k (s.stages k) := by
  have hbacked := h.backed k
  have hsame : ∀ request, (s.stages k).toBuild = some request →
      shared'.queue.lookup request.indexId = s.shared.queue.lookup request.indexId :=
    fun request hrequest => (hmoves.frame (h.target_ne hk hrequest)).1
  generalize s.stages k = stage at hbacked hsame
  cases stage with
  | picked request =>
    obtain ⟨hrow, hstatus, hprocess⟩ : Picks s.shared request := hbacked
    refine ⟨(hsame request rfl).trans hrow, hstatus, fun hin => ?_⟩
    obtain ⟨pid, hpid, heq⟩ := hprocess hin
    exact ⟨pid, hmoves.mem_ended hpid, heq⟩
  | building request | built request | committing request =>
    obtain ⟨row, hrow, hrest⟩ : Builds s.shared k request := hbacked
    exact ⟨row, (hsame request rfl).trans hrow, hrest⟩
  | pruneFound _ _ request | pruneLocked _ request | pruneCommit _ request =>
    exact h.step_prunes hmoves hbacked
  | _ => trivial

theorem Sound.step_backed_self : Backed shared' i stage' := by
  have hbacked := h.backed i
  have hprunes : ∀ request, Prunes s.shared request → Prunes shared' request :=
    fun request => h.step_prunes hmoves
  generalize hstage : s.stages i = stage at hmoves hbacked
  cases hmoves with
  | @found exclude pruned request hmem =>
    -- the request was read as a skippable row
    obtain ⟨hread, hfilter⟩ := mem_filter.1 hmem
    obtain ⟨hstatus, -⟩ := of_decide_eq_true hfilter
    have hrow := lookup_of_mem_requests hread
    refine ⟨h.queue_lt hrow, h.unrecorded hrow hstatus, fun row hrow' => ?_⟩
    cases hrow.symm.trans hrow'
    exact hstatus
  | lockToPrune | unlockPruned => exact hprunes _ hbacked
  | @pick exclude collectionIds collectionId request hmem =>
    obtain ⟨hread, hfilter⟩ := mem_filter.1 hmem
    obtain ⟨-, hstatus⟩ := of_decide_eq_true hfilter
    refine ⟨lookup_of_mem_requests hread, ?_, ?_⟩
    · rcases hstatus with ⟨-, hne⟩ | ⟨hin, -⟩
      · exact hne
      · rw [hin]
        nofun
    · intro hin
      rcases hstatus with ⟨hne, -⟩ | ⟨-, pid, hpid, heq⟩
      · exact absurd hin hne
      · exact ⟨pid, hpid, heq⟩
  | @handle request =>
    obtain ⟨hrow, hstatus, -⟩ : Picks s.shared request := hbacked
    unfold handleRequest
    by_cases hattempts : cfg.maxIndexBuildAttempts ≤ request.row.attemptCount
    · rw [if_pos hattempts]
      trivial
    · rw [if_neg hattempts, if_neg hstatus]
      exact ⟨_, lookup_mark hrow hstatus, rfl, rfl, rfl⟩
  | succeed => exact hbacked
  | unlockBuilt =>
    obtain ⟨row, hrow, hrest⟩ : Builds s.shared i _ := hbacked
    refine ⟨row, ?_, hrest⟩
    rw [queue_releaseLock]
    exact hrow
  | tick =>
    cases stage' with
    | pruneFound _ _ request | pruneLocked _ request | pruneCommit _ request =>
      exact hprunes _ hbacked
    | _ => exact hbacked
  | _ => trivial

end Step

theorem Sound.step (h : Sound s) (hstep : step cfg e s = some s') : Sound s' := by
  obtain ⟨i, a⟩ := e
  obtain ⟨shared', stage', hact, rfl⟩ := of_step hstep
  have hmoves := moves_of_act hact
  exact {
    locked := h.step_locked hmoves
    ended := h.step_ended hmoves
    queue_lt := h.step_queue_lt hmoves
    records_lt := h.step_records_lt hmoves
    recorded := h.step_recorded hmoves
    unrecorded := h.step_unrecorded hmoves
    backed := stages_cases (h.step_backed_self hmoves)
      fun _ hk => h.step_backed_other hmoves hk }

theorem Sound.run (h : Sound s)
    (hrun : Runs.run (IndexBuild.step cfg) events s = some s') : Sound s' :=
  Runs.invariant (Q := fun _ => True) (fun _ hsound hstep => hsound.step hstep)
    (fun _ _ => trivial) hrun h

-- ==== pruned requests

def IsValid (shared : Shared ι) (id : Nat) : Prop :=
  ∃ record, shared.records.lookup id = some record ∧ record.isValid = true

/-- A request that was submitted is not in the queue, and its index is not valid. -/
def Absent (shared : Shared ι) (id : Nat) : Prop :=
  id < shared.nextIndexId ∧ shared.queue.lookup id = none ∧ ¬ IsValid shared id

/-- In a run from the start the request of an index was pruned. -/
def Pruned (cfg : Settings) (events : List (ι × Action ι)) (id : Nat) : Prop :=
  ∃ before j after t exclude request, events = before ++ (j, .commit) :: after
    ∧ Runs.run (step cfg) before start = some t
    ∧ t.stages j = .pruneCommit exclude request ∧ request.indexId = id

theorem Sound.absent_step (h : Sound s) (hstep : IndexBuild.step cfg e s = some s')
    (hs : ¬ Absent s.shared id) (hs' : Absent s'.shared id) :
    e.2 = .commit ∧ ∃ exclude request, s.stages e.1 = .pruneCommit exclude request
      ∧ request.indexId = id := by
  obtain ⟨i, a⟩ := e
  obtain ⟨shared', stage', hact, rfl⟩ := of_step hstep
  have hmoves := moves_of_act hact
  obtain ⟨hlt, hnone, hinvalid⟩ := hs'
  rcases h.step_cases hmoves id with
    hwritten | ⟨hnot, hqueue, hrecords⟩
  · cases hwritten with
    | changed _ _ hrow | givenUp _ _ hrow | submitted _ _ hrow =>
      cases hnone.symm.trans hrow
    | pruned ha hstage hid => exact ⟨ha, _, _, hstage, hid⟩
    | finished _ _ _ hrecord hvalid => exact absurd ⟨_, hrecord, hvalid⟩ hinvalid
  · -- the request is not a new one: that would be in the queue
    exfalso
    apply hs
    refine ⟨?_, hqueue.symm.trans hnone, ?_⟩
    · rcases hmoves.nextIndexId_cases with hsame | ⟨hsucc, htarget⟩
      · rw [← hsame]
        exact hlt
      · have hne : id ≠ s.shared.nextIndexId := by
          rintro rfl
          exact hnot htarget
        rw [hsucc] at hlt
        omega
    · rintro ⟨record, hrecord, hvalid⟩
      exact hinvalid ⟨record, hrecords.trans hrecord, hvalid⟩

theorem Sound.gone_step (h : Sound s)
    (hstep : IndexBuild.step cfg e s = some s') (hs : Gone s.shared id) : Gone s'.shared id := by
  obtain ⟨i, a⟩ := e
  obtain ⟨shared', stage', hact, rfl⟩ := of_step hstep
  have hmoves := moves_of_act hact
  obtain ⟨hlt, hnone, hrecord⟩ := hs
  refine ⟨Nat.lt_of_lt_of_le hlt hmoves.nextIndexId_le, ?_⟩
  rcases h.step_cases hmoves id with hwritten | ⟨-, hqueue, hrecords⟩
  · cases hwritten with
    | changed hrow | givenUp hrow | finished hrow => cases hnone.symm.trans hrow
    | pruned _ _ _ hrow' hrecord' => exact ⟨hrow', hrecord'⟩
    | submitted hid => exact absurd hid (Nat.ne_of_lt hlt)
  · exact ⟨hqueue.trans hnone, hrecords.trans hrecord⟩

theorem absent_iff_pruned (hrun : Runs.run (step cfg) events start = some s) :
    Absent s.shared id ↔ Pruned cfg events id := by
  constructor
  · intro habsent
    have hstart : ¬ Absent (start : Server ι).shared id := by
      rintro ⟨hlt, -⟩
      exact Nat.not_lt_zero id hlt
    obtain ⟨before, e, after, t, t', rfl, hbefore, hstep, ht, ht', -, -⟩ :=
      Runs.exists_last_step (P := fun s => Absent s.shared id) hrun hstart habsent
    obtain ⟨ha, exclude, request, hstage, hid⟩ := (Sound.start.run hbefore).absent_step hstep ht ht'
    obtain ⟨j, a⟩ := e
    cases ha
    exact ⟨before, j, after, t, exclude, request, rfl, hbefore, hstage, hid⟩
  · rintro ⟨before, j, after, t, exclude, request, rfl, hbefore, hstage, rfl⟩
    obtain ⟨t₁, ht₁, hrest⟩ := Runs.of_run_append hrun
    cases hbefore.symm.trans ht₁
    obtain ⟨t', hstep, hafter⟩ := bind_eq_some_iff.1 hrest
    have hsound : Sound t := Sound.start.run hbefore
    have hgone : Gone t'.shared request.indexId := by
      obtain ⟨shared', stage', hact, rfl⟩ := of_step hstep
      have hbacked := hsound.backed j
      rw [hstage] at hact hbacked
      cases moves_of_act hact
      exact gone_removeRequest hbacked
    obtain ⟨-, hlt, hnone, hrecord⟩ :=
      Runs.invariant (P := fun s => Sound s ∧ Gone s.shared request.indexId) (Q := fun _ => True)
        (fun _ h hstep => ⟨h.1.step hstep, h.1.gone_step hstep h.2⟩)
        (fun _ _ => trivial) hafter ⟨hsound.step hstep, hgone⟩
    refine ⟨hlt, hnone, ?_⟩
    rintro ⟨record, hvalid, -⟩
    cases hrecord.symm.trans hvalid

end DocumentDb.IndexBuild
