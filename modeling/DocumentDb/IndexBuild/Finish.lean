/-
When does a client learn that its indexes were built?

`CheckForIndexCmdToFinish` answers that the requests are not finished, or that one has
failed, as long as one of them is in the queue. Afterwards all of them valid, or none, is a
success. That none is a success is wrong when all requests have failed and were pruned, and
only then (`absent_iff_pruned`, `reliable_iff`): a request that was not pruned is in the
queue or its index is valid.
-/
import DocumentDb.IndexBuild.Life

namespace DocumentDb.IndexBuild

open List

variable {ι : Type} {cfg : Settings} {shared : Shared ι} {ids : List Nat}

-- ==== the function

structure BuildIndexesResult where
  finish : Bool := false
  ok : Bool := true
  errmsg : Option String := none
  errcode : Int := 0

/-- `ERRCODE_DOCUMENTDB_INTERNALERROR`. -/
def internalError : Int := makeSqlstate ['M', '0', '0', '0', '0']

structure QueueSummary where
  failedIndexComment : Option Comment := none
  isAnyIndexFailed : Bool := false
  numIndexBuilds : Nat := 0
  errmsg : Option String := none
  errcode : Int := 0

def noteFailure (request : IndexCmdRequest ι) (summary : QueueSummary) : QueueSummary :=
  if IndexCmdStatus.failed.toNat ≤ request.row.status.toNat then
    { summary with
      failedIndexComment := request.row.comment
      isAnyIndexFailed := true }
  else summary

def noteAttempts (cfg : Settings) (request : IndexCmdRequest ι)
    (summary : QueueSummary) : QueueSummary :=
  if cfg.maxIndexBuildAttempts < request.row.attemptCount then
    match request.row.comment with
    | some comment =>
      { summary with
        failedIndexComment := some comment
        isAnyIndexFailed := true }
    | none =>
      { summary with
        errmsg := some "Index creation attempt failed"
        errcode := internalError
        isAnyIndexFailed := true }
  else summary

def summarize (cfg : Settings) (requests : List (IndexCmdRequest ι)) : QueueSummary :=
  requests.foldl (fun summary request =>
    let summary := noteAttempts cfg request (noteFailure request summary)
    { summary with numIndexBuilds := summary.numIndexBuilds + 1 }) {}

/-- The answer if a request has failed: the error of its comment, and some error in
any case. -/
def failureResult (summary : QueueSummary) : BuildIndexesResult :=
  let errmsg := (summary.failedIndexComment.bind Comment.errmsg).or summary.errmsg
  let errcode := (summary.failedIndexComment.bind Comment.errcode).getD summary.errcode
  match errmsg with
  | some errmsg => ⟨true, false, some errmsg, errcode⟩
  | none => ⟨true, false, some "Index Creation failed", internalError⟩

def indexIdListGetValidCount (indexIdList : List Nat) (shared : Shared ι) : Nat :=
  (shared.records.entries.filter fun entry =>
    entry.1 ∈ indexIdList ∧ entry.2.isValid).length

/-- The error says how many indexes were requested and how many are valid. -/
def checkForIndexCmdToFinish (cfg : Settings) (indexIdList : List Nat)
    (shared : Shared ι) : Except (Nat × Nat) BuildIndexesResult :=
  let summary := summarize cfg (shared.requests.filter fun request => request.indexId ∈ indexIdList)
  if summary.failedIndexComment.isSome ∨ summary.isAnyIndexFailed then
    .ok (failureResult summary)
  else if summary.numIndexBuilds = 0 then
    let validIndexCount := indexIdListGetValidCount indexIdList shared
    if validIndexCount = indexIdList.length ∨ validIndexCount = 0 then
      .ok { finish := true, ok := true }
    else .error (indexIdList.length, validIndexCount)
  else .ok {}

-- ==== its answers

theorem numIndexBuilds_summarize (requests : List (IndexCmdRequest ι)) :
    (summarize cfg requests).numIndexBuilds = requests.length := by
  have hstep : ∀ (request : IndexCmdRequest ι) (summary : QueueSummary),
      (noteAttempts cfg request (noteFailure request summary)).numIndexBuilds
        = summary.numIndexBuilds := by
    intro request summary
    have hfailure : (noteFailure request summary).numIndexBuilds = summary.numIndexBuilds := by
      unfold noteFailure
      split
      · rfl
      · rfl
    rw [← hfailure]
    unfold noteAttempts
    split
    · split
      · rfl
      · rfl
    · rfl
  induction requests using reverseRecOn with
  | nil => rfl
  | append_singleton requests request ih =>
    unfold summarize at ih ⊢
    rw [foldl_append, length_append]
    show (noteAttempts cfg request (noteFailure request _)).numIndexBuilds + 1 = _
    rw [hstep, ih]
    rfl

theorem failureResult_not_ok (summary : QueueSummary) : (failureResult summary).ok = false := by
  unfold failureResult
  dsimp only
  split
  · rfl
  · rfl

theorem of_success {result : BuildIndexesResult}
    (h : checkForIndexCmdToFinish cfg ids shared = .ok result)
    (hfinish : result.finish) (hok : result.ok) :
    (∀ id ∈ ids, shared.queue.lookup id = none) ∧ (indexIdListGetValidCount ids shared = ids.length
        ∨ indexIdListGetValidCount ids shared = 0) := by
  unfold checkForIndexCmdToFinish at h
  dsimp only at h
  split at h
  · cases h
    rw [failureResult_not_ok] at hok
    cases hok
  split at h
  · rename_i hnone
    rw [numIndexBuilds_summarize, length_eq_zero_iff] at hnone
    split at h
    · rename_i hcount
      refine ⟨fun id hid => ?_, hcount⟩
      by_contra hrow
      obtain ⟨row, hrow⟩ := Option.ne_none_iff_exists'.1 hrow
      have hmem : (⟨id, row⟩ : IndexCmdRequest ι) ∈ shared.requests :=
        mem_map.2 ⟨⟨id, row⟩, AList.mem_lookup_iff.1 hrow, rfl⟩
      have hnot := filter_eq_nil_iff.1 hnone _ hmem
      exact hnot (decide_eq_true hid)
    · cases h
  · cases h
    cases hfinish

theorem success_of_none (hqueue : ∀ id ∈ ids, shared.queue.lookup id = none)
    (hcount : indexIdListGetValidCount ids shared = 0) :
    checkForIndexCmdToFinish cfg ids shared = .ok { finish := true, ok := true } := by
  have hnone : shared.requests.filter (fun request =>
      request.indexId ∈ ids) = [] := by
    apply filter_eq_nil_iff.2
    intro request hmem hid
    have hrow := lookup_of_mem_requests hmem
    rw [hqueue _ (of_decide_eq_true hid)] at hrow
    cases hrow
  unfold checkForIndexCmdToFinish
  rw [hnone]
  have hbuilds : (summarize cfg ([] : List (IndexCmdRequest ι))).numIndexBuilds = 0 := rfl
  rw [if_neg (by rintro (h | h) <;> cases h), if_pos hbuilds, if_pos (Or.inr hcount)]

-- ==== valid indexes

def validIds (indexIdList : List Nat) (shared : Shared ι) : List Nat :=
  (shared.records.entries.filter fun entry =>
    entry.1 ∈ indexIdList ∧ entry.2.isValid).map Sigma.fst

theorem mem_validIds {id : Nat} : id ∈ validIds ids shared ↔ id ∈ ids ∧ IsValid shared id := by
  constructor
  · intro hmem
    obtain ⟨entry, hentry, rfl⟩ := mem_map.1 hmem
    obtain ⟨hentry, hfilter⟩ := mem_filter.1 hentry
    obtain ⟨hid, hvalid⟩ := of_decide_eq_true hfilter
    exact ⟨hid, entry.2, AList.mem_lookup_iff.2 hentry, hvalid⟩
  · rintro ⟨hid, record, hrecord, hvalid⟩
    refine mem_map.2 ⟨⟨id, record⟩, mem_filter.2
      ⟨AList.mem_lookup_iff.1 hrecord, decide_eq_true ⟨hid, hvalid⟩⟩, rfl⟩

theorem nodup_validIds : (validIds ids shared).Nodup :=
  (filter_sublist.map Sigma.fst).nodup shared.records.keys_nodup

theorem length_validIds : (validIds ids shared).length = indexIdListGetValidCount ids shared :=
  length_map _

theorem isValid_of_count (h : indexIdListGetValidCount ids shared = ids.length) :
    ∀ id ∈ ids, IsValid shared id := by
  have hsubset : validIds ids shared ⊆ ids := fun id hid => (mem_validIds.1 hid).1
  have hperm := (nodup_validIds.subperm hsubset).perm_of_length_le (by rw [length_validIds, h])
  intro id hid
  exact (mem_validIds.1 (hperm.mem_iff.2 hid)).2

theorem count_eq_zero_iff :
    indexIdListGetValidCount ids shared = 0 ↔ ∀ id ∈ ids, ¬ IsValid shared id := by
  rw [← length_validIds, length_eq_zero_iff]
  constructor
  · intro hnil id hid hvalid
    have hmem := mem_validIds.2 ⟨hid, hvalid⟩
    rw [hnil] at hmem
    cases hmem
  · intro hnone
    apply eq_nil_iff_forall_not_mem.2
    intro id hmem
    obtain ⟨hid, hvalid⟩ := mem_validIds.1 hmem
    exact hnone id hid hvalid

-- ==== the client

/-- A client asks for indexes that were requested, at any time of a run. -/
structure Asks (cfg : Settings) (ι : Type) [DecidableEq ι] where
  events : List (ι × Action ι)
  final : Server ι
  run_eq : Runs.run (step cfg) events start = some final
  indexIdList : List Nat
  requested : ∀ id ∈ indexIdList, id < final.shared.nextIndexId

namespace Asks

variable {ι : Type} [DecidableEq ι] (asks : Asks cfg ι)

/-- If the client is told that its indexes were built, they are valid. -/
def Reliable : Prop :=
  ∀ result, checkForIndexCmdToFinish cfg asks.indexIdList asks.final.shared
      = .ok result → result.finish = true → result.ok = true →
    ∀ id ∈ asks.indexIdList, IsValid asks.final.shared id

theorem isValid_of_not_pruned {id : Nat}
    (hid : id ∈ asks.indexIdList) (hpruned : ¬ Pruned cfg asks.events id)
    (hqueue : asks.final.shared.queue.lookup id = none) : IsValid asks.final.shared id := by
  by_contra hvalid
  apply hpruned
  rw [← absent_iff_pruned asks.run_eq]
  exact ⟨asks.requested id hid, hqueue, hvalid⟩

/-- The client is misled exactly if all its requests were pruned. -/
theorem reliable_iff : asks.Reliable ↔ asks.indexIdList = []
      ∨ ∃ id ∈ asks.indexIdList, ¬ Pruned cfg asks.events id := by
  constructor
  · intro hreliable
    by_contra hcontra
    obtain ⟨hne, hpruned⟩ := not_or.1 hcontra
    have habsent : ∀ id ∈ asks.indexIdList, Absent asks.final.shared id := by
      intro id hid
      rw [absent_iff_pruned asks.run_eq]
      by_contra hnot
      exact hpruned ⟨id, hid, hnot⟩
    have hsuccess : checkForIndexCmdToFinish cfg asks.indexIdList asks.final.shared
        = .ok { finish := true, ok := true } :=
      success_of_none (fun id hid => (habsent id hid).2.1)
        (count_eq_zero_iff.2 fun id hid => (habsent id hid).2.2)
    obtain ⟨id, hid⟩ := exists_mem_of_ne_nil _ hne
    exact (habsent id hid).2.2 (hreliable _ hsuccess rfl rfl id hid)
  · rintro (hnil | ⟨witness, hwitness, hpruned⟩) result hresult hfinish hok
    · rw [hnil]
      exact nofun
    · obtain ⟨hqueue, hcount⟩ := of_success hresult hfinish hok
      have hvalid : IsValid asks.final.shared witness :=
        asks.isValid_of_not_pruned hwitness hpruned (hqueue witness hwitness)
      -- one of the indexes is valid, so the number of valid indexes is not zero
      rcases hcount with hall | hzero
      · exact isValid_of_count hall
      · exact absurd hvalid (count_eq_zero_iff.1 hzero witness hwitness)

/-- The request of collection 5, before its build and after it has failed. -/
def queuedRequest : IndexCmdRequest Unit := ⟨0, 5, .queued, 0, none, 0, none⟩

/-- `ERRCODE_DOCUMENTDB_DUPLICATEKEY`. -/
def duplicateKey : Int := makeSqlstate ['M', '0', '0', '1', 'C']

/-- A request whose build fails with a duplicate key. After twenty minutes the next
call of the builder prunes it. -/
def prunedEvents : List (Unit × Action Unit) :=
  [((), .submit 5), ((), .call), ((), .getSkippable none),
    ((), .getCollectionIds [queuedRequest]), ((), .acquire),
    ((), .getRequest (some queuedRequest)), ((), .handle),
    ((), .fail duplicateKey "duplicate key"), ((), .release), ((), .tick 1201),
    ((), .call),
    ((), .getSkippable (some ⟨0, 5, .skippable, 1,
      some ⟨some "duplicate key", some duplicateKey⟩, 0, some ()⟩)),
    ((), .acquire), ((), .release), ((), .commit)]

def asksAfterPrune : Asks {} Unit where
  events := prunedEvents
  final := (Runs.run (step {}) prunedEvents start).get rfl
  run_eq := (Option.some_get _).symm
  indexIdList := [0]
  requested := by decide

/-- The client is told that the index was built, and there is none. -/
theorem told_success_after_prune : ¬ asksAfterPrune.Reliable := by
  intro hreliable
  obtain ⟨record, hrecord, -⟩ :=
    hreliable { finish := true, ok := true } rfl rfl rfl 0 (mem_singleton_self 0)
  cases hrecord

end Asks

end DocumentDb.IndexBuild
