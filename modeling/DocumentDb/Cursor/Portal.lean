/-
Portal cursors: the pages of a scrollable portal.

A request fetches rows until the page is full. The row for which it is full was fetched and
not written; the portal stays on it, and the next request fetches it once more. The proof
follows the rows that are still to be returned (`Portal.pending`): a request takes a
beginning of them (`drainPersistedCursor_spec`). A page is charged with nine bytes for a
document, which is enough for its index, as no page has ten million
(`length_encodeElems_le`).
-/
import DocumentDb.Bson.Path
import DocumentDb.Cursor.Streaming

namespace DocumentDb

open List Nat

-- ==== the portal

structure PortalRows where
  rows : List (Option Pgbson)
  size_le : ∀ document ∈ rows.reduceOption, document.size.toNat ≤ bsonMaxAllowedSize

/-- A scrollable `Portal`: the number of its current row, and whether it has moved
behind the last one. -/
structure Portal where
  query : PortalRows
  portalPos : Nat := 0
  atEnd : Bool := false

namespace Portal

/-- `SPI_cursor_fetch` of one row, forward. -/
def fetchNext (portal : Portal) : Option (Option Pgbson) × Portal :=
  match portal.query.rows[portal.portalPos]? with
  | some row => (some row, { portal with portalPos := portal.portalPos + 1 })
  | none => (none, { portal with atEnd := true })

/-- `SPI_cursor_fetch` of no row: the current row again. -/
def fetchCurrent (portal : Portal) : Option (Option Pgbson) :=
  if portal.portalPos = 0 ∨ portal.atEnd then none
  else portal.query.rows[portal.portalPos - 1]?

def fetch (shouldFetch : Bool) (portal : Portal) : Option (Option Pgbson) × Portal :=
  if shouldFetch then portal.fetchNext else (portal.fetchCurrent, portal)

/-- The loop of `FetchCursorAndWriteUntilPageOrSize`. The fuel bounds the
rounds. -/
def fetchRows (batchSize : Int32) : Nat → Bool → Portal → FetchState →
    Option (TerminationReason × Portal × FetchState)
  | 0, _, _, _ => none
  | fuel + 1, shouldFetch, portal, s =>
    match portal.fetch shouldFetch with
    | (none, portal) => some (.cursorCompletion, portal, s)
    | (some none, portal) => fetchRows batchSize fuel true portal s
    | (some (some documentValue), portal) => do
      match ← processCursorResultRowDataAttribute batchSize documentValue s with
      | (some reason, s) => some (reason, portal, s)
      | (none, s) => fetchRows batchSize fuel true portal s

/-- On a portal without continuations. There is a round for every row and one for the end.
-/
def fetchCursorAndWriteUntilPageOrSize (batchSize : Int32) (portal : Portal)
    (s : FetchState) : Option (TerminationReason × Portal × FetchState) :=
  if batchSize = 0 then some (.batchItemLimit, portal, s)
  else
    fetchRows batchSize (portal.query.rows.length + 1) (portal.portalPos = 0) portal s

end Portal

-- ==== the requests

/-- The document of a page up to its rows: the cursor and the namespace. -/
def cursorDoc (namespaceName : Bytes) : Fields :=
  [([105, 100], .int64 0), ([110, 115], .utf8 namespaceName)]

/-- A request for a page. The writer of libbson holds less than `2 ^ 31` bytes. -/
structure PortalRequest where
  batchSize : Int32
  batchSize_nonneg : 0 ≤ batchSize
  namespaceName : Bytes
  isFirstPage : Bool
  size_lt : (encodeDoc (cursorDoc namespaceName)).length < 2 ^ 31

variable (request : PortalRequest)

/-- The size before the first row, by `SetupCursorPagePreamble`: the least size of
a document, what is written of the cursor, the name of the array and its frame. -/
def PortalRequest.accumulatedSize : UInt32 :=
  5 + UInt32.ofNat (encodeDoc (cursorDoc request.namespaceName)).length
    + (if request.isFirstPage then 10 else 9) + 5

/-- Whether the portal is completed, and the page. -/
def drainPersistedCursor (portal : Portal) : Option (Bool × Portal × List Pgbson) := do
  let (reason, portal, s) ← portal.fetchCursorAndWriteUntilPageOrSize
    request.batchSize ⟨[], request.accumulatedSize, [], 0, 0⟩
  some (reason = .cursorCompletion, portal, s.writer)

/-- The pages of some requests, and whether the last of them completed the portal,
which is closed then. -/
def portalPages : List PortalRequest → Portal → Option (List (List Pgbson) × Bool)
  | [], _ => some ([], false)
  | request :: requests, portal => do
    let (completed, portal, page) ← drainPersistedCursor request portal
    if completed then some ([page], true)
    else
      let (pages, completed) ← portalPages requests portal
      some (page :: pages, completed)

variable (page : List Pgbson)

def pageArray : Value :=
  .array (page.map fun document => .document document.fields)

-- ==== the size of a page

def charge : Nat := (page.map fun document => document.size.toNat + 9).sum

theorem charge_append (doc : Pgbson) :
    charge (page ++ [doc]) = charge page + (doc.size.toNat + 9) := by
  unfold charge
  rw [map_append, List.sum_append_nat]
  rfl

theorem length_mul_le_charge : 9 * page.length ≤ charge page := by
  unfold charge
  induction page with
  | nil => exact Nat.zero_le _
  | cons document page ih =>
    rw [map_cons, List.sum_cons, length_cons]
    omega

theorem length_data_eq (doc : Pgbson) :
    (encodeValue (.document doc.fields)).length = doc.size.toNat := by
  have hlt := doc.size_lt
  show (encodeDoc doc.fields).length = (UInt32.ofNat (encodeDoc doc.fields).length).toNat
  rw [UInt32.toNat_ofNat']
  omega

theorem length_encodeElems_le (i : Nat) (h : i + page.length ≤ 10 ^ 7) :
    (encodeElems i (page.map fun document => .document document.fields)).length ≤ charge page := by
  induction page generalizing i with
  | nil => exact Nat.zero_le _
  | cons document page ih =>
    rw [length_cons] at h
    have hkey : (arrayKey i).length ≤ 7 := length_arrayKey_le (by omega) (by omega)
    have hrest := ih (i + 1) (by omega)
    have hdata := length_data_eq document
    rw [map_cons, encodeElems, charge, map_cons, List.sum_cons]
    change _ ≤ _ + charge page
    simp only [length_cons, length_append]
    omega

theorem length_pageArray_lt {page : List Pgbson} (hlen : 1 < page.length)
    (hcharge : charge page ≤ bsonMaxAllowedSize) :
    (encodeValue (pageArray page)).length < charge page := by
  match page, hlen with
  | first :: second :: page, _ =>
    have hcount := length_mul_le_charge (first :: second :: page)
    rw [bsonMaxAllowedSize] at hcharge
    simp only [length_cons] at hcount
    have hrest := length_encodeElems_le page 2 (by omega)
    have hfirst := length_data_eq first
    have hsecond := length_data_eq second
    have hzero : (arrayKey 0).length = 1 := rfl
    have hone : (arrayKey 1).length = 1 := by
      simp [arrayKey]
    have hsum : charge (first :: second :: page)
        = first.size.toNat + 9 + (second.size.toNat + 9 + charge page) := rfl
    rw [pageArray, encodeValue, frame, map_cons, map_cons, encodeElems, encodeElems]
    simp only [length_cons, length_append, Wire.length_leBytes, length_nil, reduceAdd]
    omega

-- ==== one row

/-- A page that is being filled, from an initial size on. -/
structure Filling (initial : Nat) (batchSize : Int32) (s : FetchState) : Prop where
  count : s.numRowsFetched = s.writer.length
  size : s.accumulatedSize.toNat = initial + charge s.writer
  limit : (s.writer.length : Int) ≤ batchSize.toInt
  size_le : ∀ document ∈ s.writer, document.size.toNat ≤ bsonMaxAllowedSize
  small : 1 < s.writer.length → initial + charge s.writer < bsonMaxAllowedSize

section Row

variable {initial : Nat} {limit : Int32} {s : FetchState} {document : Pgbson}

theorem Filling.add_lt (h : Filling initial limit s) (hinitial : initial < 2 ^ 31 + 2 ^ 24)
    (hdocument : document.size.toNat ≤ bsonMaxAllowedSize) :
    initial + charge s.writer + (document.size.toNat + 9) < 2 ^ 32 := by
  have hsmall := h.small
  have hfirst := h.size_le
  rw [bsonMaxAllowedSize] at hdocument hsmall hfirst
  match hwriter : s.writer with
  | [] =>
    have hcharge : charge [] = 0 := rfl
    omega
  | [first] =>
    have hcharge : charge [first] = first.size.toNat + 9 := rfl
    have hle := hfirst first (by rw [hwriter]; exact mem_cons_self)
    omega
  | first :: second :: page =>
    rw [hwriter] at hsmall
    have hlt := hsmall (succ_lt_succ (succ_pos _))
    omega

theorem Filling.process (h : Filling initial limit s) (hinitial : initial < 2 ^ 31 + 2 ^ 24)
    (hbatch : 0 < limit.toInt) (hdocument : document.size.toNat ≤ bsonMaxAllowedSize) :
    (∃ reason s', processCursorResultRowDataAttribute limit document s = some (some reason, s')
      ∧ reason ≠ .cursorCompletion ∧ s'.writer = s.writer ∧ s.writer ≠ [])
    ∨ ∃ s', processCursorResultRowDataAttribute limit document s = some (none, s')
      ∧ s'.writer = s.writer ++ [document] ∧ Filling initial limit s' := by
  have hlt := h.add_lt hinitial hdocument
  have htotal : (s.accumulatedSize + document.size + perDocOverhead).toNat
      = initial + charge s.writer + (document.size.toNat + 9) := by
    rw [UInt32.toNat_add, UInt32.toNat_add, h.size]
    show (_ % 2 ^ 32 + 9) % 2 ^ 32 = _
    omega
  have hadded : (s.accumulatedSize + (document.size + perDocOverhead)).toNat
      = initial + charge s.writer + (document.size.toNat + 9) := by
    rw [← UInt32.add_assoc]
    exact htotal
  unfold processCursorResultRowDataAttribute
  dsimp only
  rw [if_neg (Nat.not_lt.2 hdocument), htotal, h.count]
  by_cases hfull : bsonMaxAllowedSize
      ≤ initial + charge s.writer + (document.size.toNat + 9) ∧ 0 < s.writer.length
  · rw [if_pos hfull]
    exact Or.inl ⟨_, _, rfl, nofun, rfl, ne_nil_of_length_pos hfull.2⟩
  rw [if_neg hfull]
  by_cases hitems : limit.toInt ≤ s.writer.length
  · rw [if_pos hitems]
    refine Or.inl ⟨_, _, rfl, nofun, rfl, ne_nil_of_length_pos ?_⟩
    omega
  rw [if_neg hitems]
  refine Or.inr ⟨_, rfl, rfl, ?_, ?_, ?_, ?_, ?_⟩
  · show s.writer.length + 1 = _
    rw [length_append]
    rfl
  · rw [charge_append, ← Nat.add_assoc]
    exact hadded
  · rw [length_append, length_singleton]
    omega
  · intro other hother
    rcases mem_append.1 hother with hold | hnew
    · exact h.size_le other hold
    · rw [mem_singleton.1 hnew]
      exact hdocument
  · intro hlen
    rw [length_append, length_singleton] at hlen
    rw [charge_append]
    by_contra hge
    exact hfull ⟨by omega, by omega⟩

end Row

-- ==== one page

namespace Portal

/-- The rows that are still to be returned. The current row is one of them. -/
def pending (portal : Portal) : List Pgbson :=
  (portal.query.rows.drop (portal.portalPos - 1)).reduceOption

/-- A portal between two requests: it was never moved, or it is on a row. -/
structure Rests (portal : Portal) : Prop where
  atEnd : portal.atEnd = false
  le_length : portal.portalPos ≤ portal.query.rows.length

variable {portal : Portal} {left : List (Option Pgbson)}

theorem fetchRows_current (h : portal.Rests)
    (hpos : 0 < portal.portalPos) (limit : Int32) (fuel : Nat) (s : FetchState) :
    fetchRows limit (fuel + 1) false portal s = fetchRows limit (fuel + 1) true
        { portal with portalPos := portal.portalPos - 1 } s := by
  have hfetch : portal.fetch false
      = fetch true { portal with portalPos := portal.portalPos - 1 } := by
    have hlt : portal.portalPos - 1 < portal.query.rows.length := by
      have hle := h.le_length
      omega
    show (portal.fetchCurrent, portal) = fetchNext { portal with portalPos := portal.portalPos - 1 }
    unfold fetchCurrent fetchNext
    rw [if_neg (by rw [h.atEnd]; simp only [Bool.false_eq_true, or_false]; omega)]
    rw [getElem?_eq_getElem hlt]
    rw [Nat.sub_add_cancel hpos]
  unfold fetchRows
  rw [hfetch]

/-- What a request does to the portal: the page, and the rows that are left. -/
structure Returned (portal : Portal) (due written page : List Pgbson)
    (reason : TerminationReason) (portal' : Portal) : Prop where
  query : portal'.query = portal.query
  of_completion : reason = .cursorCompletion → due = page
  of_limit : reason ≠ .cursorCompletion → portal'.Rests ∧ 0 < portal'.portalPos
    ∧ due = page ++ portal'.pending ∧ written ++ page ≠ []

theorem fetchNext_cons {row : Option Pgbson}
    (hleft : portal.query.rows.drop portal.portalPos = row :: left) :
    ∃ next, portal.fetchNext = (some row, next) ∧ next.query = portal.query
      ∧ next.portalPos = portal.portalPos + 1 ∧ next.atEnd = portal.atEnd
      ∧ portal.portalPos < portal.query.rows.length
      ∧ next.query.rows.drop next.portalPos = left := by
  have hrow : portal.query.rows[portal.portalPos]? = some row := by
    rw [← head?_drop, hleft]
    rfl
  refine ⟨{ portal with portalPos := portal.portalPos + 1 }, ?_, rfl, rfl, rfl,
    (List.getElem?_eq_some_iff.1 hrow).1, ?_⟩
  · unfold fetchNext
    rw [hrow]
  · show portal.query.rows.drop (portal.portalPos + 1) = left
    rw [← tail_drop, hleft]
    rfl

section Rounds

variable {limit : Int32} {fuel : Nat} {portal portal' : Portal}
  {s s' : FetchState} {document : Pgbson}

theorem fetchRows_end (h : portal.fetchNext = (none, portal')) :
    fetchRows limit (fuel + 1) true portal s = some (.cursorCompletion, portal', s) := by
  unfold fetchRows fetch
  rw [if_pos rfl, h]

theorem fetchRows_null (h : portal.fetchNext = (some none, portal')) :
    fetchRows limit (fuel + 1) true portal s = fetchRows limit fuel true portal' s := by
  rw [fetchRows, fetch, if_pos rfl, h]

theorem fetchRows_limit {reason : TerminationReason}
    (h : portal.fetchNext = (some (some document), portal'))
    (hrow : processCursorResultRowDataAttribute limit document s = some (some reason, s')) :
    fetchRows limit (fuel + 1) true portal s = some (reason, portal', s') := by
  rw [fetchRows, fetch, if_pos rfl, h]
  dsimp only
  rw [hrow]
  rfl

theorem fetchRows_written (h : portal.fetchNext = (some (some document), portal'))
    (hrow : processCursorResultRowDataAttribute limit document s = some (none, s')) :
    fetchRows limit (fuel + 1) true portal s = fetchRows limit fuel true portal' s' := by
  rw [fetchRows, fetch, if_pos rfl, h]
  dsimp only
  rw [hrow]
  rfl

end Rounds

theorem fetchRows_spec {initial : Nat} (hinitial : initial < 2 ^ 31 + 2 ^ 24)
    {limit : Int32} (hbatch : 0 < limit.toInt) {fuel : Nat} {s : FetchState}
    (hleft : portal.query.rows.drop portal.portalPos = left)
    (hend : portal.atEnd = false) (hfuel : left.length ≤ fuel) (hs : Filling initial limit s) :
    ∃ reason portal' s' page, fetchRows limit (fuel + 1) true portal s = some (reason, portal', s')
      ∧ s'.writer = s.writer ++ page
      ∧ (∃ t, t.writer = s'.writer ∧ Filling initial limit t)
      ∧ Returned portal left.reduceOption s.writer page reason portal' := by
  induction left generalizing portal fuel s with
  | nil =>
    have hnone : portal.query.rows[portal.portalPos]? = none :=
      getElem?_eq_none (drop_eq_nil_iff.1 hleft)
    have hfetch : portal.fetchNext = (none, { portal with atEnd := true }) := by
      unfold fetchNext
      rw [hnone]
    exact ⟨_, _, s, [], fetchRows_end hfetch, (append_nil _).symm,
      ⟨s, rfl, hs⟩, rfl, fun _ => rfl, fun h => absurd rfl h⟩
  | cons row left ih =>
    obtain ⟨next, hfetch, hquery, hpos, hnext, hlt, hdrop⟩ := fetchNext_cons hleft
    rw [hend] at hnext
    obtain ⟨fuel, rfl⟩ : ∃ n, fuel = n + 1 :=
      exists_eq_succ_of_ne_zero (Nat.ne_of_gt (zero_lt_of_lt hfuel))
    have hfuel' : left.length ≤ fuel := le_of_succ_le_succ hfuel
    cases row with
    | none =>
      obtain ⟨reason, portal', s', page, hrest, hwriter, hfilled, hreturned⟩ :=
        ih hdrop hnext hfuel' hs
      exact ⟨reason, portal', s', page, (fetchRows_null hfetch).trans hrest,
        hwriter, hfilled, hreturned.query.trans hquery,
        hreturned.of_completion, hreturned.of_limit⟩
    | some document =>
      have hdocument : document.size.toNat ≤ bsonMaxAllowedSize := by
        refine portal.query.size_le document ?_
        rw [reduceOption_mem_iff]
        refine mem_of_mem_drop (i := portal.portalPos) ?_
        rw [hleft]
        exact mem_cons_self
      rcases hs.process hinitial hbatch hdocument with
        ⟨reason, s', hrow, hne, hwriter, hnil⟩ | ⟨s', hrow, hwriter, hs'⟩
      · -- the page is full, and the portal stays on the row
        refine ⟨reason, next, s', [], fetchRows_limit hfetch hrow, ?_,
          ⟨s, hwriter.symm, hs⟩, hquery, fun h => absurd h hne, fun _ => ?_⟩
        · rw [hwriter, append_nil]
        · refine ⟨⟨hnext, ?_⟩, ?_, ?_, ?_⟩
          · rw [hpos, hquery]
            exact hlt
          · rw [hpos]
            exact succ_pos _
          · rw [pending, hpos, hquery, Nat.add_sub_cancel, hleft]
            rfl
          · rw [append_nil]
            exact hnil
      · obtain ⟨reason, portal', s'', page, hrest, hwriter', hfilled,
          hreturned⟩ := ih hdrop hnext hfuel' hs'
        refine ⟨reason, portal', s'', document :: page,
          (fetchRows_written hfetch hrow).trans hrest, ?_, hfilled,
          hreturned.query.trans hquery, fun h => ?_, fun h => ?_⟩
        · rw [hwriter', hwriter, append_assoc]
          rfl
        · rw [reduceOption_cons_of_some, hreturned.of_completion h]
        · obtain ⟨hrests, hpos', hdue, -⟩ := hreturned.of_limit h
          refine ⟨hrests, hpos', ?_, ?_⟩
          · rw [reduceOption_cons_of_some, hdue]
            rfl
          · exact append_ne_nil_of_right_ne_nil _ (cons_ne_nil _ _)

end Portal

-- ==== all pages

variable (request : PortalRequest)

/-- A page is within the limits of its request: the number of documents, and, if
there are several, the size of the array with what comes before it. -/
def PortalRequest.Allows (page : List Pgbson) : Prop :=
  (page.length : Int) ≤ request.batchSize.toInt
    ∧ (1 < page.length → (encodeValue (pageArray page)).length
      + request.accumulatedSize.toNat < bsonMaxAllowedSize)

theorem PortalRequest.accumulatedSize_lt : request.accumulatedSize.toNat < 2 ^ 31 + 2 ^ 24 := by
  have hlt := request.size_lt
  unfold PortalRequest.accumulatedSize
  split
  all_goals
    simp only [UInt32.toNat_add, UInt32.toNat_ofNat', UInt32.toNat_ofNat]
    omega

theorem Filling.allows {request : PortalRequest} {s : FetchState}
    (h : Filling request.accumulatedSize.toNat request.batchSize s) : request.Allows s.writer := by
  refine ⟨h.limit, fun hlen => ?_⟩
  have hsmall := h.small hlen
  have harray := length_pageArray_lt hlen (by omega)
  omega

theorem drainPersistedCursor_spec {portal : Portal} (h : portal.Rests) :
    ∃ completed portal' page, drainPersistedCursor request portal = some (completed, portal', page)
      ∧ request.Allows page ∧ portal'.query = portal.query
      ∧ (completed → portal.pending = page)
      ∧ (completed = false → portal'.Rests ∧ portal.pending = page ++ portal'.pending
        ∧ (0 < request.batchSize → page ≠ [])) := by
  have hstart : Filling request.accumulatedSize.toNat request.batchSize
      ⟨[], request.accumulatedSize, [], 0, 0⟩ :=
    ⟨rfl, rfl, Int32.le_iff_toInt_le.1 request.batchSize_nonneg, nofun, nofun⟩
  unfold drainPersistedCursor Portal.fetchCursorAndWriteUntilPageOrSize
  by_cases hzero : request.batchSize = 0
  · rw [if_pos hzero]
    refine ⟨false, portal, [], rfl, hstart.allows, rfl, nofun, fun _ => ?_⟩
    refine ⟨h, rfl, fun hpos => ?_⟩
    rw [hzero] at hpos
    exact absurd hpos (by decide)
  rw [if_neg hzero]
  have hbatch : 0 < request.batchSize.toInt := by
    have hnonneg := Int32.le_iff_toInt_le.1 request.batchSize_nonneg
    have hne : request.batchSize.toInt ≠ 0 := fun heq =>
      hzero (Int32.toInt_inj.1 heq)
    change 0 ≤ request.batchSize.toInt at hnonneg
    omega
  -- the first row of the page: the next one, or the current one again
  have hfirst : ∃ first : Portal, first.query = portal.query ∧ first.atEnd = false
      ∧ (first.query.rows.drop first.portalPos).reduceOption = portal.pending
      ∧ Portal.fetchRows request.batchSize (portal.query.rows.length + 1)
          (portal.portalPos = 0) portal ⟨[], request.accumulatedSize, [], 0, 0⟩
        = Portal.fetchRows request.batchSize (portal.query.rows.length + 1) true
          first ⟨[], request.accumulatedSize, [], 0, 0⟩ := by
    by_cases hpos : portal.portalPos = 0
    · refine ⟨portal, rfl, h.atEnd, ?_, ?_⟩
      · rw [Portal.pending, hpos]
      · rw [decide_eq_true hpos]
    · refine ⟨{ portal with portalPos := portal.portalPos - 1 }, rfl, h.atEnd, rfl, ?_⟩
      rw [decide_eq_false hpos]
      exact Portal.fetchRows_current h (Nat.pos_of_ne_zero hpos) _ _ _
  obtain ⟨first, hquery, hend, hdue, heq⟩ := hfirst
  have hfuel : (first.query.rows.drop first.portalPos).length ≤ portal.query.rows.length := by
    rw [hquery, length_drop]
    exact sub_le _ _
  obtain ⟨reason, portal', s', page, hrun, hwriter, ⟨t, ht, hfilled⟩, hreturned⟩ :=
    Portal.fetchRows_spec request.accumulatedSize_lt hbatch rfl hend hfuel hstart
  rw [heq, hrun]
  have hpage : s'.writer = page := hwriter
  refine ⟨decide (reason = .cursorCompletion), portal', page, ?_, ?_,
    hreturned.query.trans hquery, ?_, ?_⟩
  · show some (_, portal', s'.writer) = _
    rw [hpage]
  · rw [← hpage, ← ht]
    exact hfilled.allows
  · intro hcompleted
    rw [← hdue]
    exact hreturned.of_completion (of_decide_eq_true hcompleted)
  · intro hlimit
    obtain ⟨hrests, -, hpending, hne⟩ := hreturned.of_limit (of_decide_eq_false hlimit)
    refine ⟨hrests, ?_, fun _ => hne⟩
    rw [← hdue]
    exact hpending

/-- All requests: every page is allowed, and together they are a beginning of the
rows, or all of them if the portal is completed. -/
theorem portalPages_spec (requests : List PortalRequest) {portal : Portal} (h : portal.Rests) :
    ∃ pages completed, portalPages requests portal = some (pages, completed)
      ∧ List.Forall₂ PortalRequest.Allows (requests.take pages.length) pages
      ∧ (completed → pages.flatten = portal.pending)
      ∧ (completed = false → pages.length = requests.length ∧ pages.flatten <+: portal.pending
        ∧ requests.countP (fun request => 0 < request.batchSize) ≤ pages.flatten.length) := by
  induction requests generalizing portal with
  | nil =>
    exact ⟨[], false, rfl, .nil, nofun, fun _ =>
      ⟨rfl, nil_prefix, Nat.le_refl _⟩⟩
  | cons request requests ih =>
    obtain ⟨completed, portal', page, hdrain, hallows, -, hall, hrest⟩ :=
      drainPersistedCursor_spec request h
    cases completed with
    | true =>
      refine ⟨[page], true, ?_, ?_, fun _ => ?_, nofun⟩
      · rw [portalPages, hdrain]
        rfl
      · exact .cons hallows .nil
      · rw [hall rfl]
        exact flatten_singleton
    | false =>
      obtain ⟨hrests, hpending, hprogress⟩ := hrest rfl
      obtain ⟨pages, completed, hpages, hforall, hcomplete, hfirst⟩ := ih hrests
      refine ⟨page :: pages, completed, ?_, .cons hallows hforall, ?_, ?_⟩
      · rw [portalPages, hdrain]
        show ((portalPages requests portal').bind fun p =>
          some (page :: p.1, p.2)) = _
        rw [hpages]
        rfl
      · intro hcompleted
        rw [flatten_cons, hcomplete hcompleted, hpending]
      · intro hlimit
        obtain ⟨hlength, hbeginning, hcount⟩ := hfirst hlimit
        refine ⟨congrArg succ hlength, ?_, ?_⟩
        · rw [flatten_cons, hpending]
          exact (prefix_append_right_inj page).2 hbeginning
        · rw [flatten_cons, length_append, countP_cons]
          split
          · rename_i hpos
            have hne := hprogress (of_decide_eq_true hpos)
            have hlen := length_pos_iff.2 hne
            omega
          · omega

/-- A portal cursor returns its rows that are not null in order, each once: the
pages are a beginning of them, all of them when the cursor is completed, and it is
completed after as many requests for documents as there are rows, and one more.
Every page is within the limits of its request. -/
theorem portalCursor_exact (query : PortalRows) (requests : List PortalRequest) :
    ∃ pages completed, portalPages requests { query := query } = some (pages, completed)
      ∧ pages.flatten <+: query.rows.reduceOption
      ∧ (completed = true → pages.flatten = query.rows.reduceOption)
      ∧ (completed = false → pages.length = requests.length)
      ∧ (query.rows.reduceOption.length < requests.countP (fun request => 0 < request.batchSize) →
        completed = true)
      ∧ List.Forall₂ PortalRequest.Allows (requests.take pages.length) pages := by
  have hrests : Portal.Rests { query := query } := ⟨rfl, Nat.zero_le _⟩
  obtain ⟨pages, completed, hpages, hforall, hcomplete, hfirst⟩ := portalPages_spec requests hrests
  refine ⟨pages, completed, hpages, ?_, hcomplete, ?_, ?_, hforall⟩
  · cases completed with
    | true => exact (hcomplete rfl).symm ▸ prefix_refl _
    | false => exact (hfirst rfl).2.1
  · exact fun hlimit => (hfirst hlimit).1
  · intro hcount
    cases completed with
    | true => rfl
    | false =>
      obtain ⟨-, hbeginning, hle⟩ := hfirst rfl
      have hlength := hbeginning.length_le
      change _ ≤ query.rows.reduceOption.length at hlength
      omega

/-- `{a: n}` -/
def portalDocument (n : Int32) : Pgbson where
  fields := [([97], .int32 n)]
  namesOk := rfl
  size_lt := Nat.lt_of_lt_of_le (Nat.lt_succ_self 12) (by decide)

def threeRows : PortalRows where
  rows := [some (portalDocument 1), none, some (portalDocument 2), some (portalDocument 3)]
  size_le := by decide +kernel

/-- A request of a `getMore` for `d.c`. -/
def batchOf (batchSize : Fin 100) : PortalRequest where
  batchSize := Int32.ofNat batchSize
  batchSize_nonneg := by
    revert batchSize
    decide
  namespaceName := [100, 46, 99]
  isFirstPage := false
  size_lt := by decide

/-- Two documents with a null row between them, an empty page, and the last document
with the end. -/
theorem three_documents_in_pages :
    (portalPages [batchOf 2, batchOf 0, batchOf 2] { query := threeRows }).map
        (fun result => (result.1.map length, result.2)) = some ([2, 0, 1], true)
      ∧ ∃ pages, portalPages [batchOf 2, batchOf 0, batchOf 2] { query := threeRows }
          = some (pages, true)
        ∧ pages.flatten = [portalDocument 1, portalDocument 2, portalDocument 3] := by
  have hrun : (portalPages [batchOf 2, batchOf 0, batchOf 2] { query := threeRows }).map
      (fun result => (result.1.map length, result.2)) = some ([2, 0, 1], true) := by decide +kernel
  refine ⟨hrun, ?_⟩
  obtain ⟨pages, completed, hpages, -, hall, -⟩ :=
    portalCursor_exact threeRows [batchOf 2, batchOf 0, batchOf 2]
  rw [hpages] at hrun
  obtain rfl : completed = true := (Prod.mk.inj (Option.some.inj hrun)).2
  exact ⟨pages, hpages, hall rfl⟩

end DocumentDb
