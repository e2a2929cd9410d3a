/-
The cache of PISA query results: a hash table in the memory of a backend.

An entry points to its value in the memory of the statement that cached it, which is freed
with the statement. The table and its lock are null pointers until
`InitializePisaQueryCache` is called, which nothing in the repository does. A jsonb is its
text here, and what `EvictLRUEntries` removes is a parameter.

What a get answers is decided by the calls since its key was cached last (`lastCached`). Two
queries share a key if the separators of the one fall on separators or dots of the other
(`Dotted.AgreeUpTo`).
-/
import DocumentDb.Bson.Value
import DocumentDb.Lib.Dotted

namespace DocumentDb.QueryCache

-- ==== keys

/-- A key, of fewer than `PISA_CACHE_KEY_SIZE` bytes. -/
abbrev CacheKey := { key : Bytes // key.length < 256 }

structure Query where
  databaseName : Bytes
  collectionName : Bytes
  query : Bytes
  options : Option Bytes

variable (hashAny : Bytes → UInt32)

/-- What `psprintf` prints. -/
def printKey (x : Query) : Bytes :=
  x.databaseName ++ 46 :: x.collectionName ++ 46 :: arrayKey (hashAny x.query).toNat ++
    46 :: x.options.getD []

def generateCacheKey (x : Query) : CacheKey :=
  ⟨(printKey hashAny x).take 255, Nat.lt_succ_of_le (List.length_take_le _ _)⟩

-- ==== the cache

/-- With the statement whose memory holds the value. Times are in microseconds. -/
structure PisaCacheEntry where
  queryResult : Bytes
  statement : Nat
  createdAt : Int
  ttlSeconds : Int32

structure Cache where
  /-- `InitializePisaQueryCache` has been called. -/
  isInitialized : Bool
  entries : CacheKey → Option PisaCacheEntry
  statement : Nat
  now : Int

/-- What a call returns. -/
inductive Answer where
  | null
  | value (result : Bytes)
  /-- The memory behind the pointer is no longer allocated. -/
  | freed
  /-- The lock is a null pointer. -/
  | crashed
  deriving DecidableEq

/-- The milliseconds are an int32. -/
def isCacheEntryValid (now : Int) (entry : PisaCacheEntry) : Bool :=
  now < entry.createdAt + (entry.ttlSeconds * 1000).toInt * 1000

/-- A time to live that is not positive stands for `cache_default_ttl`. -/
def effectiveTtl (ttl : Int32) : Int32 := if 0 < ttl then ttl else 300

/-- If the lock is a null pointer the call ends the backend, and the entries do not matter
any more. -/
def cacheQuery (s : Cache) (key : CacheKey) (result : Bytes) (ttl : Int32)
    (evicted : CacheKey → Bool) : Cache :=
  { s with entries := fun k =>
      if k = key then some ⟨result, s.statement, s.now, effectiveTtl ttl⟩
      else if evicted k then none else s.entries k }

/-- With the value read by the caller. -/
def getCachedQuery (s : Cache) (key : CacheKey) : Answer :=
  if !s.isInitialized then .crashed
  else
    match s.entries key with
    | none => .null
    | some entry =>
      if isCacheEntryValid s.now entry then
        if entry.statement = s.statement then .value entry.queryResult else .freed
      else .null

/-- What happens between two calls of the get function. -/
inductive Action where
  | cache (key : CacheKey) (result : Bytes) (ttl : Int32) (evicted : CacheKey → Bool)
  | invalidate (removed : CacheKey → Bool)
  | wait (time : Nat)
  | endStatement

def Cache.step (s : Cache) : Action → Cache
  | .cache key result ttl evicted => cacheQuery s key result ttl evicted
  | .invalidate removed => { s with entries := fun k => if removed k then none else s.entries k }
  | .wait time => { s with now := s.now + time }
  | .endStatement => { s with statement := s.statement + 1 }

/-- A backend that has cached nothing, in which `InitializePisaQueryCache` was
called or not. -/
def Cache.init (isInitialized : Bool) : Cache := ⟨isInitialized, fun _ => none, 0, 0⟩

-- ==== the map with expiry

/-- The map the cache is meant to be: values with the time they expire at. -/
structure ExpiringMap where
  values : CacheKey → Option (Bytes × Int)
  now : Int

namespace ExpiringMap

def get (m : ExpiringMap) (key : CacheKey) : Answer :=
  match m.values key with
  | none => .null
  | some (result, expires) => if m.now < expires then .value result else .null

def step (m : ExpiringMap) : Action → ExpiringMap
  | .cache key result ttl evicted =>
    { m with values := fun k =>
        if k = key then some (result, m.now + (effectiveTtl ttl).toInt * 1000000)
        else if evicted k then none else m.values k }
  | .invalidate removed => { m with values := fun k => if removed k then none else m.values k }
  | .wait time => { m with now := m.now + time }
  | .endStatement => m

def init : ExpiringMap := ⟨fun _ => none, 0⟩

end ExpiringMap

def Cache.toMap (s : Cache) : ExpiringMap where
  values k := (s.entries k).map fun e => (e.queryResult, e.createdAt + e.ttlSeconds.toInt * 1000000)
  now := s.now

/-- The cache and the map go through the same states. -/
theorem Cache.toMap_step (s : Cache) (a : Action) : (s.step a).toMap = s.toMap.step a := by
  cases a with
  | cache key result ttl evicted =>
    simp only [step, cacheQuery, toMap, ExpiringMap.step, ExpiringMap.mk.injEq, and_true]
    funext k
    split_ifs <;> rfl
  | invalidate removed =>
    simp only [step, toMap, ExpiringMap.step, ExpiringMap.mk.injEq, and_true]
    funext k
    split <;> rfl
  | wait time => rfl
  | endStatement => rfl

theorem Cache.toMap_run (actions : List Action) (s : Cache) :
    (actions.foldl step s).toMap = actions.foldl ExpiringMap.step s.toMap := by
  induction actions generalizing s with
  | nil => rfl
  | cons a actions ih => rw [List.foldl_cons, List.foldl_cons, ih, toMap_step]

-- ==== one key

/-- The last value that was cached under a key, with what has happened since. -/
structure Cached where
  result : Bytes
  ttlSeconds : Int32
  /-- In microseconds. -/
  age : Nat
  statementsEnded : Nat

/-- The value under a key after one more action. -/
def cachedAfter (key : CacheKey) (cached : Option Cached) : Action → Option Cached
  | .cache k result ttl evicted =>
    if key = k then some ⟨result, effectiveTtl ttl, 0, 0⟩
    else if evicted key then none else cached
  | .invalidate removed => if removed key then none else cached
  | .wait time => cached.map fun c => { c with age := c.age + time }
  | .endStatement => cached.map fun c => { c with statementsEnded := c.statementsEnded + 1 }

/-- The last value that the actions have cached under a key and not removed. -/
def lastCached (key : CacheKey) (actions : List Action) : Option Cached :=
  actions.foldl (cachedAfter key) none

/-- Less time has passed than the time to live. -/
def Cached.IsLive (c : Cached) : Prop := (c.age : Int) < c.ttlSeconds.toInt * 1000000

/-- Less time has passed than the time to live in milliseconds, as an int32, and
no statement has ended. -/
def Cached.IsKept (c : Cached) : Prop :=
  (c.age : Int) < (c.ttlSeconds * 1000).toInt * 1000 ∧ c.statementsEnded = 0

section Key

variable {key : CacheKey} {s : Cache} {cached : Option Cached}

/-- An entry is that of the last value, in a state after the actions. -/
structure IsEntryOf (s : Cache) (entry : PisaCacheEntry) (c : Cached) : Prop where
  queryResult : entry.queryResult = c.result
  ttlSeconds : entry.ttlSeconds = c.ttlSeconds
  createdAt : entry.createdAt + c.age = s.now
  statement : entry.statement + c.statementsEnded = s.statement
  ttl_pos : 0 < c.ttlSeconds.toInt

theorem effectiveTtl_pos (ttl : Int32) : 0 < (effectiveTtl ttl).toInt := by
  unfold effectiveTtl
  split
  · rename_i hpos
    exact Int32.lt_iff_toInt_lt.1 hpos
  · decide

/-- Every action keeps the entry under a key that of the last value. -/
theorem rel_step (a : Action) (h : Option.Rel (IsEntryOf s) (s.entries key) cached) :
    Option.Rel (IsEntryOf (s.step a)) ((s.step a).entries key) (cachedAfter key cached a) := by
  have hsame (s' : Cache) (hnow : s'.now = s.now) (hstatement : s'.statement = s.statement) :
      Option.Rel (IsEntryOf s') (s.entries key) cached := by
    generalize s.entries key = entry at h
    cases h with
    | none => exact .none
    | some h => exact .some { h with
        createdAt := h.createdAt.trans hnow.symm, statement := h.statement.trans hstatement.symm }
  cases a with
  | cache k result ttl evicted =>
    simp only [Cache.step, cacheQuery, cachedAfter]
    split_ifs with hkey hevicted
    · exact .some ⟨rfl, rfl, Int.add_zero _, rfl, effectiveTtl_pos ttl⟩
    · exact .none
    · exact hsame _ rfl rfl
  | invalidate removed =>
    simp only [Cache.step, cachedAfter]
    split_ifs
    · exact .none
    · exact hsame _ rfl rfl
  | wait time =>
    simp only [Cache.step, cachedAfter]
    generalize s.entries key = entry at h
    cases h with
    | none => exact .none
    | some h =>
      refine .some { h with createdAt := ?_ }
      have hcreated := h.createdAt
      show _ + ((_ + time : Nat) : Int) = s.now + time
      omega
  | endStatement =>
    simp only [Cache.step, cachedAfter]
    generalize s.entries key = entry at h
    cases h with
    | none => exact .none
    | some h => exact .some { h with statement := congrArg (· + 1) h.statement }

theorem rel_run (actions : List Action) (h : Option.Rel (IsEntryOf s) (s.entries key) cached) :
    Option.Rel (IsEntryOf (actions.foldl Cache.step s)) ((actions.foldl Cache.step s).entries key)
      (actions.foldl (cachedAfter key) cached) := by
  induction actions generalizing s cached with
  | nil => exact h
  | cons a actions ih => exact ih (rel_step a h)

/-- The milliseconds of an int32 are never more than those of the time to live. -/
theorem millis_le {ttl : Int32} (hpos : 0 < ttl.toInt) :
    (ttl * 1000).toInt * 1000 ≤ ttl.toInt * 1000000 := by
  have hmul : (ttl * 1000).toInt = (ttl.toInt * 1000).bmod (2 ^ 32) := Int32.toInt_mul ttl 1000
  rw [hmul]
  have := @Int.bmod_lt (ttl.toInt * 1000) (2 ^ 32) (by decide)
  by_cases hfits : ttl.toInt * 1000 < 2 ^ 31
  · rw [Int.bmod_eq_of_le_mul_two] <;> omega
  · omega

/-- A get of an entry answers as the map does if the value has expired or is
kept. -/
theorem get_entry_iff {entry : PisaCacheEntry} {c : Cached} (hs : s.isInitialized = true)
    (hentry : s.entries key = some entry) (h : IsEntryOf s entry c) :
    getCachedQuery s key = s.toMap.get key ↔ (c.IsLive → c.IsKept) := by
  have hvalid : isCacheEntryValid s.now entry = true
      ↔ (c.age : Int) < (c.ttlSeconds * 1000).toInt * 1000 := by
    unfold isCacheEntryValid
    rw [decide_eq_true_iff, h.ttlSeconds, ← h.createdAt]
    omega
  have hlive : s.now < entry.createdAt + entry.ttlSeconds.toInt * 1000000 ↔ c.IsLive := by
    unfold Cached.IsLive
    rw [h.ttlSeconds, ← h.createdAt]
    omega
  have hstatement : entry.statement = s.statement ↔ c.statementsEnded = 0 := by
    have := h.statement
    omega
  have hmap : s.toMap.get key = if s.now < entry.createdAt + entry.ttlSeconds.toInt * 1000000
      then .value entry.queryResult else .null := by
    simp only [ExpiringMap.get, Cache.toMap, hentry, Option.map_some]
    rfl
  rw [hmap]
  simp only [getCachedQuery, hs, Bool.not_true, Bool.false_eq_true, if_false, hentry, hvalid,
    hstatement, Cached.IsKept]
  by_cases hkept : (c.age : Int) < (c.ttlSeconds * 1000).toInt * 1000
  · have hc : c.IsLive := Int.lt_of_lt_of_le hkept (millis_le h.ttl_pos)
    rw [if_pos hkept, if_pos (hlive.2 hc)]
    by_cases hended : c.statementsEnded = 0
    · rw [if_pos hended]
      exact iff_of_true rfl fun _ => ⟨hkept, hended⟩
    · rw [if_neg hended]
      exact iff_of_false (by simp) fun h => hended (h hc).2
  · rw [if_neg hkept]
    by_cases hc : c.IsLive
    · rw [if_pos (hlive.2 hc)]
      exact iff_of_false (by simp) fun h => hkept (h hc).1
    · rw [if_neg (mt hlive.1 hc)]
      exact iff_of_true rfl fun h => absurd h hc

end Key

theorem isInitialized_run (actions : List Action) (s : Cache) :
    (actions.foldl Cache.step s).isInitialized = s.isInitialized := by
  induction actions generalizing s with
  | nil => rfl
  | cons a actions ih =>
    rw [List.foldl_cons, ih]
    cases a <;> rfl

/-- A result that is cached for one query is not returned for another. -/
def NotMixedUp (x y : Query) : Prop :=
  ∀ s result ttl evicted, s.entries (generateCacheKey hashAny y) = none →
    getCachedQuery (cacheQuery s (generateCacheKey hashAny x) result ttl evicted)
      (generateCacheKey hashAny y) = .value result → x = y

/-- What is between the dots of a key. -/
def Query.parts (x : Query) : List Bytes :=
  [x.databaseName, x.collectionName, arrayKey (hashAny x.query).toNat, x.options.getD []]

/-- The keys of two queries: part by part the same, where a separator of the one
may be a dot in a name or in the options of the other, up to 255 bytes. -/
def Query.Alike (x y : Query) : Prop :=
  Dotted.AgreeUpTo 46 255 (x.parts hashAny) (y.parts hashAny)

theorem join_parts (x : Query) : Dotted.join 46 (x.parts hashAny) = printKey hashAny x := by
  simp [Dotted.join, Query.parts, printKey, List.intercalate_cons_cons]

theorem generateCacheKey_eq_iff {hashAny : Bytes → UInt32} {x y : Query} :
    generateCacheKey hashAny x = generateCacheKey hashAny y ↔ x.Alike hashAny y := by
  have hne (z : Query) : z.parts hashAny ≠ [] := List.cons_ne_nil _ _
  unfold Query.Alike
  rw [Dotted.agreeUpTo_iff (hne x) (hne y), join_parts, join_parts, ← Subtype.val_inj]
  rfl

theorem NotMixedUp.eq {hashAny : Bytes → UInt32} {x y : Query} (h : NotMixedUp hashAny x y)
    (hsame : generateCacheKey hashAny x = generateCacheKey hashAny y) : x = y := by
  apply h (.init true) [] 1 (fun _ => false) rfl
  simp only [getCachedQuery, cacheQuery, hsame, if_true]
  decide

end DocumentDb.QueryCache
