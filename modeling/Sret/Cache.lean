import Mathlib.Data.List.MinMax
import Sret.Foundation.KeyedMap
import Sret.Http
import Sret.Platform

namespace Sret

open Text KeyedMap

/-!
# The response cache

`ResponseCache` with its two operations, and the functions that decide what they do.

* `CacheControl.fromHeaders` — the hand-written directive parser;
* `ResponseCache.get` — a lookup, answered from a fresh entry only;
* `ResponseCache.put` — in two parts, as its task runs them: `preparePut` reads the response and
  the clock, `insertEntry` is the critical section under the write lock.  `put` is the two in a
  row.

The entries are a `HashMap`, whose iteration order is unspecified: `evictLru` gets the order in
which this call iterates as an argument, and a step of the cache is possible for every order
(`KeyedMap.Enumerates`).  A panic of the code is the outcome `panicked`.
-/

/-! ### Cache-Control -/

/-- What a cache-control line says, as far as the cache reads it. -/
structure CacheControl where
  maxAge : Option Nat
  noCache : Bool
  noStore : Bool
deriving DecidableEq

namespace CacheControl

/-- Nothing said. -/
def silent : CacheControl := ⟨none, false, false⟩

/-- The loop body of `from_headers`, for one member of the comma-separated list. -/
def readDirective (cc : CacheControl) (member : Str) : CacheControl :=
  let directive := trim member
  match stripPrefix directive "max-age=".toList with
  | some stripped =>
    match parseUnsigned (2 ^ 64) stripped with
    | some age => { cc with maxAge := some age }
    -- a value that does not parse is passed over
    | none => cc
  | none =>
    if directive = "no-cache".toList then { cc with noCache := true }
    else if directive = "no-store".toList then { cc with noStore := true }
    else cc

/-- `CacheControl::from_headers`: the first Cache-Control line, if it is visible ASCII. -/
def fromHeaders (headers : HeaderMap) : CacheControl :=
  match (headers.get HeaderName.cacheControl).bind HeaderValue.toStr with
  | some value => (value.splitOn ',').foldl readDirective silent
  | none => silent

/-- The parser sees the directive: a member of the first line, spelled exactly so. -/
def Sees (headers : HeaderMap) (directive : Str) : Prop :=
  ∃ v s, headers.get HeaderName.cacheControl = some v ∧ v.toStr = some s ∧
    ∃ member ∈ s.splitOn ',', trim member = directive

/-- A member turns `no-cache` on exactly if it is that directive. -/
theorem noCache_readDirective (cc : CacheControl) (member : Str) :
    (cc.readDirective member).noCache = true ↔
      cc.noCache = true ∨ trim member = "no-cache".toList := by
  simp only [readDirective]
  by_cases h : trim member = "no-cache".toList
  · -- the name is not taken for a max-age
    have hno : stripPrefix "no-cache".toList "max-age=".toList = none := by decide
    rw [h, hno, if_pos rfl]
    exact ⟨fun _ => Or.inr rfl, fun _ => rfl⟩
  · simp only [h, if_false, or_false]
    split
    · split <;> rfl
    · split <;> rfl

/-- And `no-store` in the same way. -/
theorem noStore_readDirective (cc : CacheControl) (member : Str) :
    (cc.readDirective member).noStore = true ↔
      cc.noStore = true ∨ trim member = "no-store".toList := by
  simp only [readDirective]
  by_cases h : trim member = "no-store".toList
  · -- the name is taken neither for a max-age nor for the other directive
    have hno : stripPrefix "no-store".toList "max-age=".toList = none := by decide
    rw [h, hno, if_neg (by decide), if_pos rfl]
    exact ⟨fun _ => Or.inr rfl, fun _ => rfl⟩
  · simp only [h, if_false, or_false]
    split
    · split <;> rfl
    · split <;> rfl

/-- A flag that every member sets on its own is set by the fold when some member sets it. -/
theorem foldl_flag {flag : CacheControl → Bool} {sets : Str → Prop}
    (hflag : ∀ cc member, flag (readDirective cc member) = true ↔ flag cc = true ∨ sets member)
    (members : List Str) (cc : CacheControl) :
    flag (members.foldl readDirective cc) = true ↔
      flag cc = true ∨ ∃ member ∈ members, sets member := by
  induction members generalizing cc with
  | nil => simp
  | cons member rest ih =>
    rw [List.foldl_cons, ih, hflag]
    simp [or_assoc]

/-- A flag is on exactly if the line that is read has its directive. -/
theorem fromHeaders_flag {flag : CacheControl → Bool} {directive : Str}
    (hsilent : flag silent = false)
    (hflag : ∀ cc member,
      flag (readDirective cc member) = true ↔ flag cc = true ∨ trim member = directive)
    (headers : HeaderMap) : flag (fromHeaders headers) = true ↔ Sees headers directive := by
  unfold fromHeaders
  cases hs : (headers.get HeaderName.cacheControl).bind HeaderValue.toStr with
  | none =>
    -- there is no line, or one that is not visible ASCII: the parser stays silent
    simp only [hsilent, Bool.false_eq_true, false_iff]
    rintro ⟨v, s, hv, hs', -⟩
    simp [hv, hs'] at hs
  | some s =>
    obtain ⟨v, hv, hvs⟩ := Option.bind_eq_some_iff.mp hs
    rw [foldl_flag hflag, hsilent]
    simp only [Bool.false_eq_true, false_or]
    constructor
    · intro h
      exact ⟨v, s, hv, hvs, h⟩
    · rintro ⟨v', s', hv', hs', h⟩
      obtain rfl : v = v' := Option.some.inj (hv.symm.trans hv')
      obtain rfl : s = s' := Option.some.inj (hvs.symm.trans hs')
      exact h

/-- The parser reports `no-cache` when it sees it. -/
theorem noCache_fromHeaders (headers : HeaderMap) :
    (fromHeaders headers).noCache = true ↔ Sees headers "no-cache".toList :=
  fromHeaders_flag rfl noCache_readDirective headers

/-- The parser reports `no-store` when it sees it. -/
theorem noStore_fromHeaders (headers : HeaderMap) :
    (fromHeaders headers).noStore = true ↔ Sees headers "no-store".toList :=
  fromHeaders_flag rfl noStore_readDirective headers

end CacheControl

/-! ### Entries and their use -/

/-- A stored response, with its lifetime and the times at which it was made and last read. -/
structure CacheEntry where
  responseBody : List UInt8
  status : StatusCode
  headers : HeaderMap
  expiresAt : Instant
  createdAt : Instant
  etag : Option Str
  lastModified : Option Str
  lastAccessed : Instant
deriving DecidableEq

/-- The condition under which `get` answers from the entry. -/
def CacheEntry.serves (e : CacheEntry) (cacheControl : CacheControl) (now : Instant) : Bool :=
  now < e.expiresAt && !cacheControl.noCache && !cacheControl.noStore &&
    match cacheControl.maxAge with
    | none => true
    | some maxAge => Duration.asSecs (Instant.durationSince now e.createdAt) < maxAge

/-- The conditions of a lookup, one by one. -/
theorem serves_iff {e : CacheEntry} {cc : CacheControl} {t : Instant} :
    e.serves cc t = true ↔ t < e.expiresAt ∧ cc.noCache = false ∧ cc.noStore = false ∧
      ∀ m, cc.maxAge = some m → Duration.asSecs (Instant.durationSince t e.createdAt) < m := by
  unfold CacheEntry.serves
  cases cc.maxAge <;> simp [and_assoc]

/-- A request that says nothing is answered until the entry expires. -/
theorem serves_silent (entry : CacheEntry) (now : Instant) :
    entry.serves CacheControl.silent now = true ↔ now < entry.expiresAt := by
  simp [CacheEntry.serves, CacheControl.silent]

/-- A number is spelled in visible characters. -/
theorem visible_decimal (n : Nat) : (decimal n).all isVisibleChar = true := by
  rw [List.all_eq_true]
  intro c hc
  exact visible_of_digit (Nat.isDigit_of_mem_toDigits (by decide) (by decide) hc)

/-- The response that `get` builds from the entry. -/
def CacheEntry.toResponse (e : CacheEntry) (now : Instant) : Response where
  status := e.status
  headers :=
    (e.headers.append HeaderName.xCache (HeaderValue.ofStr "hit".toList (by decide))).append
      HeaderName.xCacheAge
      (HeaderValue.ofStr (decimal (Duration.asSecs (Instant.durationSince now e.createdAt)))
        (visible_decimal _))
  body := e.responseBody

/-! ### The cache -/

/-- `fetch_add(1)` on an `AtomicU64`, which wraps around. -/
def fetchAddOne (n : Nat) : Nat := (n + 1) % 2 ^ 64

/-- The counters of the cache. -/
structure CacheMetrics where
  hits : Nat
  misses : Nat
  evictions : Nat
  size : Nat
deriving DecidableEq

/-- The cache with its bounds and its counters. -/
structure ResponseCache where
  entries : Map Str CacheEntry
  maxSize : Nat
  defaultTtl : Duration
  metrics : CacheMetrics
deriving DecidableEq

/-- The panics of the code. -/
inductive Panic
  | instantOverflow
deriving DecidableEq

/-- How the first part of `put`, up to the write lock, ends. -/
inductive Preparation
  | refused
  | panicked
  | ready (entry : CacheEntry)
deriving DecidableEq

/-- How `put` ends: with an entry stored, it tells which key it evicted. -/
inductive PutOutcome
  | refused
  | panicked
  | stored (entry : CacheEntry) (victim : Option Str)
deriving DecidableEq

/-- `parse_expires_header`: `None` for a date that has passed, or that is none. -/
def parseExpiresHeader (p : Platform) (value : Str) (clock : Clock) :
    Except Panic (Option Instant) :=
  match p.parseHttpDate value with
  | none => .ok none
  | some date =>
    if clock.system ≤ date then
      -- `Instant::now() + duration`
      match Instant.checkedAdd clock.instant (date - clock.system) with
      | some expiresAt => .ok (some expiresAt)
      | none => .error .instantOverflow
    else .ok none

/-- The statuses that `is_cacheable` lists. -/
def cacheableStatuses : List StatusCode := [200, 203, 204, 206, 300, 301, 404, 405, 410, 414]

namespace ResponseCache

/-- `ResponseCache::new`. -/
def new (maxSize : Nat) (defaultTtl : Duration) : ResponseCache where
  entries := ∅
  maxSize := maxSize
  defaultTtl := defaultTtl
  metrics := ⟨0, 0, 0, 0⟩

/-- The number of entries. -/
def len (c : ResponseCache) : Nat := size c.entries

/-- `CacheMetrics::record_hit`. -/
def recordHit (c : ResponseCache) : ResponseCache :=
  { c with metrics := { c.metrics with hits := fetchAddOne c.metrics.hits } }

/-- `CacheMetrics::record_miss`. -/
def recordMiss (c : ResponseCache) : ResponseCache :=
  { c with metrics := { c.metrics with misses := fetchAddOne c.metrics.misses } }

/-- `ResponseCache::get`. -/
def get (c : ResponseCache) (key : Str) (headers : HeaderMap) (now : Instant) :
    Option Response × ResponseCache :=
  let cacheControl := CacheControl.fromHeaders headers
  match c.entries.lookup key with
  | some entry =>
    if entry.serves cacheControl now then (some (entry.toResponse now), c.recordHit)
    else (none, c.recordMiss)
  | none => (none, c.recordMiss)

/-- `ResponseCache::is_cacheable`. -/
def isCacheable (status : StatusCode) (headers : HeaderMap) : Bool :=
  let cacheControl := CacheControl.fromHeaders headers
  if cacheControl.noCache || cacheControl.noStore then false
  else cacheableStatuses.contains status

/-- `ResponseCache::calculate_ttl`. -/
def calculateTtl (p : Platform) (defaultTtl : Duration) (headers : HeaderMap) (clock : Clock) :
    Except Panic Duration :=
  match (CacheControl.fromHeaders headers).maxAge with
  | some maxAge => .ok (Duration.fromSecs maxAge)
  | none =>
    match (headers.get HeaderName.expires).bind HeaderValue.toStr with
    | none => .ok defaultTtl
    | some expires =>
      match parseExpiresHeader p expires clock with
      | .error e => .error e
      -- a date that has passed counts as no date
      | .ok none => .ok defaultTtl
      | .ok (some expiresAt) => .ok (Instant.durationSince expiresAt clock.instant)

/-- `put` up to the write lock: the refusal, the lifetime and the new entry. -/
def preparePut (p : Platform) (defaultTtl : Duration) (response : Response) (clock : Clock) :
    Preparation :=
  if isCacheable response.status response.headers then
    match calculateTtl p defaultTtl response.headers clock with
    | .error _ => .panicked
    | .ok ttl =>
      -- `now + ttl`
      match Instant.checkedAdd clock.instant ttl with
      | none => .panicked
      | some expiresAt => .ready
        { responseBody := response.body
          status := response.status
          headers := response.headers
          expiresAt := expiresAt
          createdAt := clock.instant
          etag := (response.headers.get HeaderName.etag).bind HeaderValue.toStr
          lastModified := (response.headers.get HeaderName.lastModified).bind HeaderValue.toStr
          lastAccessed := clock.instant }
  else .refused

/-- `ResponseCache::evict_lru`, iterating over the entries in the order `iter`: `min_by_key`
    takes the first of the minima. -/
def evictLru (c : ResponseCache) (iter : List (Str × CacheEntry)) : Option Str × ResponseCache :=
  match iter.argmin (fun x => x.2.lastAccessed) with
  | none => (none, c)
  | some (key, _) =>
    (some key,
      { c with
        entries := c.entries.erase key
        metrics := { c.metrics with evictions := fetchAddOne c.metrics.evictions } })

/-- `put` from the write lock on: make room, insert, note the size. -/
def insertEntry (c : ResponseCache) (iter : List (Str × CacheEntry)) (key : Str)
    (entry : CacheEntry) : Option Str × ResponseCache :=
  -- the test does not ask whether the key is there already
  let (victim, c') := if c.maxSize ≤ c.len then c.evictLru iter else (none, c)
  let entries := c'.entries.insert key entry
  (victim, { c' with entries := entries, metrics := { c'.metrics with size := size entries } })

/-- `ResponseCache::put`. -/
def put (p : Platform) (c : ResponseCache) (iter : List (Str × CacheEntry)) (key : Str)
    (response : Response) (clock : Clock) : PutOutcome × ResponseCache :=
  match preparePut p c.defaultTtl response clock with
  | .refused => (.refused, c)
  | .panicked => (.panicked, c)
  | .ready entry =>
    let (victim, c') := c.insertEntry iter key entry
    (.stored entry victim, c')

/-! ### What a lookup does -/

/-- A lookup answers from the entry of its key, if that serves it. -/
theorem get_fst (c : ResponseCache) (key : Str) (headers : HeaderMap) (now : Instant)
    (response : Response) :
    (c.get key headers now).1 = some response ↔
      ∃ entry, c.entries.lookup key = some entry ∧
        entry.serves (CacheControl.fromHeaders headers) now = true ∧
        response = entry.toResponse now := by
  simp only [get]
  cases hl : c.entries.lookup key with
  | none => simp
  | some entry =>
    simp only [Option.some.injEq, exists_eq_left']
    by_cases hs : entry.serves (CacheControl.fromHeaders headers) now = true
    · rw [if_pos hs, and_iff_right hs, Option.some.injEq]
      exact eq_comm
    · rw [if_neg hs]
      exact ⟨fun h => by simp at h, fun h => absurd h.1 hs⟩

/-- A lookup changes the counters only. -/
theorem get_snd (c : ResponseCache) (key : Str) (headers : HeaderMap) (now : Instant) :
    (c.get key headers now).2 = c.recordHit ∨ (c.get key headers now).2 = c.recordMiss := by
  simp only [get]
  split
  · split
    · exact Or.inl rfl
    · exact Or.inr rfl
  · exact Or.inr rfl

/-- A lookup changes no entry. -/
theorem get_entries (c : ResponseCache) (key : Str) (headers : HeaderMap) (now : Instant) :
    (c.get key headers now).2.entries = c.entries := by
  rcases c.get_snd key headers now with h | h <;> rw [h] <;> rfl

/-! ### What an insertion does -/

/-- The key is one that `evict_lru` may take: no entry was accessed longer ago. -/
def IsLeastRecent (c : ResponseCache) (key : Str) : Prop :=
  ∃ entry, c.entries.lookup key = some entry ∧
    ∀ key' entry', c.entries.lookup key' = some entry' → entry.lastAccessed ≤ entry'.lastAccessed

/-- The entries with the victim, if there is one, taken out. -/
def without (entries : Map Str CacheEntry) : Option Str → Map Str CacheEntry
  | some victim => entries.erase victim
  | none => entries

/-- An empty cache evicts nothing, and any other one of the entries that were read longest ago. -/
theorem evictLru_cases {c : ResponseCache} {iter : List (Str × CacheEntry)}
    (h : Enumerates iter c.entries) :
    (c.entries = ∅ ∧ c.evictLru iter = (none, c)) ∨
      ∃ victim, c.IsLeastRecent victim ∧ c.evictLru iter = (some victim,
        { c with
          entries := c.entries.erase victim
          metrics := { c.metrics with evictions := fetchAddOne c.metrics.evictions } }) := by
  unfold evictLru
  cases hmin : iter.argmin (fun x => x.2.lastAccessed) with
  | none => exact Or.inl ⟨h.eq_nil_iff.mp (List.argmin_eq_none.mp hmin), rfl⟩
  | some x =>
    obtain ⟨victim, entry⟩ := x
    refine Or.inr ⟨victim, ⟨entry, h.mem_iff.mp (List.argmin_mem hmin), ?_⟩, rfl⟩
    intro key' entry' hl
    exact List.le_of_mem_argmin (f := fun x : Str × CacheEntry => x.2.lastAccessed)
      (h.mem_iff.mpr hl) hmin

/-- **What the critical section of `put` does** with the entry and the victim it reports: it
    takes out at most one entry, only when the cache was full and only a least recent one, binds
    the key, and keeps the counters up. -/
structure Insertion (c : ResponseCache) (key : Str) (entry : CacheEntry) (victim : Option Str)
    (c' : ResponseCache) : Prop where
  entries : c'.entries = (without c.entries victim).insert key entry
  maxSize : c'.maxSize = c.maxSize
  defaultTtl : c'.defaultTtl = c.defaultTtl
  full : ∀ v, victim = some v → c.maxSize ≤ c.len
  leastRecent : ∀ v, victim = some v → c.IsLeastRecent v
  room : victim = none → c.len < c.maxSize ∨ c.entries = ∅
  metrics : c'.metrics = { c.metrics with
    evictions := victim.elim c.metrics.evictions fun _ => fetchAddOne c.metrics.evictions
    size := c'.len }

/-- **What an insertion does.** -/
theorem insertEntry_insertion {c : ResponseCache} {iter : List (Str × CacheEntry)}
    (h : Enumerates iter c.entries) (key : Str) (entry : CacheEntry) :
    Insertion c key entry (c.insertEntry iter key entry).1 (c.insertEntry iter key entry).2 := by
  by_cases hfull : c.maxSize ≤ c.len
  · rcases evictLru_cases h with ⟨hempty, heq⟩ | ⟨victim, hleast, heq⟩
    · -- full and empty at once: the size limit is zero
      simp only [insertEntry, if_pos hfull, heq]
      exact ⟨rfl, rfl, rfl, by simp, by simp, fun _ => Or.inr hempty, rfl⟩
    · simp only [insertEntry, if_pos hfull, heq]
      refine ⟨rfl, rfl, rfl, fun _ _ => hfull, ?_, by simp, rfl⟩
      rintro v hv
      obtain rfl : victim = v := by simpa using hv
      exact hleast
  · simp only [insertEntry, if_neg hfull]
    exact ⟨rfl, rfl, rfl, by simp, by simp, fun _ => Or.inl (by omega), rfl⟩

/-! ### What a put does -/

/-- A put is refused exactly if the response may not be stored. -/
theorem preparePut_refused {p : Platform} {defaultTtl : Duration} {response : Response}
    {clock : Clock} :
    preparePut p defaultTtl response clock = .refused ↔
      isCacheable response.status response.headers = false := by
  unfold preparePut
  cases isCacheable response.status response.headers with
  | false => simp
  | true =>
    rw [if_pos rfl]
    split
    · simp
    · split <;> simp

/-- **The new entry**: a copy of the response with the lifetime that its headers give it. -/
theorem preparePut_ready {p : Platform} {defaultTtl : Duration} {response : Response}
    {clock : Clock} {entry : CacheEntry}
    (h : preparePut p defaultTtl response clock = .ready entry) :
    isCacheable response.status response.headers = true ∧
      (∃ ttl, calculateTtl p defaultTtl response.headers clock = .ok ttl ∧
        entry.expiresAt = clock.instant + ttl) ∧
      entry.responseBody = response.body ∧ entry.status = response.status ∧
      entry.headers = response.headers ∧ entry.createdAt = clock.instant ∧
      entry.lastAccessed = clock.instant := by
  unfold preparePut at h
  split at h
  · rename_i hc
    split at h
    · simp at h
    · rename_i ttl httl
      split at h
      · simp at h
      · rename_i expiresAt hexp
        obtain rfl := Preparation.ready.inj h
        exact ⟨hc, ⟨ttl, httl, Instant.checkedAdd_eq_some hexp⟩, rfl, rfl, rfl, rfl, rfl⟩
  · simp at h

/-- A put that is refused or panics changes nothing; one that stores prepared its entry and
    inserted it. -/
theorem put_cases {p : Platform} {c c' : ResponseCache} {iter : List (Str × CacheEntry)}
    {key : Str} {response : Response} {clock : Clock} {outcome : PutOutcome}
    (hiter : Enumerates iter c.entries)
    (h : c.put p iter key response clock = (outcome, c')) :
    (outcome = .refused ∧ isCacheable response.status response.headers = false ∧ c' = c) ∨
      (outcome = .panicked ∧ isCacheable response.status response.headers = true ∧ c' = c) ∨
      ∃ entry victim, outcome = .stored entry victim ∧
        preparePut p c.defaultTtl response clock = .ready entry ∧
        Insertion c key entry victim c' := by
  unfold put at h
  split at h
  · rename_i hp
    obtain ⟨rfl, rfl⟩ := Prod.mk.inj h
    exact Or.inl ⟨rfl, preparePut_refused.mp hp, rfl⟩
  · rename_i hp
    obtain ⟨rfl, rfl⟩ := Prod.mk.inj h
    -- a panic comes after the test of `is_cacheable`
    refine Or.inr (Or.inl ⟨rfl, ?_, rfl⟩)
    by_contra hc
    rw [Bool.not_eq_true] at hc
    rw [preparePut_refused.mpr hc] at hp
    simp at hp
  · rename_i entry hp
    obtain ⟨rfl, rfl⟩ := Prod.mk.inj h
    exact Or.inr (Or.inr ⟨entry, _, rfl, hp, insertEntry_insertion hiter key entry⟩)

end ResponseCache

end Sret
