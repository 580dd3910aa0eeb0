import Sret.Cache
import Sret.Foundation.Transition

namespace Sret

open Text KeyedMap Transition ResponseCache

/-!
# The size limit

The cache under any number of concurrent calls.  A put reads its response and the clock on its
own and then waits for the write lock; the part under the lock, and a whole lookup, are one step
each.

* `SharedCache` — the cache and the puts that wait for the lock;
* `CacheAction.Step` — one step of any of the calls; `action_config` — none of them changes the
  size limit or the default lifetime;
* `Insertion.len_le` — an insertion keeps the number of entries within `max maxSize 1`: it takes
  an entry out first when the cache is full, but nothing when the cache is empty;
* `len_of_run`, `len_le_maxSize_iff` — so the limit holds in every run exactly when it is not
  zero.
-/

/-- The cache, and the puts that have made their entry and wait for the write lock. -/
structure SharedCache where
  cache : ResponseCache
  waiting : List (Str × CacheEntry)

/-- A new cache that nobody uses yet. -/
def SharedCache.new (maxSize : Nat) (defaultTtl : Duration) : SharedCache where
  cache := ResponseCache.new maxSize defaultTtl
  waiting := []

/-- The steps that calls take. -/
inductive CacheAction
  /-- A put reads its response, up to the write lock. -/
  | prepare (key : Str) (response : Response) (clock : Clock)
  /-- The put at this place gets the lock and meets the entries in this order. -/
  | commit (place : Nat) (iter : List (Str × CacheEntry))
  /-- A lookup. -/
  | get (key : Str) (headers : HeaderMap) (now : Instant)

/-- The action takes the cache from one state to the next. -/
def CacheAction.Step (p : Platform) (s : SharedCache) (a : CacheAction) (s' : SharedCache) : Prop :=
  match a with
  | .prepare key response clock =>
    s' = match preparePut p s.cache.defaultTtl response clock with
      | .ready entry => { s with waiting := s.waiting ++ [(key, entry)] }
      | _ => s
  | .commit place iter => ∃ key entry, s.waiting[place]? = some (key, entry) ∧
      Enumerates iter s.cache.entries ∧
      s' = ⟨(s.cache.insertEntry iter key entry).2, s.waiting.eraseIdx place⟩
  | .get key headers now => s' = { s with cache := (s.cache.get key headers now).2 }

/-- No step changes the size limit or the default lifetime. -/
theorem action_config {p : Platform} {s s' : SharedCache} {a : CacheAction} (h : a.Step p s s') :
    s'.cache.maxSize = s.cache.maxSize ∧ s'.cache.defaultTtl = s.cache.defaultTtl := by
  cases a with
  | prepare key response clock =>
    obtain rfl := h
    split <;> exact ⟨rfl, rfl⟩
  | commit place iter =>
    obtain ⟨key, entry, -, hiter, rfl⟩ := h
    have hins := insertEntry_insertion hiter key entry
    exact ⟨hins.maxSize, hins.defaultTtl⟩
  | get key headers now =>
    obtain rfl := h
    rcases s.cache.get_snd key headers now with h' | h' <;> rw [h'] <;> exact ⟨rfl, rfl⟩

/-- A least recent entry is an entry. -/
theorem ResponseCache.IsLeastRecent.mem {c : ResponseCache} {key : Str}
    (h : c.IsLeastRecent key) : key ∈ c.entries := by
  obtain ⟨entry, hl, -⟩ := h
  exact Finmap.mem_of_lookup_eq_some hl

/-- An insertion keeps the number of entries within the limit, or within one. -/
theorem ResponseCache.Insertion.len_le {c c' : ResponseCache} {key : Str} {entry : CacheEntry}
    {victim : Option Str} (h : Insertion c key entry victim c') (hlen : c.len ≤ max c.maxSize 1) :
    c'.len ≤ max c.maxSize 1 := by
  have hinsert := size_insert_le (without c.entries victim) key entry
  rw [len, h.entries]
  cases victim with
  | none =>
    -- nothing was taken out: there was room, or the cache was empty
    rcases h.room rfl with hlt | hempty
    · simp only [without] at hinsert ⊢
      simp only [len] at hlt
      omega
    · simp only [without, hempty, size_empty] at hinsert ⊢
      omega
  | some v =>
    -- one entry was taken out before the new one came in
    have hmem := (h.leastRecent v rfl).mem
    have herase := size_erase_of_mem hmem
    have hpos : 0 < size c.entries := Finset.card_pos.mpr ⟨v, Finmap.mem_keys.mpr hmem⟩
    simp only [without, herase] at hinsert ⊢
    simp only [len] at hlen
    omega

/-- **The bound that the code keeps**, over every interleaving of puts and lookups. -/
theorem len_of_run {p : Platform} {maxSize : Nat} {defaultTtl : Duration}
    {tr : List CacheAction} {s : SharedCache}
    (h : Run (CacheAction.Step p) (SharedCache.new maxSize defaultTtl) tr s) :
    s.cache.maxSize = maxSize ∧ s.cache.len ≤ max maxSize 1 := by
  refine h.invariant (fun s => s.cache.maxSize = maxSize ∧ s.cache.len ≤ max maxSize 1)
    ⟨rfl, by simp [SharedCache.new, ResponseCache.new, len]⟩ ?_
  rintro s a s' ⟨hsize, hlen⟩ hstep
  refine ⟨(action_config hstep).1.trans hsize, ?_⟩
  cases a with
  | prepare key response clock =>
    obtain rfl := hstep
    split
    · exact hlen
    · exact hlen
  | commit place iter =>
    obtain ⟨key, entry, -, hiter, rfl⟩ := hstep
    rw [← hsize] at hlen ⊢
    exact (insertEntry_insertion hiter key entry).len_le hlen
  | get key headers now =>
    obtain rfl := hstep
    rw [len, get_entries]
    exact hlen

/-- A page that may be kept for no time at all. -/
def stalePage : Response where
  status := 200
  headers := ⟨[(HeaderName.cacheControl, HeaderValue.ofStr "max-age=0".toList (by decide))]⟩
  body := []

/-- The entry that a put of the page at time 0 makes, whatever the default lifetime. -/
def staleEntry : CacheEntry where
  responseBody := []
  status := 200
  headers := stalePage.headers
  expiresAt := 0
  createdAt := 0
  etag := none
  lastModified := none
  lastAccessed := 0

/-- A put that makes an entry waits for the lock with it. -/
theorem step_prepare {p : Platform} {s : SharedCache} {response : Response} {clock : Clock}
    {entry : CacheEntry} (h : preparePut p s.cache.defaultTtl response clock = .ready entry)
    (key : Str) :
    CacheAction.Step p s (.prepare key response clock)
      { s with waiting := s.waiting ++ [(key, entry)] } := by
  simp only [CacheAction.Step, h]

/-- A put into a cache that nobody else is using prepares its entry and inserts it. -/
theorem run_put_alone {p : Platform} {s : SharedCache} (hwaiting : s.waiting = []) {key : Str}
    {response : Response} {clock : Clock} {entry : CacheEntry}
    (hready : preparePut p s.cache.defaultTtl response clock = .ready entry)
    {iter : List (Str × CacheEntry)} (hiter : Enumerates iter s.cache.entries) :
    Run (CacheAction.Step p) s ([.prepare key response clock] ++ [.commit 0 iter])
      ⟨(s.cache.insertEntry iter key entry).2, []⟩ := by
  refine Run.snoc (Run.single (step_prepare hready key)) ⟨key, entry, ?_, hiter, ?_⟩
  · simp [hwaiting]
  · simp [hwaiting]

/-- One put into a cache without room leaves one entry. -/
theorem run_stale (p : Platform) (defaultTtl : Duration) :
    ∃ s, Run (CacheAction.Step p) (SharedCache.new 0 defaultTtl)
      ([.prepare [] stalePage ⟨0, 0⟩] ++ [.commit 0 []]) s ∧ s.cache.len = 1 := by
  have hready : preparePut p defaultTtl stalePage ⟨0, 0⟩ = .ready staleEntry := rfl
  exact ⟨_, run_put_alone (s := SharedCache.new 0 defaultTtl) rfl hready ⟨by simp, rfl⟩, rfl⟩

/-- **Capacity.**  The number of entries stays within `max_size` in every run of concurrent puts
    and gets exactly when `max_size` is at least one. -/
theorem len_le_maxSize_iff (p : Platform) (maxSize : Nat) (defaultTtl : Duration) :
    (∀ tr s, Run (CacheAction.Step p) (SharedCache.new maxSize defaultTtl) tr s →
      s.cache.len ≤ maxSize) ↔ 1 ≤ maxSize := by
  constructor
  · intro h
    by_contra h0
    obtain rfl : maxSize = 0 := by omega
    obtain ⟨s, hrun, hlen⟩ := run_stale p defaultTtl
    have := h _ s hrun
    omega
  · intro h1 tr s hrun
    have := (len_of_run hrun).2
    omega

/-- A cache of size zero holds an entry after its first put. -/
theorem zero_size_holds_one :
    ¬ ∀ (p : Platform) (maxSize : Nat) (defaultTtl : Duration) (tr : List CacheAction)
      (s : SharedCache), Run (CacheAction.Step p) (SharedCache.new maxSize defaultTtl) tr s →
      s.cache.len ≤ maxSize := by
  intro h
  obtain ⟨s, hrun, hlen⟩ := run_stale Platform.ascii 0
  have := h _ _ _ _ s hrun
  omega

end Sret
