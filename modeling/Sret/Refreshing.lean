import Sret.CacheRuns
import Sret.Capacity

namespace Sret

open Text KeyedMap Transition ResponseCache

/-!
# Refreshing an entry

A put of a key that the cache holds already, in any state that concurrent puts and lookups reach.

* `Refreshed` — such a put should replace the entry of its key and leave the rest alone: the other
  entries, their number and the eviction counter;
* `Insertion.refreshed_iff` — one insertion does so when it takes no victim;
* `refresh_keeps_iff` — the test for a full cache does not ask whether the key is there, so a
  refresh costs an entry exactly when the cache is full.
-/

/-- The one cache comes from the other by a new entry for the key, at most. -/
structure Refreshed (c : ResponseCache) (key : Str) (c' : ResponseCache) : Prop where
  others : ∀ k, k ≠ key → c'.entries.lookup k = c.entries.lookup k
  len : c'.len = c.len
  evictions : c'.metrics.evictions = c.metrics.evictions

/-- A counter that is advanced has another value. -/
theorem fetchAddOne_ne (n : Nat) : fetchAddOne n ≠ n := by
  unfold fetchAddOne
  omega

/-- **One insertion of a key that is there.** -/
theorem ResponseCache.Insertion.refreshed_iff {c c' : ResponseCache} {key : Str}
    {entry : CacheEntry} {victim : Option Str} (h : Insertion c key entry victim c')
    (hmem : key ∈ c.entries) : Refreshed c key c' ↔ c.len < c.maxSize := by
  cases victim with
  | none =>
    -- the cache is not empty, so it had room
    have hroom : c.len < c.maxSize := by
      rcases h.room rfl with hlt | hempty
      · exact hlt
      · rw [hempty] at hmem
        exact absurd hmem Finmap.notMem_empty
    refine iff_of_true ⟨fun k hk => ?_, ?_, ?_⟩ hroom
    · rw [h.lookup, if_neg (Ne.symm hk), if_neg (by simp)]
    · rw [len, h.entries]
      exact size_insert_of_mem hmem entry
    · rw [h.metrics]
      rfl
  | some v =>
    -- a victim is counted, also when it is the old entry of the key
    refine iff_of_false (fun hrefreshed => ?_) (Nat.not_lt.mpr (h.full v rfl))
    have hcount := hrefreshed.evictions
    rw [h.metrics] at hcount
    exact fetchAddOne_ne _ hcount

/-- **When a refresh keeps the rest of the cache.**  In every run of concurrent puts and lookups
    from an empty cache, a put that finds its key in the cache leaves the other entries, their
    number and the eviction counter as they are exactly when the cache is not full. -/
theorem refresh_keeps_iff (p : Platform) (maxSize : Nat) (defaultTtl : Duration)
    (tr : List CacheAction) (s s' : SharedCache) (place : Nat) (iter : List (Str × CacheEntry))
    (key : Str) (entry : CacheEntry)
    (hrun : Run (CacheAction.Step p) (SharedCache.new maxSize defaultTtl) tr s)
    (hput : s.waiting[place]? = some (key, entry)) (hmem : key ∈ s.cache.entries)
    (hstep : CacheAction.Step p s (.commit place iter) s') :
    Refreshed s.cache key s'.cache ↔ s.cache.len < maxSize := by
  obtain ⟨key', entry', hput', hiter, rfl⟩ := hstep
  obtain ⟨rfl, rfl⟩ := Prod.mk.inj (Option.some.inj (hput.symm.trans hput'))
  rw [← (len_of_run hrun).1]
  exact (insertEntry_insertion hiter key entry).refreshed_iff hmem

/-! ### Two pages in a cache of size two -/

/-- The entry of the page that a put at this time makes. -/
def staleEntryAt (now : Instant) : CacheEntry :=
  { staleEntry with expiresAt := now, createdAt := now, lastAccessed := now }

/-- The cache after a put of `a`. -/
def onePage : ResponseCache :=
  ((ResponseCache.new 2 0).insertEntry [] ['a'] (staleEntryAt 0)).2

/-- The cache after a put of `b` that follows. -/
def twoPages : ResponseCache :=
  (onePage.insertEntry [(['a'], staleEntryAt 0)] ['b'] (staleEntryAt 1)).2

/-- The one entry, in the only order. -/
theorem enumerates_onePage : Enumerates [(['a'], staleEntryAt 0)] onePage.entries :=
  ⟨by simp, rfl⟩

/-- The two entries, in one of their orders. -/
theorem enumerates_twoPages :
    Enumerates [(['a'], staleEntryAt 0), (['b'], staleEntryAt 1)] twoPages.entries :=
  ⟨by simp, rfl⟩

/-- A second put of the page, one tick later. -/
theorem preparePut_stalePage_one (p : Platform) :
    preparePut p 0 stalePage ⟨1, 0⟩ = .ready (staleEntryAt 1) := rfl

/-- A third put, after another tick. -/
theorem preparePut_stalePage_two (p : Platform) :
    preparePut p 0 stalePage ⟨2, 0⟩ = .ready (staleEntryAt 2) := rfl

/-- The first put alone. -/
theorem run_onePage (p : Platform) :
    Run (CacheAction.Step p) (SharedCache.new 2 0)
      ([.prepare ['a'] stalePage ⟨0, 0⟩] ++ [.commit 0 []]) ⟨onePage, []⟩ :=
  run_put_alone (s := SharedCache.new 2 0) rfl rfl ⟨by simp, rfl⟩

/-- The two puts, one after the other. -/
theorem run_twoPages (p : Platform) :
    ∃ tr, Run (CacheAction.Step p) (SharedCache.new 2 0) tr ⟨twoPages, []⟩ :=
  ⟨_, (run_onePage p).append
    (run_put_alone rfl (preparePut_stalePage_one p) enumerates_onePage)⟩

/-- A refresh of `a` in the cache that holds nothing else. -/
theorem refresh_keeps_iff_onePage :
    Refreshed onePage ['a'] (onePage.insertEntry [(['a'], staleEntryAt 0)] ['a']
      (staleEntryAt 1)).2 ↔ onePage.len < 2 := by
  have hmem : ['a'] ∈ onePage.entries :=
    Finmap.mem_of_lookup_eq_some (show onePage.entries.lookup ['a'] = some (staleEntryAt 0) by
      decide)
  have hrun := (run_onePage Platform.ascii).snoc (step_prepare
    (preparePut_stalePage_one Platform.ascii) ['a'])
  exact refresh_keeps_iff _ 2 0 _ _ ⟨_, []⟩ 0 _ ['a'] (staleEntryAt 1) hrun rfl hmem
    ⟨_, _, rfl, enumerates_onePage, rfl⟩

/-- A refresh of `b` evicts `a`, and the cache is left with one entry. -/
theorem refresh_evicts_other :
    ¬ ∀ (p : Platform) (maxSize : Nat) (defaultTtl : Duration) (tr : List CacheAction)
      (s s' : SharedCache) (place : Nat) (iter : List (Str × CacheEntry)) (key : Str)
      (entry : CacheEntry), Run (CacheAction.Step p) (SharedCache.new maxSize defaultTtl) tr s →
      s.waiting[place]? = some (key, entry) → key ∈ s.cache.entries →
      CacheAction.Step p s (.commit place iter) s' → Refreshed s.cache key s'.cache := by
  intro h
  have hmem : ['b'] ∈ twoPages.entries :=
    Finmap.mem_of_lookup_eq_some (show twoPages.entries.lookup ['b'] = some (staleEntryAt 1) by
      decide)
  obtain ⟨tr, hrun⟩ := run_twoPages Platform.ascii
  have hrun := hrun.snoc (step_prepare (preparePut_stalePage_two Platform.ascii) ['b'])
  have hrefreshed := h _ 2 0 _ _ ⟨_, []⟩ 0 _ ['b'] (staleEntryAt 2) hrun rfl hmem
    ⟨_, _, rfl, enumerates_twoPages, rfl⟩
  -- the page `a` was there, and is gone
  have hlost := hrefreshed.others ['a'] (by decide)
  exact absurd hlost (by decide)

end Sret
