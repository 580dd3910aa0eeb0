import Sret.Capacity

namespace Sret

open Text KeyedMap Transition ResponseCache

/-!
# The counters of the cache

`CacheMetrics` against the entries, over every interleaving of puts and lookups.

* `Ledger` — what is counted beside a run: the insertions of keys that were absent when they
  were inserted, and the evictions;
* `Insertion.len_add` — one insertion: entries and evictions grow by what it inserted newly;
* `Balanced`, `Balanced.step` — the size counter is the number of entries, every new key is still
  there or was evicted, and the eviction counter counts the evictions as a `u64` can;
* `bookkeeping_of_run` — so it is in every run, and no step changes the entries in another way
  than the puts are meant to.
-/

/-! ### The ledger -/

/-- The first half of the critical section of `put`: the eviction, if the cache is full. -/
def ResponseCache.makeRoom (c : ResponseCache) (iter : List (Str × CacheEntry)) :
    Option Str × ResponseCache :=
  if c.maxSize ≤ c.len then c.evictLru iter else (none, c)

/-- The insertions of absent keys and the evictions of a run. -/
structure Ledger where
  newKeys : Nat
  evicted : Nat
deriving DecidableEq

/-- What a step adds to the ledger: an insertion looks its key up after the eviction. -/
def CacheAction.record (s : SharedCache) (a : CacheAction) (l : Ledger) : Ledger :=
  match a with
  | .commit place iter =>
    match s.waiting[place]? with
    | some (key, _) =>
      let (victim, c') := s.cache.makeRoom iter
      { newKeys := l.newKeys + (c'.entries.lookup key).isNone.toNat
        evicted := l.evicted + victim.isSome.toNat }
    | none => l
  | _ => l

/-- A run of the cache with its ledger. -/
abbrev LedgerStep (p : Platform) :
    SharedCache × Ledger → CacheAction → SharedCache × Ledger → Prop :=
  withGhost (CacheAction.Step p) CacheAction.record

/-- The victim of an insertion is the one of `makeRoom`. -/
theorem insertEntry_fst (c : ResponseCache) (iter : List (Str × CacheEntry)) (key : Str)
    (entry : CacheEntry) : (c.insertEntry iter key entry).1 = (c.makeRoom iter).1 := rfl

/-- After `makeRoom` the victim is gone, and nothing else. -/
theorem makeRoom_entries (c : ResponseCache) (iter : List (Str × CacheEntry)) :
    (c.makeRoom iter).2.entries = without c.entries (c.makeRoom iter).1 := by
  unfold makeRoom evictLru
  split
  · split
    · rfl
    · rfl
  · rfl

/-- **One insertion, counted.**  The entries and the victim after it are the entries before it
    and the key, if that is new. -/
theorem ResponseCache.Insertion.len_add {c c' : ResponseCache} {key : Str} {entry : CacheEntry}
    {victim : Option Str} (h : Insertion c key entry victim c') :
    c'.len + victim.isSome.toNat =
      c.len + ((without c.entries victim).lookup key).isNone.toNat := by
  have hvictim : size (without c.entries victim) + victim.isSome.toNat = c.len := by
    cases victim with
    | none => rfl
    | some v =>
      have hmem := (h.leastRecent v rfl).mem
      have hpos : 0 < size c.entries := Finset.card_pos.mpr ⟨v, Finmap.mem_keys.mpr hmem⟩
      simp only [without, size_erase_of_mem hmem, Option.isSome_some, Bool.toNat_true, len]
      omega
  have hinsert : c'.len = size (without c.entries victim) +
      ((without c.entries victim).lookup key).isNone.toNat := by
    rw [len, h.entries]
    cases hkey : (without c.entries victim).lookup key with
    | some old => exact size_insert_of_mem (Finmap.mem_of_lookup_eq_some hkey) entry
    | none => exact size_insert_of_notMem (Finmap.lookup_eq_none.mp hkey) entry
  omega

/-! ### What a step keeps -/

/-- The counters agree with the entries and with the ledger. -/
structure Balanced (s : SharedCache) (l : Ledger) : Prop where
  size : s.cache.metrics.size = s.cache.len
  balance : s.cache.len + l.evicted = l.newKeys
  evictions : s.cache.metrics.evictions = l.evicted % 2 ^ 64

/-- **A step keeps the balance.** -/
theorem Balanced.step {p : Platform} {s s' : SharedCache} {l l' : Ledger} {a : CacheAction}
    (h : Balanced s l) (hstep : LedgerStep p (s, l) a (s', l')) : Balanced s' l' := by
  obtain ⟨hstep, rfl⟩ := hstep
  cases a with
  | prepare key response clock =>
    obtain rfl := hstep
    show Balanced _ l
    split
    · exact ⟨h.size, h.balance, h.evictions⟩
    · exact h
  | get key headers now =>
    obtain rfl := hstep
    show Balanced _ l
    -- a lookup writes the hit or the miss counter, and no other
    rcases s.cache.get_snd key headers now with heq | heq <;> rw [heq]
    · exact ⟨h.size, h.balance, h.evictions⟩
    · exact ⟨h.size, h.balance, h.evictions⟩
  | commit place iter =>
    obtain ⟨key, entry, hplace, hiter, rfl⟩ := hstep
    have hins := insertEntry_insertion hiter key entry
    have hlen := hins.len_add
    simp only [insertEntry_fst, ← makeRoom_entries] at hlen
    have hbalance := h.balance
    simp only [CacheAction.record, hplace]
    refine ⟨?_, ?_, ?_⟩
    · rw [hins.metrics]
    · simp only
      omega
    · rw [hins.metrics, insertEntry_fst]
      simp only [h.evictions]
      cases (s.cache.makeRoom iter).1 with
      | none => rfl
      | some v => simp [fetchAddOne]

/-- The entry is the one that a put of the key made of its response. -/
def PreparedIn (p : Platform) (defaultTtl : Duration) (tr : List CacheAction) (key : Str)
    (entry : CacheEntry) : Prop :=
  ∃ response clock, .prepare key response clock ∈ tr ∧
    preparePut p defaultTtl response clock = .ready entry

/-- The puts that wait for the lock hold the entries that they made. -/
structure WaitingPrepared (p : Platform) (defaultTtl : Duration) (tr : List CacheAction)
    (s : SharedCache) : Prop where
  ttl : s.cache.defaultTtl = defaultTtl
  waiting : ∀ x ∈ s.waiting, PreparedIn p defaultTtl tr x.1 x.2

/-- What has been prepared has been so in every longer run. -/
theorem PreparedIn.snoc {p : Platform} {defaultTtl : Duration} {tr : List CacheAction} {key : Str}
    {entry : CacheEntry} (h : PreparedIn p defaultTtl tr key entry) (a : CacheAction) :
    PreparedIn p defaultTtl (tr ++ [a]) key entry := by
  obtain ⟨response, clock, hmem, hready⟩ := h
  exact ⟨response, clock, List.mem_append_left _ hmem, hready⟩

/-- A step keeps it that the waiting entries were prepared. -/
theorem WaitingPrepared.step {p : Platform} {defaultTtl : Duration} {tr : List CacheAction}
    {s s' : SharedCache} {a : CacheAction} (h : WaitingPrepared p defaultTtl tr s)
    (hstep : a.Step p s s') : WaitingPrepared p defaultTtl (tr ++ [a]) s' := by
  have hold : ∀ x ∈ s.waiting, PreparedIn p defaultTtl (tr ++ [a]) x.1 x.2 :=
    fun x hx => (h.waiting x hx).snoc a
  refine ⟨(action_config hstep).2.trans h.ttl, ?_⟩
  cases a with
  | prepare key response clock =>
    obtain rfl := hstep
    split
    · rename_i entry hready
      intro x hx
      rcases List.mem_append.mp hx with hx | hx
      · exact hold x hx
      · -- the put that has just made its entry
        obtain rfl := List.mem_singleton.mp hx
        exact ⟨response, clock, by simp, h.ttl ▸ hready⟩
    · exact hold
  | commit place iter =>
    obtain ⟨key, entry, -, -, rfl⟩ := hstep
    exact fun x hx => hold x (List.mem_of_mem_eraseIdx hx)
  | get key headers now =>
    obtain rfl := hstep
    exact hold

/-! ### Runs -/

/-- What a step may do to the cache: a put that has the lock inserts the entry that it made of
    its response; no other step changes an entry, and a put that is refused does nothing. -/
def CacheAction.Keeps (p : Platform) (tr : List CacheAction) (s : SharedCache) (a : CacheAction)
    (s' : SharedCache) : Prop :=
  match a with
  | .prepare _ response _ => s'.cache = s.cache ∧
      (isCacheable response.status response.headers = false → s' = s)
  | .commit place _ => ∃ key entry victim, s.waiting[place]? = some (key, entry) ∧
      PreparedIn p s.cache.defaultTtl tr key entry ∧ Insertion s.cache key entry victim s'.cache
  | .get _ _ _ => s'.cache.entries = s.cache.entries

/-- Every step does to the cache what its action allows, and no more. -/
theorem WaitingPrepared.keeps {p : Platform} {defaultTtl : Duration} {tr : List CacheAction}
    {s s' : SharedCache} {a : CacheAction} (h : WaitingPrepared p defaultTtl tr s)
    (hstep : a.Step p s s') : a.Keeps p tr s s' := by
  cases a with
  | prepare key response clock =>
    obtain rfl := hstep
    constructor
    · split <;> rfl
    · intro hrefused
      rw [preparePut_refused.mpr hrefused]
  | commit place iter =>
    obtain ⟨key, entry, hplace, hiter, rfl⟩ := hstep
    refine ⟨key, entry, _, hplace, ?_, insertEntry_insertion hiter key entry⟩
    rw [h.ttl]
    exact h.waiting _ (List.mem_of_getElem? hplace)
  | get key headers now =>
    obtain rfl := hstep
    exact get_entries s.cache key headers now

/-- The ledger balances after every run. -/
theorem balanced_of_run {p : Platform} {maxSize : Nat} {defaultTtl : Duration}
    {tr : List CacheAction} {s : SharedCache} {l : Ledger}
    (hrun : Run (LedgerStep p) (SharedCache.new maxSize defaultTtl, ⟨0, 0⟩) tr (s, l)) :
    Balanced s l :=
  hrun.invariant (fun x => Balanced x.1 x.2)
    ⟨rfl, by simp [SharedCache.new, ResponseCache.new, len], rfl⟩ fun _ _ _ h hstep => h.step hstep

/-- **Bookkeeping.**  In every run of concurrent puts and gets from an empty cache the size
    counter is the number of entries, the entries and the evictions are as many as the insertions
    of absent keys, the eviction counter is the number of evictions modulo `2 ^ 64`, and a further
    step changes the entries as `CacheAction.Keeps` says. -/
theorem bookkeeping_of_run (p : Platform) (maxSize : Nat) (defaultTtl : Duration)
    (tr : List CacheAction) (s : SharedCache) (l : Ledger)
    (hrun : Run (LedgerStep p) (SharedCache.new maxSize defaultTtl, ⟨0, 0⟩) tr (s, l)) :
    Balanced s l ∧ s.cache.maxSize = maxSize ∧
      ∀ a s', CacheAction.Step p s a s' → a.Keeps p tr s s' := by
  have hwaiting := hrun.forget.invariant_trace (WaitingPrepared p defaultTtl)
    ⟨rfl, by simp [SharedCache.new]⟩ fun _ _ _ _ _ h hstep => h.step hstep
  exact ⟨balanced_of_run hrun, (len_of_run hrun.forget).1, fun a s' hstep => hwaiting.keeps hstep⟩

/-- One put into a cache of size zero. -/
theorem bookkeeping_of_run_stale :
    ∃ s l, Run (LedgerStep Platform.ascii) (SharedCache.new 0 7, ⟨0, 0⟩)
        ([.prepare [] stalePage ⟨0, 0⟩] ++ [.commit 0 []]) (s, l) ∧
      Balanced s l ∧ s.cache.maxSize = 0 ∧
      ∀ a s', CacheAction.Step Platform.ascii s a s' →
        a.Keeps Platform.ascii ([.prepare [] stalePage ⟨0, 0⟩] ++ [.commit 0 []]) s s' := by
  obtain ⟨s, hrun, -⟩ := run_stale Platform.ascii 7
  obtain ⟨l, hrun⟩ := hrun.exists_ghost CacheAction.record ⟨0, 0⟩
  exact ⟨s, l, hrun, bookkeeping_of_run Platform.ascii 0 7 _ s l hrun⟩

/-! ### The eviction counter wraps around -/

/-- One more put of the page, into a cache that nobody else is using. -/
theorem run_put (p : Platform) {s : SharedCache} (hwaiting : s.waiting = []) (l : Ledger) :
    ∃ iter s', Enumerates iter s.cache.entries ∧
      Run (LedgerStep p) (s, l) ([.prepare [] stalePage ⟨0, 0⟩] ++ [.commit 0 iter])
        (s', ⟨l.newKeys + ((s.cache.makeRoom iter).2.entries.lookup []).isNone.toNat,
          l.evicted + (s.cache.makeRoom iter).1.isSome.toNat⟩) ∧
      s'.waiting = [] ∧ s'.cache = (s.cache.insertEntry iter [] staleEntry).2 := by
  have hready : preparePut p s.cache.defaultTtl stalePage ⟨0, 0⟩ = .ready staleEntry := rfl
  obtain ⟨iter, hiter⟩ := exists_enumerates s.cache.entries
  refine ⟨iter, ⟨(s.cache.insertEntry iter [] staleEntry).2, []⟩, hiter,
    Run.snoc (t := (⟨s.cache, [([], staleEntry)]⟩, l)) (Run.single ⟨?_, rfl⟩) ⟨?_, rfl⟩, rfl, rfl⟩
  · simp only [CacheAction.Step, hready, hwaiting, List.nil_append]
  · exact ⟨[], staleEntry, rfl, hiter, rfl⟩

/-- A cache with room for one entry can be made to evict any number of times. -/
theorem exists_run_evicting (p : Platform) (n : Nat) :
    ∃ tr s l, Run (LedgerStep p) (SharedCache.new 1 0, ⟨0, 0⟩) tr (s, l) ∧ s.waiting = [] ∧
      l.evicted = n ∧ s.cache.entries ≠ ∅ := by
  have hstored : ∀ {c c' : ResponseCache} {victim : Option Str},
      Insertion c [] staleEntry victim c' → c'.entries ≠ ∅ := by
    intro c c' victim hins hempty
    have hlookup : c'.entries.lookup [] = some staleEntry := by
      rw [hins.entries, Finmap.lookup_insert]
    simp [hempty] at hlookup
  induction n with
  | zero =>
    -- the first put finds the cache empty
    obtain ⟨iter, s, hiter, hrun, hwaiting, hcache⟩ :=
      run_put p (s := SharedCache.new 1 0) rfl ⟨0, 0⟩
    exact ⟨_, s, _, hrun, hwaiting, rfl, hcache ▸ hstored (insertEntry_insertion hiter _ _)⟩
  | succ n ih =>
    obtain ⟨tr, s, l, hrun, hwaiting, hevicted, hne⟩ := ih
    obtain ⟨iter, s', hiter, hput, hwaiting', hcache⟩ := run_put p hwaiting l
    have hins := insertEntry_insertion hiter [] staleEntry
    have hsize : s.cache.maxSize = 1 := (len_of_run hrun.forget).1
    -- the cache is full, so a victim is found
    have hvictim : (s.cache.makeRoom iter).1.isSome = true := by
      rw [← insertEntry_fst s.cache iter [] staleEntry]
      by_contra hnone
      rcases hins.room (Option.not_isSome_iff_eq_none.mp hnone) with hroom | hempty
      · rw [hsize, Nat.lt_one_iff] at hroom
        exact hne (eq_empty_of_size hroom)
      · exact hne hempty
    refine ⟨_, s', _, hrun.append hput, hwaiting', ?_, hcache ▸ hstored hins⟩
    simp [hvictim, hevicted]

/-- After `2 ^ 64` evictions the counter stands at zero again. -/
theorem eviction_counter_wraps :
    ¬ ∀ (p : Platform) (maxSize : Nat) (defaultTtl : Duration) (tr : List CacheAction)
      (s : SharedCache) (l : Ledger),
      Run (LedgerStep p) (SharedCache.new maxSize defaultTtl, ⟨0, 0⟩) tr (s, l) →
      s.cache.len + s.cache.metrics.evictions = l.newKeys := by
  intro h
  obtain ⟨tr, s, l, hrun, -, hevicted, -⟩ := exists_run_evicting Platform.ascii (2 ^ 64)
  have hclaim := h Platform.ascii 1 0 tr s l hrun
  obtain ⟨-, hbalance, hcounter⟩ := balanced_of_run hrun
  rw [hevicted] at hbalance hcounter
  rw [hcounter, Nat.mod_self] at hclaim
  omega

end Sret
