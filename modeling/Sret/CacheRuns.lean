import Sret.Cache
import Sret.Foundation.History
import Sret.Foundation.Transition

namespace Sret

open Text KeyedMap Transition ResponseCache

/-!
# Runs of the cache

Sequences of `get` and `put` calls, as events that carry their arguments and their outcomes:

* `CacheEvent.Step` — the call takes the cache from one state to the next, with this outcome,
  for some iteration order of the hash map; `exists_step_put` — no put is ever stuck;
* `step_entries` — what each event does to the entries; `config_of_run` — the size limit and the
  default lifetime never change;
* `CacheEvent.effect` and `lookup_eq_replay` — along every run the entries are the last writes
  of the history (`History.replay`), so lookups can be answered from the history alone;
* `SameStore.run` — caches that differ in their counters only have the same runs.
-/

/-- One call with its outcome. -/
inductive CacheEvent
  | put (key : Str) (response : Response) (clock : Clock) (outcome : PutOutcome)
  | get (key : Str) (headers : HeaderMap) (now : Instant) (result : Option Response)

namespace CacheEvent

/-- The reading of the monotonic clock in the call. -/
def time : CacheEvent → Instant
  | .put _ _ clock _ => clock.instant
  | .get _ _ now _ => now

/-- The call, with this outcome, takes the cache from one state to the next. -/
def Step (p : Platform) (c : ResponseCache) (e : CacheEvent) (c' : ResponseCache) : Prop :=
  match e with
  | .put key response clock outcome =>
    ∃ iter, Enumerates iter c.entries ∧ c.put p iter key response clock = (outcome, c')
  | .get key headers now result => c.get key headers now = (result, c')

/-- What the event does to the entries, told by its outcome. -/
def effect : CacheEvent → History.Effect Str CacheEntry
  | .put key _ _ (.stored entry victim) => ⟨victim, some (key, entry)⟩
  | _ => ⟨none, none⟩

/-- Every lookup is a step. -/
theorem step_get (p : Platform) (c : ResponseCache) (key : Str) (headers : HeaderMap)
    (now : Instant) :
    Step p c (.get key headers now (c.get key headers now).1) (c.get key headers now).2 := rfl

/-- Every put is a step, for every iteration order. -/
theorem step_put (p : Platform) {c : ResponseCache} {iter : List (Str × CacheEntry)}
    (h : Enumerates iter c.entries) (key : Str) (response : Response) (clock : Clock) :
    Step p c (.put key response clock (c.put p iter key response clock).1)
      (c.put p iter key response clock).2 :=
  ⟨iter, h, rfl⟩

/-- A put that makes an entry inserts it. -/
theorem step_put_of_ready {p : Platform} {c : ResponseCache} {iter : List (Str × CacheEntry)}
    (hiter : Enumerates iter c.entries) {response : Response} {clock : Clock} {entry : CacheEntry}
    (h : preparePut p c.defaultTtl response clock = .ready entry) (key : Str) :
    Step p c (.put key response clock (.stored entry (c.insertEntry iter key entry).1))
      (c.insertEntry iter key entry).2 := by
  refine ⟨iter, hiter, ?_⟩
  simp only [ResponseCache.put, h]

/-- A put that makes none is refused or panics, and changes nothing. -/
theorem step_put_of_not_ready {p : Platform} {c : ResponseCache} {response : Response}
    {clock : Clock} (h : ∀ entry, preparePut p c.defaultTtl response clock ≠ .ready entry)
    (key : Str) :
    ∃ outcome, (outcome = .refused ∨ outcome = .panicked) ∧
      Step p c (.put key response clock outcome) c := by
  obtain ⟨iter, hiter⟩ := exists_enumerates c.entries
  cases hp : preparePut p c.defaultTtl response clock with
  | ready entry => exact absurd hp (h entry)
  | refused => exact ⟨.refused, Or.inl rfl, iter, hiter, by simp only [ResponseCache.put, hp]⟩
  | panicked => exact ⟨.panicked, Or.inr rfl, iter, hiter, by simp only [ResponseCache.put, hp]⟩

/-- A put can be made at any time. -/
theorem exists_step_put (p : Platform) (c : ResponseCache) (key : Str) (response : Response)
    (clock : Clock) : ∃ outcome c', Step p c (.put key response clock outcome) c' := by
  obtain ⟨iter, hiter⟩ := exists_enumerates c.entries
  exact ⟨_, _, step_put p hiter key response clock⟩

end CacheEvent

/-- The entries after an insertion, key by key. -/
theorem ResponseCache.Insertion.lookup {c c' : ResponseCache} {key : Str} {entry : CacheEntry}
    {victim : Option Str} (h : Insertion c key entry victim c') (k : Str) :
    c'.entries.lookup k =
      if key = k then some entry else if victim = some k then none else c.entries.lookup k := by
  rw [h.entries]
  by_cases hk : key = k
  · rw [if_pos hk, hk, Finmap.lookup_insert]
  · rw [if_neg hk, Finmap.lookup_insert_of_ne _ (Ne.symm hk)]
    cases victim with
    | none => rfl
    | some v =>
      by_cases hv : v = k
      · rw [if_pos (by rw [hv]), without, hv, Finmap.lookup_erase]
      · rw [if_neg (by simpa using hv), without, Finmap.lookup_erase_ne (Ne.symm hv)]

/-- A step does to the entries what its effect says. -/
theorem step_entries {p : Platform} {c c' : ResponseCache} {e : CacheEvent}
    (h : e.Step p c c') (k : Str) :
    c'.entries.lookup k = e.effect.apply (fun k => c.entries.lookup k) k := by
  cases e with
  | get key headers now result =>
    have hentries : c'.entries = c.entries := by
      rw [← show (c.get key headers now).2 = c' from congrArg Prod.snd h]
      exact get_entries c key headers now
    simp [hentries, CacheEvent.effect, History.Effect.apply]
  | put key response clock outcome =>
    obtain ⟨iter, hiter, hput⟩ := h
    rcases put_cases hiter hput with ⟨rfl, -, rfl⟩ | ⟨rfl, -, rfl⟩ | ⟨entry, victim, rfl, -, hins⟩
    · simp [CacheEvent.effect, History.Effect.apply]
    · simp [CacheEvent.effect, History.Effect.apply]
    · rw [hins.lookup]
      rfl

/-- No step changes the size limit or the default lifetime. -/
theorem step_config {p : Platform} {c c' : ResponseCache} {e : CacheEvent} (h : e.Step p c c') :
    c'.maxSize = c.maxSize ∧ c'.defaultTtl = c.defaultTtl := by
  cases e with
  | get key headers now result =>
    rw [← show (c.get key headers now).2 = c' from congrArg Prod.snd h]
    rcases c.get_snd key headers now with h' | h' <;> rw [h'] <;> exact ⟨rfl, rfl⟩
  | put key response clock outcome =>
    obtain ⟨iter, hiter, hput⟩ := h
    rcases put_cases hiter hput with ⟨-, -, rfl⟩ | ⟨-, -, rfl⟩ | ⟨_, _, -, -, hins⟩
    · exact ⟨rfl, rfl⟩
    · exact ⟨rfl, rfl⟩
    · exact ⟨hins.maxSize, hins.defaultTtl⟩

theorem config_of_run {p : Platform} {c c' : ResponseCache} {tr : List CacheEvent}
    (h : Run (CacheEvent.Step p) c tr c') :
    c'.maxSize = c.maxSize ∧ c'.defaultTtl = c.defaultTtl := by
  refine h.invariant (fun c' => c'.maxSize = c.maxSize ∧ c'.defaultTtl = c.defaultTtl)
    ⟨rfl, rfl⟩ fun c₁ e c₂ hinv hstep => ?_
  exact ⟨(step_config hstep).1.trans hinv.1, (step_config hstep).2.trans hinv.2⟩

/-- **The entries are the last writes of the history.** -/
theorem lookup_eq_replay {p : Platform} {maxSize : Nat} {defaultTtl : Duration}
    {tr : List CacheEvent} {c : ResponseCache}
    (h : Run (CacheEvent.Step p) (ResponseCache.new maxSize defaultTtl) tr c) (k : Str) :
    c.entries.lookup k = History.replay CacheEvent.effect tr k := by
  refine h.invariant_trace
    (fun tr c => ∀ k, c.entries.lookup k = History.replay CacheEvent.effect tr k)
    (fun k => by simp [ResponseCache.new]) (fun tr c e c' _ ih hstep k => ?_) k
  rw [step_entries hstep, History.replay_snoc, funext ih]

/-- What a run says about one of its puts: the outcome follows the response. -/
theorem put_of_run {p : Platform} {maxSize : Nat} {defaultTtl : Duration}
    {pre post : List CacheEvent} {c : ResponseCache} {key : Str} {response : Response}
    {clock : Clock} {outcome : PutOutcome}
    (h : Run (CacheEvent.Step p) (ResponseCache.new maxSize defaultTtl)
      (pre ++ .put key response clock outcome :: post) c) :
    (outcome = .refused ∧ isCacheable response.status response.headers = false) ∨
      (outcome = .panicked ∧ isCacheable response.status response.headers = true) ∨
      ∃ entry victim, outcome = .stored entry victim ∧
        preparePut p defaultTtl response clock = .ready entry := by
  obtain ⟨c₁, c₂, hpre, ⟨iter, hiter, hput⟩, -⟩ := h.step_at
  rw [← show c₁.defaultTtl = defaultTtl from (config_of_run hpre).2]
  rcases put_cases hiter hput with ⟨ho, hc, -⟩ | ⟨ho, hc, -⟩ | ⟨entry, victim, ho, hp, -⟩
  · exact Or.inl ⟨ho, hc⟩
  · exact Or.inr (Or.inl ⟨ho, hc⟩)
  · exact Or.inr (Or.inr ⟨entry, victim, ho, hp⟩)

/-! ### What a cache shows -/

/-- The same entries under the same configuration; only the counters may differ. -/
def SameStore (c d : ResponseCache) : Prop :=
  c.entries = d.entries ∧ c.maxSize = d.maxSize ∧ c.defaultTtl = d.defaultTtl

/-- The answer of a lookup does not depend on the counters. -/
theorem SameStore.get {c d : ResponseCache} (h : SameStore c d) (key : Str)
    (headers : HeaderMap) (now : Instant) :
    (c.get key headers now).1 = (d.get key headers now).1 ∧
      SameStore (c.get key headers now).2 (d.get key headers now).2 := by
  obtain ⟨hentries, hsize, httl⟩ := h
  simp only [ResponseCache.get, hentries]
  split
  · split
    · exact ⟨rfl, hentries, hsize, httl⟩
    · exact ⟨rfl, hentries, hsize, httl⟩
  · exact ⟨rfl, hentries, hsize, httl⟩

/-- Neither does what an insertion evicts. -/
theorem SameStore.insertEntry {c d : ResponseCache} (h : SameStore c d)
    (iter : List (Str × CacheEntry)) (key : Str) (entry : CacheEntry) :
    (c.insertEntry iter key entry).1 = (d.insertEntry iter key entry).1 ∧
      SameStore (c.insertEntry iter key entry).2 (d.insertEntry iter key entry).2 := by
  obtain ⟨entries, maxSize, defaultTtl, metrics⟩ := c
  obtain ⟨entries', maxSize', defaultTtl', metrics'⟩ := d
  obtain ⟨rfl, rfl, rfl⟩ : entries = entries' ∧ maxSize = maxSize' ∧ defaultTtl = defaultTtl' := h
  -- the comparison and the victim are read off the entries alone
  by_cases hfull : maxSize ≤ size entries
  · cases hmin : iter.argmin (fun x => x.2.lastAccessed) with
    | none => simp [ResponseCache.insertEntry, evictLru, len, hfull, hmin, SameStore]
    | some x => simp [ResponseCache.insertEntry, evictLru, len, hfull, hmin, SameStore]
  · simp [ResponseCache.insertEntry, len, hfull, SameStore]

/-- The counters decide nothing: what the one cache can do, the other can. -/
theorem SameStore.step {p : Platform} {c c' d : ResponseCache} {e : CacheEvent}
    (h : SameStore c d) (hstep : e.Step p c c') : ∃ d', e.Step p d d' ∧ SameStore c' d' := by
  cases e with
  | get key headers now result =>
    obtain ⟨hres, hstore⟩ := h.get key headers now
    obtain ⟨rfl, rfl⟩ := Prod.mk.inj (show ((c.get key headers now).1, (c.get key headers now).2)
      = (result, c') from hstep)
    exact ⟨(d.get key headers now).2, Prod.ext hres.symm rfl, hstore⟩
  | put key response clock outcome =>
    obtain ⟨iter, hiter, hput⟩ := hstep
    have hiter' : Enumerates iter d.entries := h.1 ▸ hiter
    cases hp : preparePut p c.defaultTtl response clock with
    | refused =>
      simp only [put, hp] at hput
      obtain ⟨rfl, rfl⟩ := Prod.mk.inj hput
      exact ⟨d, ⟨iter, hiter', by simp only [put, ← h.2.2, hp]⟩, h⟩
    | panicked =>
      simp only [put, hp] at hput
      obtain ⟨rfl, rfl⟩ := Prod.mk.inj hput
      exact ⟨d, ⟨iter, hiter', by simp only [put, ← h.2.2, hp]⟩, h⟩
    | ready entry =>
      obtain ⟨hvictim, hstore⟩ := h.insertEntry iter key entry
      simp only [put, hp] at hput
      obtain ⟨rfl, rfl⟩ := Prod.mk.inj hput
      exact ⟨_, ⟨iter, hiter', by simp only [put, ← h.2.2, hp]; rw [hvictim]⟩, hstore⟩

/-- **Caches with the same store have the same runs.** -/
theorem SameStore.run {p : Platform} {c c' d : ResponseCache} {tr : List CacheEvent}
    (h : SameStore c d) (hrun : Run (CacheEvent.Step p) c tr c') :
    ∃ d', Run (CacheEvent.Step p) d tr d' ∧ SameStore c' d' := by
  induction hrun with
  | nil => exact ⟨d, Run.nil d, h⟩
  | snoc _ hstep ih =>
    obtain ⟨m, hm, hstore⟩ := ih
    obtain ⟨d', hd', hstore'⟩ := hstore.step hstep
    exact ⟨d', Run.snoc hm hd', hstore'⟩

end Sret
