import Sret.CacheRuns

namespace Sret

open Text KeyedMap Transition ResponseCache

/-!
# The cache as a map with expiry, told from its history

What a lookup may answer, stated over the calls made so far and without looking at the cache:

* `LivePut tr k response clock` — the last accepted put of `k` in the history, if nothing has
  evicted `k` since;
* `lastWrite_iff`, `lookup_iff_livePut` — the last write of the entries, which is what the cache
  holds, is the entry made from the live put;
* `get_refines_history` — a lookup answers exactly when there is a live put whose lifetime is
  not over and the request's own directives allow it, and the answer is that put's response
  with the two `x-cache` lines added.

The results hold for every order in which the hash map iterates, so for every choice among
eviction ties, and they need nothing of the clock.
-/

namespace CacheEvent

/-- A put of the key that `is_cacheable` accepts. -/
def AcceptsPut (e : CacheEvent) (k : Str) : Prop :=
  ∃ response clock outcome, e = .put k response clock outcome ∧
    isCacheable response.status response.headers = true

/-- The event evicts the key. -/
def Evicts (e : CacheEvent) (k : Str) : Prop :=
  ∃ key response clock entry, e = .put key response clock (.stored entry (some k))

/-- A put that panics because a time leaves the range of `Instant`. -/
def Panics (e : CacheEvent) : Prop := ∃ key response clock, e = .put key response clock .panicked

end CacheEvent

/-- The last accepted put of the key, not evicted since. -/
def LivePut (tr : List CacheEvent) (k : Str) (response : Response) (clock : Clock) : Prop :=
  ∃ pre outcome post, tr = pre ++ .put k response clock outcome :: post ∧
    isCacheable response.status response.headers = true ∧
    ∀ e ∈ post, ¬ e.AcceptsPut k ∧ ¬ e.Evicts k

/-- In a run without panics an event touches a key when it accepts a put of it or evicts it. -/
theorem touches_iff {p : Platform} {maxSize : Nat} {defaultTtl : Duration}
    {tr : List CacheEvent} {c : ResponseCache}
    (hrun : Run (CacheEvent.Step p) (ResponseCache.new maxSize defaultTtl) tr c)
    (hpanic : ∀ e ∈ tr, ¬ e.Panics) {e : CacheEvent} (he : e ∈ tr) (k : Str) :
    e.effect.Touches k ↔ e.AcceptsPut k ∨ e.Evicts k := by
  cases e with
  | get key headers now result =>
    simp [CacheEvent.effect, History.Effect.Touches, CacheEvent.AcceptsPut, CacheEvent.Evicts]
  | put key response clock outcome =>
    obtain ⟨xs, ys, rfl⟩ := List.append_of_mem he
    rcases put_of_run hrun with ⟨rfl, hc⟩ | ⟨rfl, -⟩ | ⟨entry, victim, rfl, hp⟩
    · simp [CacheEvent.effect, History.Effect.Touches, CacheEvent.AcceptsPut, CacheEvent.Evicts, hc]
    · exact absurd ⟨key, response, clock, rfl⟩ (hpanic _ he)
    · have hc := (preparePut_ready hp).1
      simp [CacheEvent.effect, History.Effect.Touches, CacheEvent.AcceptsPut, CacheEvent.Evicts,
        hc, or_comm]

/-- **The last write is the live put.** -/
theorem lastWrite_iff {p : Platform} {maxSize : Nat} {defaultTtl : Duration}
    {tr : List CacheEvent} {c : ResponseCache}
    (hrun : Run (CacheEvent.Step p) (ResponseCache.new maxSize defaultTtl) tr c)
    (hpanic : ∀ e ∈ tr, ¬ e.Panics) (k : Str) (entry : CacheEntry) :
    History.LastWrite CacheEvent.effect tr k entry ↔
      ∃ response clock, LivePut tr k response clock ∧
        preparePut p defaultTtl response clock = .ready entry := by
  constructor
  · rintro ⟨pre, e, post, rfl, hw, hpost⟩
    have hlater : ∀ e' ∈ post, ¬ e'.AcceptsPut k ∧ ¬ e'.Evicts k := by
      intro e' he'
      have h := (touches_iff hrun hpanic (e := e') (by simp [he']) k).not.mp (hpost e' he')
      exact not_or.mp h
    cases e with
    | get key headers now result => simp [CacheEvent.effect] at hw
    | put key response clock outcome =>
      -- only a put that stores writes an entry
      rcases put_of_run hrun with ⟨rfl, -⟩ | ⟨rfl, -⟩ | ⟨entry', victim, rfl, hp⟩
      · simp [CacheEvent.effect] at hw
      · simp [CacheEvent.effect] at hw
      · obtain ⟨rfl, rfl⟩ : key = k ∧ entry' = entry := by simpa [CacheEvent.effect] using hw
        exact ⟨response, clock, ⟨pre, _, post, rfl, (preparePut_ready hp).1, hlater⟩, hp⟩
  · rintro ⟨response, clock, ⟨pre, outcome, post, rfl, hc, hlater⟩, hp⟩
    -- an accepted put that does not panic stores
    rcases put_of_run hrun with ⟨-, hc'⟩ | ⟨rfl, -⟩ | ⟨entry', victim, rfl, hp'⟩
    · simp [hc] at hc'
    · exact absurd ⟨k, response, clock, rfl⟩ (hpanic (.put k response clock .panicked) (by simp))
    · obtain rfl : entry' = entry := by simpa using hp'.symm.trans hp
      refine ⟨pre, _, post, rfl, rfl, fun e' he' => ?_⟩
      rw [touches_iff hrun hpanic (e := e') (by simp [he']) k, not_or]
      exact hlater e' he'

/-- **The entries are those of the live puts.** -/
theorem lookup_iff_livePut {p : Platform} {maxSize : Nat} {defaultTtl : Duration}
    {tr : List CacheEvent} {c : ResponseCache}
    (hrun : Run (CacheEvent.Step p) (ResponseCache.new maxSize defaultTtl) tr c)
    (hpanic : ∀ e ∈ tr, ¬ e.Panics) (k : Str) (entry : CacheEntry) :
    c.entries.lookup k = some entry ↔
      ∃ response clock, LivePut tr k response clock ∧
        preparePut p defaultTtl response clock = .ready entry := by
  rw [lookup_eq_replay hrun, History.replay_eq_some, lastWrite_iff hrun hpanic]

/-- An accepted put that does not panic has made its entry. -/
theorem LivePut.ready {p : Platform} {maxSize : Nat} {defaultTtl : Duration}
    {tr : List CacheEvent} {c : ResponseCache}
    (hrun : Run (CacheEvent.Step p) (ResponseCache.new maxSize defaultTtl) tr c)
    (hpanic : ∀ e ∈ tr, ¬ e.Panics) {k : Str} {response : Response} {clock : Clock}
    (h : LivePut tr k response clock) :
    ∃ entry, preparePut p defaultTtl response clock = .ready entry := by
  obtain ⟨pre, outcome, post, rfl, hc, -⟩ := h
  rcases put_of_run hrun with ⟨-, hc'⟩ | ⟨rfl, -⟩ | ⟨entry, victim, rfl, hp⟩
  · simp [hc] at hc'
  · exact absurd ⟨k, response, clock, rfl⟩ (hpanic (.put k response clock .panicked) (by simp))
  · exact ⟨entry, hp⟩

/-- A put that `is_cacheable` refuses changes nothing. -/
theorem eq_of_refused {p : Platform} {c c' : ResponseCache} {key : Str} {response : Response}
    {clock : Clock} {outcome : PutOutcome}
    (hstep : CacheEvent.Step p c (.put key response clock outcome) c')
    (hc : isCacheable response.status response.headers = false) : c' = c := by
  obtain ⟨iter, hiter, hput⟩ := hstep
  rcases put_cases hiter hput with ⟨-, -, hsame⟩ | ⟨-, hc', -⟩ | ⟨_, _, -, hp, -⟩
  · exact hsame
  · simp [hc] at hc'
  · simp [(preparePut_ready hp).1] at hc

/-- The conditions of a lookup, read off the put that the entry was made from. -/
theorem serves_prepared_iff {p : Platform} {defaultTtl : Duration} {response : Response}
    {clock : Clock} {entry : CacheEntry} {cc : CacheControl} {t : Instant}
    (hp : preparePut p defaultTtl response clock = .ready entry) :
    entry.serves cc t = true ↔
      ∃ ttl, calculateTtl p defaultTtl response.headers clock = .ok ttl ∧
        t < clock.instant + ttl ∧ cc.noCache = false ∧ cc.noStore = false ∧
        ∀ m, cc.maxAge = some m →
          Duration.asSecs (Instant.durationSince t clock.instant) < m := by
  obtain ⟨-, ⟨ttl, httl, hexp⟩, -, -, -, hcreated, -⟩ := preparePut_ready hp
  rw [serves_iff, hexp, hcreated]
  constructor
  · intro h
    exact ⟨ttl, httl, h⟩
  · rintro ⟨ttl', httl', h⟩
    obtain rfl : ttl' = ttl := by simpa using httl'.symm.trans httl
    exact h

/-- The two lines that a hit adds leave the lines of every other name as they were stored. -/
theorem getAll_toResponse {e : CacheEntry} {t : Instant} {name : HeaderName}
    (h : name ≠ HeaderName.xCache) (h' : name ≠ HeaderName.xCacheAge) :
    (e.toResponse t).headers.getAll name = e.headers.getAll name := by
  rw [CacheEntry.toResponse, HeaderMap.getAll_append_of_ne (Ne.symm h'),
    HeaderMap.getAll_append_of_ne (Ne.symm h)]

/-- **The cache refines the history.**  In every run of puts and gets in which no put panics, a
    `get(k, h)` at time `t` returns a response exactly when the last accepted put of `k` has not
    been evicted since, `t` is before that put's time plus its lifetime, `h` says neither
    no-cache nor no-store, and `h`'s max-age, if any, exceeds the age in seconds.  The response
    has the status, the body and the header lines of that put, but for `x-cache` and
    `x-cache-age`.  A put that `is_cacheable` refuses changes nothing. -/
theorem get_refines_history (p : Platform) (maxSize : Nat) (defaultTtl : Duration)
    (tr : List CacheEvent) (k : Str) (h : HeaderMap) (t : Instant) (result : Option Response)
    (c : ResponseCache)
    (hrun : Run (CacheEvent.Step p) (ResponseCache.new maxSize defaultTtl)
      (tr ++ [.get k h t result]) c)
    (hpanic : ∀ e ∈ tr, ¬ e.Panics) :
    ((∃ r, result = some r) ↔
      ∃ response clock ttl, LivePut tr k response clock ∧
        calculateTtl p defaultTtl response.headers clock = .ok ttl ∧
        t < clock.instant + ttl ∧
        (CacheControl.fromHeaders h).noCache = false ∧
        (CacheControl.fromHeaders h).noStore = false ∧
        ∀ m, (CacheControl.fromHeaders h).maxAge = some m →
          Duration.asSecs (Instant.durationSince t clock.instant) < m) ∧
    (∀ r, result = some r → ∃ response clock, LivePut tr k response clock ∧
      r.status = response.status ∧ r.body = response.body ∧
      ∀ name, name ≠ HeaderName.xCache → name ≠ HeaderName.xCacheAge →
        r.headers.getAll name = response.headers.getAll name) ∧
    (∀ c₁ c₂ key response clock outcome,
      CacheEvent.Step p c₁ (.put key response clock outcome) c₂ →
      isCacheable response.status response.headers = false → c₂ = c₁) := by
  obtain ⟨c₀, hpre, hget⟩ := hrun.last
  have hentry := lookup_iff_livePut hpre hpanic k
  have hresult : ∀ r, result = some r ↔ ∃ entry, c₀.entries.lookup k = some entry ∧
      entry.serves (CacheControl.fromHeaders h) t = true ∧ r = entry.toResponse t := by
    intro r
    rw [← show (c₀.get k h t).1 = result from congrArg Prod.fst hget]
    exact get_fst c₀ k h t r
  refine ⟨⟨?_, ?_⟩, ?_, ?_⟩
  · -- a hit: read the live put off the entry
    rintro ⟨r, hr⟩
    obtain ⟨entry, hl, hs, -⟩ := (hresult r).mp hr
    obtain ⟨response, clock, hlive, hp⟩ := (hentry entry).mp hl
    obtain ⟨ttl, hserves⟩ := (serves_prepared_iff hp).mp hs
    exact ⟨response, clock, ttl, hlive, hserves⟩
  · -- a live put: its entry is there and serves the request
    rintro ⟨response, clock, ttl, hlive, hserves⟩
    obtain ⟨entry, hp⟩ := hlive.ready hpre hpanic
    exact ⟨entry.toResponse t, (hresult _).mpr
      ⟨entry, (hentry entry).mpr ⟨response, clock, hlive, hp⟩,
        (serves_prepared_iff hp).mpr ⟨ttl, hserves⟩, rfl⟩⟩
  · -- what a hit returns
    intro r hr
    obtain ⟨entry, hl, -, rfl⟩ := (hresult r).mp hr
    obtain ⟨response, clock, hlive, hp⟩ := (hentry entry).mp hl
    obtain ⟨-, -, hbody, hstatus, hheaders, -, -⟩ := preparePut_ready hp
    refine ⟨response, clock, hlive, hstatus, hbody, fun name hn hn' => ?_⟩
    rw [getAll_toResponse hn hn', hheaders]
  · -- a refused put
    intro c₁ c₂ key response clock outcome hstep hc
    exact eq_of_refused hstep hc

/-- A page for a minute, with two cookies. -/
def minutePage : Response where
  status := 200
  headers := ⟨[(HeaderName.cacheControl, HeaderValue.ofStr "max-age=60".toList (by decide)),
    ("set-cookie".toList, HeaderValue.ofStr "a=1".toList (by decide)),
    ("set-cookie".toList, HeaderValue.ofStr "b=2".toList (by decide))]⟩
  body := [104, 105]

/-- The page is put into an empty cache at time 5 … -/
def storePage : PutOutcome × ResponseCache :=
  (ResponseCache.new 1 0).put Platform.ascii [] "GET:/".toList minutePage ⟨5, 0⟩

/-- … and read at time 7. -/
def readPage : Option Response × ResponseCache :=
  storePage.2.get "GET:/".toList HeaderMap.empty 7

theorem run_page : Run (CacheEvent.Step Platform.ascii) (ResponseCache.new 1 0)
    ([.put "GET:/".toList minutePage ⟨5, 0⟩ storePage.1] ++
      [.get "GET:/".toList HeaderMap.empty 7 readPage.1]) readPage.2 :=
  Run.snoc (Run.single (CacheEvent.step_put _ (by decide) _ _ _)) (CacheEvent.step_get _ _ _ _ _)

theorem get_refines_history_page :
    ∃ response clock ttl,
      LivePut [.put "GET:/".toList minutePage ⟨5, 0⟩ storePage.1] "GET:/".toList response clock ∧
        calculateTtl Platform.ascii 0 response.headers clock = .ok ttl ∧ 7 < clock.instant + ttl ∧
        (CacheControl.fromHeaders HeaderMap.empty).noCache = false ∧
        (CacheControl.fromHeaders HeaderMap.empty).noStore = false ∧
        ∀ m, (CacheControl.fromHeaders HeaderMap.empty).maxAge = some m →
          Duration.asSecs (Instant.durationSince 7 clock.instant) < m := by
  have hpanic : ∀ e ∈ [CacheEvent.put "GET:/".toList minutePage ⟨5, 0⟩ storePage.1],
      ¬ e.Panics := by
    intro e he
    obtain rfl := List.mem_singleton.mp he
    rintro ⟨_, _, _, h⟩
    have hstored : storePage.1 ≠ .panicked := by decide
    exact hstored (CacheEvent.put.inj h).2.2.2
  exact (get_refines_history Platform.ascii 1 0 _ _ _ _ _ _ run_page hpanic).1.mp
    (Option.isSome_iff_exists.mp (by decide))

end Sret
