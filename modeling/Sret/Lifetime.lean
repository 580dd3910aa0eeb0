import Sret.Capacity
import Sret.Ttl

namespace Sret

open Text KeyedMap Transition ResponseCache

/-!
# Lifetimes that an instant can hold

`put` adds the lifetime of a response to the clock reading, and the sum of an `Instant` and a
`Duration` panics when it is no `Instant`.

* `preparePut_panicked`, `put_panicked` — a put panics over such a sum and over nothing else;
* `put_completes_iff` — so a put completes, in every state that the cache reaches, exactly when
  its response is refused or its lifetime is in range.
-/

/-! ### When a put completes -/

/-- The first part of `put` panics for a response that is not refused and whose lifetime is out of
    range. -/
theorem preparePut_panicked (p : Platform) (defaultTtl : Duration) (response : Response)
    (clock : Clock) :
    preparePut p defaultTtl response clock = .panicked ↔
      isCacheable response.status response.headers = true ∧
        ¬ LifetimeInRange p defaultTtl response.headers clock := by
  have hready := exists_ready_iff p defaultTtl response clock
  have hrefused : preparePut p defaultTtl response clock = .refused ↔
      isCacheable response.status response.headers = false := preparePut_refused
  -- a put is refused, panics or is ready
  cases hp : preparePut p defaultTtl response clock with
  | refused => simp [hrefused.mp hp]
  | panicked =>
    have hcacheable : isCacheable response.status response.headers = true := by
      rw [← Bool.not_eq_false, ← hrefused, hp]
      simp
    simpa [hp, hcacheable] using hready
  | ready entry =>
    obtain ⟨-, hrange⟩ := hready.mp ⟨entry, hp⟩
    simp [hrange]

/-- The rest of `put` does not panic. -/
theorem put_panicked (p : Platform) (c : ResponseCache) (iter : List (Str × CacheEntry))
    (key : Str) (response : Response) (clock : Clock) :
    (c.put p iter key response clock).1 = .panicked ↔
      preparePut p c.defaultTtl response clock = .panicked := by
  unfold put
  cases preparePut p c.defaultTtl response clock <;> simp

/-- The default lifetime is the configured one in every state. -/
theorem defaultTtl_of_run {p : Platform} {s s' : SharedCache} {tr : List CacheAction}
    (h : Run (CacheAction.Step p) s tr s') : s'.cache.defaultTtl = s.cache.defaultTtl :=
  h.invariant (fun s' => s'.cache.defaultTtl = s.cache.defaultTtl) rfl
    fun _ _ _ hinv hstep => (action_config hstep).2.trans hinv

/-- **When a put completes.**  In every state that the cache reaches, a put of the response ends
    without a panic exactly when the response is not cacheable or its lifetime is in range. -/
theorem put_completes_iff (p : Platform) (maxSize : Nat) (defaultTtl : Duration)
    {tr : List CacheAction} {s : SharedCache}
    (hrun : Run (CacheAction.Step p) (SharedCache.new maxSize defaultTtl) tr s)
    (iter : List (Str × CacheEntry)) (key : Str) (response : Response) (clock : Clock) :
    (s.cache.put p iter key response clock).1 ≠ .panicked ↔
      isCacheable response.status response.headers = false ∨
        LifetimeInRange p defaultTtl response.headers clock := by
  -- the default lifetime has not changed since the start
  rw [ne_eq, put_panicked, preparePut_panicked, defaultTtl_of_run hrun, not_and_or, not_not,
    Bool.not_eq_true]
  rfl

/-- A page that declares the longest lifetime that the parser accepts. -/
def foreverPage : Response where
  status := 200
  headers := ⟨[(HeaderName.cacheControl,
    HeaderValue.ofStr "max-age=18446744073709551615".toList (by decide))]⟩
  body := []

/-- Its put panics in a cache that has just stored another page, while one of that page does not. -/
theorem put_completes_iff_stored :
    ∃ s, Run (CacheAction.Step Platform.ascii) (SharedCache.new 0 0)
        ([.prepare [] stalePage ⟨0, 0⟩] ++ [.commit 0 []]) s ∧
      (s.cache.put Platform.ascii [] [] stalePage ⟨0, 0⟩).1 ≠ .panicked ∧
      (s.cache.put Platform.ascii [] [] foreverPage ⟨0, 0⟩).1 = .panicked := by
  obtain ⟨s, hrun, -⟩ := run_stale Platform.ascii 0
  -- the page that was stored has a short lifetime
  refine ⟨s, hrun, (put_completes_iff _ _ _ hrun _ _ _ _).mpr (Or.inr ⟨?_, ?_, ?_⟩), ?_⟩
  · intro age hage
    obtain rfl : 0 = age := Option.some.inj hage
    decide
  · intro hage
    exact absurd hage (by decide)
  · intro hage
    exact absurd hage (by decide)
  · by_contra h
    rcases (put_completes_iff _ _ _ hrun _ _ _ _).mp h with h' | h'
    · exact absurd h' (by decide)
    · exact absurd (h'.maxAge (2 ^ 64 - 1) (by decide)) (by decide)

/-- A put of a page that declares `max-age=18446744073709551615` panics. -/
theorem longest_max_age_panics :
    ¬ ∀ (p : Platform) (maxSize : Nat) (defaultTtl : Duration) (tr : List CacheAction)
      (s : SharedCache), Run (CacheAction.Step p) (SharedCache.new maxSize defaultTtl) tr s →
      ∀ (iter : List (Str × CacheEntry)) (key : Str) (response : Response) (clock : Clock),
        (s.cache.put p iter key response clock).1 ≠ .panicked := by
  intro h
  refine h Platform.ascii 0 0 [] _ (Run.nil _) [] [] foreverPage ⟨0, 0⟩ ?_
  rw [put_panicked, preparePut_panicked]
  exact ⟨by decide, fun hrange => absurd (hrange.maxAge (2 ^ 64 - 1) (by decide)) (by decide)⟩

end Sret
