import Sret.Cache

namespace Sret

open Text KeyedMap ResponseCache

/-!
# Where the lifetime of an entry comes from

`calculate_ttl` has three sources, and `put` adds what it gives to the clock reading; the sum of an
`Instant` and a `Duration` panics when it is no `Instant`.

* `ExpiresOn` — the date of the Expires header, when it can be read and has not passed;
* `LifetimeInRange` — the three sources of a lifetime, each with the sum that it leads to;
* `calculateTtl_of_maxAge`, `calculateTtl_of_expires`, `calculateTtl_of_default` — which source is
  taken;
* `exists_ready_iff` — the first part of `put` makes an entry exactly when the response is cacheable
  and the sum for this source is in range.
-/

/-! ### The three sources of a lifetime -/

/-- The Expires header names this date, which has not passed. -/
def ExpiresOn (p : Platform) (headers : HeaderMap) (clock : Clock) (date : SystemTime) : Prop :=
  ∃ s, (headers.get HeaderName.expires).bind HeaderValue.toStr = some s ∧
    p.parseHttpDate s = some date ∧ clock.system ≤ date

/-- Every sum that `put` forms for a response with these headers is an `Instant`. -/
structure LifetimeInRange (p : Platform) (defaultTtl : Duration) (headers : HeaderMap)
    (clock : Clock) : Prop where
  maxAge : ∀ age, (CacheControl.fromHeaders headers).maxAge = some age →
    Duration.asSecs clock.instant + age < 2 ^ 63
  expires : (CacheControl.fromHeaders headers).maxAge = none →
    ∀ date, ExpiresOn p headers clock date →
      Instant.InRange (clock.instant + (date - clock.system))
  default : (CacheControl.fromHeaders headers).maxAge = none →
    (∀ date, ¬ ExpiresOn p headers clock date) → Instant.InRange (clock.instant + defaultTtl)

/-- The header names at most one date. -/
theorem ExpiresOn.unique {p : Platform} {headers : HeaderMap} {clock : Clock}
    {date date' : SystemTime} (h : ExpiresOn p headers clock date)
    (h' : ExpiresOn p headers clock date') : date = date' := by
  obtain ⟨s, hs, hdate, -⟩ := h
  obtain ⟨s', hs', hdate', -⟩ := h'
  -- both dates are read from the same line
  obtain rfl : s = s' := Option.some.inj (hs.symm.trans hs')
  exact Option.some.inj (hdate.symm.trans hdate')

/-! ### What calculate_ttl takes -/

/-- A date that is not past gives the moment as far ahead as the date is. -/
theorem parseExpiresHeader_of_inRange {p : Platform} {s : Str} {clock : Clock} {date : SystemTime}
    (hdate : p.parseHttpDate s = some date) (hle : clock.system ≤ date)
    (h : Instant.InRange (clock.instant + (date - clock.system))) :
    parseExpiresHeader p s clock = .ok (some (clock.instant + (date - clock.system))) := by
  simp only [parseExpiresHeader, hdate, if_pos hle, Instant.checkedAdd_of_inRange h]

/-- If that moment is out of range, the sum panics. -/
theorem parseExpiresHeader_of_not_inRange {p : Platform} {s : Str} {clock : Clock}
    {date : SystemTime} (hdate : p.parseHttpDate s = some date) (hle : clock.system ≤ date)
    (h : ¬ Instant.InRange (clock.instant + (date - clock.system))) :
    parseExpiresHeader p s clock = .error .instantOverflow := by
  simp only [parseExpiresHeader, hdate, if_pos hle, Instant.checkedAdd_eq_none.mpr h]

/-- No date, or a past one, gives no moment. -/
theorem parseExpiresHeader_of_none {p : Platform} {s : Str} {clock : Clock}
    (h : ∀ date, p.parseHttpDate s = some date → ¬ clock.system ≤ date) :
    parseExpiresHeader p s clock = .ok none := by
  unfold parseExpiresHeader
  split
  · rfl
  · rename_i date hdate
    rw [if_neg (h date hdate)]

/-- A max-age is taken before anything else. -/
theorem calculateTtl_of_maxAge (p : Platform) (defaultTtl : Duration) {headers : HeaderMap}
    (clock : Clock) {age : Nat} (hage : (CacheControl.fromHeaders headers).maxAge = some age) :
    calculateTtl p defaultTtl headers clock = .ok (Duration.fromSecs age) := by
  simp only [calculateTtl, hage]

/-- Then comes an Expires header, whose date must itself be an `Instant`. -/
theorem calculateTtl_of_expires {p : Platform} (defaultTtl : Duration) {headers : HeaderMap}
    {clock : Clock} (hage : (CacheControl.fromHeaders headers).maxAge = none) {date : SystemTime}
    (hdate : ExpiresOn p headers clock date) :
    (Instant.InRange (clock.instant + (date - clock.system)) →
        calculateTtl p defaultTtl headers clock = .ok (date - clock.system)) ∧
      (¬ Instant.InRange (clock.instant + (date - clock.system)) →
        calculateTtl p defaultTtl headers clock = .error .instantOverflow) := by
  obtain ⟨s, hs, hparse, hle⟩ := hdate
  constructor
  · intro h
    simp only [calculateTtl, hage, hs, parseExpiresHeader_of_inRange hparse hle h]
    -- the clock is added and taken off again
    exact congrArg Except.ok (Nat.add_sub_cancel_left _ _)
  · intro h
    simp only [calculateTtl, hage, hs, parseExpiresHeader_of_not_inRange hparse hle h]

/-- And the default lifetime is taken when there is neither. -/
theorem calculateTtl_of_default {p : Platform} (defaultTtl : Duration) {headers : HeaderMap}
    {clock : Clock} (hage : (CacheControl.fromHeaders headers).maxAge = none)
    (hdate : ∀ date, ¬ ExpiresOn p headers clock date) :
    calculateTtl p defaultTtl headers clock = .ok defaultTtl := by
  simp only [calculateTtl, hage]
  cases hs : (headers.get HeaderName.expires).bind HeaderValue.toStr with
  | none => rfl
  | some s =>
    have hnone : parseExpiresHeader p s clock = .ok none :=
      parseExpiresHeader_of_none fun date hparse hle => hdate date ⟨s, hs, hparse, hle⟩
    simp only [hnone]

/-! ### When an entry is made -/

/-- For a lifetime that is known there is one sum. -/
theorem exists_ready_of_ttl {p : Platform} {defaultTtl ttl : Duration} {response : Response}
    {clock : Clock} (httl : calculateTtl p defaultTtl response.headers clock = .ok ttl) :
    (∃ entry, preparePut p defaultTtl response clock = .ready entry) ↔
      isCacheable response.status response.headers = true ∧
        Instant.InRange (clock.instant + ttl) := by
  unfold preparePut
  cases isCacheable response.status response.headers with
  | false => simp
  | true =>
    -- the end of the lifetime is the one sum that can fail
    by_cases h : Instant.InRange (clock.instant + ttl)
    · simp [httl, Instant.checkedAdd_of_inRange h, h]
    · simp [httl, Instant.checkedAdd_eq_none.mpr h, h]

/-- A date that is out of range panics before its lifetime is known. -/
theorem not_ready_of_error {p : Platform} {defaultTtl : Duration} {response : Response}
    {clock : Clock} {panic : Panic}
    (h : calculateTtl p defaultTtl response.headers clock = .error panic) :
    ¬ ∃ entry, preparePut p defaultTtl response clock = .ready entry := by
  unfold preparePut
  cases isCacheable response.status response.headers with
  | false => simp
  | true => simp [h]

/-- **When `put` makes an entry.** -/
theorem exists_ready_iff (p : Platform) (defaultTtl : Duration) (response : Response)
    (clock : Clock) :
    (∃ entry, preparePut p defaultTtl response clock = .ready entry) ↔
      isCacheable response.status response.headers = true ∧
        LifetimeInRange p defaultTtl response.headers clock := by
  cases hage : (CacheControl.fromHeaders response.headers).maxAge with
  | some age =>
    rw [exists_ready_of_ttl (calculateTtl_of_maxAge p defaultTtl clock hage),
      Instant.inRange_add_fromSecs]
    refine and_congr_right fun _ => ⟨fun h => ⟨?_, by simp [hage], by simp [hage]⟩,
      fun h => h.maxAge age hage⟩
    intro age' hage'
    rwa [Option.some.inj (hage'.symm.trans hage)]
  | none =>
    by_cases hdate : ∃ date, ExpiresOn p response.headers clock date
    · obtain ⟨date, hdate⟩ := hdate
      obtain ⟨hok, herror⟩ := calculateTtl_of_expires defaultTtl hage hdate
      by_cases hsum : Instant.InRange (clock.instant + (date - clock.system))
      · rw [exists_ready_of_ttl (hok hsum)]
        refine and_congr_right fun _ => iff_of_true hsum
          ⟨by simp [hage], ?_, fun _ hnone => (hnone date hdate).elim⟩
        intro _ date' hdate'
        rwa [hdate'.unique hdate]
      · exact iff_of_false (not_ready_of_error (herror hsum))
          fun h => hsum (h.2.expires hage date hdate)
    · rw [not_exists] at hdate
      rw [exists_ready_of_ttl (calculateTtl_of_default defaultTtl hage hdate)]
      exact and_congr_right fun _ =>
        ⟨fun h => ⟨by simp [hage], fun _ date hd => (hdate date hd).elim, fun _ _ => h⟩,
          fun h => h.default hage hdate⟩

end Sret
