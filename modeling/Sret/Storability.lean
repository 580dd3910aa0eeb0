import Sret.CacheRuns
import Sret.Ttl

namespace Sret

open Text KeyedMap Transition ResponseCache

/-!
# Which responses are never stored

The directives that forbid a cache to store a response, read off the bytes of its header lines,
against what the parser of `CacheControl.fromHeaders` makes of them.

* `StorageForbidden` — some member of some Cache-Control line is named no-store or no-cache, in
  any mix of upper and lower case;
* `NeverStored` — whatever the cache holds, a put of the response leaves the entries as they
  were, and everything that can happen later could have happened without it;
* `neverStored_iff` — that is the case exactly when the put is refused or panics;
* `put_honours_directives_iff` — so a forbidding response is kept out exactly when its status is
  not cacheable anyway, when the parser sees a directive in the one spelling it knows on the one
  line it reads, or when the lifetime is out of range.
-/

/-! ### The directives in the header bytes -/

/-- Optional whitespace: space and horizontal tab. -/
def isOptionalSpace (b : UInt8) : Bool := b == 32 || b == 9

/-- An ASCII letter in lower case, another byte as it is. -/
def lowerByte (b : UInt8) : UInt8 := if 65 ≤ b.toNat ∧ b.toNat ≤ 90 then b + 32 else b

/-- The name of a list member: without the whitespace around it and the argument after it, in
    lower case. -/
def directiveName (member : List UInt8) : List UInt8 :=
  ((((member.dropWhile isOptionalSpace).rdropWhile isOptionalSpace).takeWhile (· != 61))).map
    lowerByte

/-- Some member of some Cache-Control line has the name. -/
def Carries (headers : HeaderMap) (name : Str) : Prop :=
  ∃ line ∈ headers.getAll HeaderName.cacheControl, ∃ member ∈ line.bytes.splitOn 44,
    directiveName member = name.map (fun c => UInt8.ofNat c.toNat)

/-- The response says no-store or no-cache. -/
def StorageForbidden (headers : HeaderMap) : Prop :=
  Carries headers "no-store".toList ∨ Carries headers "no-cache".toList

/-! ### What a put leaves behind -/

/-- No put of the response, into any cache with this default lifetime and under any key, changes
    the entries or what can be observed of the cache later. -/
def NeverStored (p : Platform) (defaultTtl : Duration) (response : Response) (clock : Clock) :
    Prop :=
  ∀ (c : ResponseCache) (iter : List (Str × CacheEntry)) (key : Str), c.defaultTtl = defaultTtl →
    Enumerates iter c.entries →
    (c.put p iter key response clock).2.entries = c.entries ∧
      ∀ later d, Run (CacheEvent.Step p) (c.put p iter key response clock).2 later d →
        ∃ d', Run (CacheEvent.Step p) c later d'

theorem isCacheable_iff (status : StatusCode) (headers : HeaderMap) :
    isCacheable status headers = true ↔ status ∈ cacheableStatuses ∧
      ¬ CacheControl.Sees headers "no-cache".toList ∧
      ¬ CacheControl.Sees headers "no-store".toList := by
  rw [← CacheControl.noCache_fromHeaders, ← CacheControl.noStore_fromHeaders, isCacheable]
  cases (CacheControl.fromHeaders headers).noCache with
  | true => simp
  | false =>
    cases (CacheControl.fromHeaders headers).noStore with
    | true => simp
    | false => simp

/-- A response that gets an entry shows up in an empty cache. -/
theorem put_into_empty {p : Platform} {defaultTtl : Duration} {response : Response}
    {clock : Clock} {entry : CacheEntry}
    (h : preparePut p defaultTtl response clock = .ready entry) (key : Str) :
    ((ResponseCache.new 1 defaultTtl).put p [] key response clock).2.entries.lookup key
      = some entry := by
  simp only [put, show (ResponseCache.new 1 defaultTtl).defaultTtl = defaultTtl from rfl, h]
  have hins := insertEntry_insertion
    (show Enumerates [] (ResponseCache.new 1 defaultTtl).entries from ⟨by simp, rfl⟩) key entry
  rw [hins.lookup, if_pos rfl]

/-- **What keeps a response out of the cache.** -/
theorem neverStored_iff {p : Platform} {defaultTtl : Duration} {response : Response}
    {clock : Clock} :
    NeverStored p defaultTtl response clock ↔
      isCacheable response.status response.headers = false ∨
        ¬ LifetimeInRange p defaultTtl response.headers clock := by
  have hready := exists_ready_iff p defaultTtl response clock
  constructor
  · intro h
    by_contra hcond
    -- otherwise an empty cache with room for one entry stores it
    rw [not_or, Bool.not_eq_false, not_not] at hcond
    obtain ⟨entry, hentry⟩ := hready.mpr hcond
    have hsame := (h (ResponseCache.new 1 defaultTtl) [] [] rfl ⟨by simp, rfl⟩).1
    have hstored := put_into_empty hentry []
    rw [hsame] at hstored
    simp [ResponseCache.new] at hstored
  · intro hcond c iter key httl hiter
    -- a put that makes no entry leaves the cache as it was, so all that follows is the same
    have hnone : ¬ ∃ entry, preparePut p c.defaultTtl response clock = .ready entry := by
      rw [httl, hready]
      rintro ⟨hcacheable, hrange⟩
      rcases hcond with h | h
      · simp [hcacheable] at h
      · exact h hrange
    have hsame : (c.put p iter key response clock).2 = c := by
      rcases put_cases hiter (Prod.mk.eta (p := c.put p iter key response clock)).symm with
        ⟨-, -, h⟩ | ⟨-, -, h⟩ | ⟨entry, -, -, h, -⟩
      · exact h
      · exact h
      · exact absurd ⟨entry, h⟩ hnone
    rw [hsame]
    exact ⟨rfl, fun later d hd => ⟨d, hd⟩⟩

/-- **When a forbidding response is kept out.**  Its status is none of those that `is_cacheable`
    lists, or the first Cache-Control line is visible ASCII and has a member spelled exactly
    `no-cache` or `no-store`, or its expiry time is out of the range of an `Instant`. -/
theorem put_honours_directives_iff (p : Platform) (defaultTtl : Duration) (response : Response)
    (clock : Clock) :
    (StorageForbidden response.headers → NeverStored p defaultTtl response clock) ↔
      (StorageForbidden response.headers → response.status ∉ cacheableStatuses ∨
        CacheControl.Sees response.headers "no-cache".toList ∨
        CacheControl.Sees response.headers "no-store".toList ∨
        ¬ LifetimeInRange p defaultTtl response.headers clock) := by
  refine imp_congr_right fun _ => ?_
  rw [neverStored_iff, ← Bool.not_eq_true, isCacheable_iff, not_and_or, not_and_or, not_not,
    not_not, or_assoc, or_assoc]

/-- A page that must not be stored, in a spelling that the parser does not know. -/
def privatePage : Response where
  status := 200
  headers := ⟨[(HeaderName.cacheControl, HeaderValue.ofStr "No-Store".toList (by decide))]⟩
  body := [115, 101, 99, 114, 101, 116]

/-- The page is stored all the same. -/
theorem private_page_stored :
    ¬ ∀ (p : Platform) (c : ResponseCache) (iter : List (Str × CacheEntry)) (key : Str)
      (response : Response) (clock : Clock), Enumerates iter c.entries →
      StorageForbidden response.headers →
      (c.put p iter key response clock).2.entries = c.entries := by
  intro h
  have hforbidden : StorageForbidden privatePage.headers :=
    Or.inl ⟨HeaderValue.ofStr "No-Store".toList (by decide), by decide,
      "No-Store".toList.map (fun c => UInt8.ofNat c.toNat), by decide, by decide⟩
  have hsame := h Platform.ascii (ResponseCache.new 10 0) [] "GET:/".toList privatePage ⟨5, 0⟩
    ⟨by simp, rfl⟩ hforbidden
  have hstored : ((ResponseCache.new 10 0).put Platform.ascii [] "GET:/".toList privatePage
      ⟨5, 0⟩).2.entries.lookup "GET:/".toList ≠ none := by decide
  rw [hsame] at hstored
  simp [ResponseCache.new] at hstored

end Sret
