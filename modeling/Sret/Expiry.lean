import Sret.Capacity
import Sret.Storability

namespace Sret

open Text KeyedMap Transition ResponseCache

/-!
# The lifetime that the origin states

What a response says about its own lifetime, against the lookups that its entry answers.

* `DeclaresMaxAge` — some member of some Cache-Control line is a max-age of this many seconds, in
  any mix of upper and lower case, read off the bytes as in `Carries`;
* `wallAt` — the wall clock, which advances with the monotonic clock;
* `Unserved` — in no state that a cache with this default lifetime reaches is a lookup at this
  time answered from the entry of the response;
* `OriginHonoured` — there is no answer once a max-age has passed or the Expires date has come,
  and none at all when the Expires header is no date;
* `DefaultUnused` — the default lifetime has no part in the entry of a response that states one;
* `WithinStated`, `originHonoured_iff` — a lifetime that keeps to all that the response states;
* `origin_honoured_iff` — the parser misses a max-age that is spelled otherwise or stands on another
  line, and the code falls back on the default lifetime for an Expires header that is no date or
  has passed, as if there were none.
-/

/-! ### The max-age in the header bytes -/

/-- What follows the first `=` of a list member. -/
def directiveArgument (member : List UInt8) : List UInt8 :=
  (((member.dropWhile isOptionalSpace).rdropWhile isOptionalSpace).dropWhile (· != 61)).drop 1

/-- The argument without the quotes around it; both forms mean the same. -/
def unquoted (argument : List UInt8) : List UInt8 :=
  match argument with
  | 34 :: rest => if rest.getLast? = some 34 then rest.dropLast else argument
  | _ => argument

/-- The seconds of a list member that is a max-age. -/
def memberMaxAge (member : List UInt8) : Option Nat :=
  if directiveName member = "max-age".toList.map (fun c => UInt8.ofNat c.toNat) then
    let digits := (unquoted (directiveArgument member)).map fun b => Char.ofNat b.toNat
    if digits ≠ [] ∧ digits.all Char.isDigit then some (digitsValue digits) else none
  else none

/-- Some member of some Cache-Control line is a max-age of this many seconds. -/
def DeclaresMaxAge (headers : HeaderMap) (age : Nat) : Prop :=
  ∃ line ∈ headers.getAll HeaderName.cacheControl, ∃ member ∈ line.bytes.splitOn 44,
    memberMaxAge member = some age

instance (headers : HeaderMap) (age : Nat) : Decidable (DeclaresMaxAge headers age) :=
  inferInstanceAs (Decidable (∃ line ∈ headers.getAll HeaderName.cacheControl,
    ∃ member ∈ line.bytes.splitOn 44, memberMaxAge member = some age))

/-! ### Stated lifetimes and lookups -/

/-- The wall clock when the monotonic clock has come to this reading. -/
def wallAt (clock : Clock) (now : Instant) : SystemTime := clock.system + (now - clock.instant)

/-- The value of an Expires header has expired: it is no date, or its date has come. -/
def ExpiredBy (p : Platform) (v : HeaderValue) (wall : SystemTime) : Prop :=
  ∀ date, v.toStr.bind p.parseHttpDate = some date → date ≤ wall

/-- No lookup at this time is answered from the entry that a put of the response made. -/
def Unserved (p : Platform) (defaultTtl : Duration) (response : Response) (clock : Clock)
    (now : Instant) : Prop :=
  ∀ entry, preparePut p defaultTtl response clock = .ready entry →
    ∀ (maxSize : Nat) (tr : List CacheAction) (s : SharedCache),
      Run (CacheAction.Step p) (SharedCache.new maxSize defaultTtl) tr s →
      ∀ (key : Str) (headers : HeaderMap), s.cache.entries.lookup key = some entry →
        (s.cache.get key headers now).1 = none

/-- The lookups keep to the lifetime that the response states. -/
structure OriginHonoured (p : Platform) (defaultTtl : Duration) (response : Response)
    (clock : Clock) : Prop where
  maxAge : ∀ age, DeclaresMaxAge response.headers age →
    ∀ now, clock.instant + Duration.fromSecs age ≤ now →
      Unserved p defaultTtl response clock now
  expires : (∀ age, ¬ DeclaresMaxAge response.headers age) →
    ∀ v, response.headers.get HeaderName.expires = some v →
      ∀ now, clock.instant ≤ now → ExpiredBy p v (wallAt clock now) →
        Unserved p defaultTtl response clock now

/-- The response has a max-age or an Expires header. -/
def StatesLifetime (headers : HeaderMap) : Prop :=
  (∃ age, DeclaresMaxAge headers age) ∨ headers.get HeaderName.expires ≠ none

/-- A response that states a lifetime gets the same entry whatever the default lifetime is. -/
def DefaultUnused (p : Platform) (defaultTtl : Duration) (response : Response) (clock : Clock) :
    Prop :=
  StatesLifetime response.headers →
    ∀ ttl, preparePut p ttl response clock = preparePut p defaultTtl response clock

/-- The lifetime is no longer than any max-age that the response declares.  Without one it comes to
    an end by the date of the Expires header, and at once if that is no date. -/
structure WithinStated (p : Platform) (headers : HeaderMap) (clock : Clock) (ttl : Duration) :
    Prop where
  maxAge : ∀ age, DeclaresMaxAge headers age → ttl ≤ Duration.fromSecs age
  expires : (∀ age, ¬ DeclaresMaxAge headers age) →
    ∀ v, headers.get HeaderName.expires = some v →
      ttl = 0 ∨ ∃ date, v.toStr.bind p.parseHttpDate = some date ∧ clock.system + ttl ≤ date

/-- The parser reads a max-age, or else an Expires date that has not passed, and keeps with it to
    all that the response states. -/
def ReadAsStated (p : Platform) (headers : HeaderMap) (clock : Clock) : Prop :=
  (∃ age, (CacheControl.fromHeaders headers).maxAge = some age ∧
      WithinStated p headers clock (Duration.fromSecs age)) ∨
    (CacheControl.fromHeaders headers).maxAge = none ∧ ∃ date, ExpiresOn p headers clock date ∧
      WithinStated p headers clock (date - clock.system)

/-- The parser reads no max-age, and there is no Expires date that has not passed. -/
structure ReadsNothing (p : Platform) (headers : HeaderMap) (clock : Clock) : Prop where
  maxAge : (CacheControl.fromHeaders headers).maxAge = none
  expires : ∀ date, ¬ ExpiresOn p headers clock date

/-! ### Which lookups an entry answers -/

/-- A put into an empty cache stores the entry that it makes. -/
theorem exists_run_put {p : Platform} {defaultTtl : Duration} {response : Response} {clock : Clock}
    {entry : CacheEntry} (h : preparePut p defaultTtl response clock = .ready entry)
    (maxSize : Nat) (key : Str) :
    ∃ s, Run (CacheAction.Step p) (SharedCache.new maxSize defaultTtl)
      ([.prepare key response clock] ++ [.commit 0 []]) s ∧
      s.cache.entries.lookup key = some entry := by
  have hempty : Enumerates [] (ResponseCache.new maxSize defaultTtl).entries := ⟨by simp, rfl⟩
  refine ⟨_, run_put_alone (s := SharedCache.new maxSize defaultTtl) rfl h hempty, ?_⟩
  exact ((insertEntry_insertion hempty key entry).lookup key).trans (if_pos rfl)

/-- **The entry is unserved from its expiry time on**, and is served before. -/
theorem unserved_iff {p : Platform} {defaultTtl : Duration} {response : Response} {clock : Clock}
    {entry : CacheEntry} (h : preparePut p defaultTtl response clock = .ready entry)
    (now : Instant) : Unserved p defaultTtl response clock now ↔ entry.expiresAt ≤ now := by
  constructor
  · intro hnone
    obtain ⟨s, hrun, hlookup⟩ := exists_run_put h 1 []
    by_contra hlt
    have hserves := (serves_silent entry now).mpr (Nat.lt_of_not_le hlt)
    have hhit := (get_fst s.cache [] HeaderMap.empty now _).mpr ⟨entry, hlookup, hserves, rfl⟩
    simp [hnone entry h 1 _ s hrun [] HeaderMap.empty hlookup] at hhit
  · intro hle entry' h' maxSize tr s _ key headers hlookup
    obtain rfl : entry = entry' := Preparation.ready.inj (h.symm.trans h')
    by_contra hhit
    obtain ⟨response', hhit⟩ := Option.ne_none_iff_exists'.mp hhit
    obtain ⟨found, hfound, hserves, -⟩ := (get_fst _ _ _ _ _).mp hhit
    obtain rfl : entry = found := Option.some.inj (hlookup.symm.trans hfound)
    exact absurd (serves_iff.mp hserves).1 (Nat.not_lt.mpr hle)

/-! ### The three sources -/

/-- The entry follows the lifetime that `calculate_ttl` gives. -/
theorem expiresAt_of_ttl {p : Platform} {defaultTtl ttl : Duration} {response : Response}
    {clock : Clock} {entry : CacheEntry}
    (h : preparePut p defaultTtl response clock = .ready entry)
    (httl : calculateTtl p defaultTtl response.headers clock = .ok ttl) :
    entry.expiresAt = clock.instant + ttl := by
  obtain ⟨-, ⟨ttl', httl', hexpires⟩, -⟩ := preparePut_ready h
  rw [hexpires, Except.ok.inj (httl'.symm.trans httl)]

/-- Default lifetimes that lead to the same lifetime lead to the same entry. -/
theorem preparePut_congr {p : Platform} {ttl ttl' : Duration} {response : Response} {clock : Clock}
    (h : calculateTtl p ttl response.headers clock = calculateTtl p ttl' response.headers clock) :
    preparePut p ttl response clock = preparePut p ttl' response clock := by
  rw [preparePut, preparePut, h]

/-- The lifetime of a date that has not passed is the time to that date. -/
theorem calculateTtl_of_date {p : Platform} {defaultTtl : Duration} {response : Response}
    {clock : Clock} {entry : CacheEntry}
    (h : preparePut p defaultTtl response clock = .ready entry)
    (hage : (CacheControl.fromHeaders response.headers).maxAge = none) {date : SystemTime}
    (hdate : ExpiresOn p response.headers clock date) (ttl : Duration) :
    calculateTtl p ttl response.headers clock = .ok (date - clock.system) := by
  have hfits := ((exists_ready_iff p defaultTtl response clock).mp ⟨entry, h⟩).2
  exact (calculateTtl_of_expires ttl hage hdate).1 (hfits.expires hage date hdate)

/-- **The lookups keep to what the response states** when the lifetime of the entry does. -/
theorem originHonoured_iff {p : Platform} {defaultTtl ttl : Duration} {response : Response}
    {clock : Clock} {entry : CacheEntry}
    (h : preparePut p defaultTtl response clock = .ready entry)
    (httl : calculateTtl p defaultTtl response.headers clock = .ok ttl) :
    OriginHonoured p defaultTtl response clock ↔
      WithinStated p response.headers clock ttl := by
  have hserved : ∀ now, Unserved p defaultTtl response clock now ↔ clock.instant + ttl ≤ now := by
    intro now
    rw [unserved_iff h, expiresAt_of_ttl h httl]
  constructor
  · intro hhonoured
    refine ⟨fun age hage => ?_, fun hnone v hv => ?_⟩
    · have hend := (hserved _).mp (hhonoured.maxAge age hage _ (Nat.le_refl _))
      exact Nat.le_of_add_le_add_left hend
    · cases hdate : v.toStr.bind p.parseHttpDate with
      | none =>
        -- the put itself comes too late
        have hend := (hserved _).mp (hhonoured.expires hnone v hv clock.instant (Nat.le_refl _)
          (by simp [ExpiredBy, hdate]))
        exact Or.inl (Nat.eq_zero_of_le_zero (Nat.le_of_add_le_add_left hend))
      | some date =>
        -- the time at which the date comes
        have hexpired : ExpiredBy p v (wallAt clock (clock.instant + (date - clock.system))) := by
          intro date' hdate'
          obtain rfl := Option.some.inj (hdate.symm.trans hdate')
          rw [wallAt, Nat.add_sub_cancel_left]
          exact Nat.sub_le_iff_le_add'.mp le_rfl
        have hend := (hserved _).mp
          (hhonoured.expires hnone v hv _ (Nat.le_add_right _ _) hexpired)
        rw [Nat.add_le_add_iff_left] at hend
        rcases Nat.eq_zero_or_pos ttl with hzero | hpos
        · exact Or.inl hzero
        · have hle : clock.system ≤ date := (Nat.lt_of_sub_pos (hpos.trans_le hend)).le
          exact Or.inr ⟨date, rfl, (Nat.le_sub_iff_add_le' hle).mp hend⟩
  · intro hwithin
    refine ⟨fun age hage now hnow => ?_, fun hnone v hv now hnow hexpired => ?_⟩
    · rw [hserved]
      exact (Nat.add_le_add_left (hwithin.maxAge age hage) _).trans hnow
    · rw [hserved]
      rcases hwithin.expires hnone v hv with rfl | ⟨date, hdate, hle⟩
      · exact hnow
      · have hcome := hle.trans (hexpired date hdate)
        -- both clocks have advanced by as much
        calc clock.instant + ttl
            ≤ clock.instant + (now - clock.instant) :=
              Nat.add_le_add_left (Nat.le_of_add_le_add_left hcome) _
          _ = now := Nat.add_sub_cancel' hnow

/-- A lifetime that does not depend on the default one makes entries that do not. -/
theorem defaultUnused_of_const {p : Platform} {defaultTtl ttl : Duration} {response : Response}
    {clock : Clock}
    (h : ∀ ttl', calculateTtl p ttl' response.headers clock = .ok ttl) :
    DefaultUnused p defaultTtl response clock :=
  fun _ ttl' => preparePut_congr ((h ttl').trans (h defaultTtl).symm)

/-- The default lifetime is used when the code reads nothing, though the response may state
    something. -/
theorem defaultUnused_of_readsNothing {p : Platform} {defaultTtl : Duration} {response : Response}
    {clock : Clock} {entry : CacheEntry}
    (h : preparePut p defaultTtl response clock = .ready entry)
    (hnothing : ReadsNothing p response.headers clock) :
    DefaultUnused p defaultTtl response clock ↔ ¬ StatesLifetime response.headers := by
  have httl := fun ttl => calculateTtl_of_default (p := p) ttl hnothing.maxAge hnothing.expires
  refine ⟨fun hunused hstates => ?_, fun hnot hstates => absurd hstates hnot⟩
  -- a longer default lifetime gives a later expiry time
  have hlonger := hunused hstates (defaultTtl + 1)
  have hexpires := expiresAt_of_ttl (hlonger.trans h) (httl (defaultTtl + 1))
  rw [expiresAt_of_ttl h (httl defaultTtl)] at hexpires
  exact absurd (Nat.add_left_cancel hexpires) (Nat.succ_ne_self defaultTtl).symm

/-- Where a response states nothing, every lifetime will do. -/
theorem withinStated_of_not_states {p : Platform} {headers : HeaderMap} {clock : Clock}
    (h : ¬ StatesLifetime headers) (ttl : Duration) : WithinStated p headers clock ttl where
  maxAge age hage := absurd (Or.inl ⟨age, hage⟩) h
  expires _ v hv := absurd (Or.inr (by simp [hv])) h

/-! ### When the stated lifetime is honoured -/

/-- **When the origin's lifetime is honoured.**  For every response that a put accepts, the lookups
    keep to the lifetime that it states, and the default lifetime has no part in it, exactly when
    it states none, or the code reads a lifetime off it that keeps to all it states.  The lookups
    alone keep to it also when the code reads nothing and the default lifetime happens to. -/
theorem origin_honoured_iff (p : Platform) (defaultTtl : Duration) (response : Response)
    (clock : Clock) (entry : CacheEntry)
    (h : preparePut p defaultTtl response clock = .ready entry) :
    (OriginHonoured p defaultTtl response clock ∧ DefaultUnused p defaultTtl response clock ↔
        ¬ StatesLifetime response.headers ∨ ReadAsStated p response.headers clock) ∧
      (OriginHonoured p defaultTtl response clock ↔
        ReadAsStated p response.headers clock ∨ ReadsNothing p response.headers clock ∧
          WithinStated p response.headers clock defaultTtl) := by
  -- where the code reads a lifetime, all depends on that one
  have hread : ∀ ttl, (∀ ttl', calculateTtl p ttl' response.headers clock = .ok ttl) →
      ¬ ReadsNothing p response.headers clock →
      (ReadAsStated p response.headers clock ↔ WithinStated p response.headers clock ttl) →
      (OriginHonoured p defaultTtl response clock ∧ DefaultUnused p defaultTtl response clock ↔
          ¬ StatesLifetime response.headers ∨ ReadAsStated p response.headers clock) ∧
        (OriginHonoured p defaultTtl response clock ↔
          ReadAsStated p response.headers clock ∨ ReadsNothing p response.headers clock ∧
            WithinStated p response.headers clock defaultTtl) := by
    intro ttl httl hnothing hstated
    have hhonoured := (originHonoured_iff h (httl defaultTtl)).trans hstated.symm
    have hunused : DefaultUnused p defaultTtl response clock := defaultUnused_of_const httl
    refine ⟨?_, by simp [hhonoured, hnothing]⟩
    rw [and_iff_left hunused, hhonoured]
    refine ⟨Or.inr, fun hor => hor.elim (fun hnot => ?_) id⟩
    exact hstated.mpr (withinStated_of_not_states hnot ttl)
  cases hage : (CacheControl.fromHeaders response.headers).maxAge with
  | some age =>
    refine hread _ (fun ttl => calculateTtl_of_maxAge p ttl clock hage) ?_ ?_
    · intro hnothing
      simp [hnothing.maxAge] at hage
    · simp [ReadAsStated, hage]
  | none =>
    by_cases hdate : ∃ date, ExpiresOn p response.headers clock date
    · obtain ⟨date, hdate⟩ := hdate
      refine hread _ (calculateTtl_of_date h hage hdate) (fun hnothing => hnothing.2 date hdate) ?_
      constructor
      · rintro (⟨age, hage', -⟩ | ⟨-, date', hdate', hwithin⟩)
        · simp [hage] at hage'
        · rwa [hdate'.unique hdate] at hwithin
      · exact fun hwithin => Or.inr ⟨hage, date, hdate, hwithin⟩
    · -- the default lifetime is taken
      rw [not_exists] at hdate
      have hnothing : ReadsNothing p response.headers clock := ⟨hage, hdate⟩
      have hread : ¬ ReadAsStated p response.headers clock := by
        rintro (⟨age, hage', -⟩ | ⟨-, date, hdate', -⟩)
        · simp [hage] at hage'
        · exact hdate date hdate'
      have hhonoured := originHonoured_iff h (calculateTtl_of_default defaultTtl hage hdate)
      refine ⟨?_, by simp [hhonoured, hread, hnothing]⟩
      rw [defaultUnused_of_readsNothing h hnothing, hhonoured, or_iff_left hread]
      exact and_iff_right_of_imp fun hnot => withinStated_of_not_states hnot defaultTtl

/-- A page with the given Expires header and no Cache-Control. -/
def expiringPage (expires : Str) (h : expires.all isVisibleChar = true) : Response where
  status := 200
  headers := ⟨[(HeaderName.expires, HeaderValue.ofStr expires h)]⟩
  body := []

/-- A platform that knows one date, at the second 800 of the wall clock. -/
def Platform.oneDate : Platform :=
  { Platform.ascii with
    parseHttpDate := fun s =>
      if s = "Thu, 01 Jan 1970 00:13:20 GMT".toList then some (Duration.fromSecs 800) else none }

/-- The page that expires at the second 800. -/
def datedPage : Response := expiringPage "Thu, 01 Jan 1970 00:13:20 GMT".toList (by decide)

/-- A page that may be kept for ten seconds, in a spelling that the parser does not know. -/
def capitalPage : Response where
  status := 200
  headers := ⟨[(HeaderName.cacheControl, HeaderValue.ofStr "Max-Age=10".toList (by decide))]⟩
  body := []

/-- The entry of a page that lives for some seconds from time zero on. -/
def pageLiving (response : Response) (secs : Nat) : CacheEntry where
  responseBody := response.body
  status := response.status
  headers := response.headers
  expiresAt := Duration.fromSecs secs
  createdAt := 0
  etag := none
  lastModified := none
  lastAccessed := 0

/-- A page without Cache-Control declares no max-age. -/
theorem not_declaresMaxAge_expiringPage (expires : Str) (h : expires.all isVisibleChar = true)
    (age : Nat) : ¬ DeclaresMaxAge (expiringPage expires h).headers age := by
  have hne : HeaderName.expires ≠ HeaderName.cacheControl := by decide
  simp [DeclaresMaxAge, expiringPage, HeaderMap.getAll, hne]

/-- The date is read, and lies ten seconds ahead. -/
theorem readAsStated_datedPage :
    ReadAsStated Platform.oneDate datedPage.headers ⟨0, Duration.fromSecs 790⟩ := by
  refine Or.inr ⟨by decide, Duration.fromSecs 800, ⟨_, rfl, by decide, by decide⟩, ?_, ?_⟩
  · exact fun age hage => absurd hage (not_declaresMaxAge_expiringPage _ _ age)
  · intro _ v hv
    obtain rfl := Option.some.inj (show datedPage.headers.get HeaderName.expires = some _ from hv)
    exact Or.inr ⟨Duration.fromSecs 800, by decide, by decide⟩

/-- A page whose date lies ahead is honoured, and one with a max-age in capitals is not. -/
theorem origin_honoured_iff_dated :
    OriginHonoured Platform.oneDate (Duration.fromSecs 60) datedPage
        ⟨0, Duration.fromSecs 790⟩ ∧
      ¬ OriginHonoured Platform.oneDate (Duration.fromSecs 60) capitalPage ⟨0, 0⟩ := by
  constructor
  · exact (origin_honoured_iff _ _ _ _ (pageLiving datedPage 10) (by decide)).2.mpr
      (Or.inl readAsStated_datedPage)
  · intro h
    have hread := (origin_honoured_iff _ _ _ _ (pageLiving capitalPage 60) (by decide)).2.mp h
    rcases hread with (⟨age, hage, -⟩ | ⟨-, date, ⟨s, hs, -⟩, -⟩) | ⟨-, hwithin⟩
    · exact absurd hage (by simp [show (CacheControl.fromHeaders capitalPage.headers).maxAge = none
        by decide])
    · simp [show capitalPage.headers.get HeaderName.expires = none by decide] at hs
    · -- sixty seconds are more than the ten that the page declares
      exact absurd (hwithin.maxAge 10 (by decide +kernel)) (by decide)

/-- A page that has expired, as an origin says it. -/
def expiredPage : Response := expiringPage "0".toList (by decide)

/-- A page with `Expires: 0` is served for the default lifetime. -/
theorem expires_zero_served :
    ¬ ∀ (p : Platform) (defaultTtl : Duration) (response : Response) (clock : Clock)
      (entry : CacheEntry), preparePut p defaultTtl response clock = .ready entry →
      OriginHonoured p defaultTtl response clock := by
  intro h
  have hready : preparePut Platform.oneDate (Duration.fromSecs 60) expiredPage ⟨0, 0⟩ =
      .ready (pageLiving expiredPage 60) := by decide
  have httl : calculateTtl Platform.oneDate (Duration.fromSecs 60) expiredPage.headers ⟨0, 0⟩ =
      .ok (Duration.fromSecs 60) := by decide
  have hwithin := (originHonoured_iff hready httl).mp (h _ _ _ _ _ hready)
  have hnone : Platform.oneDate.parseHttpDate "0".toList = none := by decide
  rcases hwithin.expires (not_declaresMaxAge_expiringPage _ _)
    (HeaderValue.ofStr "0".toList (by decide)) rfl with hzero | ⟨date, hdate, -⟩
  · exact absurd hzero (by decide)
  · rw [HeaderValue.toStr_ofStr, Option.bind_some, hnone] at hdate
    simp at hdate

end Sret
