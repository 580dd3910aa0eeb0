import Sret.CacheRuns

namespace Sret

open Text KeyedMap Transition ResponseCache

/-!
# What an eviction removes

Eviction against the history of the cache: a use of a key is the put that stored it or a lookup
that returned it.

* `lastUse`, `lastStore`, `lastHit` — when the history used, stored and last hit a key;
* `lastStore_of_replay` — the access time of an entry is the time of the put that stored it: a
  hit does not renew it;
* `storedFirst_of_eviction` — so the evicted entry is the one that was stored first;
* `evicts_least_recently_used_iff` — it is also the one that was used least recently exactly
  when each other entry was used after the last hit on the entry stored first.
-/

namespace CacheEvent

/-- The time of the event, if it stores the key. -/
def storeTime (k : Str) : CacheEvent → Option Instant
  | .put key _ clock (.stored _ _) => if key = k then some clock.instant else none
  | _ => none

/-- The time of the event, if it is a hit on the key. -/
def hitTime (k : Str) : CacheEvent → Option Instant
  | .get key _ now (some _) => if key = k then some now else none
  | _ => none

/-- The time of the event, if it uses the key. -/
def useTime (k : Str) (e : CacheEvent) : Option Instant := (e.storeTime k).or (e.hitTime k)

end CacheEvent

/-- The time of the last store of the key. -/
def lastStore (tr : List CacheEvent) (k : Str) : Option Instant :=
  History.latest (CacheEvent.storeTime k) tr

/-- The time of the last hit on the key since it was last stored. -/
def lastHit (tr : List CacheEvent) (k : Str) : Option Instant :=
  tr.foldl (fun last e => if (e.storeTime k).isSome then none else (e.hitTime k).or last) none

/-- The time of the last use of the key. -/
def lastUse (tr : List CacheEvent) (k : Str) : Option Instant :=
  History.latest (CacheEvent.useTime k) tr

/-- The clock readings of the calls strictly increase. -/
def StrictClock (tr : List CacheEvent) : Prop := (tr.map CacheEvent.time).Pairwise (· < ·)

/-- The keys that the history leaves in the cache. -/
def Cached (tr : List CacheEvent) (k : Str) : Prop :=
  ∃ entry, History.replay CacheEvent.effect tr k = some entry

/-- In the trace, the put that follows the history `pre` evicts the key. -/
def EvictsAt (tr pre : List CacheEvent) (victim : Str) : Prop :=
  ∃ key response clock entry post,
    tr = pre ++ .put key response clock (.stored entry (some victim)) :: post

/-- Every other entry of the cache has been used after the last use of the key. -/
def LeastRecentlyUsed (tr : List CacheEvent) (victim : Str) : Prop :=
  ∀ k, Cached tr k → k ≠ victim →
    ∃ t t', lastUse tr victim = some t ∧ lastUse tr k = some t' ∧ t < t'

/-- No entry of the cache was stored before the key was. -/
def StoredFirst (tr : List CacheEvent) (k : Str) : Prop :=
  Cached tr k ∧ ∀ k' t t', Cached tr k' → lastStore tr k = some t → lastStore tr k' = some t' →
    t ≤ t'

/-- A hit on the entry stored first was followed by a use of each other entry. -/
def FirstHitOvertaken (tr : List CacheEvent) : Prop :=
  ∀ k t, StoredFirst tr k → lastHit tr k = some t →
    ∀ k', Cached tr k' → k' ≠ k → ∃ t', lastUse tr k' = some t' ∧ t < t'

/-! ### The times of a history -/

/-- The last event counts, if it stores the key. -/
theorem lastStore_snoc (tr : List CacheEvent) (e : CacheEvent) (k : Str) :
    lastStore (tr ++ [e]) k = (e.storeTime k).or (lastStore tr k) :=
  History.latest_snoc _ _ _

/-- A new entry for the key has not been hit yet. -/
theorem lastHit_snoc (tr : List CacheEvent) (e : CacheEvent) (k : Str) :
    lastHit (tr ++ [e]) k =
      if (e.storeTime k).isSome then none else (e.hitTime k).or (lastHit tr k) := by
  simp [lastHit]

/-- The last event counts, if it uses the key. -/
theorem lastUse_snoc (tr : List CacheEvent) (e : CacheEvent) (k : Str) :
    lastUse (tr ++ [e]) k = (e.useTime k).or (lastUse tr k) :=
  History.latest_snoc _ _ _

/-- The last use is the last hit since the last store, or else that store. -/
theorem lastUse_eq (tr : List CacheEvent) (k : Str) :
    lastUse tr k = (lastHit tr k).or (lastStore tr k) := by
  induction tr using List.reverseRecOn with
  | nil => rfl
  | append_singleton tr e ih =>
    rw [lastUse_snoc, lastHit_snoc, lastStore_snoc, ih, CacheEvent.useTime]
    cases e.storeTime k with
    | some t => simp
    | none => cases e.hitTime k <;> simp

/-- Only a put that stores its key has a store time. -/
theorem exists_of_storeTime {e : CacheEvent} {k : Str} {t : Instant}
    (h : e.storeTime k = some t) :
    ∃ response clock entry victim, e = .put k response clock (.stored entry victim) := by
  unfold CacheEvent.storeTime at h
  split at h
  · split at h
    · rename_i hk
      exact ⟨_, _, _, _, by rw [hk]⟩
    · simp at h
  · simp at h

/-- A key is stored at the time of the event. -/
theorem time_of_storeTime {e : CacheEvent} {k : Str} {t : Instant} (h : e.storeTime k = some t) :
    t = e.time := by
  obtain ⟨_, clock, _, _, rfl⟩ := exists_of_storeTime h
  have hclock : clock.instant = t := by simpa [CacheEvent.storeTime] using h
  exact hclock.symm

/-- And hit at the time of the event. -/
theorem time_of_hitTime {e : CacheEvent} {k : Str} {t : Instant} (h : e.hitTime k = some t) :
    t = e.time := by
  unfold CacheEvent.hitTime at h
  split at h
  · split at h
    · exact (Option.some.inj h).symm
    · simp at h
  · simp at h

/-- The time of the last store is the time of one of the calls. -/
theorem exists_of_lastStore {tr : List CacheEvent} {k : Str} {t : Instant}
    (h : lastStore tr k = some t) : ∃ e ∈ tr, t = e.time := by
  obtain ⟨e, hmem, he⟩ := History.exists_of_latest h
  exact ⟨e, hmem, time_of_storeTime he⟩

/-- The clock of a longer history is past everything before. -/
theorem StrictClock.of_snoc {tr : List CacheEvent} {e : CacheEvent}
    (h : StrictClock (tr ++ [e])) : StrictClock tr ∧ ∀ e' ∈ tr, e'.time < e.time := by
  simp only [StrictClock, List.map_append, List.pairwise_append, List.map_cons, List.map_nil,
    List.mem_map, List.mem_singleton] at h ⊢
  exact ⟨h.1, fun e' he' => h.2.2 _ ⟨e', he', rfl⟩ _ rfl⟩

/-- A hit since the last store is later than that store. -/
theorem lastStore_lt_lastHit {tr : List CacheEvent} (h : StrictClock tr) {k : Str}
    {th ts : Instant} (hh : lastHit tr k = some th) (hs : lastStore tr k = some ts) : ts < th := by
  induction tr using List.reverseRecOn with
  | nil => simp [lastHit] at hh
  | append_singleton tr e ih =>
    obtain ⟨htr, hlt⟩ := h.of_snoc
    rw [lastHit_snoc] at hh
    rw [lastStore_snoc] at hs
    cases he : e.storeTime k with
    | some t => simp [he] at hh
    | none =>
      -- the store lies before the last call, which may be the hit
      rw [he, Option.none_or] at hs
      simp only [he, Option.isSome_none, Bool.false_eq_true, if_false] at hh
      cases hhit : e.hitTime k with
      | some t =>
        obtain rfl : t = th := by simpa [hhit] using hh
        obtain ⟨e', he', rfl⟩ := exists_of_lastStore hs
        rw [time_of_hitTime hhit]
        exact hlt e' he'
      | none => exact ih htr (by simpa [hhit] using hh) hs

/-- With a strict clock no two keys were last stored at the same time. -/
theorem lastStore_inj {tr : List CacheEvent} (h : StrictClock tr) {k k' : Str} {t : Instant}
    (hk : lastStore tr k = some t) (hk' : lastStore tr k' = some t) : k = k' := by
  induction tr using List.reverseRecOn with
  | nil => simp [lastStore] at hk
  | append_singleton tr e ih =>
    obtain ⟨htr, hlt⟩ := h.of_snoc
    rw [lastStore_snoc] at hk hk'
    -- a store by the last call is later than every store before it
    have hlater : ∀ {x y : Str}, e.storeTime x = some t →
        lastStore tr y = some t → False := by
      intro x y hx hold
      obtain ⟨e', he', ht'⟩ := exists_of_lastStore hold
      have := hlt e' he'
      rw [← ht', ← time_of_storeTime hx] at this
      exact lt_irrefl _ this
    cases he : e.storeTime k with
    | some t₁ =>
      obtain rfl : t₁ = t := by simpa [he] using hk
      cases he' : e.storeTime k' with
      | some t₂ =>
        obtain ⟨_, clock, _, _, rfl⟩ := exists_of_storeTime he
        have hkeys : k = k' ∧ clock.instant = t₂ := by simpa [CacheEvent.storeTime] using he'
        exact hkeys.1
      | none => exact (hlater he (by simpa [he'] using hk')).elim
    | none =>
      cases he' : e.storeTime k' with
      | some t₂ =>
        obtain rfl : t₂ = t := by simpa [he'] using hk'
        exact (hlater he' (by simpa [he] using hk)).elim
      | none => exact ih htr (by simpa [he] using hk) (by simpa [he'] using hk')

/-! ### Access times -/

/-- **The access time of an entry is the time of the put that stored it.** -/
theorem lastStore_of_replay {p : Platform} {maxSize : Nat} {defaultTtl : Duration}
    {tr : List CacheEvent} {c : ResponseCache}
    (hrun : Run (CacheEvent.Step p) (ResponseCache.new maxSize defaultTtl) tr c) {k : Str}
    {entry : CacheEntry} (h : History.replay CacheEvent.effect tr k = some entry) :
    lastStore tr k = some entry.lastAccessed := by
  induction tr using List.reverseRecOn generalizing c entry with
  | nil => simp at h
  | append_singleton tr e ih =>
    obtain ⟨c₀, hpre, hstep⟩ := hrun.last
    rw [History.replay_snoc] at h
    rw [lastStore_snoc]
    cases e with
    | get key headers now result =>
      -- a lookup writes no entry, so it does not renew the access time
      have hhit : (CacheEvent.get key headers now result).storeTime k = none := rfl
      rw [hhit, Option.none_or]
      exact ih hpre (by simpa [CacheEvent.effect, History.Effect.apply] using h)
    | put key response clock outcome =>
      obtain ⟨iter, hiter, hput⟩ := hstep
      rcases put_cases hiter hput with ⟨rfl, -⟩ | ⟨rfl, -⟩ | ⟨entry', victim, rfl, hp, -⟩
      · exact ih hpre (by simpa [CacheEvent.effect, History.Effect.apply] using h)
      · exact ih hpre (by simpa [CacheEvent.effect, History.Effect.apply] using h)
      · obtain ⟨-, -, -, -, -, -, haccess⟩ := preparePut_ready hp
        by_cases hk : key = k
        · -- the entry has just been stored
          obtain rfl : entry' = entry := by
            simpa [CacheEvent.effect, History.Effect.apply, hk] using h
          simp [CacheEvent.storeTime, hk, haccess]
        · have hother : ∀ v, (CacheEvent.put key response clock
              (.stored entry' victim)).effect.written ≠ some (k, v) := by
            intro v
            simp [CacheEvent.effect, hk]
          by_cases ht : (CacheEvent.put key response clock
              (.stored entry' victim)).effect.Touches k
          · rw [History.Effect.apply_dropped ht hother] at h
            simp at h
          · rw [History.Effect.apply_of_not_touches ht] at h
            simpa [CacheEvent.storeTime, hk] using ih hpre h

/-- **The evicted entry is the one that was stored first.** -/
theorem storedFirst_of_eviction {p : Platform} {maxSize : Nat} {defaultTtl : Duration}
    {tr : List CacheEvent} {c c' : ResponseCache}
    (hrun : Run (CacheEvent.Step p) (ResponseCache.new maxSize defaultTtl) tr c)
    {key : Str} {response : Response} {clock : Clock} {entry : CacheEntry} {victim : Str}
    (hstep : CacheEvent.Step p c (.put key response clock (.stored entry (some victim))) c') :
    StoredFirst tr victim := by
  obtain ⟨iter, hiter, hput⟩ := hstep
  rcases put_cases hiter hput with ⟨h, -⟩ | ⟨h, -⟩ | ⟨entry', victim', h, -, hins⟩
  · simp at h
  · simp at h
  · obtain ⟨rfl, rfl⟩ : entry = entry' ∧ some victim = victim' := by simpa using h
    obtain ⟨ev, hev, hleast⟩ := hins.leastRecent victim rfl
    have hreplay := lookup_eq_replay hrun
    refine ⟨⟨ev, (hreplay victim) ▸ hev⟩, ?_⟩
    rintro k' t t' ⟨e', he'⟩ ht ht'
    rw [lastStore_of_replay hrun ((hreplay victim) ▸ hev)] at ht
    rw [lastStore_of_replay hrun he'] at ht'
    have hle := hleast k' e' ((hreplay k').trans he')
    rwa [Option.some.inj ht, Option.some.inj ht'] at hle

/-- With a strict clock only one entry was stored first. -/
theorem StoredFirst.unique {p : Platform} {maxSize : Nat} {defaultTtl : Duration}
    {tr : List CacheEvent} {c : ResponseCache}
    (hrun : Run (CacheEvent.Step p) (ResponseCache.new maxSize defaultTtl) tr c)
    (hclock : StrictClock tr) {k k' : Str} (h : StoredFirst tr k) (h' : StoredFirst tr k') :
    k = k' := by
  obtain ⟨⟨e, he⟩, hfirst⟩ := h
  obtain ⟨⟨e', he'⟩, hfirst'⟩ := h'
  have hs := lastStore_of_replay hrun he
  have hs' := lastStore_of_replay hrun he'
  have hle := hfirst k' _ _ ⟨e', he'⟩ hs hs'
  have hge := hfirst' k _ _ ⟨e, he⟩ hs' hs
  rw [le_antisymm hle hge] at hs
  exact lastStore_inj hclock hs hs'

/-- For the entry stored first: it is the least recently used one exactly when each other entry
    was used after the last hit on it. -/
theorem leastRecentlyUsed_iff {p : Platform} {maxSize : Nat} {defaultTtl : Duration}
    {tr : List CacheEvent} {c : ResponseCache}
    (hrun : Run (CacheEvent.Step p) (ResponseCache.new maxSize defaultTtl) tr c)
    (hclock : StrictClock tr) {victim : Str} (hfirst : StoredFirst tr victim) :
    LeastRecentlyUsed tr victim ↔ FirstHitOvertaken tr := by
  constructor
  · intro h k t hk hhit k' hk' hne
    obtain rfl := hk.unique hrun hclock hfirst
    obtain ⟨tv, t', htv, ht', hlt⟩ := h k' hk' hne
    rw [lastUse_eq, hhit, Option.some_or] at htv
    rw [← Option.some.inj htv] at hlt
    exact ⟨t', ht', hlt⟩
  · intro h k hk hne
    -- without a hit the last use of the victim is its store, which is the first one
    cases hhit : lastHit tr victim with
    | some th =>
      obtain ⟨t', ht', hlt⟩ := h victim th hfirst hhit k hk hne
      exact ⟨th, t', by rw [lastUse_eq, hhit, Option.some_or], ht', hlt⟩
    | none =>
      obtain ⟨⟨ev, hev⟩, hmin⟩ := hfirst
      obtain ⟨e, he⟩ := id hk
      have hsv := lastStore_of_replay hrun hev
      have hsk := lastStore_of_replay hrun he
      have hlt : ev.lastAccessed < e.lastAccessed := by
        refine lt_of_le_of_ne (hmin k _ _ hk hsv hsk) fun heq => hne ?_
        exact lastStore_inj hclock hsk (heq ▸ hsv)
      refine ⟨ev.lastAccessed, ?_⟩
      rw [lastUse_eq, lastUse_eq, hhit, hsv, hsk, Option.none_or]
      cases hk' : lastHit tr k with
      | none => exact ⟨_, rfl, rfl, hlt⟩
      | some t' =>
        exact ⟨t', rfl, rfl, hlt.trans (lastStore_lt_lastHit hclock hk' hsk)⟩

/-- **Eviction.**  In every run of puts and gets with a strictly increasing clock, every put that
    evicts takes the least recently used entry exactly when, at every such put, each other entry
    was used after the last hit on the entry that was stored first. -/
theorem evicts_least_recently_used_iff (p : Platform) (maxSize : Nat) (defaultTtl : Duration)
    (tr : List CacheEvent) (c : ResponseCache)
    (hrun : Run (CacheEvent.Step p) (ResponseCache.new maxSize defaultTtl) tr c)
    (hclock : StrictClock tr) :
    (∀ pre victim, EvictsAt tr pre victim → LeastRecentlyUsed pre victim) ↔
      ∀ pre victim, EvictsAt tr pre victim → FirstHitOvertaken pre := by
  refine forall_congr' fun pre => forall_congr' fun victim => imp_congr_right ?_
  rintro ⟨key, response, clock, entry, post, rfl⟩
  obtain ⟨c₁, c₂, hpre, hstep, -⟩ := hrun.step_at
  have hclock' : StrictClock pre := by
    simp only [StrictClock, List.map_append, List.pairwise_append] at hclock
    exact hclock.1
  exact leastRecentlyUsed_iff hpre hclock' (storedFirst_of_eviction hpre hstep)

/-- A page for half a minute. -/
def shortPage : Response where
  status := 200
  headers := ⟨[(HeaderName.cacheControl, HeaderValue.ofStr "max-age=30".toList (by decide))]⟩
  body := []

/-- The entry that a put of the page makes. -/
def shortEntry (now : Instant) : CacheEntry where
  responseBody := []
  status := 200
  headers := shortPage.headers
  expiresAt := now + Duration.fromSecs 30
  createdAt := now
  etag := none
  lastModified := none
  lastAccessed := now

/-- A cache for two entries: `/a` is stored, … -/
def oneStored : ResponseCache :=
  ((ResponseCache.new 2 0).put Platform.ascii [] "/a".toList shortPage ⟨1, 0⟩).2

/-- … `/b` is stored, … -/
def twoStored : ResponseCache :=
  (oneStored.put Platform.ascii [("/a".toList, shortEntry 1)] "/b".toList shortPage ⟨2, 0⟩).2

/-- … `/a` is read, … -/
def firstRead : ResponseCache := (twoStored.get "/a".toList HeaderMap.empty 3).2

/-- … and `/c` comes in. -/
def thirdStored : PutOutcome × ResponseCache :=
  firstRead.put Platform.ascii [("/a".toList, shortEntry 1), ("/b".toList, shortEntry 2)]
    "/c".toList shortPage ⟨4, 0⟩

/-- The history up to the third put. -/
def readHistory : List CacheEvent :=
  [.put "/a".toList shortPage ⟨1, 0⟩ (.stored (shortEntry 1) none),
   .put "/b".toList shortPage ⟨2, 0⟩ (.stored (shortEntry 2) none),
   .get "/a".toList HeaderMap.empty 3 (some ((shortEntry 1).toResponse 3))]

/-- The third put evicts `/a`. -/
def evictingPut : CacheEvent :=
  .put "/c".toList shortPage ⟨4, 0⟩ (.stored (shortEntry 4) (some "/a".toList))

/-- The third page evicts one of the two. -/
theorem run_readHistory :
    Run (CacheEvent.Step Platform.ascii) (ResponseCache.new 2 0) (readHistory ++ [evictingPut])
      thirdStored.2 := by
  have hfirst : CacheEvent.Step Platform.ascii (ResponseCache.new 2 0)
      (.put "/a".toList shortPage ⟨1, 0⟩ (.stored (shortEntry 1) none)) oneStored :=
    ⟨[], by decide, rfl⟩
  have hsecond : CacheEvent.Step Platform.ascii oneStored
      (.put "/b".toList shortPage ⟨2, 0⟩ (.stored (shortEntry 2) none)) twoStored :=
    ⟨[("/a".toList, shortEntry 1)], by decide, rfl⟩
  have hread : CacheEvent.Step Platform.ascii twoStored
      (.get "/a".toList HeaderMap.empty 3 (some ((shortEntry 1).toResponse 3))) firstRead :=
    Prod.ext ((get_fst _ _ _ _ _).mpr ⟨shortEntry 1, by decide, by decide, rfl⟩) rfl
  have hthird : CacheEvent.Step Platform.ascii firstRead evictingPut thirdStored.2 :=
    ⟨[("/a".toList, shortEntry 1), ("/b".toList, shortEntry 2)], by decide, rfl⟩
  exact Run.snoc (Run.snoc (Run.snoc (Run.single hfirst) hsecond) hread) hthird

/-- The clock of the run is strict. -/
theorem strictClock_readHistory : StrictClock (readHistory ++ [evictingPut]) := by
  simp [StrictClock, readHistory, evictingPut, CacheEvent.time]

/-- The first of the two has been hit, so it is the wrong one that goes. -/
theorem evicts_least_recently_used_iff_read :
    (∀ pre victim, EvictsAt (readHistory ++ [evictingPut]) pre victim →
        LeastRecentlyUsed pre victim) ↔
      ∀ pre victim, EvictsAt (readHistory ++ [evictingPut]) pre victim →
        FirstHitOvertaken pre :=
  evicts_least_recently_used_iff Platform.ascii 2 0 _ _ run_readHistory strictClock_readHistory

/-- The entry that was just read goes, and the one that nobody has read stays. -/
theorem read_entry_evicted :
    ¬ ∀ (p : Platform) (maxSize : Nat) (defaultTtl : Duration) (tr : List CacheEvent)
      (c : ResponseCache), 1 ≤ maxSize →
      Run (CacheEvent.Step p) (ResponseCache.new maxSize defaultTtl) tr c → StrictClock tr →
      ∀ pre victim, EvictsAt tr pre victim → LeastRecentlyUsed pre victim := by
  intro h
  have hlru := h Platform.ascii 2 0 _ _ (by decide) run_readHistory strictClock_readHistory
    readHistory "/a".toList ⟨_, _, _, _, [], rfl⟩
  have hcached : Cached readHistory "/b".toList := ⟨shortEntry 2, by decide⟩
  obtain ⟨t, t', ha, hb, hlt⟩ := hlru "/b".toList hcached (by decide)
  obtain rfl : 3 = t := Option.some.inj ((show lastUse readHistory "/a".toList = some 3 by
    decide).symm.trans ha)
  obtain rfl : 2 = t' := Option.some.inj ((show lastUse readHistory "/b".toList = some 2 by
    decide).symm.trans hb)
  exact absurd hlt (by decide)

end Sret
