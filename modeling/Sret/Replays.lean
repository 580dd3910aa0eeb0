import Sret.CacheIsolation
import Sret.Lifetime

namespace Sret

open Text KeyedMap Transition

/-!
# Which responses are stored and replayed

What becomes of the response to one request, in the runs of any server: a put may insert it, and a
later hit may replay it.

* `StoredFor`, `Replays` — it is inserted; a lookup is answered with it;
* `KeptOut`, `NeverFresh` — the request has no cache key, the put refuses the response, or its
  max-age is one with which an entry is not made, or not served;
* `not_storedFor`, `not_replays` — then no run stores it, or replays it;
* `exists_run_storing`, `exists_run_replaying` — otherwise a server that sends everything to one
  target does, and replays it to every request with the same key.

What a request says about its own response (no-store, Range) and what a response says about its
audience (Set-Cookie, private) appears in none of these conditions.
-/

variable {File Cert Key Acceptor : Type}

/-! ### Stored and replayed responses -/

/-- The reading of the monotonic clock in the step. -/
def Event.reading : Event → Option Instant
  | .lookup _ now _ => some now
  | .prepare _ clock => some clock.instant
  | .verdict _ _ _ _ now => some now
  | _ => none

/-- The clock did not go backwards up to this reading. -/
def ClockUpTo (tr : List Event) (now : Instant) : Prop :=
  (tr.filterMap Event.reading ++ [now]).Pairwise (· ≤ ·)

/-- The put carries the response that was obtained for the request. -/
def State.PutOf (s : State) (q : Nat) (request : Request) (response : Response) : Prop :=
  ∃ t x, s.puts[q]? = some t ∧ t.response = response ∧ s.exchanges[t.exchange]? = some x ∧
    x.request = request

/-- The response that was obtained for the request has been inserted. -/
def StoredFor (tr : List Event) (s : State) (request : Request) (response : Response) : Prop :=
  ∃ q key entry victim, .commit q key entry victim ∈ tr ∧ s.PutOf q request response

/-- The lookup of the exchange is answered with `hit`, made from the entry of the response that was
    obtained for the request. -/
def Replays (p : Platform) (tr : List Event) (s : State) (now : Instant) (hit : Response)
    (x : Exchange) (request : Request) (response : Response) : Prop :=
  ∃ i s' key q entry, Event.Step p s (.lookup i now (some hit)) s' ∧ s.exchanges[i]? = some x ∧
    x.stage = .lookup key ∧ History.LastWrite Event.effect tr key (q, entry) ∧
    s.PutOf q request response

/-- What the response is held against: the request has a key, and an entry was made of it. -/
theorem prepared_of_commit {p : Platform} {s₀ s : State} {tr : List Event} (hquiet : s₀.Quiet)
    (hrun : Run (Event.Step p) s₀ tr s) {q : Nat} {key : Str} {entry : CacheEntry}
    {victim : Option Str} (hmem : .commit q key entry victim ∈ tr) {request : Request}
    {response : Response} (hput : s.PutOf q request response) :
    isCacheableMethod request.method = true ∧ PreparedBy p tr q response entry := by
  have hinv := putInvariant_of_run hquiet hrun
  obtain ⟨t, x, ht, rfl, hx, rfl⟩ := hput
  constructor
  · obtain ⟨y, -, hy, hkey, -⟩ := hinv.spawned q t ht
    obtain rfl : y = x := Option.some.inj (hy.symm.trans hx)
    exact (cacheKey_eq_some hkey).1
  · obtain ⟨u, hu, -, -, hprepared⟩ := hinv.written q key entry victim hmem
    rwa [Option.some.inj (hu.symm.trans ht)] at hprepared

/-- **What a hit replays.**  It is made from an entry of the response that has not expired. -/
theorem Replays.prepared {lib : TlsLibrary File Cert Key Acceptor} {p : Platform} {config : Config}
    {serverConfig : ServerConfig} {tr : List Event} {s : State}
    (hrun : Run (Event.Step p) (State.initial (Server.new lib config serverConfig)) tr s)
    {now : Instant} {hit : Response} {x : Exchange} {request : Request} {response : Response}
    (h : Replays p tr s now hit x request response) :
    isCacheableMethod request.method = true ∧ ∃ q entry, PreparedBy p tr q response entry ∧
      now < entry.expiresAt ∧ hit = entry.toResponse now := by
  obtain ⟨i, s', key, q, entry, hstep, hx, hstage, hwrite, hput⟩ := h
  obtain ⟨victim, hmem⟩ := commit_of_lastWrite hwrite
  obtain ⟨hmethod, hprepared⟩ := prepared_of_commit (State.quiet_initial _) hrun hmem hput
  obtain ⟨q', entry', hwrite', hserves, rfl⟩ := lastWrite_of_hit hrun hstep hx hstage
  -- there is only one last write
  obtain ⟨-, rfl⟩ := Prod.mk.inj (Option.some.inj
    ((History.replay_eq_some.mpr hwrite).symm.trans (History.replay_eq_some.mpr hwrite')))
  exact ⟨hmethod, q, entry, hprepared, (serves_iff.mp hserves).1, rfl⟩

/-- A hit shows the stored response: its status, its body and all its header lines. -/
theorem Replays.copies {lib : TlsLibrary File Cert Key Acceptor} {p : Platform} {config : Config}
    {serverConfig : ServerConfig} {tr : List Event} {s : State}
    (hrun : Run (Event.Step p) (State.initial (Server.new lib config serverConfig)) tr s)
    {now : Instant} {hit : Response} {x : Exchange} {request : Request} {response : Response}
    (h : Replays p tr s now hit x request response) :
    hit.status = response.status ∧ hit.body = response.body ∧
      ∀ line ∈ response.headers.lines, line ∈ hit.headers.lines := by
  obtain ⟨-, q, entry, ⟨clock, ttl, -, hready⟩, -, rfl⟩ := h.prepared hrun
  obtain ⟨-, -, hbody, hstatus, hheaders, -, -⟩ := ResponseCache.preparePut_ready hready
  refine ⟨hstatus, hbody, fun line hline => ?_⟩
  simp only [CacheEntry.toResponse, HeaderMap.append, hheaders]
  exact List.mem_append_left _ (List.mem_append_left _ hline)

/-! ### Responses that are kept out -/

/-- The max-age that the parser reads in the response. -/
def Response.maxAge (response : Response) : Option Nat :=
  (CacheControl.fromHeaders response.headers).maxAge

/-- The response to the request does not get into the cache: the method has no key, the put
    refuses the response, or its max-age puts the expiry time out of range. -/
def KeptOut (request : Request) (response : Response) : Prop :=
  isCacheableMethod request.method = false ∨
    ResponseCache.isCacheable response.status response.headers = false ∨
    ∃ age, response.maxAge = some age ∧ 2 ^ 63 ≤ age

/-- The response to the request is never served from the cache: it does not get there, or its
    max-age is zero. -/
def NeverFresh (request : Request) (response : Response) : Prop :=
  KeptOut request response ∨ response.maxAge = some 0

theorem cacheable_of_not_keptOut {request : Request} {response : Response}
    (h : ¬ KeptOut request response) : isCacheableMethod request.method = true := by
  rw [← Bool.not_eq_false]
  exact fun hmethod => h (Or.inl hmethod)

/-- The entry of a response with a max-age. -/
theorem expiresAt_of_maxAge {p : Platform} {ttl : Duration} {response : Response} {clock : Clock}
    {entry : CacheEntry} (hready : ResponseCache.preparePut p ttl response clock = .ready entry)
    {age : Nat} (hage : response.maxAge = some age) :
    entry.expiresAt = clock.instant + Duration.fromSecs age ∧ age < 2 ^ 63 := by
  have httl := calculateTtl_of_maxAge p ttl clock hage
  obtain ⟨-, ⟨ttl', httl', hexpires⟩, -⟩ := ResponseCache.preparePut_ready hready
  obtain rfl : Duration.fromSecs age = ttl' := Except.ok.inj (httl.symm.trans httl')
  refine ⟨hexpires, ?_⟩
  -- the sum was in range
  have hfits := ((exists_ready_iff p ttl response clock).mp ⟨entry, hready⟩).2
  have := hfits.maxAge age hage
  omega

/-- What is known of a request and a response of which an entry was made. -/
theorem not_keptOut {p : Platform} {ttl : Duration} {request : Request} {response : Response}
    {clock : Clock} {entry : CacheEntry} (hmethod : isCacheableMethod request.method = true)
    (hready : ResponseCache.preparePut p ttl response clock = .ready entry) :
    ¬ KeptOut request response := by
  rintro (hkey | hrefused | ⟨age, hage, hlarge⟩)
  · simp [hmethod] at hkey
  · rw [(ResponseCache.preparePut_ready hready).1] at hrefused
    simp at hrefused
  · have := (expiresAt_of_maxAge hready hage).2
    omega

/-- A cacheable response without max-age may be fresh. -/
theorem not_neverFresh {request : Request} {response : Response}
    (hmethod : isCacheableMethod request.method = true)
    (hcacheable : ResponseCache.isCacheable response.status response.headers = true)
    (hage : response.maxAge = none) : ¬ NeverFresh request response := by
  simp [NeverFresh, KeptOut, hmethod, hcacheable, hage]

/-- **A response that is kept out is stored in no run.** -/
theorem not_storedFor {p : Platform} {s₀ s : State} {tr : List Event} (hquiet : s₀.Quiet)
    (hrun : Run (Event.Step p) s₀ tr s) {request : Request} {response : Response}
    (h : KeptOut request response) : ¬ StoredFor tr s request response := by
  rintro ⟨q, key, entry, victim, hmem, hput⟩
  obtain ⟨hmethod, clock, ttl, -, hready⟩ := prepared_of_commit hquiet hrun hmem hput
  exact not_keptOut hmethod hready h

/-- **A response that is never fresh is replayed in no run** whose clock does not go backwards. -/
theorem not_replays {lib : TlsLibrary File Cert Key Acceptor} {p : Platform} {config : Config}
    {serverConfig : ServerConfig} {tr : List Event} {s : State}
    (hrun : Run (Event.Step p) (State.initial (Server.new lib config serverConfig)) tr s)
    {now : Instant} (hclock : ClockUpTo tr now) {hit : Response} {x : Exchange} {request : Request}
    {response : Response} (h : NeverFresh request response) :
    ¬ Replays p tr s now hit x request response := by
  intro hreplay
  obtain ⟨hmethod, q, entry, ⟨clock, ttl, hmem, hready⟩, hfresh, -⟩ := hreplay.prepared hrun
  rcases h with hkept | hzero
  · exact not_keptOut hmethod hready hkept
  · -- the entry had expired when it was made
    have hexpires := (expiresAt_of_maxAge hready hzero).1
    have hread : clock.instant ∈ tr.filterMap Event.reading :=
      List.mem_filterMap.mpr ⟨_, hmem, rfl⟩
    have hle := (List.pairwise_append.mp hclock).2.2 _ hread now (by simp)
    rw [hexpires, Duration.fromSecs, Nat.zero_mul, Nat.add_zero] at hfresh
    exact absurd hfresh (Nat.not_lt.mpr hle)

/-! ### A server that stores and replays -/

/-- A server that sends every request to one target and has room for one response. -/
def openServer : ServerConfig where
  id := "cached-server".toList
  bindAddress := "127.0.0.1".toList
  port := 8080
  routes := [⟨none, some ["/".toList], "backend".toList⟩]
  tls := none
  cache := some ⟨1, 1⟩

def openConfig : Config where
  servers := [openServer]
  upstreams := [⟨"backend".toList, [⟨"127.0.0.1".toList, 3000, none, none⟩], none, none⟩]

/-- The server when it has been started. -/
def openState : State where
  router := Router.new openConfig openServer
  cache := some (ResponseCache.new 1 (Duration.fromSecs 1))
  checkers := []
  exchanges := []
  puts := []

theorem initial_open (lib : TlsLibrary File Cert Key Acceptor) :
    State.initial (Server.new lib openConfig openServer) = openState := rfl

/-- Every request is routed to the target. -/
theorem open_routes (request : Request) : ∃ d r,
    openState.router.routeRequest Platform.ascii (requestHost request) request.uri.path 0 =
      (some d, r) := by
  have hstart : startsWith request.uri.path ['/'] = true := by
    obtain ⟨rest, hrest⟩ := List.head?_eq_some_iff.mp request.uri.path_rooted
    rw [hrest]
    exact startsWith_iff.mpr ⟨rest, rfl⟩
  have hmatch : Router.matchesRouteWithPrefix Platform.ascii ⟨[], ["/".toList], "backend".toList⟩
      (requestHost request) request.uri.path = some (some ['/']) := by
    simp [Router.matchesRouteWithPrefix, hstart]
  have hroute : Router.routeFrom Platform.ascii (requestHost request) request.uri.path 0
        [⟨[], ["/".toList], "backend".toList⟩] openState.router =
      (some ⟨"backend".toList, ⟨0, Target.new ⟨"127.0.0.1".toList, 3000, none, none⟩⟩, some ['/']⟩,
        openState.router.setUpstream "backend".toList (Upstream.new ⟨"backend".toList,
          [⟨"127.0.0.1".toList, 3000, none, none⟩], none, none⟩).bumpCounter) := by
    simp only [Router.routeFrom, hmatch]
    rfl
  exact ⟨_, _, hroute⟩

/-- The lifetime on this platform, which knows no dates. -/
theorem calculateTtl_ascii (response : Response) (clock : Clock) :
    ResponseCache.calculateTtl Platform.ascii (Duration.fromSecs 1) response.headers clock =
      .ok (Duration.fromSecs (response.maxAge.getD 1)) := by
  cases hage : response.maxAge with
  | some age => exact calculateTtl_of_maxAge Platform.ascii _ clock hage
  | none =>
    refine calculateTtl_of_default _ hage ?_
    rintro date ⟨s, -, hdate, -⟩
    simp [Platform.ascii] at hdate

/-- A response that is not kept out gets an entry at time zero. -/
theorem exists_ready {request : Request} {response : Response} (h : ¬ KeptOut request response) :
    ∃ entry, ResponseCache.preparePut Platform.ascii (Duration.fromSecs 1) response ⟨0, 0⟩ =
      .ready entry ∧ entry.createdAt = 0 ∧
      entry.expiresAt = Duration.fromSecs (response.maxAge.getD 1) := by
  simp only [KeptOut, not_or, Bool.not_eq_false, not_exists, not_and, Nat.not_le] at h
  obtain ⟨-, hcacheable, hage⟩ := h
  have httl := calculateTtl_ascii response ⟨0, 0⟩
  have hsmall : response.maxAge.getD 1 < 2 ^ 63 := by
    cases hmax : response.maxAge with
    | none => decide
    | some age => exact hage age hmax
  have hfits : Instant.InRange ((⟨0, 0⟩ : Clock).instant +
      Duration.fromSecs (response.maxAge.getD 1)) := by
    rw [Instant.inRange_add_fromSecs]
    show 0 / nanosPerSec + response.maxAge.getD 1 < 2 ^ 63
    rwa [Nat.zero_div, Nat.zero_add]
  obtain ⟨entry, hready⟩ := (exists_ready_of_ttl httl).mpr ⟨hcacheable, hfits⟩
  obtain ⟨-, ⟨ttl, httl', hexpires⟩, -, -, -, hcreated, -⟩ :=
    ResponseCache.preparePut_ready hready
  obtain rfl := Except.ok.inj (httl.symm.trans httl')
  exact ⟨entry, hready, hcreated, hexpires.trans (Nat.zero_add _)⟩

/-- With a cache a GET or HEAD request starts with the lookup of its key. -/
theorem start_of_cacheable {request : Request}
    (hmethod : isCacheableMethod request.method = true) :
    Exchange.start true request = ⟨request, .lookup (requestKey request)⟩ := by
  simp [Exchange.start, cacheKey, hmethod, requestKey]

/-- The cache of the server after the first miss. -/
def missedCache : ResponseCache := (ResponseCache.new 1 (Duration.fromSecs 1)).recordMiss

/-- The cache with the entry that is inserted then. -/
def filledCache (key : Str) (entry : CacheEntry) : ResponseCache :=
  (missedCache.insertEntry [] key entry).2

/-- **A run that stores.**  The request misses, is forwarded, gets its response, and the put of the
    response inserts the entry. -/
theorem exists_run_filling {request : Request} {response : Response} {entry : CacheEntry}
    (hmethod : isCacheableMethod request.method = true)
    (hready : ResponseCache.preparePut Platform.ascii (Duration.fromSecs 1) response ⟨0, 0⟩ =
      .ready entry) :
    ∃ tr r x t, Run (Event.Step Platform.ascii) openState
        (tr ++ [.commit 0 (requestKey request) entry none])
        ⟨r, some (filledCache (requestKey request) entry), [], [x], [t]⟩ ∧
      tr.filterMap Event.reading = [0, 0] ∧ x.request = request ∧ t.exchange = 0 ∧
      t.response = response := by
  obtain ⟨d, r, hroute⟩ := open_routes request
  have hspawn : spawnedPuts true 0 request (relayedResponse response) =
      [⟨0, requestKey request, response, .spawned⟩] := by
    simp [spawnedPuts, cacheKey, hmethod, requestKey, relayedResponse]
  have haccept : Event.Step Platform.ascii openState (.accept request)
      ⟨openState.router, openState.cache, [], [⟨request, .lookup (requestKey request)⟩], []⟩ := by
    rw [← start_of_cacheable hmethod]
    rfl
  have hlookup : Event.Step Platform.ascii
      ⟨openState.router, openState.cache, [], [⟨request, .lookup (requestKey request)⟩], []⟩
      (.lookup 0 0 none) ⟨openState.router, some missedCache, [], [⟨request, .route⟩], []⟩ :=
    ⟨_, _, _, rfl, rfl, rfl, rfl, rfl⟩
  have hrouted : Event.Step Platform.ascii
      ⟨openState.router, some missedCache, [], [⟨request, .route⟩], []⟩ (.route 0 0 (some d))
      ⟨r, some missedCache, [], [⟨request, .forwarding d⟩], []⟩ :=
    ⟨_, rfl, rfl, congrArg Prod.fst hroute, by simp only [hroute]; rfl⟩
  have hreply : Event.Step Platform.ascii
      ⟨r, some missedCache, [], [⟨request, .forwarding d⟩], []⟩ (.finish 0 (.replied response))
      ⟨r, some missedCache, [], [⟨request, .answered response⟩],
        [⟨0, requestKey request, response, .spawned⟩]⟩ :=
    ⟨_, d, rfl, rfl, by simp only [Option.isSome_some, hspawn]; rfl⟩
  have hprepare : Event.Step Platform.ascii
      ⟨r, some missedCache, [], [⟨request, .answered response⟩],
        [⟨0, requestKey request, response, .spawned⟩]⟩ (.prepare 0 ⟨0, 0⟩)
      ⟨r, some missedCache, [], [⟨request, .answered response⟩],
        [⟨0, requestKey request, response, .ready entry⟩]⟩ :=
    ⟨_, missedCache, rfl, rfl, rfl, by
      rw [show missedCache.defaultTtl = Duration.fromSecs 1 from rfl]
      simp only [hready]
      rfl⟩
  have hcommit : Event.Step Platform.ascii
      ⟨r, some missedCache, [], [⟨request, .answered response⟩],
        [⟨0, requestKey request, response, .ready entry⟩]⟩
      (.commit 0 (requestKey request) entry none)
      ⟨r, some (filledCache (requestKey request) entry), [], [⟨request, .answered response⟩],
        [⟨0, requestKey request, response, .finished⟩]⟩ :=
    ⟨_, missedCache, [], rfl, rfl, rfl, rfl, ⟨by simp, rfl⟩, rfl, rfl⟩
  have hrun := ((((Run.single haccept).snoc hlookup).snoc hrouted).snoc hreply).snoc hprepare
  exact ⟨_, r, _, _, hrun.snoc hcommit, rfl, rfl, rfl, rfl⟩

/-- A response that is not kept out is stored in some run. -/
theorem exists_run_storing {request : Request} {response : Response}
    (h : ¬ KeptOut request response) :
    ∃ tr s, Run (Event.Step Platform.ascii) openState tr s ∧ StoredFor tr s request response := by
  obtain ⟨entry, hready, -, -⟩ := exists_ready h
  obtain ⟨tr, r, x, t, hrun, -, hx, ht, hresponse⟩ :=
    exists_run_filling (cacheable_of_not_keptOut h) hready
  exact ⟨_, _, hrun, 0, requestKey request, entry, none, by simp, t, x, rfl, hresponse,
    by rw [ht]; rfl, hx⟩

/-- **A run that replays.**  A response that may be fresh is served to any request with the same
    key that leaves the choice to the cache. -/
theorem exists_run_replaying {request : Request} {response : Response}
    (h : ¬ NeverFresh request response) {request' : Request}
    (hmethod' : isCacheableMethod request'.method = true)
    (hkey : requestKey request' = requestKey request)
    (hsilent : CacheControl.fromHeaders request'.headers = CacheControl.silent) :
    ∃ tr s hit x, Run (Event.Step Platform.ascii) openState tr s ∧ ClockUpTo tr 0 ∧
      Replays Platform.ascii tr s 0 hit x request response ∧ x.request = request' := by
  rw [NeverFresh, not_or] at h
  obtain ⟨hkept, hzero⟩ := h
  obtain ⟨entry, hready, -, hexpires⟩ := exists_ready hkept
  obtain ⟨tr, r, x, t, hrun, hclock, hx, ht, hresponse⟩ :=
    exists_run_filling (cacheable_of_not_keptOut hkept) hready
  -- the other request comes in and finds the entry, which is still fresh
  have hfresh : entry.serves CacheControl.silent 0 = true := by
    rw [serves_silent, hexpires]
    refine Nat.mul_pos (Nat.pos_of_ne_zero ?_) (by decide)
    cases hage : response.maxAge with
    | none => simp
    | some age => exact fun h0 => hzero (hage.trans (congrArg some h0))
  have hlookup : (filledCache (requestKey request) entry).entries.lookup (requestKey request') =
      some entry := by
    rw [hkey]
    exact Finmap.lookup_insert _
  have hget : ((filledCache (requestKey request) entry).get (requestKey request') request'.headers
      0).1 = some (entry.toResponse 0) :=
    (ResponseCache.get_fst _ _ _ _ _).mpr ⟨entry, hlookup, hsilent ▸ hfresh, rfl⟩
  have haccept : Event.Step Platform.ascii
      ⟨r, some (filledCache (requestKey request) entry), [], [x], [t]⟩ (.accept request')
      ⟨r, some (filledCache (requestKey request) entry), [],
        [x, ⟨request', .lookup (requestKey request')⟩], [t]⟩ := by
    rw [← start_of_cacheable hmethod']
    rfl
  refine ⟨_, _, entry.toResponse 0, _, hrun.snoc haccept, ?_, ⟨1, _, requestKey request', 0, entry,
    ⟨_, _, _, rfl, rfl, rfl, hget, rfl⟩, rfl, rfl, ?_, ?_⟩, rfl⟩
  · rw [ClockUpTo, List.filterMap_append, List.filterMap_append, hclock]
    show [0, 0, 0].Pairwise (· ≤ ·)
    decide
  · rw [hkey]
    exact ⟨tr, .commit 0 (requestKey request) entry none, [.accept request'], by simp, rfl,
      by simp [Event.effect, History.Effect.Touches]⟩
  · exact ⟨t, x, rfl, hresponse, by rw [ht]; rfl, hx⟩

end Sret
