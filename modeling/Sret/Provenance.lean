import Sret.Progress

namespace Sret

open Text KeyedMap Transition

/-!
# Where answers come from

Every answer of a server, traced back through the steps that led to it.  What is known of a response
is which request to which URL has ended with it.  Who has sent it is not: the client follows
redirects, and the URL itself may name another host than the target's.

* `Origin` — the ways in which an exchange can have come by its answer, told by the trace: no route,
  a failure of the request to the URL that it was assigned, the response with which this request
  ended, or a hit;
* `OriginInvariant` — every answer has an origin, and an exchange that waits for a response was
  assigned to a target;
* `answers_have_origin` — so it is in every state that a server reaches, and a hit goes back to the
  response with which the request of an exchange with the same key ended;
* `forwarded_once` — no exchange is assigned to a target twice, and no put inserts twice.
-/

/-- How the exchange came by its answer. -/
inductive Origin (p : Platform) (cacheConfig : Option CacheConfig) (tr : List Event) (i : Nat)
    (request : Request) : Response → Prop
  /-- The router found no target. -/
  | unrouted {pick : Nat} : .route i pick none ∈ tr → Origin p cacheConfig tr i request notFound
  /-- The request to the URL of the assigned target failed. -/
  | failed {pick : Nat} {d : Routed} {outcome : Outcome} : .route i pick (some d) ∈ tr →
      .finish i outcome ∈ tr → (∀ response, outcome ≠ .replied response) →
      Origin p cacheConfig tr i request badGateway
  /-- The request to the URL of the assigned target ended with this response. -/
  | relayed {pick : Nat} {d : Routed} {response : Response} : .route i pick (some d) ∈ tr →
      .finish i (.replied response) ∈ tr →
      Origin p cacheConfig tr i request (relayedResponse response)
  /-- A put inserted the response with which the request of an exchange with the same key ended, and
      the entry was still fresh for this request. -/
  | replayed {config : CacheConfig} {now : Instant} {key : Str} {j q : Nat} {request' : Request}
      {response : Response} {entry : CacheEntry} {victim : Option Str} :
      cacheConfig = some config → cacheKey true request = some key →
      (requests tr)[j]? = some request' → cacheKey true request' = some key →
      .finish j (.replied response) ∈ tr →
      MadeReady p (Duration.fromSecs config.defaultTtlSeconds) tr q (relayedResponse response)
        entry →
      .commit q key entry victim ∈ tr → .lookup i now (some (entry.toResponse now)) ∈ tr →
      entry.serves (CacheControl.fromHeaders request.headers) now = true →
      Origin p cacheConfig tr i request (entry.toResponse now)

/-- An origin stays one in every longer run. -/
theorem Origin.snoc {p : Platform} {cacheConfig : Option CacheConfig} {tr : List Event} {i : Nat}
    {request : Request} {response : Response} (h : Origin p cacheConfig tr i request response)
    (e : Event) : Origin p cacheConfig (tr ++ [e]) i request response := by
  cases h with
  | unrouted hroute => exact .unrouted (List.mem_append_left _ hroute)
  | failed hroute hfinish hne =>
    exact .failed (List.mem_append_left _ hroute) (List.mem_append_left _ hfinish) hne
  | relayed hroute hfinish =>
    exact .relayed (List.mem_append_left _ hroute) (List.mem_append_left _ hfinish)
  | replayed hconfig hkey hrequest hkey' hfinish hmade hcommit hlookup hserves =>
    have hrequest' := Tasks.frozen_append hrequest e.accepted.toList
    rw [← requests_snoc] at hrequest'
    exact .replayed hconfig hkey hrequest' hkey' (List.mem_append_left _ hfinish) (hmade.snoc e)
      (List.mem_append_left _ hcommit) (List.mem_append_left _ hlookup) hserves

/-- Every answer has an origin, and every assignment is one of the router. -/
structure OriginInvariant (p : Platform) (cacheConfig : Option CacheConfig) (tr : List Event)
    (s : State) : Prop where
  assigned : ∀ (i : Nat) x d, s.exchanges[i]? = some x → x.stage = .forwarding d →
    ∃ pick, .route i pick (some d) ∈ tr
  answered : ∀ (i : Nat) x response, s.exchanges[i]? = some x → x.stage = .answered response →
    Origin p cacheConfig tr i x.request response

section Runs

variable {File Cert Key Acceptor : Type} {lib : TlsLibrary File Cert Key Acceptor} {p : Platform}
  {config : Config} {serverConfig : ServerConfig} {tr : List Event} {s : State}

/-- A server whose cache is used was configured with one. -/
theorem cacheConfig_of_run
    (hrun : Run (Event.Step p) (State.initial (Server.new lib config serverConfig)) tr s)
    {c : ResponseCache} (hc : s.cache = some c) :
    ∃ cacheConfig, serverConfig.cache = some cacheConfig := by
  have hsome := cache_isSome_of_run hrun
  rw [hc, Option.isSome_some] at hsome
  cases hconfig : serverConfig.cache with
  | some cacheConfig => exact ⟨cacheConfig, rfl⟩
  | none => simp [State.initial, Server.new, hconfig] at hsome

/-- **A hit goes back to a response.** -/
theorem origin_of_hit
    (hrun : Run (Event.Step p) (State.initial (Server.new lib config serverConfig)) tr s)
    {i : Nat} {now : Instant} {hit : Response} {s' : State} {x : Exchange} {key : Str}
    (hstep : Event.Step p s (.lookup i now (some hit)) s') (hx : s.exchanges[i]? = some x)
    (hstage : x.stage = .lookup key) :
    Origin p serverConfig.cache (tr ++ [.lookup i now (some hit)]) i x.request hit := by
  have hquiet := State.quiet_initial (Server.new lib config serverConfig)
  obtain ⟨_, _, c, -, -, hc, -⟩ := id hstep
  obtain ⟨cacheConfig, hconfig⟩ := cacheConfig_of_run hrun hc
  obtain ⟨_, _, hseq⟩ := sequential_of_run hquiet (initial_cache lib config hconfig) hrun
  -- the entry was inserted by a put, which an exchange spawned with its reply
  obtain ⟨q, entry, hwrite, hserves, rfl⟩ := lastWrite_of_hit hrun hstep hx hstage
  obtain ⟨victim, hcommit⟩ := commit_of_lastWrite hwrite
  obtain ⟨t, ht, rfl, hmade⟩ := hseq.written q key entry victim hcommit
  obtain ⟨y, response, hy, hkey', hfinish, hresponse⟩ :=
    (putInvariant_of_run hquiet hrun).spawned q t ht
  have hrequest : (requests tr)[t.exchange]? = some y.request := by
    rw [← requests_of_run hquiet hrun, List.getElem?_map, hy]
    rfl
  have hrequest' := Tasks.frozen_append hrequest
    (Event.accepted (.lookup i now (some (entry.toResponse now)))).toList
  rw [← requests_snoc] at hrequest'
  rw [hresponse] at hmade
  exact .replayed hconfig (keyedLookups_of_run hquiet hrun i x _ hx hstage) hrequest' hkey'
    (List.mem_append_left _ hfinish) (hmade.snoc _) (List.mem_append_left _ hcommit) (by simp)
    hserves

/-- An exchange that a step leaves alone keeps its assignment and its origin. -/
theorem OriginInvariant.kept (h : OriginInvariant p serverConfig.cache tr s) (e : Event) {i : Nat}
    {y : Exchange} (hy : s.exchanges[i]? = some y) :
    (∀ d, y.stage = .forwarding d → ∃ pick, .route i pick (some d) ∈ tr ++ [e]) ∧
      ∀ response, y.stage = .answered response →
        Origin p serverConfig.cache (tr ++ [e]) i y.request response := by
  refine ⟨fun d hd => ?_, fun response hans => (h.answered i y response hy hans).snoc e⟩
  obtain ⟨pick, hmem⟩ := h.assigned i y d hy hd
  exact ⟨pick, List.mem_append_left _ hmem⟩

/-- A step that touches no exchange. -/
theorem OriginInvariant.step_silent (h : OriginInvariant p serverConfig.cache tr s) (e : Event)
    {s' : State} (heq : s'.exchanges = s.exchanges) :
    OriginInvariant p serverConfig.cache (tr ++ [e]) s' :=
  ⟨fun _ _ d hy => (h.kept e (heq ▸ hy)).1 d,
    fun _ _ response hy => (h.kept e (heq ▸ hy)).2 response⟩

/-- A step that moves one exchange on: it is enough to look at that one. -/
theorem OriginInvariant.step_moved (h : OriginInvariant p serverConfig.cache tr s) {e : Event}
    {s' : State} {j : Nat} {x : Exchange} {stage : Stage}
    (heq : s'.exchanges = s.exchanges.set j (x.to stage))
    (hassigned : ∀ d, stage = .forwarding d → ∃ pick, .route j pick (some d) ∈ tr ++ [e])
    (hanswered : ∀ response, stage = .answered response →
      Origin p serverConfig.cache (tr ++ [e]) j x.request response) :
    OriginInvariant p serverConfig.cache (tr ++ [e]) s' := by
  refine ⟨fun i y d hy hd => ?_, fun i y response hy hans => ?_⟩
  · rcases Tasks.of_set (heq ▸ hy) with ⟨rfl, rfl⟩ | ⟨-, hy⟩
    · exact hassigned d hd
    · exact (h.kept e hy).1 d hd
  · rcases Tasks.of_set (heq ▸ hy) with ⟨rfl, rfl⟩ | ⟨-, hy⟩
    · exact hanswered response hans
    · exact (h.kept e hy).2 response hans

/-- A new exchange has neither a target nor an answer. -/
theorem OriginInvariant.step_accept (h : OriginInvariant p serverConfig.cache tr s)
    (request : Request) {s' : State} (hstep : Event.Step p s (.accept request) s') :
    OriginInvariant p serverConfig.cache (tr ++ [.accept request]) s' := by
  obtain rfl := hstep
  have hnew : ∀ {i : Nat} {y : Exchange}, (s.exchanges ++
      [Exchange.start s.cache.isSome request])[i]? = some y →
      s.exchanges[i]? = some y ∨ y.stage.rank ≤ 1 := by
    intro i y hy
    refine (Tasks.of_append hy).imp_right fun ⟨_, hnew⟩ => ?_
    obtain rfl := List.mem_singleton.mp (List.mem_of_getElem? hnew)
    unfold Exchange.start
    cases cacheKey s.cache.isSome request <;> simp [Stage.rank]
  refine ⟨fun i y d hy hd => ?_, fun i y response hy hans => ?_⟩
  · rcases hnew hy with hy | hrank
    · exact (h.kept _ hy).1 d hd
    · simp [hd, Stage.rank] at hrank
  · rcases hnew hy with hy | hrank
    · exact (h.kept _ hy).2 response hans
    · simp [hans, Stage.rank] at hrank

/-- The request to the assigned URL ends. -/
theorem OriginInvariant.step_finish (h : OriginInvariant p serverConfig.cache tr s) {j : Nat}
    {outcome : Outcome} {s' : State} (hstep : Event.Step p s (.finish j outcome) s') :
    OriginInvariant p serverConfig.cache (tr ++ [.finish j outcome]) s' := by
  obtain ⟨x, d, hx, hstage, rfl⟩ := hstep
  obtain ⟨pick, hroute⟩ := h.assigned j x d hx hstage
  have hroute' : .route j pick (some d) ∈ tr ++ [Event.finish j outcome] :=
    List.mem_append_left _ hroute
  have hfinish : .finish j outcome ∈ tr ++ [Event.finish j outcome] :=
    List.mem_append_right tr (List.mem_singleton_self _)
  cases outcome with
  | replied response =>
    refine h.step_moved rfl (by simp) fun answer hans => ?_
    obtain rfl := Stage.answered.inj hans
    exact .relayed hroute' hfinish
  | _ =>
    refine h.step_moved rfl (by simp) fun answer hans => ?_
    obtain rfl := Stage.answered.inj hans
    exact .failed hroute' hfinish (by simp)

/-- **A step keeps the origins.** -/
theorem OriginInvariant.step
    (hrun : Run (Event.Step p) (State.initial (Server.new lib config serverConfig)) tr s)
    (h : OriginInvariant p serverConfig.cache tr s) {e : Event} {s' : State}
    (hstep : e.Step p s s') : OriginInvariant p serverConfig.cache (tr ++ [e]) s' := by
  cases e with
  | accept request => exact h.step_accept request hstep
  | lookup j now result =>
    obtain ⟨x, key, _, hx, hstage, -, -, hs'⟩ := id hstep
    cases result with
    | none => exact h.step_moved (congrArg State.exchanges hs') (by simp) (by simp)
    | some hit =>
      refine h.step_moved (congrArg State.exchanges hs') (by simp) fun response hans => ?_
      obtain rfl := Stage.answered.inj hans
      exact origin_of_hit hrun hstep hx hstage
  | route j pick routed =>
    obtain ⟨x, -, -, -, rfl⟩ := hstep
    have hroute : .route j pick routed ∈ tr ++ [Event.route j pick routed] :=
      List.mem_append_right tr (List.mem_singleton_self _)
    cases routed with
    | none =>
      refine h.step_moved rfl (by simp) fun response hans => ?_
      obtain rfl := Stage.answered.inj hans
      exact .unrouted hroute
    | some d =>
      refine h.step_moved rfl (fun d' hd => ?_) (by simp)
      obtain rfl := Stage.forwarding.inj hd
      exact ⟨pick, hroute⟩
  | finish j outcome => exact h.step_finish hstep
  | prepare q clock =>
    obtain ⟨_, _, _, _, _, rfl⟩ := hstep
    exact h.step_silent _ rfl
  | commit q key entry victim =>
    obtain ⟨_, _, _, _, _, _, _, _, _, rfl⟩ := hstep
    exact h.step_silent _ rfl
  | probe c =>
    obtain ⟨_, _, _, _, _, _, _, rfl⟩ := hstep
    exact h.step_silent _ rfl
  | verdict c ref reply isHealthy now =>
    obtain ⟨_, _, _, _, _, _, rfl⟩ := hstep
    exact h.step_silent _ rfl

/-- Every answer in a state that a server reaches has an origin. -/
theorem originInvariant_of_run
    (hrun : Run (Event.Step p) (State.initial (Server.new lib config serverConfig)) tr s) :
    OriginInvariant p serverConfig.cache tr s :=
  hrun.invariant_trace (OriginInvariant p serverConfig.cache)
    ⟨by simp [State.initial], by simp [State.initial]⟩
    fun _ _ _ _ hpre h hstep => h.step hpre hstep

end Runs

/-- **Every answer has an origin.**  In every state that a server reaches, an answered exchange got
    the server's own 404 because the router found no target, the server's own 502 because the
    request to the URL of the target that the router assigned it to failed, the response that this
    request ended with, or a fresh hit on an entry that a put made of the response with which the
    request of an exchange with the same key ended. -/
theorem answers_have_origin {File Cert Key Acceptor : Type}
    (lib : TlsLibrary File Cert Key Acceptor) (p : Platform) (config : Config)
    (serverConfig : ServerConfig) (tr : List Event) (s : State)
    (hrun : Run (Event.Step p) (State.initial (Server.new lib config serverConfig)) tr s) (i : Nat)
    (x : Exchange) (response : Response) (hx : s.exchanges[i]? = some x)
    (hans : x.stage = .answered response) :
    Origin p serverConfig.cache tr i x.request response :=
  (originInvariant_of_run hrun).answered i x response hx hans

/-- A page is requested twice: the first request is forwarded, and what it ends with is stored and
    replayed to the second. -/
def servedTrace : List Event :=
  [.accept startRequest, .lookup 0 0 none, .route 0 0 (some raceRouted),
    .finish 0 (.replied oldPage), .prepare 0 ⟨0, 0⟩, raceCommit 0 oldPage, .accept startRequest,
    .lookup 1 0 (some ((pageEntry oldPage).toResponse 0))]

/-- The two requests are answered, one after the other. -/
theorem exists_run_served :
    ∃ s, Run (Event.Step Platform.ascii)
        (State.initial (Server.new noFiles openConfig raceServer)) servedTrace s ∧
      s.exchanges = [⟨startRequest, .answered oldPage⟩,
        ⟨startRequest, .answered ((pageEntry oldPage).toResponse 0)⟩] := by
  have h₁ := Run.snoc (Run.nil _) (show Event.Step Platform.ascii
    (State.initial (Server.new noFiles openConfig raceServer)) (.accept startRequest) _ from rfl)
  have h₂ := h₁.snoc (show Event.Step Platform.ascii _ (.lookup 0 0 none) _ from
    ⟨_, _, _, rfl, rfl, rfl, rfl, rfl⟩)
  have h₃ := h₂.snoc (show Event.Step Platform.ascii _ (.route 0 0 (some raceRouted)) _ from
    ⟨_, rfl, rfl, by decide, rfl⟩)
  have h₄ := h₃.snoc (show Event.Step Platform.ascii _ (.finish 0 (.replied oldPage)) _ from
    ⟨_, raceRouted, rfl, rfl, rfl⟩)
  have h₅ := h₄.snoc (show Event.Step Platform.ascii _ (.prepare 0 ⟨0, 0⟩) _ from
    ⟨_, _, rfl, rfl, rfl, rfl⟩)
  have h₆ := h₅.snoc (show Event.Step Platform.ascii _ (raceCommit 0 oldPage) _ from
    ⟨_, _, [], rfl, rfl, rfl, rfl, ⟨by simp, rfl⟩, rfl, rfl⟩)
  have h₇ := h₆.snoc (show Event.Step Platform.ascii _ (.accept startRequest) _ from rfl)
  -- the entry that was inserted last is found, and lives for a second
  have h₈ := h₇.snoc (show Event.Step Platform.ascii _
    (.lookup 1 0 (some ((pageEntry oldPage).toResponse 0))) _ from
    ⟨_, _, _, rfl, rfl, rfl, (ResponseCache.get_fst _ _ _ _ _).mpr
      ⟨pageEntry oldPage, Finmap.lookup_insert _, by decide, rfl⟩, rfl⟩)
  exact ⟨_, h₈, rfl⟩

/-- The first answer is relayed, and the second one is replayed. -/
theorem answers_have_origin_served :
    ∃ s, Run (Event.Step Platform.ascii)
        (State.initial (Server.new noFiles openConfig raceServer)) servedTrace s ∧
      Origin Platform.ascii raceServer.cache servedTrace 0 startRequest oldPage ∧
      Origin Platform.ascii raceServer.cache servedTrace 1 startRequest
        ((pageEntry oldPage).toResponse 0) := by
  obtain ⟨s, hrun, hexchanges⟩ := exists_run_served
  have horigin := answers_have_origin noFiles Platform.ascii openConfig raceServer _ s hrun
  exact ⟨s, hrun, horigin 0 ⟨startRequest, _⟩ _ (by rw [hexchanges]; rfl) rfl,
    horigin 1 ⟨startRequest, _⟩ _ (by rw [hexchanges]; rfl) rfl⟩

/-! ### Once -/

/-- The exchange is assigned to a target. -/
def Event.forwards (i : Nat) : Event → Bool
  | .route j _ (some _) => j == i
  | _ => false

/-- The put inserts its entry. -/
def Event.inserts (q : Nat) : Event → Bool
  | .commit r _ _ _ => r == q
  | _ => false

/-- An exchange that is assigned to a target was not, and is then. -/
theorem forwards_step {p : Platform} {s s' : State} {e : Event} {i : Nat}
    (h : e.forwards i = true) (hstep : e.Step p s s') :
    ¬ 2 ≤ s.progress i ∧ 2 ≤ s'.progress i := by
  cases e with
  | route j pick routed =>
    cases routed with
    | none => simp [Event.forwards] at h
    | some d =>
      obtain rfl : j = i := by simpa [Event.forwards] using h
      obtain ⟨x, hx, hstage, -, rfl⟩ := hstep
      obtain ⟨hlt, -⟩ := List.getElem?_eq_some_iff.mp hx
      simp [State.progress, hx, hstage, Stage.rank, List.getElem?_set_self hlt, Exchange.to]
  | _ => simp [Event.forwards] at h

/-- A put that inserts was not done, and is then. -/
theorem inserts_step {p : Platform} {s s' : State} {e : Event} {q : Nat}
    (h : e.inserts q = true) (hstep : e.Step p s s') : ¬ s.Settled q ∧ s'.Settled q := by
  cases e with
  | commit r key entry victim =>
    obtain rfl : r = q := by simpa [Event.inserts] using h
    obtain ⟨t, _, _, ht, -, hstage, -, -, -, rfl⟩ := hstep
    obtain ⟨hlt, -⟩ := List.getElem?_eq_some_iff.mp ht
    refine ⟨?_, ⟨_, List.getElem?_set_self hlt, rfl⟩⟩
    rintro ⟨u, hu, hfinished⟩
    obtain rfl : u = t := Option.some.inj (hu.symm.trans ht)
    simp [hstage] at hfinished
  | _ => simp [Event.inserts] at h

/-- **Once.**  In every run from a quiet state, however the tasks are interleaved: an exchange is
    assigned to a target at most once, its request to the assigned URL ends with at most one
    response, no two puts are spawned by one exchange, and no put inserts twice. -/
theorem forwarded_once (p : Platform) (s₀ s : State) (hquiet : s₀.Quiet) (tr : List Event)
    (hrun : Run (Event.Step p) s₀ tr s) :
    (∀ i, tr.countP (Event.forwards i) ≤ 1 ∧ tr.countP (Event.fetches i) ≤ 1) ∧
      (s.puts.map PutTask.exchange).Nodup ∧ ∀ q, tr.countP (Event.inserts q) ≤ 1 := by
  refine ⟨fun i => ⟨?_, ?_⟩, ?_, fun q => ?_⟩
  · refine (hrun.countP_le_one (fun s => 2 ≤ s.progress i) (fun t e u h hstep => ?_)
      fun t e u hkind hstep => forwards_step hkind hstep).1
    exact h.trans ((Nat.le_add_right _ _).trans (progress_of_step hstep i))
  · refine (hrun.countP_le_one (fun s => s.Answered i) (fun t e u h hstep => h.step hstep)
      fun t e u hkind hstep => Event.Ends.answered ?_ hstep).1
    unfold Event.fetches at hkind
    split at hkind
    · simpa [Event.Ends] using hkind
    · simp at hkind
  · -- two puts of one exchange would have been fetched at the same time
    have horder := fetchOrder_of_run hquiet hrun
    rw [List.Nodup, List.pairwise_map]
    refine List.pairwise_iff_getElem.mpr fun q q' hq hq' hlt heq => ?_
    have ht := List.getElem?_eq_getElem hq
    obtain ⟨time, htime⟩ := horder.fetched q _ ht
    exact absurd (horder.ordered q q' _ _ time time ht (List.getElem?_eq_getElem hq') hlt htime
      (heq ▸ htime)) (lt_irrefl time)
  · exact (hrun.countP_le_one (fun s => s.Settled q) (fun t e u h hstep => h.step hstep)
      fun t e u hkind hstep => inserts_step hkind hstep).1

/-- The two puts of the race belong to different exchanges. -/
theorem forwarded_once_crossed :
    ∃ s, Run (Event.Step Platform.ascii) (State.initial (Server.new noFiles openConfig raceServer))
        (raceTrace ++ [raceCommit 1 newPage] ++ [raceCommit 0 oldPage]) s ∧
      (s.puts.map PutTask.exchange).Nodup := by
  obtain ⟨s, hrun⟩ := exists_run_crossed
  exact ⟨s, hrun, (forwarded_once Platform.ascii _ s (State.quiet_initial _) _ hrun).2.1⟩

end Sret
