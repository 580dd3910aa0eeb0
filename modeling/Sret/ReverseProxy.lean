import Sret.Frame
import Sret.Health
import Sret.RoutingSpec
import Sret.ServerCache

namespace Sret

open Text Transition

/-!
# The server as a reverse proxy

What a server is for, as a transition system of its own, and the running server against it.  The
specification has no router, no cache and no checkers: it has the configuration, the verdicts on
the targets, the requests with what has become of them, and the responses that may be replayed.
Between the assignment of a request and its answer stands the client: it sends a request to the URL,
follows redirects, and ends with a response or without one.  Who has sent that response is not said.

* `ReverseProxy.Setup.Offers`, `ReverseProxy.Setup.Assigns` — a route offers a target; the first
  route that offers any is the one that a request goes to;
* `ReverseProxy.Action.Step` — one step of the specification;
* `Event.action` — what a step of the server is there, if it is anything: looking up in vain, the
  work of the puts and the beginning of a check are not;
* `ReverseProxy.Shows` — a state of the server against one of the specification;
* `yields_iff_offers` — a route yields a target in the router exactly if it offers one;
* `shows_of_run` — every run of a server of a validated configuration is one of the specification.
-/

/-! ### The specification -/

/-- How far a request has come. -/
inductive ReverseProxy.Progress
  | received
  /-- It has been assigned to the target, and the client's request to the URL is under way. -/
  | sent (ref : TargetRef) (url : Str)
  | answered (response : Response)

/-- The state of the specification. -/
structure ReverseProxy where
  /-- The targets that may be used. -/
  up : TargetRef → Bool
  exchanges : List (Request × ReverseProxy.Progress)
  /-- The responses that may be replayed, under their keys. -/
  remembered : List (Str × Response)

namespace ReverseProxy

/-- What a proxy is set up with. -/
structure Setup where
  platform : Platform
  routes : List RouteConfig
  upstreams : List UpstreamConfig
  hasCache : Bool

/-- Every target may be used until it has been judged. -/
def start : ReverseProxy where
  up _ := true
  exchanges := []
  remembered := []

/-- The proxy with another stage of an exchange. -/
def setProgress (x : ReverseProxy) (i : Nat) (request : Request) (progress : Progress) :
    ReverseProxy :=
  { x with exchanges := x.exchanges.set i (request, progress) }

/-- The route, as the router has it. -/
def routeOf (route : RouteConfig) : Route where
  domains := route.domains.getD []
  paths := route.paths.getD []
  upstreamId := route.upstream

/-- The target with the index may be used for a request, under weights only with a positive one. -/
structure Ready (uc : UpstreamConfig) (up : TargetRef → Bool) (index : Nat) (tc : TargetConfig) :
    Prop where
  place : uc.targets[index]? = some tc
  up : up ⟨uc.id, index⟩ = true
  weight : uc.strategy.getD LoadBalancerStrategy.default = .weightedRoundRobin → 0 < tc.getWeight

/-- The route is one for the request, and the target one of its upstream that may be used. -/
def Setup.Offers (setup : Setup) (up : TargetRef → Bool) (request : Request) (route : RouteConfig)
    (ref : TargetRef) (tc : TargetConfig) : Prop :=
  (routeOf route).Matches setup.platform (requestHost request) request.uri.path ∧
    ∃ uc ∈ setup.upstreams, uc.id = route.upstream ∧ ref.upstreamId = uc.id ∧
      Ready uc up ref.index tc

/-- The first route that offers a target offers this one, and its first path with which the path of
    the request begins is the prefix. -/
def Setup.Assigns (setup : Setup) (up : TargetRef → Bool) (request : Request) (ref : TargetRef)
    (tc : TargetConfig) (matchedPrefix : Option Str) : Prop :=
  ∃ (k : Nat) (route : RouteConfig), setup.routes[k]? = some route ∧
    setup.Offers up request route ref tc ∧
    (∀ j < k, ∀ earlier, setup.routes[j]? = some earlier →
      ∀ ref' tc', ¬ setup.Offers up request earlier ref' tc') ∧
    matchedPrefix = (route.paths.getD []).find? (startsWith request.uri.path)

/-- What is remembered of the response to a request. -/
def Setup.keeps (setup : Setup) (request : Request) (response : Response) :
    List (Str × Response) :=
  match cacheKey setup.hasCache request with
  | some key =>
    if ResponseCache.isCacheable response.status response.headers then [(key, response)] else []
  | none => []

/-- The second response is the first, with two lines that say that it is replayed and how old it
    is. -/
def Replays (stored response : Response) : Prop :=
  response.status = stored.status ∧ response.body = stored.body ∧
    ∃ hit age seconds, response.headers =
        (stored.headers.append HeaderName.xCache hit).append HeaderName.xCacheAge age ∧
      hit.toStr = some "hit".toList ∧ age.toStr = some (decimal seconds)

/-- What a proxy does, as far as it can be told from its exchanges and its targets. -/
inductive Action
  | receive (request : Request)
  /-- The answer is one that is remembered. -/
  | recall (exchange : Nat) (response : Response)
  /-- The request is assigned to the target. -/
  | forward (exchange : Nat) (ref : TargetRef) (matchedPrefix : Option Str)
  /-- No route offers a target. -/
  | refuse (exchange : Nat)
  /-- The client's request has ended with the response, which is the answer. -/
  | relay (exchange : Nat) (response : Response)
  /-- The client's request has failed. -/
  | fail (exchange : Nat)
  /-- A target has been checked. -/
  | judge (ref : TargetRef) (up : Bool)

/-- The action takes the proxy from one state to the next. -/
def Action.Step (setup : Setup) (x : ReverseProxy) (a : Action) (x' : ReverseProxy) : Prop :=
  match a with
  | .receive request => x' = { x with exchanges := x.exchanges ++ [(request, .received)] }
  | .recall i response => ∃ request key stored, x.exchanges[i]? = some (request, .received) ∧
      cacheKey setup.hasCache request = some key ∧ (key, stored) ∈ x.remembered ∧
      Replays stored response ∧ x' = x.setProgress i request (.answered response)
  | .forward i ref matchedPrefix => ∃ request tc rest, x.exchanges[i]? = some (request, .received) ∧
      setup.Assigns x.up request ref tc matchedPrefix ∧
      matchedPrefix.getD [] ++ rest = request.uri.path ∧
      x' = x.setProgress i request
        (.sent ref (targetUrl (Target.new tc) rest request.uri.query))
  | .refuse i => ∃ request, x.exchanges[i]? = some (request, .received) ∧
      (∀ route ∈ setup.routes, ∀ ref tc, ¬ setup.Offers x.up request route ref tc) ∧
      x' = x.setProgress i request (.answered notFound)
  | .relay i response => ∃ request ref url, x.exchanges[i]? = some (request, .sent ref url) ∧
      x' = { x.setProgress i request (.answered response) with
        remembered := x.remembered ++ setup.keeps request response }
  | .fail i => ∃ request ref url, x.exchanges[i]? = some (request, .sent ref url) ∧
      x' = x.setProgress i request (.answered badGateway)
  | .judge ref up => x' = { x with up := Function.update x.up ref up }

end ReverseProxy

/-! ### The server -/

/-- What a step of the server is for the proxy. -/
def Event.action : Event → Option ReverseProxy.Action
  | .accept request => some (.receive request)
  | .lookup i _ (some response) => some (.recall i response)
  | .lookup _ _ none => none
  | .route i _ (some d) => some (.forward i d.ref d.matchedPrefix)
  | .route i _ none => some (.refuse i)
  | .finish i (.replied response) => some (.relay i response)
  | .finish i _ => some (.fail i)
  | .verdict _ ref _ isHealthy _ => some (.judge ref isHealthy)
  | .prepare _ _ | .commit _ _ _ _ | .probe _ => none

namespace ReverseProxy

/-- The setup of a server. -/
def Setup.of (p : Platform) (config : Config) (serverConfig : ServerConfig) : Setup where
  platform := p
  routes := serverConfig.routes
  upstreams := config.upstreams
  hasCache := serverConfig.cache.isSome

/-- How far an exchange of the server has come. -/
def progress (x : Exchange) : Progress :=
  match x.stage with
  | .lookup _ | .route => .received
  | .forwarding d => .sent d.ref (routedUrl d x.request)
  | .answered response => .answered response

/-- The state of the server, as the proxy has it. -/
structure Shows (s : State) (x : ReverseProxy) : Prop where
  exchanges : x.exchanges = s.exchanges.map fun e => (e.request, progress e)
  up : ∀ ref t, s.router.getTarget ref = some t → x.up ref = t.isHealthy
  remembered : ∀ t ∈ s.puts, ResponseCache.isCacheable t.response.status t.response.headers = true →
    (t.key, t.response) ∈ x.remembered

/-! ### Routes -/

/-- A candidate of an upstream is a target that may be used. -/
theorem ready_of_mem_candidates {uc : UpstreamConfig} {u : Upstream} {up : TargetRef → Bool}
    (hconfigured : Upstream.Configured uc u)
    (hup : ∀ (i : Nat) t, u.targets[i]? = some t → up ⟨uc.id, i⟩ = t.isHealthy) {a : TargetArc}
    (ha : a ∈ u.candidates) :
    ∃ tc, Ready uc up a.index tc ∧ a.target.configured = Target.new tc := by
  obtain ⟨hplace, hhealthy, hweight⟩ := Upstream.mem_candidates.mp ha
  -- the candidate stands at the position of a configured target
  obtain ⟨tc, htc, htarget⟩ := hconfigured.target hplace
  refine ⟨tc, ⟨htc, ?_, fun hstrategy => ?_⟩, htarget⟩
  · rw [hup a.index a.target hplace, hhealthy]
  · have hpos := hweight (hconfigured.strategy.trans hstrategy)
    rwa [← Target.configured_weight, htarget] at hpos

/-- A target that may be used is a candidate of its upstream. -/
theorem exists_candidate_of_ready {uc : UpstreamConfig} {u : Upstream} {up : TargetRef → Bool}
    (hconfigured : Upstream.Configured uc u)
    (hup : ∀ (i : Nat) t, u.targets[i]? = some t → up ⟨uc.id, i⟩ = t.isHealthy) {index : Nat}
    {tc : TargetConfig} (h : Ready uc up index tc) : ∃ a, a ∈ u.candidates := by
  obtain ⟨hlt, -⟩ := List.getElem?_eq_some_iff.mp h.place
  rw [← hconfigured.length_targets] at hlt
  have hplace := List.getElem?_eq_getElem hlt
  -- what may be used is healthy in the router
  have hhealthy : (u.targets[index]).isHealthy = true := by rw [← hup index _ hplace, h.up]
  exact ⟨_, hconfigured.mem_candidates hplace h.place hhealthy h.weight⟩

/-- The router, as the proxy has it. -/
structure Agrees (setup : Setup) (r : Router) (up : TargetRef → Bool) : Prop where
  routes : r.routes = setup.routes.map routeOf
  configured : ∀ uc ∈ setup.upstreams, ∃ u, r.getUpstream uc.id = some u ∧ Upstream.Configured uc u
  known : ∀ id u, r.getUpstream id = some u → ∃ uc ∈ setup.upstreams, uc.id = id
  up : ∀ ref t, r.getTarget ref = some t → up ref = t.isHealthy

variable {setup : Setup} {r r' : Router} {up : TargetRef → Bool} {request : Request} {pick : Nat}

theorem Agrees.up_targets (h : Agrees setup r up) {uc : UpstreamConfig} {u : Upstream}
    (hu : r.getUpstream uc.id = some u) (i : Nat) (t : Target) (ht : u.targets[i]? = some t) :
    up ⟨uc.id, i⟩ = t.isHealthy := by
  apply h.up
  simp [Router.getTarget, hu, ht]

/-- **A route yields a target if it offers one.** -/
theorem yields_iff_offers (h : Agrees setup r up) (route : RouteConfig) :
    Yields setup.platform r (requestHost request) request.uri.path pick (routeOf route) ↔
      ∃ ref tc, setup.Offers up request route ref tc := by
  constructor
  · -- the upstream of the router is that of the configuration, and what it selects is ready
    rintro ⟨hmatches, u, hu, hsome⟩
    obtain ⟨uc, huc, hid⟩ := h.known _ u hu
    obtain ⟨u', hu', hconfigured⟩ := h.configured uc huc
    obtain rfl : u' = u := by
      rw [hid, hu] at hu'
      exact (Option.some.inj hu').symm
    obtain ⟨a, ha⟩ := Option.isSome_iff_exists.mp hsome
    obtain ⟨tc, hready, -⟩ := ready_of_mem_candidates hconfigured (h.up_targets (hid ▸ hu))
      (Upstream.selectTarget_mem_candidates ha)
    exact ⟨⟨uc.id, a.index⟩, tc, hmatches, uc, huc, hid, rfl, hready⟩
  · rintro ⟨ref, tc, hmatches, uc, huc, hid, -, hready⟩
    obtain ⟨u, hu, hconfigured⟩ := h.configured uc huc
    obtain ⟨a, ha⟩ := exists_candidate_of_ready hconfigured (h.up_targets hu) hready
    have hu' : r.getUpstream (routeOf route).upstreamId = some u := (congrArg _ hid).symm.trans hu
    refine ⟨hmatches, u, hu', Option.isSome_iff_ne_none.mpr fun hnone => ?_⟩
    rw [Upstream.selectTarget_eq_none] at hnone
    simp [hnone] at ha

/-- A request that is not routed is offered nothing. -/
theorem no_offer_of_unrouted (h : Agrees setup r up)
    (hnone : (r.routeRequest setup.platform (requestHost request) request.uri.path pick).1 = none) :
    ∀ route ∈ setup.routes, ∀ ref tc, ¬ setup.Offers up request route ref tc := by
  intro route hroute ref tc hoffers
  have hyields := (routeFrom_eq_none_iff r.routes).mp hnone (routeOf route)
    (by rw [h.routes]; exact List.mem_map_of_mem hroute)
  exact hyields ((yields_iff_offers h route).mpr ⟨ref, tc, hoffers⟩)

/-- A request that is routed is so by the first route that yields. -/
theorem exists_firstYielding {p : Platform} {host : Option Str} {path : Str}
    (hsome : (r.routeRequest p host path pick).1.isSome = true) :
    ∃ i route, FirstYielding p r host path pick i route := by
  classical
  -- some route yields, so there is a first one
  have hyields : ∃ (i : Nat) (route : Route), r.routes[i]? = some route ∧
      Yields p r host path pick route := by
    by_contra hnone
    rw [Option.isSome_iff_ne_none] at hsome
    refine hsome ((routeFrom_eq_none_iff r.routes).mpr fun route hroute hy => ?_)
    obtain ⟨i, hi⟩ := List.mem_iff_getElem?.mp hroute
    exact hnone ⟨i, route, hi, hy⟩
  obtain ⟨route, hplace, hroute⟩ := Nat.find_spec hyields
  refine ⟨Nat.find hyields, route, hplace, hroute, fun j hj earlier hearlier hy => ?_⟩
  exact Nat.find_min hyields hj ⟨earlier, hearlier, hy⟩

/-- **A request that is routed is assigned.**  Its URL is made of the address of the target and of
    the path without the prefix. -/
theorem assigns_of_routed (h : Agrees setup r up) {d : Routed}
    (hrouted : r.routeRequest setup.platform (requestHost request) request.uri.path pick =
      (some d, r')) :
    ∃ tc rest, setup.Assigns up request d.ref tc d.matchedPrefix ∧
      d.matchedPrefix.getD [] ++ rest = request.uri.path ∧
      routedUrl d request = targetUrl (Target.new tc) rest request.uri.query := by
  obtain ⟨k, route', hfirst⟩ := exists_firstYielding (by rw [hrouted]; rfl)
  obtain ⟨d', r'', hrouted', hby⟩ := routedBy_of_firstYielding hfirst
  obtain ⟨rfl, rfl⟩ : d = d' ∧ r' = r'' := by simpa [hrouted] using hrouted'
  -- the route is a configured one, and so is its upstream
  obtain ⟨route, hplace, rfl⟩ : ∃ route, setup.routes[k]? = some route ∧
      routeOf route = route' := by
    have hplace := hfirst.place
    rwa [h.routes, List.getElem?_map, Option.map_eq_some_iff] at hplace
  obtain ⟨u, hu, hselect, -⟩ := hby.selected
  obtain ⟨uc, huc, hid⟩ := h.known _ u hu
  obtain ⟨u', hu', hconfigured⟩ := h.configured uc huc
  obtain rfl : u' = u := by
    rw [hid, hu] at hu'
    exact (Option.some.inj hu').symm
  obtain ⟨tc, hready, htarget⟩ := ready_of_mem_candidates hconfigured (h.up_targets (hid ▸ hu))
    (Upstream.selectTarget_mem_candidates hselect)
  -- the address of a target is a configured one
  have hurl : ∀ rest, targetPath d.matchedPrefix request.uri.path = rest →
      routedUrl d request = targetUrl (Target.new tc) rest request.uri.query := by
    rintro rest rfl
    rw [← htarget]
    rfl
  have hassigns : setup.Assigns up request d.ref tc d.matchedPrefix := by
    refine ⟨k, route, hplace, ⟨hfirst.yields.1, uc, huc, hid, ?_, hready⟩, ?_, hby.matchedPrefix⟩
    · exact hby.upstreamId.trans hid.symm
    · intro j hj earlier hearlier ref' tc' hoffers
      refine hfirst.first j hj (routeOf earlier) ?_ ((yields_iff_offers h earlier).mpr
        ⟨ref', tc', hoffers⟩)
      rw [h.routes, List.getElem?_map, hearlier]
      rfl
  cases hprefix : d.matchedPrefix with
  | none =>
    refine ⟨tc, request.uri.path, hprefix ▸ hassigns, rfl, hurl _ (hby.whole hprefix)⟩
  | some pre =>
    obtain ⟨rest, -, hrest, hsplit⟩ := hby.stripped pre hprefix
    exact ⟨tc, rest, hprefix ▸ hassigns, hsplit, hurl _ hrest⟩

/-! ### Steps -/

section Runs

variable {File Cert Key Acceptor : Type} {lib : TlsLibrary File Cert Key Acceptor} {p : Platform}
  {config : Config} {serverConfig : ServerConfig} {tr : List Event} {s s' : State}
  {x : ReverseProxy} {e : Event}

/-- The router of a running server agrees with the proxy. -/
theorem Shows.agrees (hshows : Shows s x) (hvalid : config.validate = .ok ())
    (hrun : Run (Event.Step p) (State.initial (Server.new lib config serverConfig)) tr s) :
    Agrees (Setup.of p config serverConfig) s.router x.up where
  routes := hrun.invariant (fun s => s.router.routes = serverConfig.routes.map routeOf) rfl
    fun _ _ _ h hstep => (routes_of_step hstep).trans h
  configured _ huc := upstream_of_run hvalid hrun huc
  known _ _ hu := exists_config_of_run hrun hu
  up := hshows.up

/-- A step that completes no check leaves the flags as the proxy has them. -/
theorem Shows.up_of_step (hshows : Shows s x) (hstep : e.Step p s s')
    (h : ∀ c ref reply isHealthy now, e ≠ .verdict c ref reply isHealthy now) (ref : TargetRef)
    (t : Target) (ht : s'.router.getTarget ref = some t) : x.up ref = t.isHealthy :=
  hshows.up ref t ((getTarget_of_step hstep h ref).symm.trans ht)

/-- After a step a put may insert what is remembered, or the response with which the request of an
    exchange has just ended. -/
theorem Shows.remembered_of_step (hshows : Shows s x) (hstep : e.Step p s s') {t : PutTask}
    (ht : t ∈ s'.puts)
    (hcacheable : ResponseCache.isCacheable t.response.status t.response.headers = true) :
    (t.key, t.response) ∈ x.remembered ∨
      ∃ i y response, e = .finish i (.replied response) ∧ s.exchanges[i]? = some y ∧
        cacheKey s.cache.isSome y.request = some t.key ∧ t.response = relayedResponse response := by
  obtain ⟨q, hq⟩ := List.mem_iff_getElem?.mp ht
  rcases put_cases_of_step hstep hq with hold | ⟨y, response, he, hy, hkey, hresponse, -⟩ |
    ⟨t', _, _, -, ht', -, rfl⟩ | ⟨t', _, _, _, -, ht', -, -, rfl⟩
  · exact Or.inl (hshows.remembered t (List.mem_of_getElem? hold) hcacheable)
  · exact Or.inr ⟨t.exchange, y, response, he, hy, hkey, hresponse⟩
  · exact Or.inl (hshows.remembered t' (List.mem_of_getElem? ht') hcacheable)
  · exact Or.inl (hshows.remembered t' (List.mem_of_getElem? ht') hcacheable)

/-- An exchange as the proxy has it. -/
theorem Shows.exchange (hshows : Shows s x) {i : Nat} {y : Exchange}
    (hy : s.exchanges[i]? = some y) :
    x.exchanges[i]? = some (y.request, progress y) := by
  rw [hshows.exchanges, List.getElem?_map, hy]
  rfl

/-- An exchange moves on in the server and in the proxy. -/
theorem Shows.exchanges_set (hshows : Shows s x) (i : Nat) (y : Exchange) (stage : Stage) :
    x.exchanges.set i (y.request, progress (y.to stage)) =
      (s.exchanges.set i (y.to stage)).map fun e => (e.request, progress e) := by
  rw [hshows.exchanges, List.map_set]
  rfl

/-- **What a hit replays is remembered.** -/
theorem Shows.exists_remembered (hshows : Shows s x)
    (hrun : Run (Event.Step p) (State.initial (Server.new lib config serverConfig)) tr s) {i : Nat}
    {now : Instant} {hit : Response} {y : Exchange} {key : Str}
    (hstep : Event.Step p s (.lookup i now (some hit)) s') (hy : s.exchanges[i]? = some y)
    (hstage : y.stage = .lookup key) :
    ∃ stored, (key, stored) ∈ x.remembered ∧ Replays stored hit := by
  obtain ⟨q, entry, hwrite, -, rfl⟩ := lastWrite_of_hit hrun hstep hy hstage
  obtain ⟨victim, hcommit⟩ := commit_of_lastWrite hwrite
  -- the entry was made by a put, whose response is remembered
  obtain ⟨t, ht, rfl, -, clock, ttl, -, hready⟩ :=
    (putInvariant_of_run (State.quiet_initial _) hrun).written q _ entry victim hcommit
  obtain ⟨hcacheable, -, hbody, hstatus, hheaders, -⟩ := ResponseCache.preparePut_ready hready
  refine ⟨t.response, hshows.remembered t (List.mem_of_getElem? ht) hcacheable, hstatus, hbody, ?_⟩
  rw [← hheaders]
  exact ⟨_, _, _, rfl, HeaderValue.toStr_ofStr _ _, HeaderValue.toStr_ofStr _ _⟩

/-- A completed check judges its target in the proxy too. -/
theorem Shows.up_of_verdict (hshows : Shows s x) (hvalid : config.validate = .ok ())
    (hrun : Run (Event.Step p) (State.initial (Server.new lib config serverConfig)) tr s) {c : Nat}
    {ref : TargetRef} {reply : Option StatusCode} {isHealthy : Bool} {now : Instant}
    (hstep : Event.Step p s (.verdict c ref reply isHealthy now) s') (ref' : TargetRef)
    (t : Target) (ht : s'.router.getTarget ref' = some t) :
    Function.update x.up ref isHealthy ref' = t.isHealthy := by
  by_cases href : ref' = ref
  · obtain rfl := href
    rw [Function.update_self]
    -- the flag is the verdict, whether the step has written it or not
    have hflag := (healthInvariant_of_run hvalid (hrun.snoc hstep)).2.flag ref' t ht
    rw [lastVerdict_snoc, Event.verdictOn, if_pos rfl] at hflag
    exact hflag.symm
  · rw [Function.update_of_ne href]
    obtain ⟨k, was, -, -, -, -, rfl⟩ := hstep
    rw [getTarget_applyVerdict, if_neg fun h => href h.2.symm] at ht
    exact hshows.up ref' t ht

/-- A state of the proxy that shows the state after the step, and is reached from the one before by
    what the step is for the proxy. -/
def Follows (setup : Setup) (x : ReverseProxy) (e : Event) (s' : State) : Prop :=
  ∃ x', Shows s' x' ∧
    ((∃ a, e.action = some a ∧ a.Step setup x x') ∨ e.action = none ∧ x' = x)

/-- A step that concerns neither the proxy's exchanges nor its targets. -/
theorem Shows.follows_silent (hshows : Shows s x) (hstep : e.Step p s s')
    (hverdict : ∀ c ref reply isHealthy now, e ≠ .verdict c ref reply isHealthy now)
    (hfinish : ∀ i outcome, e ≠ .finish i outcome) (haction : e.action = none)
    (hexchanges : (s'.exchanges.map fun e => (e.request, progress e)) =
      s.exchanges.map fun e => (e.request, progress e)) (setup : Setup) :
    Follows setup x e s' := by
  refine ⟨x, ⟨hshows.exchanges.trans hexchanges.symm, hshows.up_of_step hstep hverdict, ?_⟩,
    Or.inr ⟨haction, rfl⟩⟩
  intro t ht hcacheable
  refine (hshows.remembered_of_step hstep ht hcacheable).resolve_right ?_
  rintro ⟨i, _, _, he, -⟩
  exact hfinish i _ he

/-- A step that moves an exchange on, other than by a response to the client's request. -/
theorem Shows.follows_moved (hshows : Shows s x) (hstep : e.Step p s s')
    (hverdict : ∀ c ref reply isHealthy now, e ≠ .verdict c ref reply isHealthy now)
    (hfinish : ∀ i response, e ≠ .finish i (.replied response)) {i : Nat} {y : Exchange}
    {stage : Stage} (hexchanges : s'.exchanges = s.exchanges.set i (y.to stage)) {a : Action}
    (haction : e.action = some a) {setup : Setup}
    (ha : a.Step setup x (x.setProgress i y.request (progress (y.to stage)))) :
    Follows setup x e s' := by
  refine ⟨x.setProgress i y.request (progress (y.to stage)),
    ⟨?_, hshows.up_of_step hstep hverdict, ?_⟩, Or.inl ⟨a, haction, ha⟩⟩
  · rw [hexchanges]
    exact hshows.exchanges_set i y stage
  · intro t ht hcacheable
    refine (hshows.remembered_of_step hstep ht hcacheable).resolve_right ?_
    rintro ⟨j, _, response, he, -⟩
    exact hfinish j response he

/-- The client's request ends. -/
theorem Shows.follows_finish (hshows : Shows s x)
    (hrun : Run (Event.Step p) (State.initial (Server.new lib config serverConfig)) tr s) {i : Nat}
    {outcome : Outcome} (hstep : Event.Step p s (.finish i outcome) s') :
    Follows (Setup.of p config serverConfig) x (.finish i outcome) s' := by
  obtain ⟨y, d, hy, hstage, hs'⟩ := id hstep
  have hx : x.exchanges[i]? = some (y.request, .sent d.ref (routedUrl d y.request)) := by
    rw [hshows.exchange hy, progress, hstage]
  cases outcome with
  | replied response =>
    refine ⟨{ x.setProgress i y.request (.answered response) with
      remembered := x.remembered ++ (Setup.of p config serverConfig).keeps y.request response },
      ⟨?_, hshows.up_of_step hstep (by simp), ?_⟩, Or.inl ⟨_, rfl, _, _, _, hx, rfl⟩⟩
    · rw [hs']
      exact hshows.exchanges_set i y (.answered (relayedResponse response))
    · intro t ht hcacheable
      rcases hshows.remembered_of_step hstep ht hcacheable with hold |
        ⟨j, z, response', he, hz, hkey, hresponse⟩
      · exact List.mem_append_left _ hold
      · -- the put that the step has spawned
        obtain ⟨rfl, houtcome⟩ := Event.finish.inj he
        obtain rfl := Outcome.replied.inj houtcome
        obtain rfl : y = z := Option.some.inj (hy.symm.trans hz)
        have hcache : s.cache.isSome = serverConfig.cache.isSome :=
          (cache_isSome_of_run hrun).trans (Option.isSome_map ..)
        rw [hcache] at hkey
        refine List.mem_append_right _ ?_
        rw [hresponse, show relayedResponse response = response from rfl] at hcacheable ⊢
        simp only [Setup.keeps, Setup.of, hkey]
        rw [if_pos hcacheable]
        exact List.mem_singleton_self _
  | bodyFailed =>
    exact hshows.follows_moved hstep (by simp) (by simp) (congrArg State.exchanges hs') rfl
      ⟨_, _, _, hx, rfl⟩
  | sendFailed =>
    exact hshows.follows_moved hstep (by simp) (by simp) (congrArg State.exchanges hs') rfl
      ⟨_, _, _, hx, rfl⟩
  | readFailed =>
    exact hshows.follows_moved hstep (by simp) (by simp) (congrArg State.exchanges hs') rfl
      ⟨_, _, _, hx, rfl⟩

/-- An exchange asks the router. -/
theorem Shows.follows_route (hshows : Shows s x) (hvalid : config.validate = .ok ())
    (hrun : Run (Event.Step p) (State.initial (Server.new lib config serverConfig)) tr s)
    {i pick : Nat} {routed : Option Routed} (hstep : Event.Step p s (.route i pick routed) s') :
    Follows (Setup.of p config serverConfig) x (.route i pick routed) s' := by
  have hagrees := hshows.agrees hvalid hrun
  obtain ⟨y, hy, hstage, hrouted, hs'⟩ := id hstep
  have hx : x.exchanges[i]? = some (y.request, .received) := by
    rw [hshows.exchange hy, progress, hstage]
  cases routed with
  | none =>
    exact hshows.follows_moved hstep (by simp) (by simp) (congrArg State.exchanges hs') rfl
      ⟨_, hx, no_offer_of_unrouted hagrees hrouted, rfl⟩
  | some d =>
    obtain ⟨tc, rest, hassigns, hsplit, hurl⟩ :=
      assigns_of_routed hagrees (Prod.ext hrouted rfl)
    refine hshows.follows_moved hstep (by simp) (by simp) (congrArg State.exchanges hs') rfl
      ⟨_, tc, rest, hx, hassigns, hsplit, ?_⟩
    rw [← hurl]
    rfl

/-- A new request. -/
theorem Shows.follows_accept (hshows : Shows s x) {request : Request}
    (hstep : Event.Step p s (.accept request) s') (setup : Setup) :
    Follows setup x (.accept request) s' := by
  refine ⟨{ x with exchanges := x.exchanges ++ [(request, .received)] },
    ⟨?_, hshows.up_of_step hstep (by simp), ?_⟩, Or.inl ⟨_, rfl, rfl⟩⟩
  · obtain rfl := hstep
    have hnew : progress (Exchange.start s.cache.isSome request) = .received := by
      unfold Exchange.start
      cases cacheKey s.cache.isSome request <;> rfl
    rw [List.map_append, ← hshows.exchanges, List.map_singleton, hnew]
    rfl
  · obtain rfl := hstep
    exact hshows.remembered

/-- A server that looks keys up has a cache. -/
theorem isSome_of_lookup
    (hrun : Run (Event.Step p) (State.initial (Server.new lib config serverConfig)) tr s) {i : Nat}
    {now : Instant} {result : Option Response} (hstep : Event.Step p s (.lookup i now result) s') :
    serverConfig.cache.isSome = true := by
  obtain ⟨_, _, c, -, -, hc, -⟩ := hstep
  have hsome : s.cache.isSome = serverConfig.cache.isSome :=
    (cache_isSome_of_run hrun).trans (Option.isSome_map ..)
  rw [← hsome, hc, Option.isSome_some]

/-- An exchange looks its key up. -/
theorem Shows.follows_lookup (hshows : Shows s x)
    (hrun : Run (Event.Step p) (State.initial (Server.new lib config serverConfig)) tr s) {i : Nat}
    {now : Instant} {result : Option Response} (hstep : Event.Step p s (.lookup i now result) s') :
    Follows (Setup.of p config serverConfig) x (.lookup i now result) s' := by
  obtain ⟨y, key, _, hy, hstage, -, -, hs'⟩ := id hstep
  cases result with
  | none =>
    refine hshows.follows_silent hstep (by simp) (by simp) rfl ?_ _
    rw [hs']
    exact Tasks.map_set _ hy (by simp [Exchange.to, progress, hstage])
  | some hit =>
    have hx : x.exchanges[i]? = some (y.request, .received) := by
      rw [hshows.exchange hy, progress, hstage]
    obtain ⟨stored, hstored, hreplays⟩ := hshows.exists_remembered hrun hstep hy hstage
    have hkey : cacheKey (Setup.of p config serverConfig).hasCache y.request = some key := by
      show cacheKey serverConfig.cache.isSome y.request = some key
      rw [isSome_of_lookup hrun hstep]
      exact keyedLookups_of_run (State.quiet_initial _) hrun i y key hy hstage
    exact hshows.follows_moved hstep (by simp) (by simp) (congrArg State.exchanges hs') rfl
      ⟨_, key, stored, hx, hkey, hstored, hreplays, rfl⟩

/-- **A step of the server is a step of the proxy, or none.** -/
theorem Shows.step (hshows : Shows s x) (hvalid : config.validate = .ok ())
    (hrun : Run (Event.Step p) (State.initial (Server.new lib config serverConfig)) tr s)
    (hstep : e.Step p s s') : Follows (Setup.of p config serverConfig) x e s' := by
  cases e with
  | accept request => exact hshows.follows_accept hstep _
  | lookup i now result => exact hshows.follows_lookup hrun hstep
  | route i pick routed => exact hshows.follows_route hvalid hrun hstep
  | finish i outcome => exact hshows.follows_finish hrun hstep
  | prepare q clock =>
    refine hshows.follows_silent hstep (by simp) (by simp) rfl ?_ _
    obtain ⟨_, _, _, _, _, rfl⟩ := hstep
    rfl
  | commit q key entry victim =>
    refine hshows.follows_silent hstep (by simp) (by simp) rfl ?_ _
    obtain ⟨_, _, _, _, _, _, _, _, _, rfl⟩ := hstep
    rfl
  | probe c =>
    refine hshows.follows_silent hstep (by simp) (by simp) rfl ?_ _
    obtain ⟨_, _, _, _, _, _, _, rfl⟩ := hstep
    rfl
  | verdict c ref reply isHealthy now =>
    refine ⟨_, ⟨?_, hshows.up_of_verdict hvalid hrun hstep, ?_⟩, Or.inl ⟨_, rfl, rfl⟩⟩
    · obtain ⟨_, _, _, _, _, _, rfl⟩ := hstep
      exact hshows.exchanges
    · obtain ⟨_, _, _, _, _, _, rfl⟩ := hstep
      exact hshows.remembered

/-- **A server is a reverse proxy.**  Every run of a server of a validated configuration is a run
    of the specification for that configuration, whose last state shows the one of the server. -/
theorem shows_of_run (hvalid : config.validate = .ok ())
    (hrun : Run (Event.Step p) (State.initial (Server.new lib config serverConfig)) tr s) :
    ∃ x, Shows s x ∧
      Run (Action.Step (Setup.of p config serverConfig)) start (tr.filterMap Event.action) x := by
  refine hrun.simulation_of_run Shows Event.action
    (fun _ _ _ _ _ hpre hshows hstep => hshows.step hvalid hpre hstep) ?_
  -- at the start every target is up, and there is no put
  refine ⟨rfl, fun ref t ht => ?_, by simp [State.initial]⟩
  obtain ⟨tc, rfl⟩ := target_of_new_router ht
  rfl

end Runs

end ReverseProxy

end Sret
