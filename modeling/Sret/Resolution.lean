import Sret.System

namespace Sret

open Text KeyedMap Transition

/-!
# Every route finds its upstream

What `Config::validate` gives to `Router::new` and to every later `route_request`.

* `Router.routeFromLogged` — the loop of `route_request` with the warnings that it writes about
  upstreams that do not exist; `routeFromLogged_snd` — the result is the one of `routeFrom`;
* `Router.Complete` — every route of the router finds its upstream; then there is no warning
  (`missingUpstreams_eq_nil`);
* `Router.complete_new`, `Router.Complete.step` — a router of a validated configuration is
  complete, and stays so;
* `router_loses_nothing` — the map of a new router has one upstream for each configured one, and
  the branch of the missing upstream is never taken.
-/

variable {File Cert Key Acceptor : Type}

namespace Router

/-! ### The loop with its warnings -/

/-- The loop of `route_request`, with the ids that it logs as
    `Route references non-existent upstream`. -/
def routeFromLogged (p : Platform) (host : Option Str) (path : Str) (pick : Nat) :
    List Route → Router → List Str × (Option Routed × Router)
  | [], r => ([], (none, r))
  | route :: rest, r =>
    match matchesRouteWithPrefix p route host path with
    | none => routeFromLogged p host path pick rest r
    | some matchedPrefix =>
      match r.getUpstream route.upstreamId with
      | none =>
        let next := routeFromLogged p host path pick rest r
        (route.upstreamId :: next.1, next.2)
      | some upstream =>
        match upstream.selectTarget pick with
        | (some target, upstream') =>
          ([], (some ⟨route.upstreamId, target, matchedPrefix⟩,
            r.setUpstream route.upstreamId upstream'))
        | (none, upstream') =>
          routeFromLogged p host path pick rest (r.setUpstream route.upstreamId upstream')

/-- The warnings aside, it is the loop of `route_request`. -/
theorem routeFromLogged_snd (p : Platform) (host : Option Str) (path : Str) (pick : Nat)
    (routes : List Route) (r : Router) :
    (routeFromLogged p host path pick routes r).2 = routeFrom p host path pick routes r := by
  induction routes generalizing r with
  | nil => rfl
  | cons route rest ih =>
    cases hm : matchesRouteWithPrefix p route host path with
    | none => simpa only [routeFromLogged, routeFrom, hm] using ih r
    | some matchedPrefix =>
      cases hu : r.getUpstream route.upstreamId with
      | none => simpa only [routeFromLogged, routeFrom, hm, hu] using ih r
      | some upstream =>
        rcases hs : upstream.selectTarget pick with ⟨answer, upstream'⟩
        cases answer with
        | some target => simp only [routeFromLogged, routeFrom, hm, hu, hs]
        | none => simpa only [routeFromLogged, routeFrom, hm, hu, hs] using ih _

/-- The upstreams that a call of `route_request` reports as missing. -/
def missingUpstreams (p : Platform) (r : Router) (host : Option Str) (path : Str) (pick : Nat) :
    List Str :=
  (routeFromLogged p host path pick r.routes r).1

/-! ### Complete routers -/

/-- Every one of the routes finds its upstream in the router. -/
def Finds (r : Router) (routes : List Route) : Prop :=
  ∀ route ∈ routes, ∃ u, r.getUpstream route.upstreamId = some u

/-- Every route of the router finds its upstream. -/
def Complete (r : Router) : Prop := r.Finds r.routes

/-- A write to an upstream takes none away. -/
theorem Finds.setUpstream {r : Router} {routes : List Route} (h : r.Finds routes) (id : Str)
    (u : Upstream) : (r.setUpstream id u).Finds routes := by
  intro route hmem
  by_cases hid : route.upstreamId = id
  · exact ⟨u, by rw [hid, getUpstream_setUpstream_self]⟩
  · obtain ⟨w, hw⟩ := h route hmem
    exact ⟨w, by rw [getUpstream_setUpstream_of_ne hid, hw]⟩

/-- Where every route finds its upstream, the loop has nothing to warn about. -/
theorem routeFromLogged_fst_of_finds (p : Platform) (host : Option Str) (path : Str) (pick : Nat)
    {routes : List Route} {r : Router} (h : r.Finds routes) :
    (routeFromLogged p host path pick routes r).1 = [] := by
  induction routes generalizing r with
  | nil => rfl
  | cons route rest ih =>
    have hrest : r.Finds rest := fun route' hmem => h route' (List.mem_cons_of_mem _ hmem)
    obtain ⟨u, hu⟩ := h route List.mem_cons_self
    simp only [routeFromLogged, hu]
    split
    · exact ih hrest
    · split
      · rfl
      · exact ih (hrest.setUpstream _ _)

/-- In a complete router no upstream is missing. -/
theorem missingUpstreams_eq_nil {r : Router} (h : r.Complete) (p : Platform) (host : Option Str)
    (path : Str) (pick : Nat) : r.missingUpstreams p host path pick = [] :=
  routeFromLogged_fst_of_finds p host path pick h

/-- The configured upstreams with the ids under which a router keeps them. -/
def configured (config : Config) : List (Str × Upstream) :=
  config.upstreams.map fun u => (u.id, Upstream.new u)

/-- The ids of a validated configuration are distinct. -/
theorem configured_nodup {config : Config} (hvalid : config.validate = .ok ()) :
    ((configured config).map Prod.fst).Nodup := by
  rw [configured, List.map_map]
  exact (Config.validate_eq_ok.mp hvalid).2.2

/-- The map of a new router has one upstream for each configured one. -/
theorem size_upstreams_new {config : Config} (hvalid : config.validate = .ok ())
    (server : ServerConfig) : size (new config server).upstreams = config.upstreams.length := by
  have hsize := size_collect (configured_nodup hvalid)
  rwa [configured, List.length_map] at hsize

/-- Every configured upstream is in the new router as it was configured. -/
theorem getUpstream_new_of_mem {config : Config} (hvalid : config.validate = .ok ())
    (server : ServerConfig) {u : UpstreamConfig} (hmem : u ∈ config.upstreams) :
    (new config server).getUpstream u.id = some (Upstream.new u) :=
  lookup_collect_of_mem (configured_nodup hvalid) (List.mem_map.mpr ⟨u, hmem, rfl⟩)

/-- The router of a server of a validated configuration is complete. -/
theorem complete_new {config : Config} (hvalid : config.validate = .ok ()) {server : ServerConfig}
    (hserver : server ∈ config.servers) : (new config server).Complete := by
  intro route hroute
  obtain ⟨routeConfig, hmem, rfl⟩ := List.mem_map.mp hroute
  -- the check of `validate` on this route
  have hid := (Config.validate_eq_ok.mp hvalid).1 server hserver routeConfig hmem
  obtain ⟨u, hu, hid⟩ := List.mem_map.mp hid
  refine ⟨Upstream.new u, ?_⟩
  show (new config server).getUpstream routeConfig.upstream = some (Upstream.new u)
  rw [← hid]
  exact getUpstream_new_of_mem hvalid server hu

/-- A call of `route_request` leaves the routes and the set of upstreams as they are. -/
theorem Complete.routeRequest {p : Platform} {r r' : Router} {host : Option Str} {path : Str}
    {pick : Nat} {res : Option Routed} (h : r.Complete)
    (hcall : r.routeRequest p host path pick = (res, r')) : r'.Complete := by
  cases res with
  | none => exact eq_of_routeRequest_none hcall ▸ h
  | some d =>
    obtain ⟨route, -, u, a, -, -, -, -, -, rfl⟩ := resolves_of_routeRequest hcall
    exact h.setUpstream _ _

/-- So does a write to a target. -/
theorem Complete.modifyTarget {r : Router} (h : r.Complete) (ref : TargetRef)
    (f : Target → Target) : (r.modifyTarget ref f).Complete := by
  unfold Router.modifyTarget
  split
  · exact h.setUpstream _ _
  · exact h

end Router

/-! ### The running server -/

/-- **No step takes a route its upstream.** -/
theorem Router.Complete.step {p : Platform} {s s' : State} {e : Event} (h : s.router.Complete)
    (hstep : e.Step p s s') : s'.router.Complete := by
  rcases router_of_step hstep with heq | ⟨_, _, _, _, -, -, hroute⟩ |
    ⟨_, ref, _, isHealthy, now, was, -, heq⟩
  · exact heq ▸ h
  · exact h.routeRequest hroute
  · rw [heq, applyVerdict]
    split
    · exact h.modifyTarget ref _
    · exact h

/-- **A router loses nothing of a validated configuration.**  Its map has as many upstreams as
    are configured, each of them with all its targets in order, which have the host, the port, the
    weight and the health path that the file gives them; every route finds its upstream; and in
    every state that the server reaches `route_request` has no missing upstream to warn about. -/
theorem router_loses_nothing (lib : TlsLibrary File Cert Key Acceptor) (p : Platform)
    (config : Config) (hvalid : config.validate = .ok ()) (serverConfig : ServerConfig)
    (hserver : serverConfig ∈ config.servers) :
    size (Router.new config serverConfig).upstreams = config.upstreams.length ∧
      (∀ uc ∈ config.upstreams, ∃ u, (Router.new config serverConfig).getUpstream uc.id = some u ∧
        u.targets = uc.targets.map Target.new ∧
        (u.targets.map fun t => (t.host, t.port, t.weight, t.healthCheckPath)) =
          uc.targets.map fun tc => (tc.host, tc.port, tc.weight.getD 1, tc.healthCheckPath)) ∧
      (∀ route ∈ (Router.new config serverConfig).routes,
        ∃ u, (Router.new config serverConfig).getUpstream route.upstreamId = some u) ∧
      ∀ tr s, Run (Event.Step p) (State.initial (Server.new lib config serverConfig)) tr s →
        ∀ host path pick, s.router.missingUpstreams p host path pick = [] := by
  refine ⟨Router.size_upstreams_new hvalid serverConfig, fun uc hmem => ?_,
    Router.complete_new hvalid hserver, fun tr s hrun host path pick => ?_⟩
  · refine ⟨_, Router.getUpstream_new_of_mem hvalid serverConfig hmem, rfl, ?_⟩
    rw [Upstream.new, List.map_map]
    rfl
  · have hcomplete := hrun.invariant (fun s => s.router.Complete)
      (Router.complete_new hvalid hserver) fun _ _ _ h hstep => h.step hstep
    exact Router.missingUpstreams_eq_nil hcomplete p host path pick

/-- A server in front of two upstreams, one of them without targets. -/
def shopServer : ServerConfig where
  id := "shop".toList
  bindAddress := "0.0.0.0".toList
  port := 8080
  routes := [
    ⟨none, some ["/cart".toList], "carts".toList⟩,
    ⟨none, some ["/".toList], "pages".toList⟩]
  tls := none
  cache := none

/-- Two upstreams, and a server with a route to each. -/
def shopConfig : Config where
  servers := [shopServer]
  upstreams := [
    ⟨"pages".toList,
      [⟨"127.0.0.1".toList, 3000, none, none⟩, ⟨"127.0.0.1".toList, 3001, none, none⟩], none, none⟩,
    ⟨"carts".toList, [], none, none⟩]

/-- Both upstreams are there, with all their targets. -/
theorem router_loses_nothing_shop :
    size (Router.new shopConfig shopServer).upstreams = 2 ∧
      (∀ uc ∈ shopConfig.upstreams, ∃ u,
        (Router.new shopConfig shopServer).getUpstream uc.id = some u ∧
        u.targets = uc.targets.map Target.new ∧
        (u.targets.map fun t => (t.host, t.port, t.weight, t.healthCheckPath)) =
          uc.targets.map fun tc => (tc.host, tc.port, tc.weight.getD 1, tc.healthCheckPath)) ∧
      (∀ route ∈ (Router.new shopConfig shopServer).routes,
        ∃ u, (Router.new shopConfig shopServer).getUpstream route.upstreamId = some u) ∧
      ∀ tr s, Run (Event.Step Platform.ascii)
          (State.initial (Server.new noFiles shopConfig shopServer)) tr s →
        ∀ host path pick, s.router.missingUpstreams Platform.ascii host path pick = [] :=
  router_loses_nothing noFiles Platform.ascii shopConfig rfl shopServer List.mem_cons_self

end Sret
