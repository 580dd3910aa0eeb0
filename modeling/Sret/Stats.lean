import Sret.Balancing
import Sret.Frame
import Sret.Health

namespace Sret

open Text KeyedMap Transition

/-!
# What a server reports

The read-only functions with which a running server tells its state.  The router keeps its upstreams
in a hash map, so their order is the one in which it iterates, as an argument.

* `Upstream.stats`, `Router.stats`, `Server.stats`, `Router.hasHealthyTargets`,
  `Router.getAllTargets` — the functions;
* `UpstreamConfig.report` — what a report of an upstream should say after a history of checks;
* `upstreams_perm` — an iteration meets the configured upstreams, each once;
* `reports_are_true` — in every state and every order the reports say what is configured and what
  the last checks found, and that there are no connections.
-/

/-- What is reported of an upstream. -/
structure UpstreamStats where
  id : Str
  strategy : LoadBalancerStrategy
  totalTargets : Nat
  healthyTargets : Nat
  totalConnections : Nat
deriving DecidableEq

/-- What is reported of a router. -/
structure RouterStats where
  totalUpstreams : Nat
  totalRoutes : Nat
  upstreamStats : List UpstreamStats

/-- What is reported of a server. -/
structure ServerStats where
  id : Str
  bindAddress : Str
  port : Nat
  routerStats : RouterStats
  hasHealthChecks : Bool

/-- `Upstream::stats`; the sum of the connections wraps around. -/
def Upstream.stats (u : Upstream) : UpstreamStats where
  id := u.id
  strategy := u.strategy
  totalTargets := u.targets.length
  healthyTargets := u.healthyTargetCount
  totalConnections := (u.targets.map Target.activeConnections).sum % usizeSize

namespace Router

/-- `Router::stats`. -/
def stats (r : Router) (iter : List (Str × Upstream)) : RouterStats where
  totalUpstreams := size r.upstreams
  totalRoutes := r.routes.length
  upstreamStats := iter.map fun x => x.2.stats

/-- `Router::has_healthy_targets`. -/
def hasHealthyTargets (iter : List (Str × Upstream)) : Bool :=
  iter.any fun x => x.2.hasHealthyTargets

/-- `Router::get_all_targets`; the id of the upstream tells whose target it is. -/
def getAllTargets (iter : List (Str × Upstream)) : List (Str × TargetArc) :=
  iter.flatMap fun x => x.2.allTargets.map fun a => (x.1, a)

end Router

variable {Acceptor : Type}

/-- `Server::stats`. -/
def Server.stats (server : Server Acceptor) (iter : List (Str × Upstream)) : ServerStats where
  id := server.id
  bindAddress := server.bindAddress
  port := server.port
  routerStats := server.router.stats iter
  hasHealthChecks := server.healthManager.isSome

/-- The server with its router as it is now. -/
def Server.now (server : Server Acceptor) (s : State) : Server Acceptor :=
  { server with router := s.router }

/-! ### What is to be reported -/

/-- The upstream with the results of the last checks; a target that was never checked counts as
    healthy. -/
def UpstreamConfig.report (uc : UpstreamConfig) (tr : List Event) : UpstreamStats where
  id := uc.id
  strategy := uc.strategy.getD LoadBalancerStrategy.default
  totalTargets := uc.targets.length
  healthyTargets :=
    (List.range uc.targets.length).countP fun i => lastVerdict tr ⟨uc.id, i⟩ ≠ some false
  totalConnections := 0

variable {File Cert Key : Type}

section Runs

variable {lib : TlsLibrary File Cert Key Acceptor} {p : Platform} {config : Config}
  {serverConfig : ServerConfig} {tr : List Event} {s : State}

/-- The flags of an upstream are the results of the last checks. -/
theorem map_isHealthy_of_run (hvalid : config.validate = .ok ())
    (hrun : Run (Event.Step p) (State.initial (Server.new lib config serverConfig)) tr s)
    {id : Str} {u : Upstream} (hu : s.router.getUpstream id = some u) :
    u.targets.map Target.isHealthy =
      (List.range u.targets.length).map fun i => decide (lastVerdict tr ⟨id, i⟩ ≠ some false) := by
  refine List.ext_getElem (by simp) fun i hi _ => ?_
  rw [List.length_map] at hi
  have ht : s.router.getTarget ⟨id, i⟩ = some u.targets[i] := by
    simp [Router.getTarget, hu, hi]
  rw [List.getElem_map, List.getElem_map, List.getElem_range, Target.isHealthy,
    (healthInvariant_of_run hvalid hrun).2.flag _ _ ht, Bool.eq_iff_iff, decide_eq_true_iff]
  exact getD_true_iff _

/-- An upstream has a healthy target when the last check of one did not fail. -/
theorem hasHealthyTargets_of_run (hvalid : config.validate = .ok ())
    (hrun : Run (Event.Step p) (State.initial (Server.new lib config serverConfig)) tr s)
    {upstreamId : Str} {u : Upstream} (hu : s.router.getUpstream upstreamId = some u) :
    u.hasHealthyTargets = true ↔
      ∃ i < u.targets.length, lastVerdict tr ⟨upstreamId, i⟩ ≠ some false := by
  have hflags := congrArg (List.any · id) (map_isHealthy_of_run hvalid hrun hu)
  simp only [List.any_map] at hflags
  rw [Upstream.hasHealthyTargets, ← Function.id_comp Target.isHealthy, hflags]
  simp

/-- The report of an upstream. -/
theorem stats_of_configured (hvalid : config.validate = .ok ())
    (hrun : Run (Event.Step p) (State.initial (Server.new lib config serverConfig)) tr s)
    {uc : UpstreamConfig} {u : Upstream} (hu : s.router.getUpstream uc.id = some u)
    (h : Upstream.Configured uc u) : u.stats = uc.report tr := by
  have hcount : u.healthyTargetCount =
      (List.range uc.targets.length).countP fun i => lastVerdict tr ⟨uc.id, i⟩ ≠ some false := by
    have hflags := congrArg (List.countP id) (map_isHealthy_of_run hvalid hrun hu)
    rw [List.countP_map, List.countP_map, h.length_targets] at hflags
    rw [Upstream.healthyTargetCount, ← List.countP_eq_length_filter]
    exact hflags
  have hidle : u.targets.map Target.activeConnections = uc.targets.map fun _ => 0 := by
    have hconnections := congrArg (List.map Target.activeConnections) h.targets
    simpa [Function.comp_def, Target.new] using hconnections
  rw [Upstream.stats, UpstreamConfig.report, h.id, h.strategy, h.length_targets, hcount, hidle]
  simp

/-- **An iteration meets the configured upstreams, each once.** -/
theorem upstreams_perm (hvalid : config.validate = .ok ())
    (hrun : Run (Event.Step p) (State.initial (Server.new lib config serverConfig)) tr s)
    {iter : List (Str × Upstream)} (hiter : Enumerates iter s.router.upstreams) :
    ∃ upstream : UpstreamConfig → Upstream,
      (∀ uc ∈ config.upstreams, s.router.getUpstream uc.id = some (upstream uc) ∧
        Upstream.Configured uc (upstream uc)) ∧
      iter.Perm (config.upstreams.map fun uc => (uc.id, upstream uc)) := by
  have hbound : ∀ uc ∈ config.upstreams,
      s.router.getUpstream uc.id =
        some ((s.router.getUpstream uc.id).getD (Upstream.new uc)) ∧
      Upstream.Configured uc ((s.router.getUpstream uc.id).getD (Upstream.new uc)) := by
    intro uc huc
    obtain ⟨u, hu, hconfigured⟩ := upstream_of_run hvalid hrun huc
    rw [hu, Option.getD_some]
    exact ⟨rfl, hconfigured⟩
  refine ⟨fun uc => (s.router.getUpstream uc.id).getD (Upstream.new uc), hbound, ?_⟩
  exact hiter.perm_map (Config.validate_eq_ok.mp hvalid).2.2 (fun uc huc => (hbound uc huc).1)
    fun id u hu => exists_config_of_run hrun hu

end Runs

/-- Without a healthy target nothing is routed. -/
theorem Router.routeRequest_of_unhealthy {r : Router} {iter : List (Str × Upstream)}
    (hiter : Enumerates iter r.upstreams) (h : hasHealthyTargets iter = false) (p : Platform)
    (host : Option Str) (path : Str) (pick : Nat) :
    (r.routeRequest p host path pick).1 = none := by
  rcases r.routeRequest_cases p host path pick with hnone | ⟨d, r', hsome, hresolves⟩
  · rw [hnone]
  · obtain ⟨route, -, u, a, -, hu, hselect, -⟩ := hresolves
    have hmem := Upstream.mem_candidates.mp (Upstream.selectTarget_mem_candidates hselect)
    have hany : hasHealthyTargets iter = true :=
      List.any_eq_true.mpr ⟨(route.upstreamId, u), hiter.mem_iff.mpr hu,
        List.any_eq_true.mpr ⟨a.target, List.mem_of_getElem? hmem.1, hmem.2.1⟩⟩
    simp [h] at hany

/-- The positions in the list of all targets. -/
theorem Router.getAllTargets_map (iter : List (Str × Upstream)) :
    (getAllTargets iter).map (fun x => (x.1, x.2.index)) =
      iter.flatMap fun x => (List.range x.2.targets.length).map fun i => (x.1, i) := by
  rw [getAllTargets, List.map_flatMap]
  congr 1
  funext x
  rw [← x.2.allTargets_map_index, List.map_map, List.map_map]
  rfl

/-- **The reports are true.**  In every state that a server of a validated configuration reaches, in
    whatever order its upstreams are gone through: the statistics are those of the configuration
    with the results of the last checks, and without connections; there are healthy targets exactly
    when the last check of some target did not fail, and if there are none no request is routed; and
    the list of all targets has each configured one once. -/
theorem reports_are_true (lib : TlsLibrary File Cert Key Acceptor) (p : Platform) (config : Config)
    (hvalid : config.validate = .ok ()) (serverConfig : ServerConfig) (tr : List Event) (s : State)
    (hrun : Run (Event.Step p) (State.initial (Server.new lib config serverConfig)) tr s)
    (iter : List (Str × Upstream)) (hiter : Enumerates iter s.router.upstreams) :
    (∃ reports, ((Server.new lib config serverConfig).now s).stats iter =
        ⟨serverConfig.id, serverConfig.bindAddress, serverConfig.port,
          ⟨config.upstreams.length, serverConfig.routes.length, reports⟩,
          config.upstreams.any fun uc => uc.healthCheck.isSome⟩ ∧
      reports.Perm (config.upstreams.map fun uc => uc.report tr)) ∧
    (Router.hasHealthyTargets iter = true ↔
      ∃ uc ∈ config.upstreams, ∃ i < uc.targets.length, lastVerdict tr ⟨uc.id, i⟩ ≠ some false) ∧
    (Router.hasHealthyTargets iter = false → ∀ host path pick,
      (s.router.routeRequest p host path pick).1 = none) ∧
    ((Router.getAllTargets iter).map fun x => (x.1, x.2.index)).Perm
      (config.upstreams.flatMap fun uc => (List.range uc.targets.length).map fun i => (uc.id, i)) :=
  by
  obtain ⟨upstream, hupstream, hperm⟩ := upstreams_perm hvalid hrun hiter
  refine ⟨⟨iter.map fun x => x.2.stats, ?_, ?_⟩, ?_,
    fun h host path pick => Router.routeRequest_of_unhealthy hiter h p host path pick, ?_⟩
  · have hroutes : s.router.routes.length = serverConfig.routes.length := by
      rw [hrun.invariant (fun s => s.router.routes = (Router.new config serverConfig).routes) rfl
        fun _ _ _ h hstep => (routes_of_step hstep).trans h]
      simp [Router.new]
    have hsize : size s.router.upstreams = config.upstreams.length := by
      rw [← hiter.length_eq, hperm.length_eq, List.length_map]
    have hchecks : (Server.new lib config serverConfig).healthManager.isSome =
        config.upstreams.any fun uc => uc.healthCheck.isSome := by
      cases hany : config.upstreams.any fun uc => uc.healthCheck.isSome <;> simp [Server.new, hany]
    rw [Server.stats, Router.stats, Server.now, hroutes, hsize, hchecks]
    rfl
  · refine (hperm.map _).trans (List.Perm.of_eq ?_)
    rw [List.map_map]
    exact List.map_congr_left fun uc huc =>
      stats_of_configured hvalid hrun (hupstream uc huc).1 (hupstream uc huc).2
  · have hone : ∀ uc ∈ config.upstreams, (upstream uc).hasHealthyTargets = true ↔
        ∃ i < uc.targets.length, lastVerdict tr ⟨uc.id, i⟩ ≠ some false := by
      intro uc huc
      rw [← (hupstream uc huc).2.length_targets]
      exact hasHealthyTargets_of_run hvalid hrun (hupstream uc huc).1
    rw [Router.hasHealthyTargets, hperm.any_eq, List.any_map, List.any_eq_true]
    exact exists_congr fun uc => and_congr_right fun huc => hone uc huc
  · rw [Router.getAllTargets_map]
    refine (hperm.flatMap_right _).trans (List.Perm.of_eq ?_)
    rw [List.flatMap_map]
    refine List.flatMap_congr fun uc huc => ?_
    rw [(hupstream uc huc).2.length_targets]

/-- One of the two targets has failed its check. -/
theorem reports_are_true_failed :
    ∃ (s : State) (iter : List (Str × Upstream)) (reports : List UpstreamStats),
      (((Server.new noFiles checkedConfig checkedServer).now s).stats iter).routerStats =
        ⟨1, 1, reports⟩ ∧
      reports.Perm [⟨"api".toList, .roundRobin, 2, 1, 0⟩] := by
  have hprobe := Run.single (show Event.Step Platform.ascii
    (State.initial (Server.new noFiles checkedConfig checkedServer)) (.probe 0) _ from
    ⟨_, _, _, rfl, rfl, rfl, rfl, rfl⟩)
  have hverdict := hprobe.snoc (show Event.Step Platform.ascii _
    (.verdict 0 ⟨"api".toList, 0⟩ none false 7) _ from ⟨_, _, rfl, rfl, rfl, rfl, rfl⟩)
  obtain ⟨s, hrun⟩ : ∃ s, Run _ _ _ s := ⟨_, hverdict⟩
  obtain ⟨iter, hiter⟩ := exists_enumerates s.router.upstreams
  obtain ⟨⟨reports, hstats, hperm⟩, -⟩ := reports_are_true noFiles Platform.ascii checkedConfig rfl
    checkedServer _ _ hrun iter hiter
  exact ⟨_, iter, reports, congrArg ServerStats.routerStats hstats, hperm⟩

end Sret
