import Sret.Resolution

namespace Sret

open Text Transition

/-!
# What the steps leave alone

The part of the upstreams that comes from the configuration and that no step of a running server
touches, and what a step does to the rest.

* `Target.configured` — a target without what the health checks have found out about it;
* `Event.selects` — the target of the upstream that the step assigns a request to;
* `upstream_of_step` — a step keeps the id, the strategy and the configured part of the targets of
  every upstream, and advances its counter exactly when it selects one of them;
* `upstream_of_run`, `exists_config_of_run` — so in every state that a server of a validated
  configuration reaches the upstreams are the configured ones, up to flags, times and counters.
-/

/-- The target as it is before the first check. -/
def Target.configured (t : Target) : Target := { t with healthy := true, lastHealthCheck := none }

/-- A check does not change what is configured. -/
@[simp] theorem Target.configured_setHealthy (t : Target) (healthy : Bool) (now : Instant) :
    (t.setHealthy healthy now).configured = t.configured := rfl

/-- A new target has not been checked. -/
@[simp] theorem Target.configured_new (config : TargetConfig) :
    (Target.new config).configured = Target.new config := rfl

/-- The weight is configured. -/
@[simp] theorem Target.configured_weight (t : Target) : t.configured.weight = t.weight := rfl

/-- No check changes the connections. -/
@[simp] theorem Target.configured_activeConnections (t : Target) :
    t.configured.activeConnections = t.activeConnections := rfl

/-- The position of the target of the upstream that the step assigns an exchange to. -/
def Event.selects (id : Str) : Event → Option Nat
  | .route _ _ (some d) => if d.upstreamId = id then some d.arc.index else none
  | _ => none

/-- The step is an assignment to the target at that position. -/
theorem Event.selects_eq_some {id : Str} {e : Event} {index : Nat} :
    e.selects id = some index ↔
      ∃ i pick d, e = .route i pick (some d) ∧ d.ref = ⟨id, index⟩ := by
  constructor
  · intro h
    unfold Event.selects at h
    split at h
    · split at h
      · rename_i d hid
        obtain rfl := Option.some.inj h
        exact ⟨_, _, d, rfl, by rw [Routed.ref, hid]⟩
      · simp at h
    · simp at h
  · rintro ⟨i, pick, d, rfl, href⟩
    obtain ⟨hid, hindex⟩ := TargetRef.mk.inj href
    rw [Event.selects, if_pos hid, hindex]

/-- Weights count only where they are asked for. -/
theorem LoadBalancerStrategy.getD_default_eq_weighted {strategy : Option LoadBalancerStrategy} :
    strategy.getD LoadBalancerStrategy.default = .weightedRoundRobin ↔
      strategy = some .weightedRoundRobin := by
  cases strategy <;> simp [LoadBalancerStrategy.default]

/-- Whether the counter is used depends on the strategy. -/
theorem Upstream.usesCounter_congr {u u' : Upstream} (h : u'.strategy = u.strategy) :
    u'.usesCounter = u.usesCounter := by
  rw [Upstream.usesCounter, Upstream.usesCounter, h]

/-! ### One step -/

/-- An upstream after a step. -/
structure Upstream.After (u u' : Upstream) (counts : Bool) : Prop where
  id : u'.id = u.id
  strategy : u'.strategy = u.strategy
  targets : u'.targets.map Target.configured = u.targets.map Target.configured
  counter : u'.roundRobinCounter =
    if counts then (u.roundRobinCounter + 1) % usizeSize else u.roundRobinCounter

/-- A completed check writes flags and times only. -/
theorem upstream_applyVerdict {router : Router} {id : Str} {u : Upstream}
    (hu : router.getUpstream id = some u) (ref : TargetRef) (was isHealthy : Bool)
    (now : Instant) :
    ∃ u', (applyVerdict router ref was isHealthy now).getUpstream id = some u' ∧
      u.After u' false := by
  unfold applyVerdict
  -- the flag is written only if the check has another result
  by_cases hwas : was = isHealthy
  · rw [if_neg (by simp [hwas])]
    exact ⟨u, hu, rfl, rfl, rfl, rfl⟩
  rw [if_pos hwas, Router.modifyTarget]
  cases hw : router.getUpstream ref.upstreamId with
  | none => exact ⟨u, hu, rfl, rfl, rfl, rfl⟩
  | some w =>
    by_cases hid : id = ref.upstreamId
    · obtain rfl : u = w := by
        rw [hid, hw] at hu
        exact (Option.some.inj hu).symm
      rw [hid]
      refine ⟨_, Router.getUpstream_setUpstream_self .., rfl, rfl, ?_, rfl⟩
      -- one target at most is modified, and only in its flag and its time
      refine List.ext_getElem? fun i => ?_
      simp only [List.getElem?_map, List.getElem?_modify]
      split
      · simp [Option.map_map, Function.comp_def]
      · simp
    · exact ⟨u, (Router.getUpstream_setUpstream_of_ne hid _ _).trans hu, rfl, rfl, rfl, rfl⟩

/-- **What a step does to an upstream.** -/
theorem upstream_of_step {p : Platform} {s s' : State} {e : Event} (h : e.Step p s s') {id : Str}
    {u : Upstream} (hu : s.router.getUpstream id = some u) :
    ∃ u', s'.router.getUpstream id = some u' ∧
      u.After u' ((e.selects id).isSome && u.usesCounter) := by
  cases e with
  | route i pick routed =>
    -- of all steps only an assignment advances a counter
    obtain ⟨x, -, -, hrouted, rfl⟩ := h
    refine ⟨_, Router.getUpstream_of_routeRequest (Prod.ext hrouted rfl) hu, ?_⟩
    cases routed with
    | none => exact ⟨rfl, rfl, rfl, rfl⟩
    | some d =>
      by_cases hid : d.upstreamId = id
      · cases huses : u.usesCounter <;> simp [Event.selects, hid] <;> exact ⟨rfl, rfl, rfl, rfl⟩
      · simp only [Event.selects, hid, Option.map_some, Option.some.injEq, false_and, if_false,
          Option.isSome_none, Bool.false_and]
        exact ⟨rfl, rfl, rfl, rfl⟩
  | verdict c ref reply isHealthy now =>
    obtain ⟨k, was, -, -, -, -, rfl⟩ := h
    exact upstream_applyVerdict hu ref was isHealthy now
  | _ =>
    -- the other steps leave the router alone
    rcases router_of_step h with heq | ⟨_, _, _, _, he, -⟩ | ⟨_, _, _, _, _, _, he, -⟩
    · exact ⟨u, heq ▸ hu, rfl, rfl, rfl, rfl⟩
    · simp at he
    · simp at he

/-- No step adds an upstream. -/
theorem upstream_none_of_step {p : Platform} {s s' : State} {e : Event} (h : e.Step p s s')
    {id : Str} (hu : s.router.getUpstream id = none) : s'.router.getUpstream id = none := by
  rcases router_of_step h with heq | ⟨_, _, routed, _, -, -, hroute⟩ |
    ⟨_, ref, _, isHealthy, now, was, -, heq⟩
  · rwa [heq]
  · cases routed with
    | none => rwa [Router.eq_of_routeRequest_none hroute]
    | some d =>
      obtain ⟨route, -, w, -, -, hw, -, -, -, heq⟩ := Router.resolves_of_routeRequest hroute
      have hid : id ≠ route.upstreamId := by
        rintro rfl
        simp [hw] at hu
      rw [heq, Router.getUpstream_setUpstream_of_ne hid, hu]
  · rw [heq, applyVerdict]
    split
    · rw [Router.modifyTarget]
      split
      · rename_i w hw
        have hid : id ≠ ref.upstreamId := by
          rintro rfl
          simp [hw] at hu
        rw [Router.getUpstream_setUpstream_of_ne hid, hu]
      · exact hu
    · exact hu

/-- No step changes a route. -/
theorem routes_of_step {p : Platform} {s s' : State} {e : Event} (h : e.Step p s s') :
    s'.router.routes = s.router.routes := by
  rcases router_of_step h with heq | ⟨_, _, routed, _, -, -, hroute⟩ |
    ⟨_, ref, _, isHealthy, now, was, -, heq⟩
  · rw [heq]
  · cases routed with
    | none => rw [Router.eq_of_routeRequest_none hroute]
    | some d =>
      obtain ⟨_, -, _, _, -, -, -, -, -, heq⟩ := Router.resolves_of_routeRequest hroute
      rw [heq, Router.setUpstream_routes]
  · rw [heq, applyVerdict]
    split
    · rw [Router.modifyTarget]
      split
      · exact Router.setUpstream_routes ..
      · rfl
    · rfl

/-- A step that selects takes the target that is due. -/
theorem selected_of_step {p : Platform} {s s' : State} {e : Event} (h : e.Step p s s') {id : Str}
    {u : Upstream} (hu : s.router.getUpstream id = some u) (huses : u.usesCounter = true)
    (hsome : (e.selects id).isSome = true) :
    e.selects id =
      (u.candidates[u.roundRobinCounter % u.candidates.length]?).map TargetArc.index := by
  obtain ⟨index, hindex⟩ := Option.isSome_iff_exists.mp hsome
  obtain ⟨i, pick, d, rfl, href⟩ := Event.selects_eq_some.mp hindex
  obtain ⟨x, -, -, hrouted, -⟩ := h
  obtain ⟨w, hw, hselect, -⟩ := Router.getTarget_of_routed (Prod.ext hrouted rfl)
  obtain ⟨hid, rfl⟩ := TargetRef.mk.inj href
  obtain rfl : w = u := by
    rw [hid, hu] at hw
    exact (Option.some.inj hw).symm
  rw [Upstream.selectTarget_of_usesCounter huses] at hselect
  split at hselect
  · simp at hselect
  · replace hselect : w.candidates[w.roundRobinCounter % w.candidates.length]? =
      some d.arc := hselect
    rw [hindex, hselect, Option.map_some]

/-! ### Runs -/

/-- The upstream is the configured one, up to flags, times and its counter. -/
structure Upstream.Configured (uc : UpstreamConfig) (u : Upstream) : Prop where
  id : u.id = uc.id
  strategy : u.strategy = uc.strategy.getD LoadBalancerStrategy.default
  targets : u.targets.map Target.configured = uc.targets.map Target.new
  counter : u.roundRobinCounter < usizeSize

/-- A step keeps what is configured. -/
theorem Upstream.Configured.after {uc : UpstreamConfig} {u u' : Upstream} {counts : Bool}
    (h : Upstream.Configured uc u) (hafter : u.After u' counts) : Upstream.Configured uc u' := by
  refine ⟨hafter.id.trans h.id, hafter.strategy.trans h.strategy,
    hafter.targets.trans h.targets, ?_⟩
  rw [hafter.counter]
  split
  · exact Nat.mod_lt _ (by decide)
  · exact h.counter

variable {File Cert Key Acceptor : Type}

/-- **The upstreams stay the configured ones.** -/
theorem upstream_of_run {lib : TlsLibrary File Cert Key Acceptor} {p : Platform} {config : Config}
    (hvalid : config.validate = .ok ()) {serverConfig : ServerConfig} {tr : List Event} {s : State}
    (hrun : Run (Event.Step p) (State.initial (Server.new lib config serverConfig)) tr s)
    {uc : UpstreamConfig} (huc : uc ∈ config.upstreams) :
    ∃ u, s.router.getUpstream uc.id = some u ∧ Upstream.Configured uc u := by
  refine hrun.invariant
    (fun s => ∃ u, s.router.getUpstream uc.id = some u ∧ Upstream.Configured uc u) ?_ ?_
  · refine ⟨_, Router.getUpstream_new_of_mem hvalid serverConfig huc, rfl, rfl, ?_,
      Nat.two_pow_pos 64⟩
    simp [Upstream.new, Function.comp_def]
  · rintro t e t' ⟨u, hu, hconfigured⟩ hstep
    obtain ⟨u', hu', hafter⟩ := upstream_of_step hstep hu
    exact ⟨u', hu', hconfigured.after hafter⟩

/-- There are no others. -/
theorem exists_config_of_run {lib : TlsLibrary File Cert Key Acceptor} {p : Platform}
    {config : Config} {serverConfig : ServerConfig} {tr : List Event} {s : State}
    (hrun : Run (Event.Step p) (State.initial (Server.new lib config serverConfig)) tr s)
    {id : Str} {u : Upstream} (hu : s.router.getUpstream id = some u) :
    ∃ uc ∈ config.upstreams, uc.id = id := by
  by_contra hnone
  have habsent : s.router.getUpstream id = none := by
    refine hrun.invariant (fun s => s.router.getUpstream id = none) ?_
      fun _ _ _ h hstep => upstream_none_of_step hstep h
    cases hnew : (Router.new config serverConfig).getUpstream id with
    | none => exact hnew
    | some w =>
      obtain ⟨uc, huc, hid, -⟩ := Router.getUpstream_new hnew
      exact absurd ⟨uc, huc, hid⟩ hnone
  simp [habsent] at hu

namespace Upstream.Configured

variable {uc : UpstreamConfig} {u : Upstream}

/-- There are as many targets as are configured. -/
theorem length_targets (h : Upstream.Configured uc u) : u.targets.length = uc.targets.length := by
  simpa using congrArg List.length h.targets

/-- A target has the configured weight and no connections. -/
theorem target (h : Upstream.Configured uc u) {i : Nat} {t : Target} (ht : u.targets[i]? = some t) :
    ∃ tc, uc.targets[i]? = some tc ∧ t.configured = Target.new tc := by
  have hi := congrArg (fun l => l[i]?) h.targets
  simp only [List.getElem?_map, ht, Option.map_some] at hi
  obtain ⟨tc, htc, heq⟩ := Option.map_eq_some_iff.mp hi.symm
  exact ⟨tc, htc, heq.symm⟩

/-- A healthy target is a candidate, under weights with a positive one. -/
theorem mem_candidates (h : Upstream.Configured uc u) {i : Nat} {t : Target} {tc : TargetConfig}
    (ht : u.targets[i]? = some t) (htc : uc.targets[i]? = some tc) (hhealthy : t.isHealthy = true)
    (hweight : uc.strategy.getD LoadBalancerStrategy.default = .weightedRoundRobin →
      0 < tc.getWeight) : ⟨i, t⟩ ∈ u.candidates := by
  refine Upstream.mem_candidates.mpr ⟨ht, hhealthy, fun hstrategy => ?_⟩
  obtain ⟨tc', htc', heq⟩ := h.target ht
  obtain rfl : tc' = tc := Option.some.inj (htc'.symm.trans htc)
  have hsame : t.weight = tc'.getWeight := congrArg Target.weight heq
  rw [hsame]
  exact hweight (h.strategy.symm.trans hstrategy)

/-- The weights are the configured ones. -/
theorem map_weight (h : Upstream.Configured uc u) :
    u.targets.map Target.weight = uc.targets.map TargetConfig.getWeight := by
  have hweights := congrArg (List.map Target.weight) h.targets
  simpa [Function.comp_def, Target.new] using hweights

end Upstream.Configured

end Sret
