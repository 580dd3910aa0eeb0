import Sret.Resolution

namespace Sret

open Text KeyedMap Transition

/-!
# Looking a target up by its id

`Router::find_target` goes through a hash map of upstreams, whose iteration order is unspecified,
and returns the first target with the id.

* `Router.findTarget` — the search, with the order in which it iterates as an argument;
* `Router.Offers` — an upstream of the router has a target with the id;
* `orderIndependent_iff` — the search gives the same target in every order exactly when one
  upstream at most offers the id;
* `map_id_of_run`, `offers_new` — no step of the server changes an id, and a new router offers what
  is configured;
* `find_target_order_iff` — so the search is well-defined, in every state, exactly for the ids that
  one configured upstream at most has; `validate` does not compare the ids of targets.
-/

variable {File Cert Key Acceptor : Type}

/-- `Upstream::get_target`. -/
def Upstream.getTarget (u : Upstream) (targetId : Str) : Option TargetArc :=
  u.allTargets.find? fun a => a.target.id == targetId

namespace Router

/-- `Router::find_target`, iterating over the upstreams in the order `iter`.  The id of the upstream
    tells whose target it is. -/
def findTarget (iter : List (Str × Upstream)) (targetId : Str) : Option (Str × TargetArc) :=
  iter.findSome? fun x => (x.2.getTarget targetId).map fun a => (x.1, a)

/-- Every iteration order leads to the same target. -/
def OrderIndependent (r : Router) (targetId : Str) : Prop :=
  ∀ iter iter', Enumerates iter r.upstreams → Enumerates iter' r.upstreams →
    findTarget iter targetId = findTarget iter' targetId

/-- The upstream has a target with the id. -/
def Offers (r : Router) (upstreamId targetId : Str) : Prop :=
  ∃ index t, r.getTarget ⟨upstreamId, index⟩ = some t ∧ t.id = targetId

/-! ### The search -/

/-- The search in one upstream finds a target with the id. -/
theorem offers_of_getTarget {r : Router} {upstreamId targetId : Str} {u : Upstream} {a : TargetArc}
    (hu : r.getUpstream upstreamId = some u) (ha : u.getTarget targetId = some a) :
    r.Offers upstreamId targetId := by
  have hmem := Upstream.mem_allTargets.mp (List.mem_of_find?_eq_some ha)
  refine ⟨a.index, a.target, ?_, by simpa using List.find?_some ha⟩
  rw [getTarget, hu, Option.bind_some, hmem]

/-- It finds one if there is one. -/
theorem Offers.exists_getTarget {r : Router} {upstreamId targetId : Str}
    (h : r.Offers upstreamId targetId) :
    ∃ u a, r.getUpstream upstreamId = some u ∧ u.getTarget targetId = some a := by
  obtain ⟨index, t, ht, hid⟩ := h
  obtain ⟨u, hu, hindex⟩ := Option.bind_eq_some_iff.mp ht
  have hmem : (⟨index, t⟩ : TargetArc) ∈ u.allTargets := Upstream.mem_allTargets.mpr hindex
  have hsome : (u.getTarget targetId).isSome = true :=
    List.find?_isSome.mpr ⟨_, hmem, by simp [hid]⟩
  obtain ⟨a, ha⟩ := Option.isSome_iff_exists.mp hsome
  exact ⟨u, a, hu, ha⟩

/-- **When the order does not matter.** -/
theorem orderIndependent_iff (r : Router) (targetId : Str) :
    r.OrderIndependent targetId ↔
      ∀ id id', r.Offers id targetId → r.Offers id' targetId → id = id' := by
  unfold OrderIndependent findTarget
  rw [findSome?_order_independent_iff]
  constructor
  · intro h id id' hoffers hoffers'
    obtain ⟨u, a, hu, ha⟩ := hoffers.exists_getTarget
    obtain ⟨u', a', hu', ha'⟩ := hoffers'.exists_getTarget
    have heq := h id u id' u' (id, a) (id', a') hu hu' (by simp [ha]) (by simp [ha'])
    exact (Prod.mk.inj heq).1
  · intro h id u id' u' b b' hu hu' hb hb'
    obtain ⟨a, ha, rfl⟩ := Option.map_eq_some_iff.mp hb
    obtain ⟨a', ha', rfl⟩ := Option.map_eq_some_iff.mp hb'
    -- the two upstreams are the same, and then the targets are
    obtain rfl := h id id' (offers_of_getTarget hu ha) (offers_of_getTarget hu' ha')
    obtain rfl : u = u' := Option.some.inj (hu.symm.trans hu')
    obtain rfl : a = a' := Option.some.inj (ha.symm.trans ha')
    rfl

end Router

/-! ### What is configured -/

/-- The upstream is configured with a target of this id. -/
def UpstreamConfig.Names (u : UpstreamConfig) (targetId : Str) : Prop :=
  ∃ t ∈ u.targets, (Target.new t).id = targetId

/-- One upstream at most is configured with a target of this id. -/
def Config.NamesOnce (config : Config) (targetId : Str) : Prop :=
  ∀ u ∈ config.upstreams, ∀ u' ∈ config.upstreams, u.Names targetId → u'.Names targetId →
    u.id = u'.id

/-- A new router offers what is configured. -/
theorem Router.offers_new {config : Config} (hvalid : config.validate = .ok ())
    (server : ServerConfig) (upstreamId targetId : Str) :
    (Router.new config server).Offers upstreamId targetId ↔
      ∃ u ∈ config.upstreams, u.id = upstreamId ∧ u.Names targetId := by
  constructor
  · rintro ⟨index, t, ht, hid⟩
    obtain ⟨w, hw, hindex⟩ := Option.bind_eq_some_iff.mp ht
    obtain ⟨u, hmem, hu, rfl⟩ := getUpstream_new hw
    obtain ⟨tc, htc, rfl⟩ := List.mem_map.mp (List.mem_of_getElem? hindex)
    exact ⟨u, hmem, hu, tc, htc, hid⟩
  · rintro ⟨u, hmem, rfl, tc, htc, hid⟩
    obtain ⟨index, hindex⟩ := List.getElem?_of_mem htc
    refine ⟨index, Target.new tc, ?_, hid⟩
    rw [getTarget, getUpstream_new_of_mem hvalid server hmem, Option.bind_some, Upstream.new,
      List.getElem?_map, hindex, Option.map_some]

/-! ### The running server -/

/-- No step changes the id of a target. -/
theorem map_id_of_step {p : Platform} {s s' : State} {e : Event} (hstep : e.Step p s s')
    (ref : TargetRef) :
    (s'.router.getTarget ref).map Target.id = (s.router.getTarget ref).map Target.id := by
  rcases router_of_step hstep with heq | ⟨_, _, _, _, -, -, hroute⟩ |
    ⟨c, ref', _, isHealthy, now, was, -, heq⟩
  · rw [heq]
  · rw [Router.getTarget_of_routeRequest hroute ref]
  · rw [heq, getTarget_applyVerdict]
    split
    · rw [Option.map_map]
      rfl
    · rfl

theorem map_id_of_run {lib : TlsLibrary File Cert Key Acceptor} {p : Platform} {config : Config}
    {serverConfig : ServerConfig} {tr : List Event} {s : State}
    (hrun : Run (Event.Step p) (State.initial (Server.new lib config serverConfig)) tr s)
    (ref : TargetRef) :
    (s.router.getTarget ref).map Target.id =
      ((Router.new config serverConfig).getTarget ref).map Target.id := by
  refine hrun.invariant (fun s => (s.router.getTarget ref).map Target.id =
    ((Router.new config serverConfig).getTarget ref).map Target.id) rfl ?_
  intro s e s' h hstep
  exact (map_id_of_step hstep ref).trans h

/-- Routers with the same ids of targets offer the same. -/
theorem Router.offers_congr {r r' : Router}
    (h : ∀ ref, (r.getTarget ref).map Target.id = (r'.getTarget ref).map Target.id)
    (upstreamId targetId : Str) : r.Offers upstreamId targetId ↔ r'.Offers upstreamId targetId := by
  have hoffers : ∀ w : Router, w.Offers upstreamId targetId ↔
      ∃ index, (w.getTarget ⟨upstreamId, index⟩).map Target.id = some targetId := by
    intro w
    simp only [Offers, Option.map_eq_some_iff]
  simp only [hoffers, h]

/-- **When a lookup by id is well-defined.**  For every validated configuration, every server, in
    every state that it reaches: the lookup of an id gives the same target of the same upstream in
    every iteration order exactly when at most one configured upstream has a target of this id. -/
theorem find_target_order_iff (lib : TlsLibrary File Cert Key Acceptor) (p : Platform)
    (config : Config) (hvalid : config.validate = .ok ()) (serverConfig : ServerConfig)
    (tr : List Event) (s : State)
    (hrun : Run (Event.Step p) (State.initial (Server.new lib config serverConfig)) tr s)
    (targetId : Str) : s.router.OrderIndependent targetId ↔ config.NamesOnce targetId := by
  rw [Router.orderIndependent_iff]
  simp only [Router.offers_congr (map_id_of_run hrun), Router.offers_new hvalid serverConfig]
  constructor
  · intro h u hu u' hu' hnames hnames'
    exact h u.id u'.id ⟨u, hu, rfl, hnames⟩ ⟨u', hu', rfl, hnames'⟩
  · rintro h id id' ⟨u, hu, rfl, hnames⟩ ⟨u', hu', rfl, hnames'⟩
    exact h u hu u' hu' hnames hnames'

/-- A target of one upstream is found. -/
theorem find_target_order_iff_shop :
    (Router.new shopConfig shopServer).OrderIndependent "127.0.0.1:3001".toList := by
  refine (find_target_order_iff noFiles Platform.ascii shopConfig rfl shopServer [] _
    (Run.nil _) _).mpr ?_
  rintro u hu u' hu' ⟨t, ht, -⟩ ⟨t', ht', -⟩
  -- the other upstream has no targets
  simp only [shopConfig, List.mem_cons, List.not_mem_nil, or_false] at hu hu'
  rcases hu with rfl | rfl
  · rcases hu' with rfl | rfl
    · rfl
    · simp at ht'
  · simp at ht

/-- Two upstreams that share a target, as two routes with different strategies may want it. -/
def sharedConfig : Config where
  servers := [shopServer]
  upstreams := [
    ⟨"pages".toList, [⟨"127.0.0.1".toList, 3000, none, none⟩], none, none⟩,
    ⟨"carts".toList, [⟨"127.0.0.1".toList, 3000, none, none⟩], some .leastConnections, none⟩]

/-- The shared target is found in the one or in the other. -/
theorem shared_target_ambiguous :
    ¬ ∀ (config : Config) (serverConfig : ServerConfig) (p : Platform) (tr : List Event)
      (s : State) (targetId : Str), config.validate = .ok () → serverConfig ∈ config.servers →
      Run (Event.Step p) (State.initial (Server.new noFiles config serverConfig)) tr s →
      s.router.OrderIndependent targetId := by
  intro h
  have hindependent := h sharedConfig shopServer Platform.ascii [] _ "127.0.0.1:3000".toList rfl
    List.mem_cons_self (Run.nil _)
  have hsame := (Router.orderIndependent_iff _ _).mp hindependent "pages".toList "carts".toList
    ((Router.offers_new (show sharedConfig.validate = .ok () from rfl) shopServer _ _).mpr
      ⟨_, List.mem_cons_self, rfl, _, List.mem_cons_self, rfl⟩)
    ((Router.offers_new (show sharedConfig.validate = .ok () from rfl) shopServer _ _).mpr
      ⟨_, List.mem_cons_of_mem _ List.mem_cons_self, rfl, _, List.mem_cons_self, rfl⟩)
  exact absurd hsame (by decide)

end Sret
