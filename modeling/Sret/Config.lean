import Sret.Foundation.Text

namespace Sret

open Text

/-!
# The configuration file

The records that `serde` reads from the YAML file, and `Config.validate`, which every loaded
configuration has passed.  `validate_eq_ok` says what an accepted configuration guarantees: every
route names a configured upstream, and no two servers and no two upstreams share an id.
`validate_wellFormed_iff` says where it falls short: port conflicts, which the documentation
lists among the errors that are reported, are accepted.
-/

/-- The files with the certificate chain and the key of a server. -/
structure TlsConfig where
  certPath : Str
  keyPath : Str

/-- How many responses a cache is to hold, and for how many seconds if a response does not say. -/
structure CacheConfig where
  maxSize : Nat
  defaultTtlSeconds : Nat

/-- The requests that go to an upstream, told by their domain or by the beginning of their path. -/
structure RouteConfig where
  domains : Option (List Str)
  paths : Option (List Str)
  upstream : Str

/-- How an upstream picks one of its targets. -/
inductive LoadBalancerStrategy
  | roundRobin | leastConnections | random | weightedRoundRobin
deriving DecidableEq

/-- `LoadBalancerStrategy::default`. -/
def LoadBalancerStrategy.default : LoadBalancerStrategy := .roundRobin

/-- How often the targets of an upstream are checked, and what counts as healthy. -/
structure HealthCheckConfig where
  intervalSeconds : Nat
  timeoutSeconds : Nat
  expectedStatus : Nat

/-- One backend of an upstream. -/
structure TargetConfig where
  host : Str
  port : Nat
  weight : Option Nat
  healthCheckPath : Option Str

/-- `TargetConfig::weight`: the configured weight, `1` when there is none. -/
def TargetConfig.getWeight (t : TargetConfig) : Nat := t.weight.getD 1

/-- A group of targets among which requests are distributed. -/
structure UpstreamConfig where
  id : Str
  targets : List TargetConfig
  strategy : Option LoadBalancerStrategy
  healthCheck : Option HealthCheckConfig

/-- One server: where it listens, and its routes in order. -/
structure ServerConfig where
  id : Str
  bindAddress : Str
  port : Nat
  routes : List RouteConfig
  tls : Option TlsConfig
  cache : Option CacheConfig

/-- The whole file. -/
structure Config where
  servers : List ServerConfig
  upstreams : List UpstreamConfig

namespace Config

/-- The first id that is inserted into a set that has it already. -/
def firstDuplicate (seen : List Str) : List Str → Option Str
  | [] => none
  | id :: rest => if id ∈ seen then some id else firstDuplicate (id :: seen) rest

/-- There is no duplicate exactly if the ids differ from each other and from those seen before. -/
theorem firstDuplicate_eq_none {seen ids : List Str} :
    firstDuplicate seen ids = none ↔ ids.Nodup ∧ ∀ id ∈ ids, id ∉ seen := by
  induction ids generalizing seen with
  | nil => simp [firstDuplicate]
  | cons id rest ih =>
    rw [firstDuplicate]
    -- the first id is reported, or it joins those that have been seen
    by_cases h : id ∈ seen
    · simp [h]
    · rw [if_neg h, ih]
      simp only [List.nodup_cons, List.mem_cons, not_or, forall_eq_or_imp]
      constructor
      · rintro ⟨hnd, hrest⟩
        exact ⟨⟨fun hmem => (hrest id hmem).1 rfl, hnd⟩, h, fun x hx => (hrest x hx).2⟩
      · rintro ⟨⟨hmem, hnd⟩, -, hrest⟩
        exact ⟨hnd, fun x hx => ⟨fun hxid => hmem (hxid ▸ hx), hrest x hx⟩⟩

/-- `Config::validate`. -/
def validate (config : Config) : Except Str Unit :=
  let upstreamIds := config.upstreams.map UpstreamConfig.id
  match (config.servers.flatMap ServerConfig.routes).find? (fun r => r.upstream ∉ upstreamIds) with
  | some route =>
    -- the routes of all servers are gone through before any id is compared
    .error ("Route references non-existent upstream: ".toList ++ route.upstream)
  | none =>
    match firstDuplicate [] (config.servers.map ServerConfig.id) with
    | some id => .error ("Duplicate server ID: ".toList ++ id)
    | none =>
      match firstDuplicate [] upstreamIds with
      | some id => .error ("Duplicate upstream ID: ".toList ++ id)
      | none => .ok ()

/-- **What validation guarantees.** -/
theorem validate_eq_ok {config : Config} :
    config.validate = .ok () ↔
      (∀ server ∈ config.servers, ∀ route ∈ server.routes,
        route.upstream ∈ config.upstreams.map UpstreamConfig.id) ∧
      (config.servers.map ServerConfig.id).Nodup ∧
      (config.upstreams.map UpstreamConfig.id).Nodup := by
  have hroutes : (config.servers.flatMap ServerConfig.routes).find?
        (fun r => r.upstream ∉ config.upstreams.map UpstreamConfig.id) = none ↔
      ∀ server ∈ config.servers, ∀ route ∈ server.routes,
        route.upstream ∈ config.upstreams.map UpstreamConfig.id := by
    rw [List.find?_eq_none]
    simp only [List.mem_flatMap, decide_eq_true_eq, not_not]
    exact ⟨fun h s hs r hr => h r ⟨s, hs, hr⟩, fun h r ⟨s, hs, hr⟩ => h s hs r hr⟩
  have hnodup : ∀ ids : List Str, firstDuplicate [] ids = none ↔ ids.Nodup := by
    intro ids
    simp [firstDuplicate_eq_none]
  rw [← hroutes, ← hnodup, ← hnodup]
  -- the three checks of `validate`, one after the other
  simp only [validate]
  split
  · rename_i hfind
    rw [hfind]
    simp
  · rename_i hfind
    split
    · rename_i hdup
      simp [hdup]
    · rename_i hdup
      split
      · rename_i hdup'
        simp [hdup']
      · rename_i hdup'
        exact ⟨fun _ => ⟨hfind, hdup, hdup'⟩, fun _ => rfl⟩

/-! ### Port conflicts -/

/-- Every route names a configured upstream. -/
def RoutesResolve (config : Config) : Prop :=
  ∀ server ∈ config.servers, ∀ route ∈ server.routes,
    route.upstream ∈ config.upstreams.map UpstreamConfig.id

/-- No two servers and no two upstreams share an id. -/
def IdsDistinct (config : Config) : Prop :=
  (config.servers.map ServerConfig.id).Nodup ∧ (config.upstreams.map UpstreamConfig.id).Nodup

/-- No two servers are to listen on the same port of the same address. -/
def PortsDistinct (config : Config) : Prop :=
  (config.servers.map fun server => (server.bindAddress, server.port)).Nodup

/-- A configuration without the errors that are checked for, and without the port conflicts that
    the documentation says are reported too. -/
structure WellFormed (config : Config) : Prop where
  routes : config.RoutesResolve
  ids : config.IdsDistinct
  ports : config.PortsDistinct

/-- **When validation judges rightly.**  It accepts a configuration exactly if that is well-formed,
    except that it does not look for port conflicts: a configuration is judged rightly when it has
    none, or when it has another error as well. -/
theorem validate_wellFormed_iff (config : Config) :
    (config.validate = .ok () ↔ config.WellFormed) ↔
      config.PortsDistinct ∨ ¬ (config.RoutesResolve ∧ config.IdsDistinct) := by
  have hok : config.validate = .ok () ↔ config.RoutesResolve ∧ config.IdsDistinct := validate_eq_ok
  rw [hok]
  constructor
  · intro h
    -- what is accepted is well-formed only if its ports differ
    by_cases haccepted : config.RoutesResolve ∧ config.IdsDistinct
    · exact Or.inl (h.mp haccepted).ports
    · exact Or.inr haccepted
  · rintro (hports | hrefused)
    · exact ⟨fun h => ⟨h.1, h.2, hports⟩, fun h => ⟨h.routes, h.ids⟩⟩
    · exact iff_of_false hrefused fun h => hrefused ⟨h.routes, h.ids⟩

/-- Two servers on one port. -/
def portConflict : Config where
  servers := [⟨"web".toList, "0.0.0.0".toList, 80, [], none, none⟩,
    ⟨"api".toList, "0.0.0.0".toList, 80, [], none, none⟩]
  upstreams := []

/-- A port conflict is not reported. -/
theorem port_conflict_accepted :
    ¬ ∀ config : Config, config.validate = .ok () ↔ config.WellFormed := by
  intro h
  have hconflict : ¬ portConflict.PortsDistinct := by simp [PortsDistinct, portConflict]
  exact hconflict ((h portConflict).mp rfl).ports

end Config

end Sret
