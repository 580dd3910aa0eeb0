import Sret.Lifetime
import Sret.Resolution

namespace Sret

open Text KeyedMap Transition

/-!
# Configured numbers that panic later

The two places at which a number of the configuration file is used without a check in a task of
its own: the interval of a health checker and the default lifetime of the cache.

* `interval` — `tokio::time::interval`, which panics on a zero period;
* `HealthChecker.start` — a checker's task creates its interval, then goes through its ticks;
* `TaskEvent.Step` — the checkers and the cache of one server, each step by itself;
* `TaskEvent.Panics` — the step ends its task with a panic;
* `interval_of_tick` — a checker whose interval is zero never checks;
* `checkers_config` — the checkers of a server run the health checks of the upstreams with targets;
* `no_panic_iff` — a validated configuration leads to no panic exactly when no interval is zero
  and the default lifetime fits between the clock and the end of its range.
-/

variable {File Cert Key Acceptor : Type}

/-! ### The tasks of a server -/

/-- How far the task of a checker has come. -/
inductive CheckerStage
  | spawned
  /-- It is in its loop and waits for the next tick. -/
  | ticking (period : Duration)
  | panicked
deriving DecidableEq

/-- `tokio::time::interval`: none for the period on which it panics. -/
def interval (period : Duration) : Option Duration := if period = 0 then none else some period

/-- A task enters its loop with the interval that it has created. -/
def CheckerStage.ofInterval : Option Duration → CheckerStage
  | some period => .ticking period
  | none => .panicked

/-- `HealthChecker::start` up to its loop. -/
def HealthChecker.start (checker : HealthChecker) : CheckerStage :=
  .ofInterval (interval (Duration.fromSecs checker.config.intervalSeconds))

/-- The task of a checker. -/
structure CheckerTask where
  checker : HealthChecker
  stage : CheckerStage

/-- The tasks of a server that use numbers of its configuration. -/
structure ServerTasks where
  checkers : List CheckerTask
  cache : Option SharedCache

/-- `HealthCheckManager::start_all` has spawned the checkers, and the cache is empty. -/
def ServerTasks.spawned (server : Server Acceptor) : ServerTasks where
  checkers := server.checkers.map fun checker => ⟨checker, .spawned⟩
  cache := server.cache.map fun cache => ⟨cache, []⟩

/-- What the tasks of a server do. -/
inductive TaskEvent
  /-- A checker's task starts. -/
  | start (checker : Nat)
  /-- A pass of a checker over its targets. -/
  | tick (checker : Nat)
  /-- A step of a put or a lookup. -/
  | cache (action : CacheAction)

namespace TaskEvent

/-- The event takes the tasks from one state to the next. -/
def Step (p : Platform) (s : ServerTasks) (e : TaskEvent) (s' : ServerTasks) : Prop :=
  match e with
  | .start i => ∃ t, s.checkers[i]? = some t ∧ t.stage = .spawned ∧
      s' = { s with checkers := s.checkers.set i { t with stage := t.checker.start } }
  -- the flags that the pass writes are no part of this state
  | .tick i => ∃ t period, s.checkers[i]? = some t ∧ t.stage = .ticking period ∧ s' = s
  | .cache action => ∃ c c', s.cache = some c ∧ action.Step p c c' ∧
      s' = { s with cache := some c' }

/-- The event, in this state, ends its task with a panic. -/
def Panics (p : Platform) (s : ServerTasks) : TaskEvent → Prop
  | .start i => ∃ t, s.checkers[i]? = some t ∧ t.checker.start = .panicked
  | .cache (.prepare _ response clock) => ∃ c, s.cache = some c ∧
      ResponseCache.preparePut p c.cache.defaultTtl response clock = .panicked
  | _ => False

end TaskEvent

/-- The response says nothing about how long it may be kept. -/
def DeclaresNoLifetime (p : Platform) (headers : HeaderMap) : Prop :=
  (CacheControl.fromHeaders headers).maxAge = none ∧
    ∀ s, (headers.get HeaderName.expires).bind HeaderValue.toStr = some s →
      p.parseHttpDate s = none

/-- The event puts no response that declares its own lifetime, and none later than this. -/
def TaskEvent.Undated (p : Platform) (latest : Instant) : TaskEvent → Prop
  | .cache (.prepare _ response clock) =>
    DeclaresNoLifetime p response.headers ∧ clock.instant ≤ latest
  | _ => True

/-- No step of any run panics as long as the puts are undated and none is later than this. -/
def NeverPanics (p : Platform) (server : Server Acceptor) (latest : Instant) : Prop :=
  ∀ (tr : List TaskEvent) (s s' : ServerTasks) (e : TaskEvent),
    Run (TaskEvent.Step p) (ServerTasks.spawned server) tr s → e.Step p s s' →
    e.Undated p latest → ¬ e.Panics p s

/-! ### What the tasks keep of the configuration -/

/-- The checkers, their periods and the default lifetime are those of the server. -/
structure Configured (server : Server Acceptor) (s : ServerTasks) : Prop where
  checkers : ∀ (i : Nat) t, s.checkers[i]? = some t → t.checker ∈ server.checkers
  periods : ∀ (i : Nat) t, s.checkers[i]? = some t → t.stage = .spawned ∨ t.stage = t.checker.start
  cache : ∀ c, s.cache = some c →
    ∃ cache, server.cache = some cache ∧ c.cache.defaultTtl = cache.defaultTtl

/-- So the tasks are when they are spawned. -/
theorem Configured.spawned (server : Server Acceptor) :
    Configured server (ServerTasks.spawned server) := by
  constructor
  · intro i t ht
    obtain ⟨checker, hchecker, rfl⟩ := List.mem_map.mp (List.mem_of_getElem? ht)
    exact hchecker
  · intro i t ht
    obtain ⟨checker, -, rfl⟩ := List.mem_map.mp (List.mem_of_getElem? ht)
    exact Or.inl rfl
  · intro c hc
    obtain ⟨cache, hcache, rfl⟩ := Option.map_eq_some_iff.mp hc
    exact ⟨cache, hcache, rfl⟩

/-- A step keeps what is configured. -/
theorem Configured.step {server : Server Acceptor} {p : Platform} {s s' : ServerTasks}
    {e : TaskEvent} (h : Configured server s) (hstep : e.Step p s s') : Configured server s' := by
  cases e with
  | start i =>
    obtain ⟨t, ht, -, rfl⟩ := hstep
    refine ⟨fun j u hu => ?_, fun j u hu => ?_, h.cache⟩
    · rcases Tasks.of_set hu with ⟨-, rfl⟩ | ⟨-, hu⟩
      · exact h.checkers i t ht
      · exact h.checkers j u hu
    · rcases Tasks.of_set hu with ⟨-, rfl⟩ | ⟨-, hu⟩
      · exact Or.inr rfl
      · exact h.periods j u hu
  | tick i =>
    obtain ⟨t, period, -, -, rfl⟩ := hstep
    exact h
  | cache action =>
    obtain ⟨c, c', hc, haction, rfl⟩ := hstep
    refine ⟨h.checkers, h.periods, fun d hd => ?_⟩
    obtain rfl : c' = d := Option.some.inj hd
    obtain ⟨cache, hcache, httl⟩ := h.cache c hc
    exact ⟨cache, hcache, (action_config haction).2.trans httl⟩

/-- **In every run the tasks are as configured.** -/
theorem configured_of_run {server : Server Acceptor} {p : Platform} {tr : List TaskEvent}
    {s : ServerTasks} (hrun : Run (TaskEvent.Step p) (ServerTasks.spawned server) tr s) :
    Configured server s :=
  hrun.invariant (Configured server) (Configured.spawned server) fun _ _ _ h hstep => h.step hstep

/-! ### The checkers -/

/-- Only an interval of zero panics. -/
theorem interval_eq_none {period : Duration} : interval period = none ↔ period = 0 := by
  simp [interval]

/-- A checker panics exactly if its interval does. -/
theorem ofInterval_eq_panicked {result : Option Duration} :
    CheckerStage.ofInterval result = .panicked ↔ result = none := by
  cases result <;> simp [CheckerStage.ofInterval]

/-- The period is zero exactly when the configured number is. -/
theorem start_panicked {checker : HealthChecker} :
    checker.start = .panicked ↔ checker.config.intervalSeconds = 0 := by
  refine ofInterval_eq_panicked.trans (interval_eq_none.trans ?_)
  rw [Duration.fromSecs, Nat.mul_eq_zero, or_iff_left (by decide)]

/-- **Only a checker with an interval ever checks** its targets: one without has panicked. -/
theorem interval_of_tick {server : Server Acceptor} {p : Platform} {tr : List TaskEvent}
    {s s' : ServerTasks} (hrun : Run (TaskEvent.Step p) (ServerTasks.spawned server) tr s) {i : Nat}
    (hstep : TaskEvent.Step p s (.tick i) s') :
    ∃ t, s.checkers[i]? = some t ∧ t.checker.config.intervalSeconds ≠ 0 := by
  obtain ⟨t, period, ht, hstage, -⟩ := hstep
  refine ⟨t, ht, fun hzero => ?_⟩
  rcases (configured_of_run hrun).periods i t ht with hspawned | hstart
  · simp [hstage] at hspawned
  · rw [start_panicked.mpr hzero, hstage] at hstart
    simp at hstart

/-- A validated upstream has a checker when it has a health check and targets. -/
theorem checkerFor_config {config : Config} (hvalid : config.validate = .ok ())
    (serverConfig : ServerConfig) {u : UpstreamConfig} (hmem : u ∈ config.upstreams)
    (healthConfig : HealthCheckConfig) :
    (∃ checker, Server.checkerFor (Router.new config serverConfig) u = some checker ∧
        checker.config = healthConfig) ↔
      u.targets ≠ [] ∧ u.healthCheck = some healthConfig := by
  have hrefs : (Server.targetRefs (Router.new config serverConfig) u.id).isEmpty =
      u.targets.isEmpty := by
    rw [Server.targetRefs, Router.getUpstream_new_of_mem hvalid serverConfig hmem]
    rw [Bool.eq_iff_iff, List.isEmpty_iff, List.isEmpty_iff]
    simp [Upstream.allTargets, Upstream.new]
  cases hhealth : u.healthCheck with
  | none => simp [Server.checkerFor, hhealth]
  | some found =>
    cases htargets : u.targets with
    | nil => simp [Server.checkerFor, hhealth, hrefs, htargets]
    | cons t rest => simp [Server.checkerFor, hhealth, hrefs, htargets]

/-- The health checks that the checkers of a server run. -/
theorem checkers_config {config : Config} (hvalid : config.validate = .ok ())
    (lib : TlsLibrary File Cert Key Acceptor) (serverConfig : ServerConfig)
    (healthConfig : HealthCheckConfig) :
    (∃ checker ∈ (Server.new lib config serverConfig).checkers, checker.config = healthConfig) ↔
      ∃ u ∈ config.upstreams, u.targets ≠ [] ∧ u.healthCheck = some healthConfig := by
  simp only [Server.checkers_new, List.mem_filterMap]
  constructor
  · rintro ⟨checker, ⟨u, hmem, hchecker⟩, hconfig⟩
    exact ⟨u, hmem, (checkerFor_config hvalid serverConfig hmem _).mp ⟨checker, hchecker, hconfig⟩⟩
  · rintro ⟨u, hmem, hu⟩
    obtain ⟨checker, hchecker, hconfig⟩ :=
      (checkerFor_config hvalid serverConfig hmem healthConfig).mpr hu
    exact ⟨checker, ⟨u, hmem, hchecker⟩, hconfig⟩

/-- A checker with an interval of zero panics when it starts. -/
theorem intervals_of_neverPanics {p : Platform} {server : Server Acceptor} {latest : Instant}
    (h : NeverPanics p server latest) {checker : HealthChecker}
    (hmem : checker ∈ server.checkers) : checker.config.intervalSeconds ≠ 0 := by
  intro hzero
  obtain ⟨i, hi⟩ := List.mem_iff_getElem?.mp hmem
  have ht : (ServerTasks.spawned server).checkers[i]? = some ⟨checker, .spawned⟩ := by
    rw [ServerTasks.spawned, List.getElem?_map, hi, Option.map_some]
  exact h [] _ _ (.start i) (Run.nil _) ⟨_, ht, rfl, rfl⟩ trivial
    ⟨_, ht, start_panicked.mpr hzero⟩

/-! ### The default lifetime -/

/-- A response without header lines declares nothing. -/
theorem declaresNoLifetime_empty (p : Platform) : DeclaresNoLifetime p HeaderMap.empty :=
  ⟨rfl, fun _ hs => by simp [HeaderMap.get] at hs⟩

/-- A response that declares nothing gets the default lifetime. -/
theorem DeclaresNoLifetime.inRange_iff {p : Platform} {headers : HeaderMap}
    (h : DeclaresNoLifetime p headers) (secs : Nat) (clock : Clock) :
    LifetimeInRange p (Duration.fromSecs secs) headers clock ↔
      Duration.asSecs clock.instant + secs < 2 ^ 63 := by
  have hnone : ∀ date, ¬ ExpiresOn p headers clock date := by
    rintro date ⟨s, hs, hdate, -⟩
    simp [h.2 s hs] at hdate
  rw [← Instant.inRange_add_fromSecs]
  constructor
  · intro hrange
    exact hrange.default h.1 hnone
  · intro hsum
    exact ⟨by simp [h.1], fun _ date hd => (hnone date hd).elim, fun _ _ => hsum⟩

/-- A put at the latest time shows that the default lifetime fits. -/
theorem lifetime_of_neverPanics {p : Platform} {server : Server Acceptor} {latest : Instant}
    (h : NeverPanics p server latest) {cache : ResponseCache} (hcache : server.cache = some cache)
    {secs : Nat} (hsecs : cache.defaultTtl = Duration.fromSecs secs) :
    Duration.asSecs latest + secs < 2 ^ 63 := by
  have hc : (ServerTasks.spawned server).cache = some ⟨cache, []⟩ := by
    rw [ServerTasks.spawned, hcache, Option.map_some]
  have hundated := declaresNoLifetime_empty p
  have hnot := h [] _ _ (.cache (.prepare [] ⟨200, HeaderMap.empty, []⟩ ⟨latest, 0⟩)) (Run.nil _)
    ⟨_, _, hc, rfl, rfl⟩ ⟨hundated, Nat.le_refl latest⟩
  by_contra hover
  refine hnot ⟨_, hc, (preparePut_panicked _ _ _ _).mpr ⟨rfl, ?_⟩⟩
  rw [hsecs, hundated.inRange_iff]
  exact hover

/-! ### When nothing panics -/

/-- The numbers of the configuration that the server can use. -/
structure NumbersFit (config : Config) (serverConfig : ServerConfig) (latest : Instant) : Prop where
  intervals : ∀ u ∈ config.upstreams, u.targets ≠ [] → ∀ healthConfig,
    u.healthCheck = some healthConfig → healthConfig.intervalSeconds ≠ 0
  lifetime : ∀ cacheConfig, serverConfig.cache = some cacheConfig →
    Duration.asSecs latest + cacheConfig.defaultTtlSeconds < 2 ^ 63

/-- **No step of a run panics** when the numbers fit. -/
theorem neverPanics_of_numbersFit (lib : TlsLibrary File Cert Key Acceptor) (p : Platform)
    {config : Config} (hvalid : config.validate = .ok ()) {serverConfig : ServerConfig}
    {latest : Instant} (h : NumbersFit config serverConfig latest) :
    NeverPanics p (Server.new lib config serverConfig) latest := by
  intro tr s s' e hrun _ hundated hpanic
  have hconfigured := configured_of_run hrun
  match e with
  | .start i =>
    obtain ⟨t, ht, hstart⟩ := hpanic
    obtain ⟨u, hmem, htargets, hhealth⟩ := (checkers_config hvalid lib serverConfig _).mp
      ⟨t.checker, hconfigured.checkers i t ht, rfl⟩
    exact h.intervals u hmem htargets _ hhealth (start_panicked.mp hstart)
  | .cache (.prepare key response clock) =>
    obtain ⟨c, hc, hput⟩ := hpanic
    obtain ⟨cache, hcache, httl⟩ := hconfigured.cache c hc
    obtain ⟨cacheConfig, hconfig, rfl⟩ := Option.map_eq_some_iff.mp hcache
    obtain ⟨hnone, hlatest⟩ := hundated
    have hover := ((preparePut_panicked _ _ _ _).mp hput).2
    rw [httl, show (ResponseCache.new cacheConfig.maxSize (Duration.fromSecs
      cacheConfig.defaultTtlSeconds)).defaultTtl = Duration.fromSecs cacheConfig.defaultTtlSeconds
      from rfl, hnone.inRange_iff] at hover
    -- the clock has not come further than the latest time
    have hsecs : Duration.asSecs clock.instant ≤ Duration.asSecs latest :=
      Nat.div_le_div_right hlatest
    have := h.lifetime cacheConfig hconfig
    omega

/-- **When a validated configuration leads to no panic.**  In every run of the checkers and the
    cache of a server that is built from it, no interval and no put panics exactly when every health
    check of an upstream with targets has an interval, and the default lifetime fits between the
    latest clock reading and the end of the range of `Instant`. -/
theorem no_panic_iff (lib : TlsLibrary File Cert Key Acceptor) (p : Platform) {config : Config}
    (hvalid : config.validate = .ok ()) (serverConfig : ServerConfig) (latest : Instant) :
    NeverPanics p (Server.new lib config serverConfig) latest ↔
      NumbersFit config serverConfig latest := by
  refine ⟨fun h => ⟨?_, ?_⟩, neverPanics_of_numbersFit lib p hvalid⟩
  · intro u hmem htargets healthConfig hhealth
    obtain ⟨checker, hchecker, rfl⟩ := (checkers_config hvalid lib serverConfig healthConfig).mpr
      ⟨u, hmem, htargets, hhealth⟩
    exact intervals_of_neverPanics h hchecker
  · intro cacheConfig hcache
    have hnew : (Server.new lib config serverConfig).cache = some (ResponseCache.new
        cacheConfig.maxSize (Duration.fromSecs cacheConfig.defaultTtlSeconds)) := by
      rw [Server.new, hcache, Option.map_some]
    exact lifetime_of_neverPanics h hnew rfl

/-- A configuration with one checked upstream. -/
def pollingConfig (intervalSeconds : Nat) : Config where
  servers := []
  upstreams :=
    [⟨"api".toList, [⟨"127.0.0.1".toList, 3000, none, none⟩], none,
      some ⟨intervalSeconds, 5, 200⟩⟩]

/-- A server with a cache. -/
def cachingServer (defaultTtlSeconds : Nat) : ServerConfig where
  id := "main".toList
  bindAddress := "0.0.0.0".toList
  port := 80
  routes := []
  tls := none
  cache := some ⟨1000, defaultTtlSeconds⟩

/-- Common numbers never lead to a panic, the largest default lifetime does. -/
theorem no_panic_iff_common :
    NeverPanics Platform.ascii (Server.new noFiles (pollingConfig 30) (cachingServer 600)) 0 ∧
      ¬ NeverPanics Platform.ascii
        (Server.new noFiles (pollingConfig 30) (cachingServer (2 ^ 64 - 1))) 0 := by
  constructor
  · refine (no_panic_iff noFiles Platform.ascii rfl _ _).mpr ⟨?_, ?_⟩
    · intro u hmem _ healthConfig hhealth
      obtain rfl := List.mem_singleton.mp hmem
      rw [← Option.some.inj hhealth]
      decide
    · intro cacheConfig hcache
      rw [← Option.some.inj hcache]
      decide
  · intro h
    have hlifetime := ((no_panic_iff noFiles Platform.ascii rfl _ _).mp h).lifetime _ rfl
    exact absurd hlifetime (by decide)

/-- An interval of zero seconds is accepted, and its checker panics. -/
theorem zero_interval_panics :
    ¬ ∀ (p : Platform) (config : Config) (serverConfig : ServerConfig) (latest : Instant),
      config.validate = .ok () →
      NeverPanics p (Server.new noFiles config serverConfig) latest := by
  intro h
  have hnever := h Platform.ascii (pollingConfig 0) (cachingServer 600) 0 rfl
  have hmem : ⟨⟨0, 5, 200⟩, [⟨"api".toList, 0⟩]⟩ ∈
      (Server.new noFiles (pollingConfig 0) (cachingServer 600)).checkers :=
    List.mem_singleton.mpr rfl
  exact intervals_of_neverPanics hnever hmem rfl

end Sret
