import Sret.Foundation.Tasks
import Sret.System

namespace Sret

open Text Transition

/-!
# Health flags and the history of checks

What the health flags of a running server say, over every interleaving of checks, requests and
cache work.

* `lastVerdict` — the result of the last completed check of a target, if it has had one;
* `HealthInvariant` — the flag of every target is its last verdict, healthy before the first;
  and the flag that a checker has read still stands while it waits for the reply, since no other
  task writes the targets of this checker;
* `HealthInvariant.step`, `healthInvariant_of_run` — every step keeps this;
* `candidates_are_passing` — so the strategies draw from the targets whose last check did not
  fail, and from no others.
-/

variable {File Cert Key Acceptor : Type}

/-- The result of a completed check of the target. -/
def Event.verdictOn (ref : TargetRef) : Event → Option Bool
  | .verdict _ ref' _ isHealthy _ => if ref' = ref then some isHealthy else none
  | _ => none

/-- The result of the last completed check of the target. -/
def lastVerdict (tr : List Event) (ref : TargetRef) : Option Bool :=
  History.latest (Event.verdictOn ref) tr

theorem lastVerdict_snoc (tr : List Event) (e : Event) (ref : TargetRef) :
    lastVerdict (tr ++ [e]) ref = (e.verdictOn ref).or (lastVerdict tr ref) :=
  History.latest_snoc _ _ _

/-- The checkers of the state are those of the server, and their targets are disjoint. -/
structure CheckersOf (checkers : List HealthChecker) (s : State) : Prop where
  same : s.checkers.map CheckerState.checker = checkers
  disjoint : checkers.Pairwise fun a b => ∀ ref ∈ a.targets, ref ∉ b.targets

/-- The flags follow the history of checks. -/
structure HealthInvariant (tr : List Event) (s : State) : Prop where
  flag : ∀ ref t, s.router.getTarget ref = some t → t.healthy = (lastVerdict tr ref).getD true
  probing : ∀ (c : Nat) k was ref t, s.checkers[c]? = some k → k.probing = some was →
    k.current = some ref → s.router.getTarget ref = some t → t.healthy = was

/-! ### Checkers -/

/-- Moving a checker on does not change which checkers there are. -/
theorem map_checker_set {checkers : List CheckerState} {c : Nat} {k k' : CheckerState}
    (hk : checkers[c]? = some k) (hsame : k'.checker = k.checker) :
    (checkers.set c k').map CheckerState.checker = checkers.map CheckerState.checker := by
  rw [List.map_set, hsame]
  have hself : (checkers.map CheckerState.checker)[c]? = some k.checker := by
    rw [List.getElem?_map, hk, Option.map_some]
  obtain ⟨hc, hget⟩ := List.getElem?_eq_some_iff.mp hself
  rw [← hget, List.set_getElem_self]

theorem CheckersOf.step {checkers : List HealthChecker} {p : Platform} {s s' : State} {e : Event}
    (h : CheckersOf checkers s) (hstep : e.Step p s s') : CheckersOf checkers s' := by
  refine ⟨?_, h.disjoint⟩
  rcases checkers_of_step hstep with heq | ⟨c, k, _, _, _, hk, _, _, _, _, heq⟩ |
    ⟨c, k, _, _, _, _, _, _, hk, _, _, _, heq⟩
  · rw [heq, h.same]
  · rw [heq]
    exact Eq.trans (map_checker_set hk rfl) h.same
  · rw [heq]
    exact Eq.trans (map_checker_set hk rfl) h.same

/-- Two checkers that have come to the same target are the same. -/
theorem CheckersOf.eq_of_current {checkers : List HealthChecker} {s : State}
    (h : CheckersOf checkers s) {c c' : Nat} {k k' : CheckerState} {ref : TargetRef}
    (hk : s.checkers[c]? = some k) (hk' : s.checkers[c']? = some k')
    (href : k.current = some ref) (href' : k'.current = some ref) : c = c' := by
  have hmem : ref ∈ k.checker.targets := List.mem_of_getElem? href
  have hmem' : ref ∈ k'.checker.targets := List.mem_of_getElem? href'
  have hchecker : checkers[c]? = some k.checker := by rw [← h.same, List.getElem?_map, hk]; rfl
  have hchecker' : checkers[c']? = some k'.checker := by rw [← h.same, List.getElem?_map, hk']; rfl
  obtain ⟨hc, hget⟩ := List.getElem?_eq_some_iff.mp hchecker
  obtain ⟨hc', hget'⟩ := List.getElem?_eq_some_iff.mp hchecker'
  have hdisjoint := List.pairwise_iff_getElem.mp h.disjoint
  rcases Nat.lt_trichotomy c c' with hlt | heq | hlt
  · have := hdisjoint c c' hc hc' hlt ref (hget ▸ hmem)
    exact absurd (hget' ▸ hmem') this
  · exact heq
  · have := hdisjoint c' c hc' hc hlt ref (hget' ▸ hmem')
    exact absurd (hget ▸ hmem) this

/-! ### Flags -/

/-- Only a verdict says something about a target. -/
theorem verdictOn_eq_none {e : Event}
    (h : ∀ c ref reply isHealthy now, e ≠ .verdict c ref reply isHealthy now) (ref : TargetRef) :
    e.verdictOn ref = none := by
  unfold Event.verdictOn
  split
  · exact absurd rfl (h _ _ _ _ _)
  · rfl

/-- A step that completes no check changes no target. -/
theorem getTarget_of_step {p : Platform} {s s' : State} {e : Event} (hstep : e.Step p s s')
    (h : ∀ c ref reply isHealthy now, e ≠ .verdict c ref reply isHealthy now) (ref : TargetRef) :
    s'.router.getTarget ref = s.router.getTarget ref := by
  rcases router_of_step hstep with heq | ⟨i, pick, routed, x, -, -, hroute⟩ |
    ⟨c, ref', reply, isHealthy, now, _, he, -⟩
  · rw [heq]
  · exact Router.getTarget_of_routeRequest hroute ref
  · exact absurd he (h c ref' reply isHealthy now)

/-- A step that completes no check keeps the flags in line with the history. -/
theorem HealthInvariant.step_other {p : Platform} {tr : List Event} {s s' : State} {e : Event}
    (h : HealthInvariant tr s) (hstep : e.Step p s s')
    (hother : ∀ c ref reply isHealthy now, e ≠ .verdict c ref reply isHealthy now) :
    HealthInvariant (tr ++ [e]) s' := by
  -- the history of the checks is the same, and so are the targets
  have hsame := getTarget_of_step hstep hother
  constructor
  · intro ref t ht
    rw [lastVerdict_snoc, verdictOn_eq_none hother, Option.none_or]
    exact h.flag ref t (hsame ref ▸ ht)
  · intro c k was ref t hk hwas hcur ht
    rw [hsame] at ht
    rcases checkers_of_step hstep with heq | ⟨c₀, k₀, ref₀, t₀, -, hk₀, -, hcur₀, ht₀, -, heq⟩ |
      ⟨c₀, k₀, _, ref₀, reply, isHealthy, now, he, -⟩
    · exact h.probing c k was ref t (heq ▸ hk) hwas hcur ht
    · rw [heq] at hk
      rcases Tasks.of_set hk with ⟨rfl, rfl⟩ | ⟨-, hk⟩
      · -- the checker has just read the flag
        obtain rfl : ref₀ = ref := Option.some.inj (hcur₀.symm.trans hcur)
        obtain rfl : t₀ = t := Option.some.inj (ht₀.symm.trans ht)
        exact Option.some.inj hwas
      · exact h.probing c k was ref t hk hwas hcur ht
    · exact absurd he (hother c₀ ref₀ reply isHealthy now)

/-- **A completed check keeps the flags in line with the history**: the flag that it compares
    with is still the current one, so leaving the flag alone when nothing changed is right. -/
theorem HealthInvariant.step_verdict {checkers : List HealthChecker} {p : Platform}
    {tr : List Event} {s s' : State} {c : Nat} {ref : TargetRef} {reply : Option StatusCode}
    {isHealthy : Bool} {now : Instant} (h : HealthInvariant tr s)
    (hcheckers : CheckersOf checkers s)
    (hstep : Event.Step p s (.verdict c ref reply isHealthy now) s') :
    HealthInvariant (tr ++ [.verdict c ref reply isHealthy now]) s' := by
  obtain ⟨k, was, hk, hwas, hcur, -, rfl⟩ := hstep
  constructor
  · intro ref' t' ht'
    rw [getTarget_applyVerdict] at ht'
    rw [lastVerdict_snoc, Event.verdictOn]
    by_cases href : ref = ref'
    · subst href
      rw [if_pos rfl, Option.some_or, Option.getD_some]
      by_cases hchanged : was = isHealthy
      · -- nothing is written, and nothing need be: the flag still is what was read
        rw [if_neg (by simp [hchanged])] at ht'
        rw [h.probing c k was ref t' hk hwas hcur ht', hchanged]
      · rw [if_pos ⟨hchanged, rfl⟩, Option.map_eq_some_iff] at ht'
        obtain ⟨t, -, rfl⟩ := ht'
        rfl
    · rw [if_neg (by simp [href])] at ht'
      rw [if_neg href, Option.none_or]
      exact h.flag ref' t' ht'
  · intro c' k' was' ref' t' hk' hwas' hcur' ht'
    rcases Tasks.of_set hk' with ⟨-, rfl⟩ | ⟨hne, hk'⟩
    · simp [CheckerState.advance] at hwas'
    · -- another checker waits for another target
      have href : ref ≠ ref' := by
        rintro rfl
        exact hne (hcheckers.eq_of_current hk hk' hcur hcur')
      rw [getTarget_applyVerdict, if_neg (by simp [href])] at ht'
      exact h.probing c' k' was' ref' t' hk' hwas' hcur' ht'

/-- **One step keeps the flags in line with the history.** -/
theorem HealthInvariant.step {checkers : List HealthChecker} {p : Platform} {tr : List Event}
    {s s' : State} {e : Event} (h : HealthInvariant tr s) (hcheckers : CheckersOf checkers s)
    (hstep : e.Step p s s') : HealthInvariant (tr ++ [e]) s' := by
  cases e with
  | verdict c ref reply isHealthy now => exact h.step_verdict hcheckers hstep
  | accept request => exact h.step_other hstep (by simp)
  | lookup i now result => exact h.step_other hstep (by simp)
  | route i pick routed => exact h.step_other hstep (by simp)
  | finish i outcome => exact h.step_other hstep (by simp)
  | prepare q clock => exact h.step_other hstep (by simp)
  | commit q key entry victim => exact h.step_other hstep (by simp)
  | probe c => exact h.step_other hstep (by simp)

/-- Every target of a new router is healthy and has no connections. -/
theorem target_of_new_router {config : Config} {serverConfig : ServerConfig} {ref : TargetRef}
    {t : Target} (h : (Router.new config serverConfig).getTarget ref = some t) :
    ∃ tc, t = Target.new tc := by
  obtain ⟨u, hu, ht⟩ := Option.bind_eq_some_iff.mp h
  obtain ⟨uc, -, -, rfl⟩ := Router.getUpstream_new hu
  simp only [Upstream.new, List.getElem?_map, Option.map_eq_some_iff] at ht
  obtain ⟨tc, -, rfl⟩ := ht
  exact ⟨tc, rfl⟩

/-- An optional verdict, healthy by default. -/
theorem getD_true_iff (verdict : Option Bool) :
    verdict.getD true = true ↔ verdict ≠ some false := by
  cases verdict with
  | none => simp
  | some b => simp

section Runs

variable {lib : TlsLibrary File Cert Key Acceptor} {p : Platform} {config : Config}
  {serverConfig : ServerConfig} {tr : List Event} {s : State}

/-- **The invariants hold in every state that a server of a validated configuration reaches.** -/
theorem healthInvariant_of_run (hvalid : config.validate = .ok ())
    (hrun : Run (Event.Step p) (State.initial (Server.new lib config serverConfig)) tr s) :
    CheckersOf (Server.new lib config serverConfig).checkers s ∧ HealthInvariant tr s := by
  refine hrun.invariant_trace (fun tr s =>
    CheckersOf (Server.new lib config serverConfig).checkers s ∧ HealthInvariant tr s) ?_ ?_
  · refine ⟨⟨?_, Server.targets_disjoint lib hvalid serverConfig⟩, ⟨?_, ?_⟩⟩
    · simp [State.initial, Function.comp_def]
    · -- no check has been completed, and every target is healthy
      intro ref t ht
      obtain ⟨tc, rfl⟩ := target_of_new_router ht
      rfl
    · intro c k was ref t hk hwas
      simp only [State.initial, List.getElem?_map, Option.map_eq_some_iff] at hk
      obtain ⟨checker, -, rfl⟩ := hk
      simp at hwas
  · rintro tr t e u - ⟨hcheckers, hinv⟩ hstep
    exact ⟨hcheckers.step hstep, hinv.step hcheckers hstep⟩

/-- A target is checked by a checker of the server. -/
theorem checked_of_lastVerdict (hvalid : config.validate = .ok ())
    (hrun : Run (Event.Step p) (State.initial (Server.new lib config serverConfig)) tr s)
    {ref : TargetRef} {b : Bool} (h : lastVerdict tr ref = some b) :
    ∃ checker ∈ (Server.new lib config serverConfig).checkers, ref ∈ checker.targets := by
  -- some check of the target has been completed, by a checker that had come to it
  obtain ⟨e, hmem, he⟩ := History.exists_of_latest h
  obtain ⟨pre, post, rfl⟩ := List.append_of_mem hmem
  obtain ⟨m, m', hpre, hstep, -⟩ := hrun.step_at
  have hcheckers := (healthInvariant_of_run hvalid hpre).1
  cases e with
  | verdict c ref' reply isHealthy now =>
    obtain ⟨k, was, hk, -, hcur, -, -⟩ := hstep
    obtain rfl : ref' = ref := by
      by_contra hne
      simp [Event.verdictOn, hne] at he
    refine ⟨k.checker, ?_, List.mem_of_getElem? hcur⟩
    rw [← hcheckers.same]
    exact List.mem_map_of_mem (List.mem_of_getElem? hk)
  | _ => simp [Event.verdictOn] at he

/-- An upstream without a health check is never checked. -/
theorem lastVerdict_of_unchecked (hvalid : config.validate = .ok ())
    (hrun : Run (Event.Step p) (State.initial (Server.new lib config serverConfig)) tr s)
    {uc : UpstreamConfig} (hmem : uc ∈ config.upstreams) (hnone : uc.healthCheck = none)
    (index : Nat) : lastVerdict tr ⟨uc.id, index⟩ = none := by
  by_contra hne
  obtain ⟨b, hb⟩ := Option.ne_none_iff_exists'.mp hne
  obtain ⟨checker, hchecker, href⟩ := checked_of_lastVerdict hvalid hrun hb
  rw [Server.checkers_new, List.mem_filterMap] at hchecker
  obtain ⟨uc', hmem', hfor⟩ := hchecker
  obtain ⟨hid, hcheck⟩ := Server.upstreamId_of_checkerFor hfor href
  -- the ids are distinct, so the checker would be one of this upstream
  have heq : uc = uc' :=
    List.inj_on_of_nodup_map (Config.validate_eq_ok.mp hvalid).2.2 hmem hmem' hid
  rw [heq, hcheck] at hnone
  simp at hnone

end Runs

/-- **The candidates are the targets that pass.**  In every state that a server of a validated
    configuration reaches, over every interleaving of checks and requests, the strategy of every
    upstream draws from the targets whose last completed check did not fail (never checked
    included), under weighted round robin from those of them with a positive weight; an upstream
    without a health check has all its targets eligible; and no request is ever routed to a
    target whose last check failed. -/
theorem candidates_are_passing (lib : TlsLibrary File Cert Key Acceptor) (p : Platform)
    (config : Config) (serverConfig : ServerConfig) (hvalid : config.validate = .ok ())
    (tr : List Event) (s : State)
    (hrun : Run (Event.Step p) (State.initial (Server.new lib config serverConfig)) tr s)
    (id : Str) (u : Upstream) (hu : s.router.getUpstream id = some u) :
    (∀ a, a ∈ u.candidates ↔ u.targets[a.index]? = some a.target ∧
      lastVerdict tr ⟨id, a.index⟩ ≠ some false ∧
      (u.strategy = .weightedRoundRobin → 0 < a.target.weight)) ∧
    (∀ uc ∈ config.upstreams, uc.id = id → uc.healthCheck = none →
      ∀ index, lastVerdict tr ⟨id, index⟩ = none) ∧
    (∀ pick, (∀ a, (u.selectTarget pick).1 = some a → a ∈ u.candidates) ∧
      ((u.selectTarget pick).1 = none ↔ u.candidates = [])) ∧
    (∀ pre i pick d post, tr = pre ++ .route i pick (some d) :: post →
      lastVerdict pre d.ref ≠ some false) := by
  refine ⟨fun a => ?_, ?_, fun pick => ⟨fun a => ?_, ?_⟩, ?_⟩
  · have hflag := (healthInvariant_of_run hvalid hrun).2.flag ⟨id, a.index⟩ a.target
    rw [Upstream.mem_candidates]
    refine and_congr_right fun hidx => and_congr_left fun _ => ?_
    rw [Target.isHealthy, hflag (by simp [Router.getTarget, hu, hidx])]
    exact getD_true_iff _
  · rintro uc hmem rfl hnone index
    exact lastVerdict_of_unchecked hvalid hrun hmem hnone index
  · exact Upstream.selectTarget_mem_candidates
  · exact Upstream.selectTarget_eq_none
  · -- what a request was routed to was a candidate at that time
    rintro pre i pick d post rfl
    obtain ⟨m, m', hpre, ⟨x, -, -, hrouted, -⟩, -⟩ := hrun.step_at
    obtain ⟨w, hw, hsel, htarget⟩ := Router.getTarget_of_routed (Prod.ext hrouted rfl)
    have hhealthy := (Upstream.mem_candidates.mp (Upstream.selectTarget_mem_candidates hsel)).2.1
    rw [← getD_true_iff, ← (healthInvariant_of_run hvalid hpre).2.flag _ _ htarget]
    exact hhealthy

/-- Two targets, checked for status 200. -/
def checkedConfig : Config where
  servers := []
  upstreams :=
    [⟨"api".toList,
      [⟨"127.0.0.1".toList, 3000, none, none⟩, ⟨"127.0.0.1".toList, 3001, none, none⟩],
      none, some ⟨30, 5, 200⟩⟩]

/-- A server that routes everything to them. -/
def checkedServer : ServerConfig where
  id := "main".toList
  bindAddress := "0.0.0.0".toList
  port := 80
  routes := [⟨none, some ["/".toList], "api".toList⟩]
  tls := none
  cache := none

/-- The upstream after the first check of its first target has failed. -/
def failedUpstream : Upstream where
  id := "api".toList
  targets :=
    [(Target.new ⟨"127.0.0.1".toList, 3000, none, none⟩).setHealthy false 7,
     Target.new ⟨"127.0.0.1".toList, 3001, none, none⟩]
  strategy := .roundRobin
  roundRobinCounter := 0

/-- The target whose check has failed. -/
def failedTarget : TargetArc :=
  ⟨0, (Target.new ⟨"127.0.0.1".toList, 3000, none, none⟩).setHealthy false 7⟩

/-- The target that has not been checked yet. -/
def uncheckedTarget : TargetArc := ⟨1, Target.new ⟨"127.0.0.1".toList, 3001, none, none⟩⟩

theorem candidates_are_passing_failed :
    failedTarget ∉ failedUpstream.candidates ∧ uncheckedTarget ∈ failedUpstream.candidates := by
  have hrun : Run (Event.Step Platform.ascii)
      (State.initial (Server.new noFiles checkedConfig checkedServer))
      ([.probe 0] ++ [.verdict 0 ⟨"api".toList, 0⟩ none false 7]) _ :=
    Run.snoc (Run.single ⟨_, _, _, rfl, rfl, rfl, rfl, rfl⟩) ⟨_, _, rfl, rfl, rfl, rfl, rfl⟩
  have hcand := (candidates_are_passing noFiles Platform.ascii checkedConfig checkedServer rfl _ _
    hrun "api".toList failedUpstream rfl).1
  constructor
  · intro hmem
    exact ((hcand failedTarget).mp hmem).2.1 (by decide)
  · exact (hcand uncheckedTarget).mpr ⟨rfl, by decide, by decide⟩

end Sret
