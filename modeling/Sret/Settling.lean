import Mathlib.Algebra.Order.BigOperators.Group.List
import Mathlib.Data.Set.Finite.Basic
import Mathlib.Order.Filter.AtTopBot.Basic
import Mathlib.Order.Filter.Finite
import Sret.Balancing
import Sret.CheckOrder
import Sret.Frame

namespace Sret

open Text Transition Rotation Fairness

/-!
# What health checks lead to

Infinite executions in which the checks of a target have the same result from some time on, while
requests, puts and other checks go on around them.

* `flags_settle` — under weak fairness the flag of the target becomes that result for good, so a
  target that fails all its checks gets no more requests;
* `exists_steady` — an upstream whose targets all have such results comes to rest: no step changes
  one of its targets any more;
* `healthy_targets_serve_for_ever` — from then on its selections go round, so each of its targets
  whose checks succeed gets requests again and again.
-/

variable {File Cert Key Acceptor : Type}

/-- From the time on, every completed check of the target has the result. -/
def Consistently {p : Platform} (x : Execution (Event.Step p)) (n : Nat) (ref : TargetRef)
    (result : Bool) : Prop :=
  ∀ m e, n ≤ m → x.label m = some e → e.verdictOn ref ≠ some (!result)

/-- A check after that time has this result. -/
theorem Consistently.eq {p : Platform} {x : Execution (Event.Step p)} {n : Nat} {ref : TargetRef}
    {result : Bool} (h : Consistently x n ref result) {m : Nat} {e : Event} (hm : n ≤ m)
    (he : x.label m = some e) {b : Bool} (hb : e.verdictOn ref = some b) : b = result := by
  have hne := h m e hm he
  rw [hb] at hne
  cases b <;> cases result <;> simp_all

/-- A verdict stays the last one until there is another result. -/
theorem Consistently.lastVerdict {p : Platform} {x : Execution (Event.Step p)} {n : Nat}
    {ref : TargetRef} {result : Bool} (h : Consistently x n ref result) {m : Nat} (hm : n ≤ m)
    (hlast : lastVerdict (x.upTo m) ref = some result) {k : Nat} (hk : m ≤ k) :
    lastVerdict (x.upTo k) ref = some result := by
  induction k, hk using Nat.le_induction with
  | base => exact hlast
  | succ k hk ih =>
    rw [x.upTo_succ]
    cases he : x.label k with
    | none => rwa [Option.toList_none, List.append_nil]
    | some e =>
      rw [Option.toList_some, lastVerdict_snoc, ih]
      cases hb : e.verdictOn ref with
      | none => rfl
      | some b => rw [h.eq (hm.trans hk) he hb, Option.some_or]

/-- The router assigns requests to healthy targets. -/
theorem healthy_of_route {p : Platform} {s s' : State} {i pick : Nat} {d : Routed}
    (h : Event.Step p s (.route i pick (some d)) s') :
    ∃ t, s.router.getTarget d.ref = some t ∧ t.isHealthy = true := by
  obtain ⟨x, -, -, hrouted, -⟩ := h
  obtain ⟨u, -, hselect, htarget⟩ := Router.getTarget_of_routed (Prod.ext hrouted rfl)
  have hmem := Upstream.mem_candidates.mp (Upstream.selectTarget_mem_candidates hselect)
  exact ⟨_, htarget, hmem.2.1⟩

/-- A check with the result that the target has had before writes nothing. -/
theorem getTarget_of_same_verdict {p : Platform} {tr : List Event} {s s' : State} {e : Event}
    (hinv : HealthInvariant tr s) (hstep : e.Step p s s') {ref : TargetRef}
    (hsame : ∀ b, e.verdictOn ref = some b → (lastVerdict tr ref).getD true = b) :
    s'.router.getTarget ref = s.router.getTarget ref := by
  cases e with
  | verdict c ref' reply isHealthy now =>
    obtain ⟨k, was, hk, hwas, hcur, -, rfl⟩ := hstep
    rw [getTarget_applyVerdict]
    split
    · rename_i hchanged
      obtain ⟨hne, rfl⟩ := hchanged
      cases ht : s.router.getTarget ref' with
      | none => rfl
      | some t =>
        -- the flag is what the checker has read, and what the history says
        have hread := hinv.probing c k was ref' t hk hwas hcur ht
        have hflag := hinv.flag ref' t ht
        exact absurd (hread.symm.trans (hflag.trans (hsame isHealthy (if_pos rfl)))) hne
    · rfl
  | _ => exact getTarget_of_step hstep (by simp) ref

section Executions

variable {lib : TlsLibrary File Cert Key Acceptor} {p : Platform} {config : Config}
  {serverConfig : ServerConfig} {x : Execution (Event.Step p)}

/-- The flag of a checked target settles. -/
theorem exists_flag_settled (hvalid : config.validate = .ok ())
    (hinitial : x.state 0 = State.initial (Server.new lib config serverConfig)) {c : Nat}
    {checker : HealthChecker}
    (hc : (Server.new lib config serverConfig).checkers[c]? = some checker)
    (hfair : x.Fair fun e => e.checker = some c) {ref : TargetRef} (href : ref ∈ checker.targets)
    {n : Nat} {result : Bool} (hresult : Consistently x n ref result) :
    ∃ m, n ≤ m ∧ ∀ k, m ≤ k →
      ∃ t, (x.state k).router.getTarget ref = some t ∧ t.isHealthy = result := by
  have hrun : ∀ k, Run (Event.Step p) (State.initial (Server.new lib config serverConfig))
      (x.upTo k) (x.state k) := fun k => hinitial ▸ x.run_upTo k
  obtain ⟨m, hm, reply, isHealthy, now, he⟩ :=
    exists_verdict x hfair (checking_of_run (hrun n) hc) href
  -- the first check after the time has the result
  obtain rfl : isHealthy = result := hresult.eq hm he (if_pos rfl)
  have hlast : lastVerdict (x.upTo (m + 1)) ref = some isHealthy := by
    rw [x.upTo_succ, he, Option.toList_some, lastVerdict_snoc, Event.verdictOn, if_pos rfl,
      Option.some_or]
  have hafter : n ≤ m + 1 := hm.trans (Nat.le_succ m)
  refine ⟨m + 1, hafter, fun k hk => ?_⟩
  obtain ⟨hunblocked, j, hj, rfl⟩ := checking_of_run (hrun k) hc
  obtain ⟨t, ht⟩ := Option.isSome_iff_exists.mp
    (hunblocked.targets j (List.mem_of_getElem? hj) ref href)
  refine ⟨t, ht, ?_⟩
  have hflag := (healthInvariant_of_run hvalid (hrun k)).2.flag ref t ht
  rwa [hresult.lastVerdict hafter hlast hk] at hflag

/-- **Flags settle.**  In every infinite execution of a server of a validated configuration that is
    fair to its checkers: if from some time on all checks of a target of a checker with an interval
    have the same result, then the flag of the target becomes this result for good; and if the
    checks fail, the target gets no more requests. -/
theorem flags_settle (lib : TlsLibrary File Cert Key Acceptor) (p : Platform) (config : Config)
    (hvalid : config.validate = .ok ()) (serverConfig : ServerConfig)
    (x : Execution (Event.Step p))
    (hinitial : x.state 0 = State.initial (Server.new lib config serverConfig))
    (hfair : FairToCheckers (Server.new lib config serverConfig) x) (c : Nat)
    (checker : HealthChecker)
    (hc : (Server.new lib config serverConfig).checkers[c]? = some checker)
    (hinterval : checker.config.intervalSeconds ≠ 0) (ref : TargetRef)
    (href : ref ∈ checker.targets) (n : Nat) (result : Bool)
    (hresult : Consistently x n ref result) :
    ∃ m, n ≤ m ∧ ∀ k, m ≤ k →
      (∃ t, (x.state k).router.getTarget ref = some t ∧ t.isHealthy = result) ∧
      (result = false → ∀ i pick d, x.label k = some (.route i pick (some d)) → d.ref ≠ ref) := by
  obtain ⟨m, hm, hsettled⟩ := exists_flag_settled hvalid hinitial hc
    (hfair c checker hc hinterval) href hresult
  refine ⟨m, hm, fun k hk => ⟨hsettled k hk, ?_⟩⟩
  rintro rfl i pick d he rfl
  obtain ⟨t, ht, hfailing⟩ := hsettled k hk
  obtain ⟨t', ht', hhealthy⟩ := healthy_of_route (x.next k _ he)
  obtain rfl : t' = t := Option.some.inj (ht'.symm.trans ht)
  simp [hfailing] at hhealthy

/-- The target of the only checker has gone down. -/
def downState (probing : Option Bool) : State where
  router := applyVerdict (Router.new soloConfig checkedServer) ⟨"api".toList, 0⟩ true false 1
  cache := none
  checkers := [⟨soloChecker, 0, probing⟩]
  exchanges := []
  puts := []

/-- The states of a server whose target does not answer. -/
def downStates (n : Nat) : State :=
  if n < 2 then soloState (if n % 2 = 0 then none else some true)
  else downState (if n % 2 = 0 then none else some false)

/-- The checker sends its request, and gets no reply. -/
def downEvent (n : Nat) : Event :=
  if n % 2 = 0 then .probe 0 else .verdict 0 ⟨"api".toList, 0⟩ none false 1

/-- So it goes on, step by step. -/
theorem step_downStates (n : Nat) :
    Event.Step Platform.ascii (downStates n) (downEvent n) (downStates (n + 1)) := by
  unfold downStates downEvent
  rcases Nat.lt_or_ge n 2 with hlt | hge
  · obtain rfl | rfl : n = 0 ∨ n = 1 := by omega
    · exact ⟨_, _, _, rfl, rfl, rfl, rfl, rfl⟩
    · exact ⟨_, _, rfl, rfl, rfl, rfl, rfl⟩
  · rw [if_neg (show ¬ n < 2 by omega), if_neg (show ¬ n + 1 < 2 by omega)]
    rcases Nat.mod_two_eq_zero_or_one n with h | h
    · rw [if_pos h, if_pos h, if_neg (by omega)]
      exact ⟨_, _, _, rfl, rfl, rfl, rfl, rfl⟩
    · rw [if_neg (by omega), if_neg (by omega), if_pos (by omega)]
      exact ⟨_, _, rfl, rfl, rfl, rfl, rfl⟩

/-- The target does not answer, for ever. -/
def downExecution : Execution (Event.Step Platform.ascii) where
  state := downStates
  label n := some (downEvent n)
  next n _ he := Option.some.inj he ▸ step_downStates n
  idle := by simp

/-- The target is down for good. -/
theorem flags_settle_down :
    ∃ m, ∀ k, m ≤ k → ∃ t, (downExecution.state k).router.getTarget ⟨"api".toList, 0⟩ = some t ∧
      t.isHealthy = false := by
  have hfair : FairToCheckers (Server.new noFiles soloConfig checkedServer) downExecution := by
    intro c checker hc _
    obtain rfl := eq_zero_of_soloChecker hc
    refine fun n _ => ⟨n, _, le_rfl, rfl, ?_⟩
    unfold downEvent
    split <;> rfl
  have hresult : Consistently downExecution 0 ⟨"api".toList, 0⟩ false := by
    intro m e _ he
    obtain rfl := Option.some.inj he
    unfold downEvent
    split <;> simp [Event.verdictOn]
  obtain ⟨m, -, h⟩ := flags_settle noFiles Platform.ascii soloConfig rfl checkedServer downExecution
    rfl hfair 0 soloChecker rfl (by decide) ⟨"api".toList, 0⟩ (by decide) 0 false hresult
  exact ⟨m, fun k hk => (h k hk).1⟩

/-! ### Upstreams at rest -/

/-- No step changes a target any more whose checks keep their result, whether they go on or not. -/
theorem exists_target_settled (hvalid : config.validate = .ok ())
    (hinitial : x.state 0 = State.initial (Server.new lib config serverConfig)) {ref : TargetRef}
    {n : Nat} {result : Bool} (hresult : Consistently x n ref result) :
    ∃ m, n ≤ m ∧ ∀ k, m ≤ k →
      (x.state k).router.getTarget ref = (x.state m).router.getTarget ref := by
  -- from a time on at which every further verdict repeats the last one
  have hkeeps : ∀ m, (∀ k e b, m ≤ k → x.label k = some e → e.verdictOn ref = some b →
      (lastVerdict (x.upTo k) ref).getD true = b) → ∀ k, m ≤ k →
      (x.state k).router.getTarget ref = (x.state m).router.getTarget ref := by
    intro m hrepeats k hk
    induction k, hk using Nat.le_induction with
    | base => rfl
    | succ k hk ih =>
      refine Eq.trans ?_ ih
      cases he : x.label k with
      | none => rw [x.idle k he]
      | some e =>
        exact getTarget_of_same_verdict
          (healthInvariant_of_run hvalid (hinitial ▸ x.run_upTo k)).2 (x.next k e he)
          fun b hb => hrepeats k e b hk he hb
  by_cases hchecked : ∃ m e b, n ≤ m ∧ x.label m = some e ∧ e.verdictOn ref = some b
  · obtain ⟨m, e, b, hm, he, hb⟩ := hchecked
    obtain rfl := hresult.eq hm he hb
    have hlast : lastVerdict (x.upTo (m + 1)) ref = some b := by
      rw [x.upTo_succ, he, Option.toList_some, lastVerdict_snoc, hb, Option.some_or]
    have hafter : n ≤ m + 1 := hm.trans (Nat.le_succ m)
    refine ⟨m + 1, hafter, hkeeps _ fun k e' b' hk he' hb' => ?_⟩
    rw [hresult.lastVerdict hafter hlast hk, hresult.eq (hafter.trans hk) he' hb', Option.getD_some]
  · exact ⟨n, le_rfl, hkeeps _ fun k e b hk he hb => absurd ⟨k, e, b, hk, he, hb⟩ hchecked⟩

/-- The upstream with the id has the targets and the strategy of the given one. -/
def Steady (id : Str) (u₀ : Upstream) (s : State) : Prop :=
  ∃ u, s.router.getUpstream id = some u ∧ u.targets = u₀.targets ∧ u.strategy = u₀.strategy ∧
    u.roundRobinCounter < usizeSize

/-- **An upstream comes to rest** when the checks of its targets keep their results. -/
theorem exists_steady (hvalid : config.validate = .ok ())
    (hinitial : x.state 0 = State.initial (Server.new lib config serverConfig))
    {uc : UpstreamConfig} (huc : uc ∈ config.upstreams) {n : Nat} {result : Nat → Bool}
    (hresult : ∀ i, Consistently x n ⟨uc.id, i⟩ (result i)) :
    ∃ m u₀, n ≤ m ∧ Upstream.Configured uc u₀ ∧ (x.state m).router.getUpstream uc.id = some u₀ ∧
      ∀ k, m ≤ k → Steady uc.id u₀ (x.state k) := by
  have hupstream : ∀ k, ∃ u, (x.state k).router.getUpstream uc.id = some u ∧
      Upstream.Configured uc u := fun k => upstream_of_run hvalid (hinitial ▸ x.run_upTo k) huc
  choose time htime hsettled using fun i => exists_target_settled hvalid hinitial (hresult i)
  -- after the last of these times every target is at rest
  have hall : ∀ᶠ k in Filter.atTop, ∀ i ∈ {i | i < uc.targets.length},
      (x.state k).router.getTarget ⟨uc.id, i⟩ = (x.state (time i)).router.getTarget ⟨uc.id, i⟩ :=
    (Filter.eventually_all_finite (Set.finite_lt_nat _)).mpr fun i _ =>
      Filter.eventually_atTop.mpr ⟨time i, hsettled i⟩
  obtain ⟨m, hm⟩ := Filter.eventually_atTop.mp hall
  obtain ⟨u₀, hu₀, hconfigured₀⟩ := hupstream (max n m)
  refine ⟨max n m, u₀, le_max_left n m, hconfigured₀, hu₀, fun k hk => ?_⟩
  obtain ⟨u, hu, hconfigured⟩ := hupstream k
  refine ⟨u, hu, List.ext_getElem? fun i => ?_,
    hconfigured.strategy.trans hconfigured₀.strategy.symm, hconfigured.counter⟩
  rcases Nat.lt_or_ge i uc.targets.length with hi | hi
  · have hthen := hm k ((le_max_right n m).trans hk) i hi
    have hnow := hm (max n m) (le_max_right n m) i hi
    simpa [Router.getTarget, hu, hu₀] using hthen.trans hnow.symm
  · rw [List.getElem?_eq_none (hconfigured.length_targets.trans_le hi),
      List.getElem?_eq_none (hconfigured₀.length_targets.trans_le hi)]

end Executions

/-- The counter of the upstream stands at the position. -/
def CounterAt (id : Str) (j : Nat) (s : State) : Prop :=
  ∃ u, s.router.getUpstream id = some u ∧ u.roundRobinCounter = j

/-- How many selections the upstream makes before its counter stands at the position. -/
def State.selectionsTo (id : Str) (j : Nat) (s : State) : Nat :=
  (s.router.getUpstream id).elim 0 fun u => distance usizeSize u.roundRobinCounter j

/-- An upstream at rest comes closer to the position by its own selections only. -/
theorem Steady.selectionsTo_step {p : Platform} {id : Str} {u₀ : Upstream}
    (huses : u₀.usesCounter = true) {s s' : State} {e : Event} {j : Nat} (hj : j < usizeSize)
    (h : Steady id u₀ s) (hnot : ¬ CounterAt id j s) (hstep : e.Step p s s') :
    (e.selects id = none → s'.selectionsTo id j = s.selectionsTo id j) ∧
      ((e.selects id).isSome = true → s'.selectionsTo id j + 1 = s.selectionsTo id j) := by
  obtain ⟨u, hu, -, hstrategy, hcounter⟩ := h
  have huses' := (Upstream.usesCounter_congr hstrategy).trans huses
  obtain ⟨u', hu', hafter⟩ := upstream_of_step hstep hu
  have hne : u.roundRobinCounter ≠ j := fun heq => hnot ⟨u, hu, heq⟩
  simp only [State.selectionsTo, hu, hu', Option.elim_some, hafter.counter, huses', Bool.and_true]
  constructor
  · intro hnone
    rw [hnone, Option.isSome_none, if_neg Bool.false_ne_true]
  · intro hsome
    rw [hsome, if_pos rfl]
    exact distance_advance hcounter hj hne

/-- The position stays until the upstream selects again. -/
theorem CounterAt.step {p : Platform} {id : Str} {j : Nat} {s s' : State} {e : Event}
    (h : CounterAt id j s) (hnone : e.selects id = none) (hstep : e.Step p s s') :
    CounterAt id j s' := by
  obtain ⟨u, hu, hcounter⟩ := h
  obtain ⟨u', hu', hafter⟩ := upstream_of_step hstep hu
  refine ⟨u', hu', ?_⟩
  rw [hafter.counter, hnone, Option.isSome_none, Bool.false_and, if_neg Bool.false_ne_true,
    hcounter]

/-- **An upstream at rest goes round.** If it is asked again and again, it selects each of its
    candidates after any time. -/
theorem selects_of_steady {p : Platform} {x : Execution (Event.Step p)} {id : Str} {u₀ : Upstream}
    (huses : u₀.usesCounter = true) (hfits : u₀.candidates.length ≤ usizeSize) {m : Nat}
    (hsteady : ∀ k, m ≤ k → Steady id u₀ (x.state k))
    (hasked : x.Recurs fun e => (e.selects id).isSome = true) {a : TargetArc}
    (ha : a ∈ u₀.candidates) :
    ∃ k e, m ≤ k ∧ x.label k = some e ∧ e.selects id = some a.index := by
  obtain ⟨j, hj, rfl⟩ := List.getElem_of_mem ha
  have hfar : j < usizeSize := hj.trans_le hfits
  have hcases : ∀ e : Event, e.selects id = none ∨ (e.selects id).isSome = true := fun e => by
    cases e.selects id <;> simp
  -- the counter comes to the position of the candidate
  obtain ⟨m₁, hm₁, hat⟩ : ∃ m₁, m ≤ m₁ ∧ CounterAt id j (x.state m₁) := by
    refine x.eventually_of_next (Steady id u₀) (CounterAt id j) (State.selectionsTo id j) ?_ ?_
      hsteady fun k _ _ => hasked k
    · intro s e t hs _ hnot hstep
      obtain ⟨hother, hown⟩ := hs.selectionsTo_step huses hfar hnot hstep
      rcases hcases e with hnone | hsome
      · exact (hother hnone).le
      · have hcloser := hown hsome
        omega
    · intro s e t hs _ hnot hstep hsome
      have hcloser := (hs.selectionsTo_step huses hfar hnot hstep).2 hsome
      omega
  -- and stays there until the next selection
  obtain ⟨k, e, hk, ⟨u, hu, hcounter⟩, he, hsome⟩ := x.next_of (CounterAt id j) hat
    (fun k e _ hat he hother => hat.step ((hcases e).resolve_right hother) (x.next k e he))
    fun _ => hasked m₁
  obtain ⟨u', hu', htargets, hstrategy, -⟩ := hsteady k (hm₁.trans hk)
  obtain rfl : u' = u := Option.some.inj (hu'.symm.trans hu)
  have huses' := (Upstream.usesCounter_congr hstrategy).trans huses
  refine ⟨k, e, hm₁.trans hk, he, ?_⟩
  rw [selected_of_step (x.next k e he) hu huses' hsome, hcounter,
    Upstream.candidates_congr htargets hstrategy, Nat.mod_eq_of_lt hj, List.getElem?_eq_getElem hj,
    Option.map_some]

/-- The checker of a target of an upstream with a health check. -/
theorem exists_checker (lib : TlsLibrary File Cert Key Acceptor) {config : Config}
    (hvalid : config.validate = .ok ()) (serverConfig : ServerConfig) {uc : UpstreamConfig}
    (huc : uc ∈ config.upstreams) {healthConfig : HealthCheckConfig}
    (hhealth : uc.healthCheck = some healthConfig) {i : Nat} (hi : i < uc.targets.length) :
    ∃ (c : Nat) (checker : HealthChecker),
      (Server.new lib config serverConfig).checkers[c]? = some checker ∧
        checker.config = healthConfig ∧ ⟨uc.id, i⟩ ∈ checker.targets := by
  have hupstream := Router.getUpstream_new_of_mem hvalid serverConfig huc
  have hmem : (⟨uc.id, i⟩ : TargetRef) ∈
      Server.targetRefs (Router.new config serverConfig) uc.id := by
    rw [Server.targetRefs, hupstream]
    refine List.mem_map.mpr ⟨⟨i, Target.new uc.targets[i]⟩, Upstream.mem_allTargets.mpr ?_, rfl⟩
    simp [Upstream.new, hi]
  have hchecker : Server.checkerFor (Router.new config serverConfig) uc =
      some ⟨healthConfig, Server.targetRefs (Router.new config serverConfig) uc.id⟩ := by
    have hne := List.ne_nil_of_mem hmem
    simp [Server.checkerFor, hhealth, hne]
  have hchecks : ⟨healthConfig, Server.targetRefs (Router.new config serverConfig) uc.id⟩ ∈
      (Server.new lib config serverConfig).checkers := by
    rw [Server.checkers_new]
    exact List.mem_filterMap.mpr ⟨uc, huc, hchecker⟩
  obtain ⟨c, hc⟩ := List.mem_iff_getElem?.mp hchecks
  exact ⟨c, _, hc, rfl, hmem⟩

/-- There are no more candidates than the weights, or the targets, of the configuration allow. -/
theorem Upstream.Configured.length_candidates_le {uc : UpstreamConfig} {u : Upstream}
    (h : Upstream.Configured uc u) :
    u.candidates.length ≤ max (uc.targets.map TargetConfig.getWeight).sum uc.targets.length := by
  unfold Upstream.candidates
  split
  · refine le_max_of_le_left ?_
    rw [Upstream.length_weightedTargets, Upstream.totalWeight, ← h.map_weight]
    refine List.sum_le_sum fun t _ => ?_
    unfold Target.effectiveWeight
    split <;> simp
  · refine le_max_of_le_right ?_
    rw [Upstream.length_healthyTargets, Upstream.healthyTargetCount, ← h.length_targets]
    exact List.length_filter_le _ _

/-- A target with successful checks is healthy when its upstream has come to rest. -/
theorem isHealthy_of_steady {x : Execution (Event.Step p)} (hvalid : config.validate = .ok ())
    (hinitial : x.state 0 = State.initial (Server.new lib config serverConfig))
    (hfair : FairToCheckers (Server.new lib config serverConfig) x) {uc : UpstreamConfig}
    (huc : uc ∈ config.upstreams)
    (hinterval : ∀ healthConfig, uc.healthCheck = some healthConfig →
      healthConfig.intervalSeconds ≠ 0) {n i m : Nat} (hi : i < uc.targets.length)
    (hresult : Consistently x n ⟨uc.id, i⟩ true) {u : Upstream}
    (hsteady : ∀ k, m ≤ k → ∃ v, (x.state k).router.getUpstream uc.id = some v ∧
      v.targets = u.targets) {t : Target} (ht : u.targets[i]? = some t) : t.isHealthy = true := by
  have htarget : ∀ k, m ≤ k → (x.state k).router.getTarget ⟨uc.id, i⟩ = some t := by
    intro k hk
    obtain ⟨v, hv, htargets⟩ := hsteady k hk
    simp [Router.getTarget, hv, htargets, ht]
  cases hhealth : uc.healthCheck with
  | none =>
    -- nobody has judged it
    have hrun := hinitial ▸ x.run_upTo m
    have hflag := (healthInvariant_of_run hvalid hrun).2.flag ⟨uc.id, i⟩ t (htarget m le_rfl)
    rwa [lastVerdict_of_unchecked hvalid hrun huc hhealth] at hflag
  | some healthConfig =>
    obtain ⟨c, checker, hc, hconfig, href⟩ := exists_checker lib hvalid serverConfig huc hhealth hi
    obtain ⟨m₁, -, hsettled⟩ := exists_flag_settled hvalid hinitial hc
      (hfair c checker hc (hconfig ▸ hinterval healthConfig hhealth)) href hresult
    obtain ⟨t', ht', hflag⟩ := hsettled (max m m₁) (le_max_right m m₁)
    obtain rfl : t' = t := Option.some.inj (ht'.symm.trans (htarget _ (le_max_left m m₁)))
    exact hflag

/-- **Healthy targets serve for ever.**  In every infinite execution of a server of a validated
    configuration that is fair to its checkers: if from some time on the checks of each target of an
    upstream in turn or by weight have the same result, and the upstream is asked again and again,
    then each of its targets with successful checks (and with a positive weight, where weights
    count) gets requests again and again. -/
theorem healthy_targets_serve_for_ever (lib : TlsLibrary File Cert Key Acceptor) (p : Platform)
    (config : Config) (hvalid : config.validate = .ok ()) (serverConfig : ServerConfig)
    (x : Execution (Event.Step p))
    (hinitial : x.state 0 = State.initial (Server.new lib config serverConfig))
    (hfair : FairToCheckers (Server.new lib config serverConfig) x) (uc : UpstreamConfig)
    (huc : uc ∈ config.upstreams) (huses : (Upstream.new uc).usesCounter = true)
    (hfits : max (uc.targets.map TargetConfig.getWeight).sum uc.targets.length ≤ usizeSize)
    (hinterval : ∀ healthConfig, uc.healthCheck = some healthConfig →
      healthConfig.intervalSeconds ≠ 0) (n : Nat) (result : Nat → Bool)
    (hresult : ∀ i, Consistently x n ⟨uc.id, i⟩ (result i))
    (hasked : x.Recurs fun e => (e.selects uc.id).isSome = true) (i : Nat) (tc : TargetConfig)
    (htc : uc.targets[i]? = some tc) (hpassing : result i = true)
    (hweight : uc.strategy = some .weightedRoundRobin → 0 < tc.getWeight) (m : Nat) :
    ∃ k, m ≤ k ∧ ∃ exchange pick d,
      x.label k = some (.route exchange pick (some d)) ∧ d.ref = ⟨uc.id, i⟩ := by
  obtain ⟨m₀, u₀, -, hconfigured, hu₀, hsteady⟩ := exists_steady hvalid hinitial huc hresult
  have huses₀ : u₀.usesCounter = true :=
    (Upstream.usesCounter_congr (u := Upstream.new uc) hconfigured.strategy).trans huses
  obtain ⟨hi, -⟩ := List.getElem?_eq_some_iff.mp htc
  obtain ⟨t, ht⟩ : ∃ t, u₀.targets[i]? = some t :=
    ⟨_, List.getElem?_eq_getElem (hi.trans_eq hconfigured.length_targets.symm)⟩
  have hhealthy : t.isHealthy = true :=
    isHealthy_of_steady hvalid hinitial hfair huc hinterval hi (hpassing ▸ hresult i)
      (fun k hk => by
        obtain ⟨u, hu, htargets, -⟩ := hsteady k hk
        exact ⟨u, hu, htargets⟩) ht
  have hcandidate := hconfigured.mem_candidates ht htc hhealthy fun hstrategy =>
    hweight (LoadBalancerStrategy.getD_default_eq_weighted.mp hstrategy)
  obtain ⟨k, e, hk, he, hselects⟩ := selects_of_steady huses₀
    (hconfigured.length_candidates_le.trans hfits)
    (fun k hk => hsteady k ((le_max_right m m₀).trans hk)) hasked hcandidate
  obtain ⟨exchange, pick, d, rfl, href⟩ := Event.selects_eq_some.mp hselects
  exact ⟨k, (le_max_left m m₀).trans hk, exchange, pick, d, he, href⟩

/-- A request for the start page, which the only route takes. -/
def homeRequest : Request := getRequest "/".toList (by decide) HeaderMap.empty

/-- The only upstream after a number of selections. -/
def soloUpstream (selections : Nat) : Upstream where
  id := "api".toList
  targets := [Target.new ⟨"127.0.0.1".toList, 3000, none, none⟩]
  strategy := .roundRobin
  roundRobinCounter := selections % usizeSize

/-- The router after so many selections. -/
def busyRouter (selections : Nat) : Router :=
  (Router.new soloConfig checkedServer).setUpstream "api".toList (soloUpstream selections)

/-- The target, as the router returns it. -/
def soloRouted : Routed where
  upstreamId := "api".toList
  arc := ⟨0, Target.new ⟨"127.0.0.1".toList, 3000, none, none⟩⟩
  matchedPrefix := some "/".toList

/-- A request goes to the one target, and is counted. -/
theorem routeRequest_busyRouter (selections : Nat) :
    (busyRouter selections).routeRequest Platform.ascii (requestHost homeRequest)
      homeRequest.uri.path 0 = (some soloRouted, busyRouter (selections + 1)) := by
  have hone : (soloUpstream selections).candidates = [soloRouted.arc] := rfl
  have hdue : (soloUpstream selections).candidates[
      (soloUpstream selections).roundRobinCounter %
        (soloUpstream selections).candidates.length]? = some soloRouted.arc := by
    rw [hone, List.length_singleton, Nat.mod_one, List.getElem?_cons_zero]
  have hbump : (soloUpstream selections).bumpCounter = soloUpstream (selections + 1) := by
    simp [Upstream.bumpCounter, soloUpstream]
  have hselect : (soloUpstream selections).selectTarget 0 =
      (some soloRouted.arc, soloUpstream (selections + 1)) := by
    rw [Upstream.selectTarget_of_usesCounter rfl, if_neg (by rw [hone]; exact Bool.false_ne_true),
      hdue, hbump]
  refine (Router.routeFrom_take rfl (Router.getUpstream_setUpstream_self ..)
    (congrArg Prod.fst hselect) []).trans (Prod.ext rfl ?_)
  rw [hselect]
  simp [busyRouter, Router.setUpstream, Finmap.insert_insert]

/-- An exchange that has been assigned to the target. -/
def servedExchange : Exchange := ⟨homeRequest, .forwarding soloRouted⟩

/-- The server that checks its target and gets one more request, step by step. -/
def busyState (served : Nat) : Nat → State
  | 1 => ⟨busyRouter served, none, [⟨soloChecker, 0, some true⟩],
      List.replicate served servedExchange, []⟩
  | 3 => ⟨busyRouter served, none, [⟨soloChecker, 0, none⟩],
      List.replicate served servedExchange ++ [⟨homeRequest, .route⟩], []⟩
  | _ => ⟨busyRouter served, none, [⟨soloChecker, 0, none⟩],
      List.replicate served servedExchange, []⟩

/-- What happens next. -/
def busyEvent (served : Nat) : Nat → Event
  | 0 => .probe 0
  | 1 => .verdict 0 ⟨"api".toList, 0⟩ (some 200) true 1
  | 2 => .accept homeRequest
  | _ => .route served 0 (some soloRouted)

/-- A check and a request in turn, for ever. -/
def busyExecution : Execution (Event.Step Platform.ascii) where
  state n := busyState (n / 4) (n % 4)
  label n := some (busyEvent (n / 4) (n % 4))
  next := by
    intro n e he
    obtain rfl := Option.some.inj he
    obtain ⟨q, r, hr, rfl⟩ : ∃ q r, r < 4 ∧ n = 4 * q + r :=
      ⟨n / 4, n % 4, Nat.mod_lt n (by decide), (Nat.div_add_mod n 4).symm⟩
    rw [show (4 * q + r) / 4 = q by omega, show (4 * q + r) % 4 = r by omega]
    obtain rfl | rfl | rfl | rfl : r = 0 ∨ r = 1 ∨ r = 2 ∨ r = 3 := by omega
    · rw [show (4 * q + 0 + 1) / 4 = q by omega, show (4 * q + 0 + 1) % 4 = 1 by omega]
      refine ⟨_, _, Target.new ⟨"127.0.0.1".toList, 3000, none, none⟩, rfl, rfl, rfl, ?_, rfl⟩
      simp [busyState, busyRouter, Router.getTarget, soloUpstream]
    · rw [show (4 * q + 1 + 1) / 4 = q by omega, show (4 * q + 1 + 1) % 4 = 2 by omega]
      exact ⟨_, _, rfl, rfl, rfl, rfl, rfl⟩
    · rw [show (4 * q + 2 + 1) / 4 = q by omega, show (4 * q + 2 + 1) % 4 = 3 by omega]
      rfl
    · rw [show (4 * q + 3 + 1) / 4 = q + 1 by omega, show (4 * q + 3 + 1) % 4 = 0 by omega]
      refine ⟨⟨homeRequest, .route⟩, ?_, rfl, congrArg Prod.fst (routeRequest_busyRouter q), ?_⟩
      · simp [busyState]
      · simp [busyState, routeRequest_busyRouter, List.replicate_succ', Exchange.to, servedExchange]
  idle := by simp

/-- The target is selected again and again. -/
theorem healthy_targets_serve_for_ever_busy :
    busyExecution.Recurs (fun e => (e.selects "api".toList).isSome = true) ∧
      ∀ m, ∃ k, m ≤ k ∧ ∃ exchange pick d,
        busyExecution.label k = some (.route exchange pick (some d)) ∧
          d.ref = ⟨"api".toList, 0⟩ := by
  have hinitial : busyExecution.state 0 =
      State.initial (Server.new noFiles soloConfig checkedServer) := by
    have hrouter : busyRouter 0 = Router.new soloConfig checkedServer :=
      Router.setUpstream_eq_self rfl
    show busyState 0 0 =
      ⟨Router.new soloConfig checkedServer, none, [⟨soloChecker, 0, none⟩], [], []⟩
    rw [← hrouter]
    rfl
  have hlabel : ∀ q r, r < 4 → busyExecution.label (4 * q + r) = some (busyEvent q r) := by
    intro q r hr
    show some (busyEvent ((4 * q + r) / 4) ((4 * q + r) % 4)) = _
    rw [show (4 * q + r) / 4 = q by omega, show (4 * q + r) % 4 = r by omega]
  have hfair : FairToCheckers (Server.new noFiles soloConfig checkedServer) busyExecution := by
    intro c checker hc _
    obtain rfl := eq_zero_of_soloChecker hc
    exact fun n _ => ⟨4 * n + 0, _, by omega, hlabel n 0 (by omega), rfl⟩
  have hresult : ∀ i, Consistently busyExecution 0 ⟨"api".toList, i⟩ true := by
    intro i m e _ he
    obtain rfl := Option.some.inj he
    unfold busyEvent
    split <;> simp [Event.verdictOn]
  have hasked : busyExecution.Recurs fun e => (e.selects "api".toList).isSome = true :=
    fun n => ⟨4 * n + 3, _, by omega, hlabel n 3 (by omega), rfl⟩
  refine ⟨hasked, ?_⟩
  exact healthy_targets_serve_for_ever noFiles Platform.ascii soloConfig rfl checkedServer
    busyExecution hinitial hfair _ List.mem_cons_self rfl (by decide) (by simp) 0 _
    hresult hasked 0 _ rfl rfl (by simp)

end Sret
