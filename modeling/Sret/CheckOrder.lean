import Sret.CheckTimes
import Sret.Foundation.Rotation
import Sret.Progress

namespace Sret

open Text Transition Rotation Fairness

/-!
# The order of the health checks

The checkers of a running server, whose checks come in between those of the other checkers and
everything else, against `check_all_targets` on its own.

* `checksOf`, `repliesOn` — the targets that a checker has completed the check of, in this order,
  and the replies of a target;
* `InTurn`, `checks_in_turn` — a checker takes its targets in turn, pass after pass;
* `getTarget_eq_foldl` — what a target has become is told by its own replies;
* `checks_refine_passes` — so after every whole pass the targets are what the passes on their own
  make of them;
* `checked_for_ever` — under weak fairness every target of a checker is checked again and again.
-/

/-- The target that the checker has completed the check of. -/
def Event.checks (c : Nat) : Event → Option TargetRef
  | .verdict c' ref _ _ _ => if c' = c then some ref else none
  | _ => none

/-- The checks of the checker, in the order in which they are completed. -/
def checksOf (c : Nat) (tr : List Event) : List TargetRef := tr.filterMap (Event.checks c)

/-- The reply that completes a check of the target, and the time. -/
def Event.replyOn (ref : TargetRef) : Event → Option CheckReply
  | .verdict _ ref' reply _ now => if ref' = ref then some ⟨reply, now⟩ else none
  | _ => none

/-- The replies of the target, in order. -/
def repliesOn (ref : TargetRef) (tr : List Event) : List CheckReply :=
  tr.filterMap (Event.replyOn ref)

/-- A step adds the check that it completes. -/
theorem checksOf_snoc (c : Nat) (tr : List Event) (e : Event) :
    checksOf c (tr ++ [e]) = checksOf c tr ++ (e.checks c).toList := by
  rw [checksOf, List.filterMap_append, ← checksOf]
  cases h : e.checks c <;> simp [h]

/-- A step adds the reply that it brings. -/
theorem repliesOn_snoc (ref : TargetRef) (tr : List Event) (e : Event) :
    repliesOn ref (tr ++ [e]) = repliesOn ref tr ++ (e.replyOn ref).toList := by
  rw [repliesOn, List.filterMap_append, ← repliesOn]
  cases h : e.replyOn ref <;> simp [h]

/-! ### In turn -/

/-- The checker that takes the step. -/
def Event.checker : Event → Option Nat
  | .probe c | .verdict c _ _ _ _ => some c
  | _ => none

/-- A checker after a step: it has not moved, it has sent a request, or it has completed the check
    of its target and gone on to the next. -/
theorem checkerAt_of_step {p : Platform} {s s' : State} {e : Event} (h : e.Step p s s') {c : Nat}
    {k : CheckerState} (hk : s.checkers[c]? = some k) :
    (e.checker ≠ some c ∧ s'.checkers[c]? = some k) ∨
      (e = .probe c ∧ k.probing = none ∧
        ∃ was, s'.checkers[c]? = some { k with probing := some was }) ∨
      ∃ was ref reply isHealthy now, e = .verdict c ref reply isHealthy now ∧
        k.probing = some was ∧ k.current = some ref ∧ s'.checkers[c]? = some k.advance := by
  obtain ⟨hc, -⟩ := List.getElem?_eq_some_iff.mp hk
  -- a step of another task leaves the checkers alone
  have hother : e.checker = none → s'.checkers = s.checkers →
      e.checker ≠ some c ∧ s'.checkers[c]? = some k := fun hnone heq =>
    ⟨by simp [hnone], by rw [heq, hk]⟩
  cases e with
  | probe c' =>
    obtain ⟨k', ref, t, hk', hnone, -, -, rfl⟩ := h
    by_cases hcc : c' = c
    · subst hcc
      obtain rfl : k' = k := Option.some.inj (hk'.symm.trans hk)
      exact Or.inr (Or.inl ⟨rfl, hnone, t.isHealthy, List.getElem?_set_self hc⟩)
    · refine Or.inl ⟨fun heq => hcc (Option.some.inj heq), ?_⟩
      exact (List.getElem?_set_ne hcc).trans hk
  | verdict c' ref reply isHealthy now =>
    obtain ⟨k', was, hk', hwas, hcur, -, rfl⟩ := h
    by_cases hcc : c' = c
    · subst hcc
      obtain rfl : k' = k := Option.some.inj (hk'.symm.trans hk)
      exact Or.inr (Or.inr ⟨was, ref, reply, isHealthy, now, rfl, hwas, hcur,
        List.getElem?_set_self hc⟩)
    · refine Or.inl ⟨fun heq => hcc (Option.some.inj heq), ?_⟩
      exact (List.getElem?_set_ne hcc).trans hk
  | accept request =>
    obtain rfl := h
    exact Or.inl (hother rfl rfl)
  | lookup i now result =>
    obtain ⟨_, _, _, _, _, _, _, rfl⟩ := h
    exact Or.inl (hother rfl rfl)
  | route i pick routed =>
    obtain ⟨_, _, _, _, rfl⟩ := h
    exact Or.inl (hother rfl rfl)
  | finish i outcome =>
    obtain ⟨_, _, _, _, rfl⟩ := h
    cases outcome <;> exact Or.inl (hother rfl rfl)
  | prepare q clock =>
    obtain ⟨_, _, _, _, _, rfl⟩ := h
    exact Or.inl (hother rfl rfl)
  | commit q key entry victim =>
    obtain ⟨_, _, _, _, _, _, _, _, _, rfl⟩ := h
    exact Or.inl (hother rfl rfl)

/-- The checker has gone through its targets in turn, and has come to the next one. -/
structure InTurn (checker : HealthChecker) (c : Nat) (tr : List Event) (s : State) : Prop where
  place : ∃ k, s.checkers[c]? = some k ∧ k.checker = checker ∧
    k.position = (checksOf c tr).length % checker.targets.length
  draws : Draws checker.targets (checksOf c tr)

/-- **A step keeps the turn.** -/
theorem InTurn.step {p : Platform} {checker : HealthChecker} {c : Nat} {tr : List Event}
    {s s' : State} {e : Event} (h : InTurn checker c tr s) (hstep : e.Step p s s') :
    InTurn checker c (tr ++ [e]) s' := by
  obtain ⟨k, hk, rfl, hposition⟩ := h.place
  -- only a completed check adds to the list
  have hsame : e.checks c = none → checksOf c (tr ++ [e]) = checksOf c tr := by
    intro hnone
    rw [checksOf_snoc, hnone, Option.toList_none, List.append_nil]
  rcases checkerAt_of_step hstep hk with ⟨hne, hk'⟩ | ⟨rfl, -, was, hk'⟩ |
    ⟨was, ref, reply, isHealthy, now, rfl, -, hcur, hk'⟩
  · have hnone : e.checks c = none := by
      cases e with
      | verdict c' ref reply isHealthy now =>
        exact if_neg fun hc => hne (congrArg some hc)
      | _ => rfl
    exact ⟨⟨k, hk', rfl, by rw [hsame hnone, hposition]⟩, by rw [hsame hnone]; exact h.draws⟩
  · exact ⟨⟨_, hk', rfl, by rw [hsame rfl]; exact hposition⟩, by rw [hsame rfl]; exact h.draws⟩
  · have hsnoc : checksOf c (tr ++ [.verdict c ref reply isHealthy now]) =
        checksOf c tr ++ [ref] := by
      rw [checksOf_snoc, Event.checks, if_pos rfl, Option.toList_some]
    refine ⟨⟨_, hk', rfl, ?_⟩, ?_⟩
    · rw [hsnoc, List.length_append, List.length_singleton, CheckerState.advance, hposition,
        Nat.mod_add_mod]
    · rw [hsnoc]
      exact h.draws.snoc (hposition ▸ hcur)

variable {File Cert Key Acceptor : Type}

section Runs

variable {lib : TlsLibrary File Cert Key Acceptor} {p : Platform} {config : Config}
  {serverConfig : ServerConfig} {tr : List Event} {s : State} {c : Nat} {checker : HealthChecker}

/-- A checker of a running server is in turn. -/
theorem inTurn_of_run
    (hrun : Run (Event.Step p) (State.initial (Server.new lib config serverConfig)) tr s)
    (hc : (Server.new lib config serverConfig).checkers[c]? = some checker) :
    InTurn checker c tr s := by
  refine hrun.invariant_trace (InTurn checker c) ⟨⟨⟨checker, 0, none⟩, ?_, rfl, ?_⟩, draws_nil _⟩
    fun _ _ _ _ _ h hstep => h.step hstep
  · simp [State.initial, hc]
  · simp [checksOf]

/-- A checker of the server goes through the targets of one upstream. -/
theorem upstream_of_checker
    (hc : (Server.new lib config serverConfig).checkers[c]? = some checker) :
    ∃ uc ∈ config.upstreams, uc.healthCheck = some checker.config ∧
      ∃ u, (Router.new config serverConfig).getUpstream uc.id = some u ∧
        0 < u.targets.length ∧
        checker.targets = (List.range u.targets.length).map fun i => ⟨uc.id, i⟩ := by
  have hmem := List.mem_of_getElem? hc
  -- the checkers were made from the upstreams of the configuration
  rw [Server.checkers_new] at hmem
  obtain ⟨uc, huc, hfor⟩ := List.mem_filterMap.mp hmem
  exact ⟨uc, huc, exists_upstream_of_checkerFor hfor⟩

/-- A checker has each of its targets once. -/
theorem checker_targets_nodup
    (hc : (Server.new lib config serverConfig).checkers[c]? = some checker) :
    checker.targets.Nodup := by
  obtain ⟨uc, -, -, u, -, -, htargets⟩ := upstream_of_checker hc
  rw [htargets]
  exact List.nodup_range.map fun i j hij => (TargetRef.mk.inj hij).2

/-- **Checks are made in turn.**  In every run of a server, whatever comes in between: the `j`-th
    completed check of a checker is one of its target at the position `j` modulo their number, so
    any round of checks, wherever it starts, completes one check of each target. -/
theorem checks_in_turn (lib : TlsLibrary File Cert Key Acceptor) (p : Platform) (config : Config)
    (serverConfig : ServerConfig) (tr : List Event) (s : State)
    (hrun : Run (Event.Step p) (State.initial (Server.new lib config serverConfig)) tr s) (c : Nat)
    (checker : HealthChecker)
    (hc : (Server.new lib config serverConfig).checkers[c]? = some checker) :
    (∀ (j : Nat) ref, (checksOf c tr)[j]? = some ref →
      checker.targets[j % checker.targets.length]? = some ref) ∧
    ∀ start, start + checker.targets.length ≤ (checksOf c tr).length → ∀ ref ∈ checker.targets,
      (((checksOf c tr).drop start).take checker.targets.length).count ref = 1 := by
  have hdraws := (inTurn_of_run hrun hc).draws
  refine ⟨fun j ref href => ?_, fun start hstart ref href => ?_⟩
  · obtain ⟨hj, -⟩ := List.getElem?_eq_some_iff.mp href
    rw [← hdraws j hj, href]
  · -- any window of that length is a permutation of the targets
    rw [(hdraws.window_perm start hstart).count_eq]
    exact List.count_eq_one_of_mem (checker_targets_nodup hc) href

/-! ### Passes -/

/-- Two checkers with a common target are the same. -/
theorem eq_of_shared {checkers : List HealthChecker}
    (h : checkers.Pairwise fun a b => ∀ ref ∈ a.targets, ref ∉ b.targets) {c c' : Nat}
    {a b : HealthChecker} (ha : checkers[c]? = some a) (hb : checkers[c']? = some b)
    {ref : TargetRef} (hrefa : ref ∈ a.targets) (hrefb : ref ∈ b.targets) : c = c' := by
  obtain ⟨hc, rfl⟩ := List.getElem?_eq_some_iff.mp ha
  obtain ⟨hc', rfl⟩ := List.getElem?_eq_some_iff.mp hb
  have hdisjoint := List.pairwise_iff_getElem.mp h
  -- the checkers at two different positions would have no common target
  rcases Nat.lt_trichotomy c c' with hlt | heq | hlt
  · exact absurd hrefb (hdisjoint c c' hc hc' hlt ref hrefa)
  · exact heq
  · exact absurd hrefa (hdisjoint c' c hc' hc hlt ref hrefb)

/-- A check of a target is one by its checker. -/
theorem verdict_checker (hvalid : config.validate = .ok ())
    (hrun : Run (Event.Step p) (State.initial (Server.new lib config serverConfig)) tr s)
    (hc : (Server.new lib config serverConfig).checkers[c]? = some checker) {c' : Nat}
    {k : CheckerState} {ref : TargetRef} (hk : s.checkers[c']? = some k)
    (hcur : k.current = some ref) (href : ref ∈ checker.targets) :
    c' = c ∧ k.checker = checker := by
  obtain ⟨hcheckers, -⟩ := healthInvariant_of_run hvalid hrun
  have hk' : (Server.new lib config serverConfig).checkers[c']? = some k.checker := by
    rw [← hcheckers.same, List.getElem?_map, hk]
    rfl
  obtain rfl := eq_of_shared hcheckers.disjoint hk' hc (List.mem_of_getElem? hcur) href
  exact ⟨rfl, Option.some.inj (hk'.symm.trans hc)⟩

/-- **What a target has become is told by its own replies**, checked one after the other. -/
theorem getTarget_eq_foldl (hvalid : config.validate = .ok ())
    (hrun : Run (Event.Step p) (State.initial (Server.new lib config serverConfig)) tr s)
    (hc : (Server.new lib config serverConfig).checkers[c]? = some checker) {ref : TargetRef}
    (href : ref ∈ checker.targets) :
    s.router.getTarget ref = ((Router.new config serverConfig).getTarget ref).map
        ((repliesOn ref tr).foldl checker.check) ∧
      (repliesOn ref tr).length = (checksOf c tr).count ref := by
  refine hrun.invariant_trace (fun tr s =>
    s.router.getTarget ref = ((Router.new config serverConfig).getTarget ref).map
        ((repliesOn ref tr).foldl checker.check) ∧
      (repliesOn ref tr).length = (checksOf c tr).count ref) ?_ ?_
  · exact ⟨by simp [repliesOn, State.initial, Server.new], rfl⟩
  rintro tr s e s' hpre ⟨htarget, hcount⟩ hstep
  rw [repliesOn_snoc, checksOf_snoc]
  cases e with
  | verdict c' ref' reply isHealthy now =>
    obtain ⟨k, hk, hchecked⟩ := getTarget_of_verdict hvalid hpre hstep
    obtain ⟨k', was, hk', -, hcur, -, rfl⟩ := hstep
    obtain rfl : k = k' := Option.some.inj (hk.symm.trans hk')
    by_cases hsame : ref' = ref
    · subst hsame
      obtain ⟨rfl, rfl⟩ := verdict_checker hvalid hpre hc hk hcur href
      rw [hchecked, htarget]
      simp [Event.replyOn, Event.checks, hcount, Function.comp_def]
    · -- another target: nothing happens to this one
      rw [getTarget_applyVerdict, if_neg (by simp [hsame]), htarget]
      have hother : ∀ l : List TargetRef, (l ++ (Event.checks c
          (.verdict c' ref' reply isHealthy now)).toList).count ref = l.count ref := by
        intro l
        by_cases hcc : c' = c
        · simp [Event.checks, hcc, hsame]
        · simp [Event.checks, hcc]
      rw [hother]
      simpa [Event.replyOn, hsame] using hcount
  | _ =>
    rw [getTarget_of_step hstep (by simp), htarget]
    simpa [Event.replyOn, Event.checks] using hcount

/-- The replies of a pass: each target gets its own reply with this number. -/
def passOf (checker : HealthChecker) (tr : List Event) (r : Nat) (j : Nat) : CheckReply :=
  ((checker.targets[j]?).bind fun ref => (repliesOn ref tr)[r]?).getD ⟨none, 0⟩

/-- One target in the passes. -/
theorem getElem?_runPasses (checker : HealthChecker) (targets : List Target)
    (passes : List (Nat → CheckReply)) (j : Nat) :
    (checker.runPasses targets passes)[j]? =
      targets[j]?.map ((passes.map fun pass => pass j).foldl checker.check) := by
  induction passes using List.reverseRecOn with
  | nil => simp [HealthChecker.runPasses]
  | append_singleton passes pass ih =>
    -- the last pass checks the target once more
    rw [HealthChecker.runPasses_snoc, HealthChecker.getElem?_checkAllTargets, ih, Option.map_map,
      List.map_append, List.map_singleton]
    simp [Function.comp_def]

/-- **The interleaved checks are passes.**  In every run of a server of a validated configuration,
    when a checker has completed a whole number of passes, its targets are what `check_all_targets`
    on its own makes of the configured ones, pass after pass, with the same replies at the same
    times. -/
theorem checks_refine_passes (lib : TlsLibrary File Cert Key Acceptor) (p : Platform)
    (config : Config) (hvalid : config.validate = .ok ()) (serverConfig : ServerConfig)
    (tr : List Event) (s : State)
    (hrun : Run (Event.Step p) (State.initial (Server.new lib config serverConfig)) tr s) (c : Nat)
    (checker : HealthChecker)
    (hc : (Server.new lib config serverConfig).checkers[c]? = some checker) (m : Nat)
    (hm : (checksOf c tr).length = m * checker.targets.length) :
    ∃ uc ∈ config.upstreams, uc.healthCheck = some checker.config ∧
      ∃ u, s.router.getUpstream uc.id = some u ∧ u.targets =
        checker.runPasses (uc.targets.map Target.new) ((List.range m).map (passOf checker tr)) := by
  obtain ⟨uc, huc, hconfig, u₀, hu₀, hpos, htargets⟩ := upstream_of_checker hc
  obtain ⟨uc', huc', hid, rfl⟩ := Router.getUpstream_new hu₀
  -- the ids are distinct, so the two upstreams are the same
  obtain rfl : uc' = uc :=
    List.inj_on_of_nodup_map (Config.validate_eq_ok.mp hvalid).2.2 huc' huc hid
  -- the upstream is still there, with as many targets
  have hsome : ∀ ref, (s.router.getTarget ref).isSome =
      ((Router.new config serverConfig).getTarget ref).isSome := by
    refine hrun.invariant (fun s => ∀ ref, (s.router.getTarget ref).isSome =
      ((Router.new config serverConfig).getTarget ref).isSome) (fun _ => rfl) ?_
    exact fun t e t' ih hstep ref => (getTarget_isSome_of_step hstep ref).trans (ih ref)
  obtain ⟨u, hu⟩ : ∃ u, s.router.getUpstream uc'.id = some u := by
    have hfirst := hsome ⟨uc'.id, 0⟩
    cases hu : s.router.getUpstream uc'.id with
    | some u => exact ⟨u, rfl⟩
    | none => simp [Router.getTarget, hu, hu₀, hpos] at hfirst
  refine ⟨uc', huc, hconfig, u, hu, List.ext_getElem? fun j => ?_⟩
  have hnow : u.targets[j]? = s.router.getTarget ⟨uc'.id, j⟩ := by simp [Router.getTarget, hu]
  have hthen : (uc'.targets.map Target.new)[j]? =
      (Router.new config serverConfig).getTarget ⟨uc'.id, j⟩ := by
    simp [Router.getTarget, hu₀, Upstream.new]
  rw [getElem?_runPasses, hnow, hthen]
  rcases Nat.lt_or_ge j (Upstream.new uc').targets.length with hj | hj
  · have hplace : checker.targets[j]? = some ⟨uc'.id, j⟩ := by
      rw [htargets, List.getElem?_map, List.getElem?_range hj]
      rfl
    have href := List.mem_of_getElem? hplace
    obtain ⟨htarget, hcount⟩ := getTarget_eq_foldl hvalid hrun hc href
    -- after `m` passes the target has had `m` replies
    rw [(inTurn_of_run hrun hc).draws.count_rounds hm,
      List.count_eq_one_of_mem (checker_targets_nodup hc) href, Nat.mul_one] at hcount
    have hreplies : ((List.range m).map (passOf checker tr)).map (fun pass => pass j) =
        repliesOn ⟨uc'.id, j⟩ tr := by
      refine List.ext_getElem (by simp [hcount]) fun r hr hr' => ?_
      simp [passOf, hplace, hr']
    rw [htarget, hreplies]
  · -- past the last target there is none
    have hnone := hsome ⟨uc'.id, j⟩
    rw [← hthen] at hnone ⊢
    have hlen : (uc'.targets.map Target.new).length ≤ j := hj
    rw [List.getElem?_eq_none hlen] at hnone ⊢
    simpa using hnone

end Runs

/-- Both targets are checked once; the first does not answer. -/
def checkTrace : List Event :=
  [.probe 0, .verdict 0 ⟨"api".toList, 0⟩ none false 7, .probe 0,
    .verdict 0 ⟨"api".toList, 1⟩ (some 200) true 8]

/-- The checker of the two targets. -/
def pairChecker : HealthChecker :=
  ⟨⟨30, 5, 200⟩, [⟨"api".toList, 0⟩, ⟨"api".toList, 1⟩]⟩

/-- The checker makes one pass. -/
theorem exists_run_check :
    ∃ s, Run (Event.Step Platform.ascii)
      (State.initial (Server.new noFiles checkedConfig checkedServer)) checkTrace s := by
  have h₁ := Run.single (show Event.Step Platform.ascii
    (State.initial (Server.new noFiles checkedConfig checkedServer)) (.probe 0) _ from
    ⟨_, _, _, rfl, rfl, rfl, rfl, rfl⟩)
  have h₂ := h₁.snoc (show Event.Step Platform.ascii _
    (.verdict 0 ⟨"api".toList, 0⟩ none false 7) _ from ⟨_, _, rfl, rfl, rfl, rfl, rfl⟩)
  have h₃ := h₂.snoc (show Event.Step Platform.ascii _ (.probe 0) _ from
    ⟨_, _, _, rfl, rfl, rfl, rfl, rfl⟩)
  have h₄ := h₃.snoc (show Event.Step Platform.ascii _
    (.verdict 0 ⟨"api".toList, 1⟩ (some 200) true 8) _ from ⟨_, _, rfl, rfl, rfl, rfl, rfl⟩)
  exact ⟨_, h₄⟩

/-- The pass has one check of each target. -/
theorem checks_in_turn_pair :
    ∃ s, Run (Event.Step Platform.ascii)
        (State.initial (Server.new noFiles checkedConfig checkedServer)) checkTrace s ∧
      ∀ ref ∈ pairChecker.targets, ((checksOf 0 checkTrace).take 2).count ref = 1 := by
  obtain ⟨s, hrun⟩ := exists_run_check
  exact ⟨s, hrun, (checks_in_turn noFiles Platform.ascii checkedConfig checkedServer _ s hrun 0
    pairChecker rfl).2 0 (by decide)⟩

/-- After the pass the first target is down. -/
theorem checks_refine_passes_pair :
    ∃ s u, Run (Event.Step Platform.ascii)
        (State.initial (Server.new noFiles checkedConfig checkedServer)) checkTrace s ∧
      s.router.getUpstream "api".toList = some u ∧
      u.targets.map Target.isHealthy = [false, true] := by
  obtain ⟨s, hrun⟩ := exists_run_check
  obtain ⟨uc, huc, -, u, hu, htargets⟩ := checks_refine_passes noFiles Platform.ascii checkedConfig
    rfl checkedServer _ s hrun 0 pairChecker rfl 1 (by decide)
  obtain rfl := List.mem_singleton.mp huc
  exact ⟨s, u, hrun, hu, by rw [htargets]; decide⟩

/-! ### For ever -/

/-- The number of steps before the checker waits for the reply of the target at the position. -/
def CheckerState.stepsTo (j : Nat) (k : CheckerState) : Nat :=
  2 * distance k.checker.targets.length k.position j + k.probing.isNone.toNat

/-- A checker that can go on has a step to take. -/
theorem CheckerState.CanStep.exists_step {p : Platform} {s : State} {c : Nat} {k : CheckerState}
    (h : k.CanStep p s c) : ∃ e s', Event.checker e = some c ∧ Event.Step p s e s' := by
  unfold CheckerState.CanStep at h
  split at h
  · obtain ⟨s', hstep⟩ := h
    exact ⟨_, s', rfl, hstep⟩
  · obtain ⟨ref, isHealthy, s', hstep⟩ := h none 0
    exact ⟨_, s', rfl, hstep⟩

/-- The checker with the number has this list of targets, and can go on. -/
def Checking (checker : HealthChecker) (c : Nat) (s : State) : Prop :=
  Unblocked s ∧ ∃ k, s.checkers[c]? = some k ∧ k.checker = checker

/-- It waits for the reply of the target at the position. -/
def Awaits (c j : Nat) (s : State) : Prop :=
  ∃ k, s.checkers[c]? = some k ∧ k.position = j ∧ k.probing.isSome = true

/-- A checker that can go on can still do so after any step. -/
theorem Checking.step {p : Platform} {checker : HealthChecker} {c : Nat} {s s' : State} {e : Event}
    (h : Checking checker c s) (hstep : e.Step p s s') : Checking checker c s' := by
  obtain ⟨hs, k, hk, hchecker⟩ := h
  refine ⟨hs.step hstep, ?_⟩
  rcases checkerAt_of_step hstep hk with ⟨-, hk'⟩ | ⟨-, -, was, hk'⟩ | ⟨_, _, _, _, _, -, -, -, hk'⟩
  · exact ⟨k, hk', hchecker⟩
  · exact ⟨_, hk', hchecker⟩
  · exact ⟨_, hk', hchecker⟩

/-- The checker comes to wait for each of its targets. -/
theorem eventually_awaits {p : Platform} (x : Execution (Event.Step p)) {checker : HealthChecker}
    {c j n : Nat} (hfair : x.Fair fun e => e.checker = some c)
    (hchecking : Checking checker c (x.state n)) (hj : j < checker.targets.length) :
    ∃ m, n ≤ m ∧ Awaits c j (x.state m) := by
  -- until it does, each step of its own brings it closer
  have hcloser : ∀ {s s' : State} {e : Event} {k : CheckerState}, Checking checker c s →
      s.checkers[c]? = some k → ¬ Awaits c j s → e.Step p s s' →
      ∃ k', s'.checkers[c]? = some k' ∧ k'.stepsTo j ≤ k.stepsTo j ∧
        (e.checker = some c → k'.stepsTo j < k.stepsTo j) := by
    rintro s s' e k ⟨hs, k₀, hk₀, rfl⟩ hk hnot hstep
    obtain rfl : k₀ = k := Option.some.inj (hk₀.symm.trans hk)
    have hposition := hs.positions k₀ (List.mem_of_getElem? hk)
    rcases checkerAt_of_step hstep hk with ⟨hne, hk'⟩ | ⟨-, hnone, was, hk'⟩ |
      ⟨was, _, _, _, _, -, hwas, -, hk'⟩
    · exact ⟨k₀, hk', le_rfl, fun hown => absurd hown hne⟩
    · refine ⟨_, hk', ?_⟩
      simp [CheckerState.stepsTo, hnone]
    · have hne : k₀.position ≠ j := fun heq => hnot ⟨k₀, hk, heq, by rw [hwas, Option.isSome_some]⟩
      have hdistance := distance_advance hposition hj hne
      refine ⟨_, hk', ?_⟩
      simp only [CheckerState.stepsTo, CheckerState.advance, hwas, Option.isNone_none,
        Option.isNone_some, Bool.toNat_true, Bool.toNat_false]
      omega
  refine x.eventually hfair (Checking checker c) (Awaits c j)
    (fun s => (s.checkers[c]?).elim 0 (CheckerState.stepsTo j)) (fun _ _ _ h hstep => h.step hstep)
    ?_ ?_ ?_ hchecking
  · rintro s ⟨hs, k, hk, -⟩ -
    exact (hs.checker p hk).exists_step
  · rintro s e s' hs hnot hstep
    obtain ⟨-, k, hk, -⟩ := id hs
    obtain ⟨k', hk', hle, -⟩ := hcloser hs hk hnot hstep
    simpa [hk, hk'] using hle
  · rintro s e s' hs hnot hstep hown
    obtain ⟨-, k, hk, -⟩ := id hs
    obtain ⟨k', hk', -, hlt⟩ := hcloser hs hk hnot hstep
    simpa [hk, hk'] using hlt hown

/-- A check of each of its targets is completed. -/
theorem exists_verdict {p : Platform} (x : Execution (Event.Step p)) {checker : HealthChecker}
    {c n : Nat} (hfair : x.Fair fun e => e.checker = some c)
    (hchecking : Checking checker c (x.state n)) {ref : TargetRef} (href : ref ∈ checker.targets) :
    ∃ m, n ≤ m ∧ ∃ reply isHealthy now, x.label m = some (.verdict c ref reply isHealthy now) := by
  obtain ⟨j, hj, rfl⟩ := List.getElem_of_mem href
  obtain ⟨m, hm, hawaits⟩ := eventually_awaits x hfair hchecking hj
  have hthen := x.always (Checking checker c) (fun _ _ _ h hstep => h.step hstep) hchecking hm
  have hwaits : ∀ s e t, Checking checker c s ∧ Awaits c j s → ¬ Event.checker e = some c →
      Event.Step p s e t → Checking checker c t ∧ Awaits c j t := by
    rintro s e t ⟨hs, k, hk, hat⟩ hother hstep
    refine ⟨hs.step hstep, k, ?_, hat⟩
    rcases checkerAt_of_step hstep hk with ⟨-, hsame⟩ | ⟨rfl, -⟩ | ⟨_, _, _, _, _, rfl, -⟩
    · exact hsame
    · exact absurd rfl hother
    · exact absurd rfl hother
  -- its next step is the end of the check
  obtain ⟨m', e, hm', ⟨⟨-, k', hk', rfl⟩, k'', hk'', hposition, hprobing⟩, he, hown⟩ :=
    x.exists_next hfair (fun s => Checking checker c s ∧ Awaits c j s) hwaits
      (fun s ⟨⟨hs, k, hk, _⟩, _⟩ => (hs.checker p hk).exists_step) ⟨hthen, hawaits⟩
  obtain rfl : k' = k'' := Option.some.inj (hk'.symm.trans hk'')
  rcases checkerAt_of_step (x.next m' e he) hk' with ⟨hne, -⟩ | ⟨-, hnone, -⟩ |
    ⟨was, ref, reply, isHealthy, now, rfl, -, hcur, -⟩
  · exact absurd hown hne
  · rw [hnone] at hprobing
    simp at hprobing
  · rw [CheckerState.current, hposition, List.getElem?_eq_getElem hj] at hcur
    obtain rfl := Option.some.inj hcur
    exact ⟨m', hm.trans hm', reply, isHealthy, now, he⟩

/-- A checker of the server has its targets in every state, and can go on. -/
theorem checking_of_run {lib : TlsLibrary File Cert Key Acceptor} {p : Platform} {config : Config}
    {serverConfig : ServerConfig} {tr : List Event} {s : State}
    (hrun : Run (Event.Step p) (State.initial (Server.new lib config serverConfig)) tr s) {c : Nat}
    {checker : HealthChecker}
    (hc : (Server.new lib config serverConfig).checkers[c]? = some checker) :
    Checking checker c s := by
  obtain ⟨k, hk, hchecker, -⟩ := (inTurn_of_run hrun hc).place
  exact ⟨unblocked_of_run hrun, k, hk, hchecker⟩

/-- The execution is fair to the checker, if that has an interval; one without has panicked. -/
def FairToChecker {p : Platform} (server : Server Acceptor) (x : Execution (Event.Step p))
    (c : Nat) : Prop :=
  ∀ checker, server.checkers[c]? = some checker → checker.config.intervalSeconds ≠ 0 →
    x.Fair fun e => e.checker = some c

/-- It is fair to every checker of the server. -/
def FairToCheckers {p : Platform} (server : Server Acceptor) (x : Execution (Event.Step p)) :
    Prop :=
  ∀ c, FairToChecker server x c

/-- **Every target is checked for ever.**  In every infinite execution of a server that is fair to
    a checker with an interval, whatever the others do, a check of each of its targets is completed
    after any time. -/
theorem checked_for_ever (lib : TlsLibrary File Cert Key Acceptor) (p : Platform) (config : Config)
    (serverConfig : ServerConfig) (x : Execution (Event.Step p))
    (hinitial : x.state 0 = State.initial (Server.new lib config serverConfig))
    (c : Nat) (hfair : FairToChecker (Server.new lib config serverConfig) x c)
    (checker : HealthChecker)
    (hc : (Server.new lib config serverConfig).checkers[c]? = some checker)
    (hinterval : checker.config.intervalSeconds ≠ 0) (n : Nat) :
    ∀ ref ∈ checker.targets, ∃ m, n ≤ m ∧ ∃ reply isHealthy now,
      x.label m = some (.verdict c ref reply isHealthy now) := by
  intro ref href
  exact exists_verdict x (hfair checker hc hinterval)
    (checking_of_run (hinitial ▸ x.run_upTo n) hc) href

/-- One target, checked for status 200. -/
def soloConfig : Config where
  servers := []
  upstreams := [⟨"api".toList, [⟨"127.0.0.1".toList, 3000, none, none⟩], none, some ⟨30, 5, 200⟩⟩]

/-- The checker of the one target. -/
def soloChecker : HealthChecker := ⟨⟨30, 5, 200⟩, [⟨"api".toList, 0⟩]⟩

/-- The server while its checker rests, or waits for the reply. -/
def soloState (probing : Option Bool) : State where
  router := Router.new soloConfig checkedServer
  cache := none
  checkers := [⟨soloChecker, 0, probing⟩]
  exchanges := []
  puts := []

/-- The checker sends a request and gets status 200, for ever. -/
def soloExecution : Execution (Event.Step Platform.ascii) where
  state n := soloState (if n % 2 = 0 then none else some true)
  label n := some (if n % 2 = 0 then .probe 0
    else .verdict 0 ⟨"api".toList, 0⟩ (some 200) true n)
  next := by
    intro n e he
    obtain rfl := Option.some.inj he
    rcases Nat.mod_two_eq_zero_or_one n with h | h
    · rw [if_pos h, if_pos h, if_neg (by omega)]
      exact ⟨_, _, _, rfl, rfl, rfl, rfl, rfl⟩
    · rw [if_neg (by omega), if_neg (by omega), if_pos (by omega)]
      exact ⟨_, _, rfl, rfl, rfl, rfl, rfl⟩
  idle := by simp

/-- There is one checker only. -/
theorem eq_zero_of_soloChecker {c : Nat} {checker : HealthChecker}
    (hc : (Server.new noFiles soloConfig checkedServer).checkers[c]? = some checker) : c = 0 := by
  have hone : (Server.new noFiles soloConfig checkedServer).checkers = [soloChecker] := rfl
  rw [hone] at hc
  obtain ⟨hlt, -⟩ := List.getElem?_eq_some_iff.mp hc
  exact Nat.lt_one_iff.mp hlt

/-- The one target is checked again and again. -/
theorem checked_for_ever_solo :
    FairToChecker (Server.new noFiles soloConfig checkedServer) soloExecution 0 ∧
      ∀ n, ∃ m, n ≤ m ∧ ∃ reply isHealthy now, soloExecution.label m =
        some (.verdict 0 ⟨"api".toList, 0⟩ reply isHealthy now) := by
  have hfair : FairToChecker (Server.new noFiles soloConfig checkedServer) soloExecution 0 := by
    refine fun checker _ _ n _ => ⟨n, _, le_rfl, rfl, ?_⟩
    split <;> rfl
  refine ⟨hfair, fun n => ?_⟩
  exact checked_for_ever noFiles Platform.ascii soloConfig checkedServer soloExecution rfl 0 hfair
    soloChecker rfl (by decide) n ⟨"api".toList, 0⟩ (by decide)

end Sret
