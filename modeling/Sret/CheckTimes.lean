import Sret.Health

namespace Sret

open Text Transition

/-!
# The times of the health checks

`check_all_targets`, pass after pass, and the time of the last check that it leaves with each
target.

* `HealthChecker.check`, `checkAllTargets`, `runPasses` — one iteration of the loop, one pass, and
  a sequence of passes, with arbitrary replies at arbitrary times;
* `getTarget_of_verdict` — a completed check of the running server is such an iteration;
* `lastHealthCheck_check` — the time is noted by `set_healthy`, which is called only when the
  outcome differs from the flag;
* `check_times_iff` — so the times are those of the last pass, in every pass, exactly when every
  pass turns the flag of every target;
* `isHealthy_of_runPasses`, `runPasses_of_stable` — the flag is that of the last pass in any case,
  but a target with always the same outcome keeps the time that it had.
-/

variable {File Cert Key Acceptor : Type}

/-! ### Passes -/

/-- The reply that the check of a target gets, and the time when it is completed. -/
structure CheckReply where
  reply : Option StatusCode
  now : Instant

namespace HealthChecker

/-- The loop body of `check_all_targets`. -/
def check (checker : HealthChecker) (t : Target) (r : CheckReply) : Target :=
  let wasHealthy := t.isHealthy
  let isHealthy := checker.checkTarget r.reply
  if wasHealthy ≠ isHealthy then t.setHealthy isHealthy r.now else t

/-- `HealthChecker::check_all_targets`, with the reply for each position. -/
def checkAllTargets (checker : HealthChecker) (targets : List Target) (pass : Nat → CheckReply) :
    List Target :=
  targets.mapIdx fun i t => checker.check t (pass i)

/-- The targets after a sequence of passes. -/
def runPasses (checker : HealthChecker) (targets : List Target)
    (passes : List (Nat → CheckReply)) : List Target :=
  passes.foldl checker.checkAllTargets targets

theorem runPasses_snoc (checker : HealthChecker) (targets : List Target)
    (passes : List (Nat → CheckReply)) (pass : Nat → CheckReply) :
    checker.runPasses targets (passes ++ [pass]) =
      checker.checkAllTargets (checker.runPasses targets passes) pass := by
  simp [runPasses]

theorem getElem?_checkAllTargets (checker : HealthChecker) (targets : List Target)
    (pass : Nat → CheckReply) (i : Nat) :
    (checker.checkAllTargets targets pass)[i]? =
      targets[i]?.map fun t => checker.check t (pass i) := by
  rw [checkAllTargets, List.getElem?_mapIdx]

/-- After a check the flag is its outcome. -/
theorem isHealthy_check (checker : HealthChecker) (t : Target) (r : CheckReply) :
    (checker.check t r).isHealthy = checker.checkTarget r.reply := by
  unfold check
  by_cases h : t.isHealthy = checker.checkTarget r.reply
  · rw [if_neg (not_not.mpr h), h]
  · rw [if_pos h]
    rfl

/-- **The time is noted when the outcome differs from the flag.** -/
theorem lastHealthCheck_check (checker : HealthChecker) (t : Target) (r : CheckReply) :
    (checker.check t r).lastHealthCheck = some r.now ↔
      checker.checkTarget r.reply ≠ t.isHealthy ∨ t.lastHealthCheck = some r.now := by
  unfold check
  by_cases h : t.isHealthy = checker.checkTarget r.reply
  · rw [if_neg (not_not.mpr h)]
    simp [h]
  · rw [if_pos h]
    exact iff_of_true rfl (Or.inl (Ne.symm h))

/-- After any passes the flag of a target is the outcome of its last check, though the time need
    not be the time of that check. -/
theorem isHealthy_of_runPasses {checker : HealthChecker} {targets : List Target}
    {passes : List (Nat → CheckReply)} {pass : Nat → CheckReply} {i : Nat} {t : Target}
    (ht : (checker.runPasses targets (passes ++ [pass]))[i]? = some t) :
    t.isHealthy = checker.checkTarget (pass i).reply := by
  rw [runPasses_snoc, getElem?_checkAllTargets] at ht
  obtain ⟨t₀, -, rfl⟩ := Option.map_eq_some_iff.mp ht
  exact isHealthy_check checker t₀ (pass i)

/-- A target with always the same outcome is never written. -/
theorem runPasses_of_stable (checker : HealthChecker) (targets : List Target) {i : Nat}
    {t : Target} (ht : targets[i]? = some t) {passes : List (Nat → CheckReply)}
    (h : ∀ pass ∈ passes, checker.checkTarget (pass i).reply = t.isHealthy) :
    (checker.runPasses targets passes)[i]? = some t := by
  induction passes using List.reverseRecOn with
  | nil => exact ht
  | append_singleton passes pass ih =>
    rw [runPasses_snoc, getElem?_checkAllTargets,
      ih fun pass' hmem => h pass' (List.mem_append_left _ hmem), Option.map_some, check,
      if_neg (not_not.mpr (h pass (by simp)).symm)]

end HealthChecker

/-! ### In the running server -/

/-- A completed check of a running server is an iteration of the loop: the flag that it compares
    with still is the one of the target. -/
theorem getTarget_of_verdict {lib : TlsLibrary File Cert Key Acceptor} {p : Platform}
    {config : Config} {serverConfig : ServerConfig} {tr : List Event} {s s' : State} {c : Nat}
    {ref : TargetRef} {reply : Option StatusCode} {isHealthy : Bool} {now : Instant}
    (hvalid : config.validate = .ok ())
    (hrun : Run (Event.Step p) (State.initial (Server.new lib config serverConfig)) tr s)
    (hstep : Event.Step p s (.verdict c ref reply isHealthy now) s') :
    ∃ k, s.checkers[c]? = some k ∧
      s'.router.getTarget ref =
        (s.router.getTarget ref).map fun t => k.checker.check t ⟨reply, now⟩ := by
  obtain ⟨k, was, hk, hwas, hcur, rfl, rfl⟩ := hstep
  refine ⟨k, hk, ?_⟩
  rw [getTarget_applyVerdict]
  cases ht : s.router.getTarget ref with
  | none => simp
  | some t =>
    -- no other checker has written the flag since it was read
    have hflag : t.isHealthy = was :=
      (healthInvariant_of_run hvalid hrun).2.probing c k was ref t hk hwas hcur ht
    simp only [Option.map_some, HealthChecker.check, hflag]
    by_cases h : was = k.checker.checkTarget reply
    · simp [h]
    · simp [h]

/-! ### The time since the last check -/

/-- `Target::time_since_last_health_check`. -/
def Target.timeSinceLastHealthCheck (t : Target) (now : Instant) : Option Duration :=
  t.lastHealthCheck.map fun instant => Instant.durationSince now instant

/-- Every target has the time at which the pass checked it, and reports the time since then. -/
structure UpToDate (targets : List Target) (pass : Nat → CheckReply) : Prop where
  lastHealthCheck : ∀ i t, targets[i]? = some t → t.lastHealthCheck = some (pass i).now
  timeSince : ∀ i t, targets[i]? = some t → ∀ later,
    t.timeSinceLastHealthCheck later = some (Instant.durationSince later (pass i).now)

/-- The pass turns the flag of every target, unless its clock still shows the time that the target
    has already. -/
def TurnsAll (checker : HealthChecker) (targets : List Target) (pass : Nat → CheckReply) : Prop :=
  ∀ i t, targets[i]? = some t →
    checker.checkTarget (pass i).reply ≠ t.isHealthy ∨ t.lastHealthCheck = some (pass i).now

theorem upToDate_iff {targets : List Target} {pass : Nat → CheckReply} :
    UpToDate targets pass ↔
      ∀ i t, targets[i]? = some t → t.lastHealthCheck = some (pass i).now := by
  constructor
  · exact UpToDate.lastHealthCheck
  · intro h
    -- the time since the check follows from the time of the check
    refine ⟨h, fun i t ht later => ?_⟩
    rw [Target.timeSinceLastHealthCheck, h i t ht, Option.map_some]

/-- One pass. -/
theorem upToDate_checkAllTargets (checker : HealthChecker) (targets : List Target)
    (pass : Nat → CheckReply) :
    UpToDate (checker.checkAllTargets targets pass) pass ↔ TurnsAll checker targets pass := by
  rw [upToDate_iff]
  refine forall_congr' fun i => ?_
  rw [HealthChecker.getElem?_checkAllTargets]
  cases targets[i]? with
  | none => simp
  | some t =>
    simp only [Option.map_some, Option.some.injEq, forall_eq']
    exact checker.lastHealthCheck_check t (pass i)

/-- **When the check times are up to date.**  For every list of targets and every sequence of
    passes with arbitrary replies: after each pass every target has the time at which it was checked
    in that pass exactly when each pass turns the flags of all targets. -/
theorem check_times_iff (checker : HealthChecker) (targets : List Target)
    (passes : List (Nat → CheckReply)) :
    (∀ pre pass post, passes = pre ++ pass :: post →
        UpToDate (checker.runPasses targets (pre ++ [pass])) pass) ↔
      ∀ pre pass post, passes = pre ++ pass :: post →
        TurnsAll checker (checker.runPasses targets pre) pass := by
  -- the targets before a pass are those that the earlier passes have left
  simp only [HealthChecker.runPasses_snoc, upToDate_checkAllTargets]

/-- A checker of one new target. -/
def pageChecker : HealthChecker := ⟨⟨30, 5, 200⟩, [⟨"api".toList, 0⟩]⟩

/-- A target that is up has no check time after a check. -/
theorem check_time_missing :
    ¬ ∀ (checker : HealthChecker) (targets : List Target) (passes : List (Nat → CheckReply))
      (pre : List (Nat → CheckReply)) (pass : Nat → CheckReply)
      (post : List (Nat → CheckReply)), passes = pre ++ pass :: post →
      UpToDate (checker.runPasses targets (pre ++ [pass])) pass := by
  intro h
  have hdate := h pageChecker [Target.new ⟨"127.0.0.1".toList, 3000, none, none⟩] _ []
    (fun _ => ⟨some 200, 7⟩) [] rfl
  have htime := hdate.lastHealthCheck 0 _ rfl
  exact absurd htime (by decide)

end Sret
