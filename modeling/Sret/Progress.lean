import Sret.Foundation.Fairness
import Sret.Failures
import Sret.Health
import Sret.ServerCache

namespace Sret

open Text KeyedMap Transition Fairness

/-!
# Progress

What keeps the tasks of a running server going, whatever the clock, the random numbers, the targets
and the other tasks do.

* `Stage.rank`, `rank_of_step` — an exchange only moves on, and only by its own steps;
* `Unblocked` — there is a cache for the tasks that use it, and every checker has come to a target
  that exists;
* `no_task_is_stuck` — so every task that has not ended can take its next step, with whatever its
  surroundings answer, and an exchange takes three steps at most;
* `fair_tasks_end` — under weak fairness every request is answered and every put ends.
-/

/-! ### The steps of one task -/

/-- The exchange that takes the step. -/
def Event.exchange : Event → Option Nat
  | .lookup i _ _ | .route i _ _ | .finish i _ => some i
  | _ => none

/-- The put that takes the step. -/
def Event.put : Event → Option Nat
  | .prepare q _ | .commit q _ _ _ => some q
  | _ => none

/-- How far an exchange has come. -/
def Stage.rank : Stage → Nat
  | .lookup _ => 0
  | .route => 1
  | .forwarding _ => 2
  | .answered _ => 3

/-- How far a put has come. -/
def PutStage.rank : PutStage → Nat
  | .spawned => 0
  | .ready _ => 1
  | .finished => 2

/-- There are four stages. -/
theorem Stage.rank_le (stage : Stage) : stage.rank ≤ 3 := by
  cases stage <;> simp [Stage.rank]

/-- The last one is the answer. -/
theorem Stage.rank_eq_three {stage : Stage} (h : 3 ≤ stage.rank) :
    ∃ response, stage = .answered response := by
  cases stage with
  | answered response => exact ⟨response, rfl⟩
  | _ => simp [Stage.rank] at h

/-- There are three stages of a put. -/
theorem PutStage.rank_le (stage : PutStage) : stage.rank ≤ 2 := by
  cases stage <;> simp [PutStage.rank]

/-- **An exchange moves on by its own steps**, and stays where it is in all others. -/
theorem rank_of_step {p : Platform} {s s' : State} {e : Event} (h : e.Step p s s') {i : Nat}
    {x : Exchange} (hx : s.exchanges[i]? = some x) :
    ∃ x', s'.exchanges[i]? = some x' ∧
      (e.exchange = some i → x.stage.rank < x'.stage.rank) ∧ (e.exchange ≠ some i → x' = x) := by
  -- a step of an exchange moves that one on, and no other
  have hto : ∀ {j : Nat} {y : Exchange} {stage : Stage}, s.exchanges[j]? = some y →
      y.stage.rank < stage.rank → e.exchange = some j →
      ∃ x', (s.exchanges.set j (y.to stage))[i]? = some x' ∧
        (e.exchange = some i → x.stage.rank < x'.stage.rank) ∧ (e.exchange ≠ some i → x' = x) := by
    intro j y stage hy hlt hown
    rw [hown]
    simpa using Tasks.moves_set (fun y : Exchange => y.stage.rank) hy hlt hx
  -- a step of another task moves none
  have hsame : e.exchange = none → ∃ x', s.exchanges[i]? = some x' ∧
      (e.exchange = some i → x.stage.rank < x'.stage.rank) ∧ (e.exchange ≠ some i → x' = x) :=
    fun hnone => ⟨x, hx, fun h => by simp [hnone] at h, fun _ => rfl⟩
  cases e with
  | accept request =>
    obtain rfl := h
    exact ⟨x, Tasks.frozen_append hx _, by simp [Event.exchange], fun _ => rfl⟩
  | lookup j now result =>
    obtain ⟨y, key, _, hy, hstage, -, -, rfl⟩ := h
    refine hto hy ?_ rfl
    rw [hstage]
    cases result <;> simp [Stage.rank]
  | route j pick routed =>
    obtain ⟨y, hy, hstage, -, rfl⟩ := h
    refine hto hy ?_ rfl
    rw [hstage]
    cases routed <;> simp [Stage.rank]
  | finish j outcome =>
    obtain ⟨y, d, hy, hstage, rfl⟩ := h
    have hlt : y.stage.rank < 3 := by simp [hstage, Stage.rank]
    cases outcome <;> exact hto hy hlt rfl
  | prepare q clock =>
    obtain ⟨_, _, _, _, _, rfl⟩ := h
    exact hsame rfl
  | commit q key entry victim =>
    obtain ⟨_, _, _, _, _, _, _, _, _, rfl⟩ := h
    exact hsame rfl
  | probe c =>
    obtain ⟨_, _, _, _, _, _, _, rfl⟩ := h
    exact hsame rfl
  | verdict c ref reply isHealthy now =>
    obtain ⟨_, _, _, _, _, _, rfl⟩ := h
    exact hsame rfl

/-- The same for puts. -/
theorem putRank_of_step {p : Platform} {s s' : State} {e : Event} (h : e.Step p s s') {q : Nat}
    {t : PutTask} (ht : s.puts[q]? = some t) :
    ∃ t', s'.puts[q]? = some t' ∧
      (e.put = some q → t.stage.rank < t'.stage.rank) ∧ (e.put ≠ some q → t' = t) := by
  -- a step of a put moves that one on, and no other
  have hto : ∀ {r : Nat} {u u' : PutTask}, s.puts[r]? = some u → u.stage.rank < u'.stage.rank →
      e.put = some r → ∃ t', (s.puts.set r u')[q]? = some t' ∧
        (e.put = some q → t.stage.rank < t'.stage.rank) ∧ (e.put ≠ some q → t' = t) := by
    intro r u u' hu hlt hown
    rw [hown]
    simpa using Tasks.moves_set (fun u : PutTask => u.stage.rank) hu hlt ht
  have hsame : e.put = none → ∃ t', s.puts[q]? = some t' ∧
      (e.put = some q → t.stage.rank < t'.stage.rank) ∧ (e.put ≠ some q → t' = t) :=
    fun hnone => ⟨t, ht, fun h => by simp [hnone] at h, fun _ => rfl⟩
  cases e with
  | prepare r clock =>
    obtain ⟨u, cache, hu, hstage, -, rfl⟩ := h
    refine hto hu ?_ rfl
    rw [hstage]
    cases ResponseCache.preparePut p cache.defaultTtl u.response clock <;>
      simp [PutStage.rank, PutStage.ofPreparation]
  | commit r key entry victim =>
    obtain ⟨u, _, _, hu, -, hstage, -, -, -, rfl⟩ := h
    exact hto hu (by simp [hstage, PutStage.rank]) rfl
  | finish i outcome =>
    obtain ⟨x, d, -, -, rfl⟩ := h
    cases outcome with
    | replied response =>
      -- the new put comes after the others
      exact ⟨t, Tasks.frozen_append ht _, by simp [Event.put], fun _ => rfl⟩
    | _ => exact hsame rfl
  | accept request =>
    obtain rfl := h
    exact hsame rfl
  | lookup i now result =>
    obtain ⟨_, _, _, _, _, _, _, rfl⟩ := h
    exact hsame rfl
  | route i pick routed =>
    obtain ⟨_, _, _, _, rfl⟩ := h
    exact hsame rfl
  | probe c =>
    obtain ⟨_, _, _, _, _, _, _, rfl⟩ := h
    exact hsame rfl
  | verdict c ref reply isHealthy now =>
    obtain ⟨_, _, _, _, _, _, rfl⟩ := h
    exact hsame rfl

/-! ### Tasks that can go on -/

/-- What the tasks rely on: there is a cache for those that use it, and every checker has come to a
    target that exists. -/
structure Unblocked (s : State) : Prop where
  lookups : ∀ x ∈ s.exchanges, x.looking = true → s.cache.isSome = true
  puts : ∀ t ∈ s.puts, t.stage ≠ .finished → s.cache.isSome = true
  positions : ∀ k ∈ s.checkers, k.position < k.checker.targets.length
  targets : ∀ k ∈ s.checkers, ∀ ref ∈ k.checker.targets, (s.router.getTarget ref).isSome = true

/-- No target is lost, and none is added. -/
theorem getTarget_isSome_of_step {p : Platform} {s s' : State} {e : Event} (h : e.Step p s s')
    (ref : TargetRef) :
    (s'.router.getTarget ref).isSome = (s.router.getTarget ref).isSome := by
  cases e with
  | verdict c ref' reply isHealthy now =>
    obtain ⟨k, was, -, -, -, -, rfl⟩ := h
    -- a check writes a flag of a target that is there
    rw [getTarget_applyVerdict]
    split
    · rw [Option.isSome_map]
    · rfl
  | _ => rw [getTarget_of_step h (by simp)]

/-- A checker after a step: it goes through the same targets, and has come to the same one or to the
    next one. -/
theorem checker_of_step {p : Platform} {s s' : State} {e : Event} (h : e.Step p s s')
    {k : CheckerState} (hk : k ∈ s'.checkers) :
    ∃ k₀ ∈ s.checkers, (k.position = k₀.position ∨
      k.position = (k₀.position + 1) % k₀.checker.targets.length) ∧ k.checker = k₀.checker := by
  rcases checkers_of_step h with heq | ⟨c, k₀, ref, t, -, hk₀, -, -, -, -, heq⟩ |
    ⟨c, k₀, was, ref, reply, isHealthy, now, -, hk₀, -, -, -, heq⟩
  · exact ⟨k, heq ▸ hk, Or.inl rfl, rfl⟩
  · rw [heq] at hk
    rcases List.mem_or_eq_of_mem_set hk with hold | rfl
    · exact ⟨k, hold, Or.inl rfl, rfl⟩
    · exact ⟨k₀, List.mem_of_getElem? hk₀, Or.inl rfl, rfl⟩
  · rw [heq] at hk
    rcases List.mem_or_eq_of_mem_set hk with hold | rfl
    · exact ⟨k, hold, Or.inl rfl, rfl⟩
    · exact ⟨k₀, List.mem_of_getElem? hk₀, Or.inr rfl, rfl⟩

/-- Every task stays able to go on. -/
theorem Unblocked.step {p : Platform} {s s' : State} {e : Event} (h : Unblocked s)
    (hstep : e.Step p s s') : Unblocked s' := by
  refine ⟨fun x hx hlooking => ?_, fun t ht hstage => ?_, fun k hk => ?_, fun k hk ref href => ?_⟩
  · rcases exchanges_of_step hstep with heq | ⟨request, rfl, heq⟩ | ⟨j, y, stage, -, -, heq, hnew⟩
    · exact (cache_isSome_of_step hstep).trans (h.lookups x (heq ▸ hx) hlooking)
    · rw [heq] at hx
      rcases List.mem_append.mp hx with hold | hnew
      · exact (cache_isSome_of_step hstep).trans (h.lookups x hold hlooking)
      · -- a new exchange starts with a lookup only if there is a cache
        obtain rfl := List.mem_singleton.mp hnew
        cases hcache : s.cache.isSome with
        | true => exact (cache_isSome_of_step hstep).trans hcache
        | false => simp [hcache, Exchange.start, cacheKey, Exchange.looking] at hlooking
    · rw [heq] at hx
      rcases List.mem_or_eq_of_mem_set hx with hold | rfl
      · exact (cache_isSome_of_step hstep).trans (h.lookups x hold hlooking)
      · rcases hnew with rfl | ⟨response, rfl⟩ | ⟨pick, d, -, rfl⟩ <;>
          simp [Exchange.to, Exchange.looking] at hlooking
  · rcases puts_of_step hstep with heq | ⟨i, x, response, rfl, -, heq⟩ |
      ⟨q, u, cache, clock, rfl, -, -, hcache, heq⟩ | ⟨q, u, key, entry, victim, rfl, -, -, -, heq⟩
    · exact (cache_isSome_of_step hstep).trans (h.puts t (heq ▸ ht) hstage)
    · rw [heq] at ht
      rcases List.mem_append.mp ht with hold | hnew
      · exact (cache_isSome_of_step hstep).trans (h.puts t hold hstage)
      · cases hcache : s.cache.isSome with
        | true => exact (cache_isSome_of_step hstep).trans hcache
        | false => simp [hcache, spawnedPuts, cacheKey] at hnew
    · exact (cache_isSome_of_step hstep).trans (by rw [hcache, Option.isSome_some])
    · rw [heq] at ht
      rcases List.mem_or_eq_of_mem_set ht with hold | rfl
      · exact (cache_isSome_of_step hstep).trans (h.puts t hold hstage)
      · exact absurd rfl hstage
  · obtain ⟨k₀, hk₀, hposition, hsame⟩ := checker_of_step hstep hk
    rw [hsame]
    rcases hposition with heq | heq
    · rw [heq]
      exact h.positions k₀ hk₀
    · rw [heq]
      exact Nat.mod_lt _ (Nat.zero_lt_of_lt (h.positions k₀ hk₀))
  · obtain ⟨k₀, hk₀, -, hsame⟩ := checker_of_step hstep hk
    rw [getTarget_isSome_of_step hstep]
    exact h.targets k₀ hk₀ ref (hsame ▸ href)

/-- A new checker has the targets of its upstream in the router, which are some. -/
theorem exists_upstream_of_checkerFor {router : Router} {u : UpstreamConfig}
    {checker : HealthChecker} (h : Server.checkerFor router u = some checker) :
    u.healthCheck = some checker.config ∧ ∃ upstream, router.getUpstream u.id = some upstream ∧
      0 < upstream.targets.length ∧
      checker.targets = (List.range upstream.targets.length).map fun i => ⟨u.id, i⟩ := by
  unfold Server.checkerFor at h
  split at h
  · simp at h
  · rename_i healthConfig hconfig
    simp only at h
    split at h
    · simp at h
    · rename_i hne
      obtain rfl := Option.some.inj h
      unfold Server.targetRefs at hne ⊢
      cases hupstream : router.getUpstream u.id with
      | none => simp [hupstream] at hne
      | some upstream =>
        have hrefs : upstream.allTargets.map (fun a => (⟨u.id, a.index⟩ : TargetRef)) =
            (List.range upstream.targets.length).map fun i => ⟨u.id, i⟩ := by
          rw [← upstream.allTargets_map_index, List.map_map]
          rfl
        simp only [hupstream, hrefs, List.isEmpty_iff, List.map_eq_nil_iff,
          List.range_eq_nil] at hne
        exact ⟨hconfig, upstream, rfl, Nat.pos_of_ne_zero hne, hrefs⟩

/-- All of them exist. -/
theorem targets_of_checkerFor {router : Router} {u : UpstreamConfig} {checker : HealthChecker}
    (h : Server.checkerFor router u = some checker) :
    0 < checker.targets.length ∧
      ∀ ref ∈ checker.targets, (router.getTarget ref).isSome = true := by
  obtain ⟨-, upstream, hupstream, hpos, htargets⟩ := exists_upstream_of_checkerFor h
  rw [htargets]
  refine ⟨by simpa using hpos, fun ref href => ?_⟩
  obtain ⟨i, hi, rfl⟩ := List.mem_map.mp href
  simp [Router.getTarget, hupstream, List.mem_range.mp hi]

variable {File Cert Key Acceptor : Type}

/-- A started server blocks nobody. -/
theorem unblocked_initial (lib : TlsLibrary File Cert Key Acceptor) (config : Config)
    (serverConfig : ServerConfig) :
    Unblocked (State.initial (Server.new lib config serverConfig)) := by
  -- every checker was made for an upstream, and stands at its first target
  have hchecker : ∀ k ∈ (State.initial (Server.new lib config serverConfig)).checkers,
      k.position = 0 ∧ ∃ u, Server.checkerFor (Router.new config serverConfig) u =
        some k.checker := by
    intro k hk
    obtain ⟨checker, hmem, rfl⟩ := List.mem_map.mp hk
    rw [Server.checkers_new] at hmem
    obtain ⟨u, -, hu⟩ := List.mem_filterMap.mp hmem
    exact ⟨rfl, u, hu⟩
  refine ⟨by simp [State.initial], by simp [State.initial], fun k hk => ?_, fun k hk => ?_⟩
  · obtain ⟨hzero, u, hu⟩ := hchecker k hk
    rw [hzero]
    exact (targets_of_checkerFor hu).1
  · obtain ⟨-, u, hu⟩ := hchecker k hk
    exact (targets_of_checkerFor hu).2

/-- **No state that is reached blocks a task.** -/
theorem unblocked_of_run {lib : TlsLibrary File Cert Key Acceptor} {p : Platform} {config : Config}
    {serverConfig : ServerConfig} {tr : List Event} {s : State}
    (hrun : Run (Event.Step p) (State.initial (Server.new lib config serverConfig)) tr s) :
    Unblocked s :=
  hrun.invariant Unblocked (unblocked_initial lib config serverConfig)
    fun _ _ _ h hstep => h.step hstep

/-- The exchange can take its next step, with whatever it is told. -/
def Exchange.CanStep (p : Platform) (s : State) (i : Nat) (x : Exchange) : Prop :=
  match x.stage with
  | .lookup _ => ∀ now, ∃ result s', Event.Step p s (.lookup i now result) s'
  | .route => ∀ pick, ∃ routed s', Event.Step p s (.route i pick routed) s'
  | .forwarding _ => ∀ outcome, ∃ s', Event.Step p s (.finish i outcome) s'
  | .answered _ => False

/-- The put can take its next step, at whatever time. -/
def PutTask.CanStep (p : Platform) (s : State) (q : Nat) (t : PutTask) : Prop :=
  match t.stage with
  | .spawned => ∀ clock, ∃ s', Event.Step p s (.prepare q clock) s'
  | .ready entry => ∃ victim s', Event.Step p s (.commit q t.key entry victim) s'
  | .finished => False

/-- The checker can take its next step, with whatever reply at whatever time. -/
def CheckerState.CanStep (p : Platform) (s : State) (c : Nat) (k : CheckerState) : Prop :=
  match k.probing with
  | none => ∃ s', Event.Step p s (.probe c) s'
  | some _ => ∀ reply now, ∃ ref isHealthy s',
      Event.Step p s (.verdict c ref reply isHealthy now) s'

/-- An exchange without an answer can go on. -/
theorem Unblocked.exchange {s : State} (h : Unblocked s) (p : Platform) {i : Nat} {x : Exchange}
    (hx : s.exchanges[i]? = some x) (hans : ¬ x.Answered) : x.CanStep p s i := by
  unfold Exchange.CanStep
  cases hstage : x.stage with
  | lookup key =>
    have hlooking : x.looking = true := by rw [Exchange.looking, hstage]
    -- it looks up only if there is a cache
    obtain ⟨c, hc⟩ := Option.isSome_iff_exists.mp
      (h.lookups x (List.mem_of_getElem? hx) hlooking)
    exact fun now => ⟨_, _, x, key, c, hx, hstage, hc, rfl, rfl⟩
  | route => exact fun pick => ⟨_, _, x, hx, hstage, rfl, rfl⟩
  | forwarding d => exact fun outcome => ⟨_, x, d, hx, hstage, rfl⟩
  | answered response => exact absurd ⟨response, hstage⟩ hans

/-- A put that is not done can go on. -/
theorem Unblocked.put {s : State} (h : Unblocked s) (p : Platform) {q : Nat} {t : PutTask}
    (ht : s.puts[q]? = some t) (hstage : t.stage ≠ .finished) : t.CanStep p s q := by
  obtain ⟨c, hc⟩ := Option.isSome_iff_exists.mp (h.puts t (List.mem_of_getElem? ht) hstage)
  unfold PutTask.CanStep
  cases hcase : t.stage with
  | spawned => exact fun clock => ⟨_, t, c, ht, hcase, hc, rfl⟩
  | ready entry =>
    -- the lock is free between two steps, and the entries come in some order
    obtain ⟨iter, hiter⟩ := exists_enumerates c.entries
    exact ⟨_, _, t, c, iter, ht, rfl, hcase, hc, hiter, rfl, rfl⟩
  | finished => exact absurd hcase hstage

/-- A checker can always go on. -/
theorem Unblocked.checker {s : State} (h : Unblocked s) (p : Platform) {c : Nat}
    {k : CheckerState} (hk : s.checkers[c]? = some k) : k.CanStep p s c := by
  have hmem := List.mem_of_getElem? hk
  have hlt := h.positions k hmem
  have hcur : k.current = some k.checker.targets[k.position] := List.getElem?_eq_getElem hlt
  unfold CheckerState.CanStep
  cases hprobing : k.probing with
  | none =>
    obtain ⟨t, ht⟩ := Option.isSome_iff_exists.mp
      (h.targets k hmem _ (List.getElem_mem hlt))
    exact ⟨_, k, _, t, hk, hprobing, hcur, ht, rfl⟩
  | some was => exact fun reply now => ⟨_, _, _, k, was, hk, hprobing, hcur, rfl, rfl⟩

/-! ### No deadlock -/

/-- How far the exchange with the number has come. -/
def State.progress (s : State) (i : Nat) : Nat := (s.exchanges[i]?).elim 0 fun x => x.stage.rank

/-- A step is one of an exchange that has started. -/
theorem exists_of_exchange {p : Platform} {s s' : State} {e : Event} (h : e.Step p s s') {i : Nat}
    (hown : e.exchange = some i) : ∃ x, s.exchanges[i]? = some x := by
  cases e with
  | lookup j now result =>
    obtain rfl : j = i := Option.some.inj hown
    obtain ⟨x, _, _, hx, -⟩ := h
    exact ⟨x, hx⟩
  | route j pick routed =>
    obtain rfl : j = i := Option.some.inj hown
    obtain ⟨x, hx, -⟩ := h
    exact ⟨x, hx⟩
  | finish j outcome =>
    obtain rfl : j = i := Option.some.inj hown
    obtain ⟨x, _, hx, -⟩ := h
    exact ⟨x, hx⟩
  | _ => simp [Event.exchange] at hown

/-- A step of an exchange takes it at least one stage further, and no step takes it back. -/
theorem progress_of_step {p : Platform} {s s' : State} {e : Event} (h : e.Step p s s') (i : Nat) :
    s.progress i + (if e.exchange = some i then 1 else 0) ≤ s'.progress i := by
  cases hx : s.exchanges[i]? with
  | none =>
    -- an exchange that has not started takes no step
    have hother : e.exchange ≠ some i := by
      intro hown
      obtain ⟨x, hx'⟩ := exists_of_exchange h hown
      simp [hx] at hx'
    simp [State.progress, hx, hother]
  | some x =>
    obtain ⟨x', hx', hown, hother⟩ := rank_of_step h hx
    simp only [State.progress, hx, hx', Option.elim_some]
    split
    · exact hown ‹_›
    · rw [hother ‹_›, Nat.add_zero]

/-- An exchange takes three steps at most. -/
theorem countP_exchange_le {p : Platform} {s₀ s : State} {tr : List Event}
    (hrun : Run (Event.Step p) s₀ tr s) (i : Nat) :
    tr.countP (fun e => e.exchange = some i) ≤ 3 := by
  -- every step of the exchange shows in how far it has come
  have hprogress : tr.countP (fun e => e.exchange = some i) ≤ s.progress i := by
    refine hrun.invariant_trace
      (fun tr s => tr.countP (fun e => e.exchange = some i) ≤ s.progress i) (by simp) ?_
    intro tr t e u _ ih hstep
    have hone := progress_of_step hstep i
    rw [List.countP_append, List.countP_singleton]
    simp only [decide_eq_true_eq]
    omega
  have hle : s.progress i ≤ 3 := by
    unfold State.progress
    cases s.exchanges[i]? with
    | none => exact Nat.zero_le 3
    | some x => exact x.stage.rank_le
  exact hprogress.trans hle

/-- **No task is stuck.**  In every state that a server reaches: an exchange without an answer, a
    put that is not done and every checker with an interval (one without has panicked) can take
    their next step, whatever the time, the random number, the outcome of the request or the reply
    to the check will be; and no exchange has taken more than three. -/
theorem no_task_is_stuck (lib : TlsLibrary File Cert Key Acceptor) (p : Platform) (config : Config)
    (serverConfig : ServerConfig) (tr : List Event) (s : State)
    (hrun : Run (Event.Step p) (State.initial (Server.new lib config serverConfig)) tr s) :
    (∀ (i : Nat) x, s.exchanges[i]? = some x → x.Answered ∨ x.CanStep p s i) ∧
    (∀ (q : Nat) t, s.puts[q]? = some t → t.stage = .finished ∨ t.CanStep p s q) ∧
    (∀ (c : Nat) k, s.checkers[c]? = some k →
      k.checker.config.intervalSeconds = 0 ∨ k.CanStep p s c) ∧
    ∀ i, tr.countP (fun e => e.exchange = some i) ≤ 3 := by
  have h := unblocked_of_run hrun
  refine ⟨fun i x hx => ?_, fun q t ht => ?_, fun c k hk => Or.inr (h.checker p hk),
    countP_exchange_le hrun⟩
  · exact or_iff_not_imp_left.mpr fun hans => h.exchange p hx hans
  · exact or_iff_not_imp_left.mpr fun hstage => h.put p ht hstage

/-- Two puts that wait for the lock can both go on. -/
theorem no_task_is_stuck_race :
    ∃ s, Run (Event.Step Platform.ascii)
        (State.initial (Server.new noFiles openConfig raceServer)) raceTrace s ∧
      ∀ (q : Nat) t, s.puts[q]? = some t → t.stage = .finished ∨ t.CanStep Platform.ascii s q := by
  obtain ⟨m, hrun, -⟩ := exists_run_race
  exact ⟨m, hrun, (no_task_is_stuck noFiles Platform.ascii openConfig raceServer _ m hrun).2.1⟩

/-! ### Fair executions -/

/-- The exchange can take a step of its own. -/
theorem Exchange.CanStep.exists_step {p : Platform} {s : State} {i : Nat} {x : Exchange}
    (h : x.CanStep p s i) : ∃ e s', Event.exchange e = some i ∧ Event.Step p s e s' := by
  unfold Exchange.CanStep at h
  split at h
  · obtain ⟨result, s', hstep⟩ := h 0
    exact ⟨_, s', rfl, hstep⟩
  · obtain ⟨routed, s', hstep⟩ := h 0
    exact ⟨_, s', rfl, hstep⟩
  · obtain ⟨s', hstep⟩ := h .sendFailed
    exact ⟨_, s', rfl, hstep⟩
  · exact h.elim

/-- A put that can go on has a step to take. -/
theorem PutTask.CanStep.exists_step {p : Platform} {s : State} {q : Nat} {t : PutTask}
    (h : t.CanStep p s q) : ∃ e s', Event.put e = some q ∧ Event.Step p s e s' := by
  unfold PutTask.CanStep at h
  split at h
  · obtain ⟨s', hstep⟩ := h ⟨0, 0⟩
    exact ⟨_, s', rfl, hstep⟩
  · obtain ⟨victim, s', hstep⟩ := h
    exact ⟨_, s', rfl, hstep⟩
  · exact h.elim

/-- Under fairness to it, an exchange is answered. -/
theorem eventually_answered {p : Platform} (x : Execution (Event.Step p)) {i n : Nat}
    (hfair : x.Fair fun e => e.exchange = some i) (hunblocked : Unblocked (x.state n))
    (hi : i < (x.state n).exchanges.length) : ∃ m, n ≤ m ∧ (x.state m).Answered i := by
  have hmono : ∀ {s s' : State} {e : Event}, e.Step p s s' → s.progress i ≤ s'.progress i :=
    fun hstep => (Nat.le_add_right _ _).trans (progress_of_step hstep i)
  refine x.eventually hfair (fun s => Unblocked s ∧ ∃ y, s.exchanges[i]? = some y)
    (fun s => s.Answered i) (fun s => 3 - s.progress i) ?_ ?_ ?_ ?_
    ⟨hunblocked, _, List.getElem?_eq_getElem hi⟩
  · rintro s e t ⟨hs, y, hy⟩ hstep
    obtain ⟨y', hy', -⟩ := exchange_of_step hstep hy
    exact ⟨hs.step hstep, y', hy'⟩
  · rintro s ⟨hs, y, hy⟩ hnot
    exact (hs.exchange p hy fun hans => hnot ⟨y, hy, hans⟩).exists_step
  · intro s e t _ _ hstep
    have := hmono hstep
    omega
  · rintro s e t ⟨-, y, hy⟩ hnot hstep hown
    have hone := progress_of_step hstep i
    rw [if_pos hown] at hone
    -- an exchange without an answer has not come to the end
    have hless : s.progress i < 3 := by
      by_contra hge
      simp only [State.progress, hy, Option.elim_some] at hge
      exact hnot ⟨y, hy, Stage.rank_eq_three (Nat.not_lt.mp hge)⟩
    omega

/-- Under fairness to it, a put ends. -/
theorem eventually_settled {p : Platform} (x : Execution (Event.Step p)) {q n : Nat}
    (hfair : x.Fair fun e => e.put = some q) (hunblocked : Unblocked (x.state n))
    (hq : q < (x.state n).puts.length) : ∃ m, n ≤ m ∧ (x.state m).Settled q := by
  have hrank : ∀ {s s' : State} {e : Event} {t : PutTask}, s.puts[q]? = some t → e.Step p s s' →
      ∃ t', s'.puts[q]? = some t' ∧ t.stage.rank ≤ t'.stage.rank ∧
        (e.put = some q → t.stage.rank < t'.stage.rank) := by
    intro s s' e t ht hstep
    obtain ⟨t', ht', hown, hother⟩ := putRank_of_step hstep ht
    refine ⟨t', ht', ?_, hown⟩
    by_cases he : e.put = some q
    · exact (hown he).le
    · rw [hother he]
  refine x.eventually hfair (fun s => Unblocked s ∧ ∃ t, s.puts[q]? = some t)
    (fun s => s.Settled q) (fun s => 2 - (s.puts[q]?).elim 0 fun t => t.stage.rank)
    ?_ ?_ ?_ ?_ ⟨hunblocked, _, List.getElem?_eq_getElem hq⟩
  · rintro s e s' ⟨hs, t, ht⟩ hstep
    obtain ⟨t', ht', -⟩ := hrank ht hstep
    exact ⟨hs.step hstep, t', ht'⟩
  · rintro s ⟨hs, t, ht⟩ hnot
    exact (hs.put p ht fun hstage => hnot ⟨t, ht, hstage⟩).exists_step
  · rintro s e s' ⟨-, t, ht⟩ - hstep
    obtain ⟨t', ht', hle, -⟩ := hrank ht hstep
    simp only [ht, ht', Option.elim_some]
    omega
  · rintro s e s' ⟨-, t, ht⟩ hnot hstep hown
    obtain ⟨t', ht', -, hlt⟩ := hrank ht hstep
    have hmore := hlt hown
    have hle := t'.stage.rank_le
    simp only [ht, ht', Option.elim_some]
    omega

/-- **Every request is answered and every put ends.**  In every infinite execution of a server that
    is fair to each exchange and to each put — one that can take its next step all the time takes
    it — an exchange that has started has its answer at some time and from then on, and a put that
    has been spawned is done at some time and from then on. -/
theorem fair_tasks_end (lib : TlsLibrary File Cert Key Acceptor) (p : Platform) (config : Config)
    (serverConfig : ServerConfig) (x : Execution (Event.Step p))
    (hinitial : x.state 0 = State.initial (Server.new lib config serverConfig))
    (hexchanges : ∀ i, x.Fair fun e => e.exchange = some i)
    (hputs : ∀ q, x.Fair fun e => e.put = some q) (n : Nat) :
    (∀ i < (x.state n).exchanges.length, ∃ m, n ≤ m ∧ ∀ k, m ≤ k → (x.state k).Answered i) ∧
    ∀ q < (x.state n).puts.length, ∃ m, n ≤ m ∧ ∀ k, m ≤ k → (x.state k).Settled q := by
  have hrun := x.run_upTo n
  rw [hinitial] at hrun
  have hunblocked := unblocked_of_run hrun
  constructor
  · intro i hi
    obtain ⟨m, hm, hans⟩ := eventually_answered x (hexchanges i) hunblocked hi
    exact ⟨m, hm, fun k hk =>
      x.always (fun s => s.Answered i) (fun _ _ _ h hstep => h.step hstep) hans hk⟩
  · intro q hq
    obtain ⟨m, hm, hsettled⟩ := eventually_settled x (hputs q) hunblocked hq
    exact ⟨m, hm, fun k hk =>
      x.always (fun s => s.Settled q) (fun _ _ _ h hstep => h.step hstep) hsettled hk⟩

/-- An answered exchange takes no step. -/
theorem State.Answered.not_step {p : Platform} {s : State} {i : Nat} (h : s.Answered i) :
    ¬ ∃ e s', Event.exchange e = some i ∧ Event.Step p s e s' := by
  rintro ⟨e, s', hown, hstep⟩
  obtain ⟨x, hx, response, hstage⟩ := h
  obtain ⟨x', -, hlt, -⟩ := rank_of_step hstep hx
  have hless := hlt hown
  have hle := x'.stage.rank_le
  rw [hstage, Stage.rank] at hless
  omega

/-- Every exchange is answered, and there are no puts. -/
def State.AtRest (s : State) : Prop := (∀ x ∈ s.exchanges, x.Answered) ∧ s.puts = []

/-- Then no exchange takes a step. -/
theorem State.AtRest.not_exchange {p : Platform} {s : State} (h : s.AtRest) (i : Nat) :
    ¬ ∃ e s', Event.exchange e = some i ∧ Event.Step p s e s' := by
  rintro ⟨e, s', hown, hstep⟩
  obtain ⟨x, hx⟩ := exists_of_exchange hstep hown
  have hanswered : s.Answered i := ⟨x, hx, h.1 x (List.mem_of_getElem? hx)⟩
  exact hanswered.not_step ⟨e, s', hown, hstep⟩

/-- And no put. -/
theorem State.AtRest.not_put {p : Platform} {s : State} (h : s.AtRest) (q : Nat) :
    ¬ ∃ e s', Event.put e = some q ∧ Event.Step p s e s' := by
  rintro ⟨e, s', hown, hstep⟩
  cases e with
  | prepare r clock =>
    obtain ⟨t, _, ht, -⟩ := hstep
    simp [h.2] at ht
  | commit r key entry victim =>
    obtain ⟨t, _, _, ht, -⟩ := hstep
    simp [h.2] at ht
  | _ => simp [Event.put] at hown

/-- The server with a request that it has accepted. -/
def formState : State := { openState with exchanges := [⟨formRequest, .route⟩] }

/-- The request goes to the target of the server, and fails. -/
theorem exists_run_routed : ∃ tr s, Run (Event.Step Platform.ascii) formState tr s ∧
    s.exchanges = [⟨formRequest, .answered badGateway⟩] ∧ s.puts = [] ∧
    ∀ request, .accept request ∉ tr := by
  obtain ⟨d, r, hroute⟩ := open_routes formRequest
  have hrouted : Event.Step Platform.ascii formState (.route 0 0 (some d))
      { openState with router := r, exchanges := [⟨formRequest, .forwarding d⟩] } :=
    ⟨_, rfl, rfl, congrArg Prod.fst hroute, by simp only [formState, hroute]; rfl⟩
  have hfailed : Event.Step Platform.ascii
      { openState with router := r, exchanges := [⟨formRequest, .forwarding d⟩] }
      (.finish 0 .sendFailed)
      { openState with router := r, exchanges := [⟨formRequest, .answered badGateway⟩] } :=
    ⟨_, d, rfl, rfl, rfl⟩
  exact ⟨_, _, (Run.single hrouted).snoc hfailed, rfl, rfl, by simp⟩

/-- A request is accepted, assigned to the target, and fails there. -/
theorem exists_run_failing : ∃ tr s, Run (Event.Step Platform.ascii)
    (State.initial (Server.new noFiles openConfig openServer)) tr s ∧
    s.exchanges = [⟨formRequest, .answered badGateway⟩] ∧ s.puts = [] := by
  obtain ⟨tr, s, hrun, hexchanges, hputs, -⟩ := exists_run_routed
  have haccept : Event.Step Platform.ascii openState (.accept formRequest) formState := rfl
  exact ⟨_, s, (Run.single haccept).append hrun, hexchanges, hputs⟩

/-- The request is answered, for good. -/
theorem fair_tasks_end_failing :
    ∃ x : Execution (Event.Step Platform.ascii),
      x.state 0 = State.initial (Server.new noFiles openConfig openServer) ∧
      ∃ n, 0 < (x.state n).exchanges.length ∧ ∃ m, ∀ k, m ≤ k → (x.state k).Answered 0 := by
  obtain ⟨tr, s, hrun, hexchanges, hputs⟩ := exists_run_failing
  obtain ⟨x, hstart, hstay⟩ := exists_of_run hrun
  have hrest : s.AtRest := ⟨by simp [hexchanges, Exchange.Answered], hputs⟩
  -- nothing is left to do when the run has ended
  have hexchange : ∀ i, x.Fair fun e => e.exchange = some i := by
    refine fun i => x.fair_of_ended fun m (hm : tr.length ≤ m) => ?_
    rw [(hstay m hm).1]
    exact hrest.not_exchange i
  have hput : ∀ q, x.Fair fun e => e.put = some q := by
    refine fun q => x.fair_of_ended fun m (hm : tr.length ≤ m) => ?_
    rw [(hstay m hm).1]
    exact hrest.not_put q
  have hlen : 0 < (x.state tr.length).exchanges.length := by
    rw [(hstay _ le_rfl).1, hexchanges]
    exact Nat.one_pos
  obtain ⟨m, -, hans⟩ := (fair_tasks_end noFiles Platform.ascii openConfig openServer x hstart
    hexchange hput tr.length).1 0 hlen
  exact ⟨x, hstart, tr.length, hlen, m, hans⟩

end Sret
