import Mathlib.Data.List.MinMax
import Mathlib.Data.List.Nodup
import Sret.Target

namespace Sret

open Text

/-!
# Upstreams and target selection

An upstream and the four balancing strategies of `Upstream.selectTarget`:

* `TargetArc` — a handle on a target.  The position in the target list tells two handles apart,
  also when two targets have the same id;
* `candidates` — the list that the strategy draws from;
* `selectTarget_fst` / `selectTarget_snd` — what a selection returns and what it changes: a
  candidate, if there is one, and at most the round-robin counter.

`select_random` takes the position from the thread's random generator; here the generator's
answer is the argument `pick`.
-/

/-- A shared handle on a target: where the target is, and what it is now. -/
structure TargetArc where
  index : Nat
  target : Target
deriving DecidableEq

/-- A group of targets, with the counter that it selects them by. -/
structure Upstream where
  id : Str
  targets : List Target
  strategy : LoadBalancerStrategy
  roundRobinCounter : Nat
deriving DecidableEq

namespace Upstream

/-- `Upstream::new`. -/
def new (config : UpstreamConfig) : Upstream where
  id := config.id
  targets := config.targets.map Target.new
  strategy := config.strategy.getD LoadBalancerStrategy.default
  roundRobinCounter := 0

/-- `Upstream::all_targets`. -/
def allTargets (u : Upstream) : List TargetArc := u.targets.mapIdx TargetArc.mk

/-- `Upstream::healthy_targets`, also computed at the head of `select_target`. -/
def healthyTargets (u : Upstream) : List TargetArc :=
  u.allTargets.filter (fun a => a.target.isHealthy)

/-- The list that `select_weighted_round_robin` builds: every healthy target, as often as its
    weight says. -/
def weightedTargets (u : Upstream) : List TargetArc :=
  u.allTargets.flatMap fun a =>
    if a.target.isHealthy then List.replicate a.target.effectiveWeight a else []

/-- `round_robin_counter.fetch_add(1)`. -/
def bumpCounter (u : Upstream) : Upstream :=
  { u with roundRobinCounter := (u.roundRobinCounter + 1) % usizeSize }

/-- `Upstream::select_round_robin`. -/
def selectRoundRobin (u : Upstream) (targets : List TargetArc) : Option TargetArc × Upstream :=
  if targets.isEmpty then (none, u)
  else (targets[u.roundRobinCounter % targets.length]?, u.bumpCounter)

/-- `Upstream::select_least_connections`: `min_by` keeps the first of several minima. -/
def selectLeastConnections (targets : List TargetArc) : Option TargetArc :=
  targets.argmin (fun a => a.target.connectionScore)

/-- `Upstream::select_random`. -/
def selectRandom (targets : List TargetArc) (pick : Nat) : Option TargetArc :=
  targets[pick % targets.length]?

/-- `Upstream::select_weighted_round_robin`. -/
def selectWeightedRoundRobin (u : Upstream) : Option TargetArc × Upstream :=
  -- all weights may be zero; then the counter is not touched
  if u.weightedTargets.isEmpty then (none, u)
  else (u.weightedTargets[u.roundRobinCounter % u.weightedTargets.length]?, u.bumpCounter)

/-- `Upstream::select_target`. -/
def selectTarget (u : Upstream) (pick : Nat) : Option TargetArc × Upstream :=
  if u.healthyTargets.isEmpty then (none, u)
  else match u.strategy with
    | .roundRobin => u.selectRoundRobin u.healthyTargets
    | .leastConnections => (selectLeastConnections u.healthyTargets, u)
    | .random => (selectRandom u.healthyTargets pick, u)
    | .weightedRoundRobin => u.selectWeightedRoundRobin

/-- `Upstream::has_healthy_targets`. -/
def hasHealthyTargets (u : Upstream) : Bool := u.targets.any Target.isHealthy

/-- The list that the strategy of the upstream draws from. -/
def candidates (u : Upstream) : List TargetArc :=
  match u.strategy with
  | .weightedRoundRobin => u.weightedTargets
  | _ => u.healthyTargets

/-- Advancing the counter changes no target. -/
@[simp] theorem bumpCounter_targets (u : Upstream) : u.bumpCounter.targets = u.targets := rfl

/-- Nor the strategy. -/
@[simp] theorem bumpCounter_strategy (u : Upstream) : u.bumpCounter.strategy = u.strategy := rfl

/-- Nor the candidates. -/
@[simp] theorem bumpCounter_candidates (u : Upstream) : u.bumpCounter.candidates = u.candidates :=
  rfl

/-! ### The lists -/

/-- A target is known with its position. -/
theorem mem_allTargets {u : Upstream} {a : TargetArc} :
    a ∈ u.allTargets ↔ u.targets[a.index]? = some a.target := by
  rw [allTargets, List.mem_mapIdx]
  constructor
  · rintro ⟨i, hi, rfl⟩
    exact List.getElem?_eq_getElem hi
  · intro h
    obtain ⟨hi, ht⟩ := List.getElem?_eq_some_iff.mp h
    exact ⟨a.index, hi, by rw [ht]⟩

/-- The list has the targets that are healthy. -/
theorem mem_healthyTargets {u : Upstream} {a : TargetArc} :
    a ∈ u.healthyTargets ↔ u.targets[a.index]? = some a.target ∧ a.target.isHealthy = true := by
  rw [healthyTargets, List.mem_filter, mem_allTargets]

/-- The weighted list has those that have a weight besides. -/
theorem mem_weightedTargets {u : Upstream} {a : TargetArc} :
    a ∈ u.weightedTargets ↔ a ∈ u.healthyTargets ∧ 0 < a.target.weight := by
  simp only [weightedTargets, List.mem_flatMap, mem_healthyTargets]
  constructor
  · rintro ⟨b, hb, hab⟩
    split at hab
    · rename_i hh
      rw [Target.effectiveWeight_of_healthy hh] at hab
      obtain ⟨hne, rfl⟩ := List.mem_replicate.mp hab
      exact ⟨⟨mem_allTargets.mp hb, hh⟩, Nat.pos_of_ne_zero hne⟩
    · simp at hab
  · rintro ⟨⟨hidx, hh⟩, hw⟩
    refine ⟨a, mem_allTargets.mpr hidx, ?_⟩
    rw [if_pos hh, Target.effectiveWeight_of_healthy hh]
    exact List.mem_replicate.mpr ⟨Nat.pos_iff_ne_zero.mp hw, rfl⟩

/-- The candidates are the healthy targets; with weights, those with a positive one. -/
theorem mem_candidates {u : Upstream} {a : TargetArc} :
    a ∈ u.candidates ↔ u.targets[a.index]? = some a.target ∧ a.target.isHealthy = true ∧
      (u.strategy = .weightedRoundRobin → 0 < a.target.weight) := by
  unfold candidates
  split
  · rename_i hs
    rw [mem_weightedTargets, mem_healthyTargets, and_assoc]
    simp [hs]
  · rename_i hs
    rw [mem_healthyTargets]
    exact ⟨fun h => ⟨h.1, h.2, fun hw => absurd hw hs⟩, fun h => ⟨h.1, h.2.1⟩⟩

/-- Every candidate is healthy. -/
theorem candidates_subset_healthy {u : Upstream} {a : TargetArc} (h : a ∈ u.candidates) :
    a ∈ u.healthyTargets := by
  unfold candidates at h
  split at h
  · exact (mem_weightedTargets.mp h).1
  · exact h

/-- The positions of the targets, in order. -/
theorem allTargets_map_index (u : Upstream) :
    u.allTargets.map TargetArc.index = List.range u.targets.length := by
  refine List.ext_getElem? fun i => ?_
  rcases Nat.lt_or_ge i u.targets.length with hi | hi
  · simp [allTargets, hi]
  · simp [allTargets, hi]

/-- No handle occurs twice: the positions tell them apart. -/
theorem allTargets_nodup (u : Upstream) : u.allTargets.Nodup := by
  have h : (u.allTargets.map TargetArc.index).Nodup := by
    rw [allTargets_map_index]
    exact List.nodup_range
  exact List.Nodup.of_map _ h

/-- The list has each of them once. -/
theorem healthyTargets_nodup (u : Upstream) : u.healthyTargets.Nodup :=
  u.allTargets_nodup.filter _

/-! ### What a selection does -/

/-- The two strategies that advance the round-robin counter. -/
def usesCounter (u : Upstream) : Bool :=
  u.strategy = .roundRobin ∨ u.strategy = .weightedRoundRobin

/-- A strategy without a counter draws from all healthy targets. -/
theorem candidates_of_not_usesCounter {u : Upstream} (h : u.usesCounter = false) :
    u.candidates = u.healthyTargets := by
  simp only [usesCounter, decide_eq_false_iff_not, not_or] at h
  unfold candidates
  split
  · exact absurd ‹_› h.2
  · rfl

/-- Without healthy targets there are no candidates. -/
theorem candidates_eq_nil_of_healthyTargets {u : Upstream} (h : u.healthyTargets = []) :
    u.candidates = [] := by
  refine List.eq_nil_iff_forall_not_mem.mpr fun a ha => ?_
  have hmem := candidates_subset_healthy ha
  simp [h] at hmem

/-- The two counting strategies draw the candidate at the counter, modulo the number of
    candidates, and advance the counter. -/
theorem selectTarget_of_usesCounter {u : Upstream} (h : u.usesCounter = true) (pick : Nat) :
    u.selectTarget pick =
      if u.candidates.isEmpty then (none, u)
      else (u.candidates[u.roundRobinCounter % u.candidates.length]?, u.bumpCounter) := by
  unfold selectTarget
  by_cases hh : u.healthyTargets = []
  · simp [hh, candidates_eq_nil_of_healthyTargets hh]
  · rw [if_neg (by simpa using hh)]
    simp only [usesCounter, decide_eq_true_eq] at h
    rcases h with h | h <;> simp only [h, candidates]
    · rfl
    · rfl

/-- The other two strategies change nothing. -/
theorem selectTarget_snd_of_not_usesCounter {u : Upstream} (h : u.usesCounter = false)
    (pick : Nat) : (u.selectTarget pick).2 = u := by
  simp only [usesCounter, decide_eq_false_iff_not, not_or] at h
  unfold selectTarget
  split
  · rfl
  · split <;> simp_all

/-- Least connections takes a minimum over the healthy targets, if there are any. -/
theorem selectTarget_leastConnections {u : Upstream} (hs : u.strategy = .leastConnections)
    (pick : Nat) : (u.selectTarget pick).1 = selectLeastConnections u.healthyTargets := by
  unfold selectTarget
  by_cases hempty : u.healthyTargets = []
  · simp [hempty, selectLeastConnections]
  · rw [if_neg (by simpa using hempty)]
    simp only [hs]

/-- **The state after a selection.**  Only a counting strategy that finds a candidate changes
    the upstream, and then only its counter. -/
theorem selectTarget_snd (u : Upstream) (pick : Nat) :
    (u.selectTarget pick).2 =
      if u.usesCounter = true ∧ u.candidates ≠ [] then u.bumpCounter else u := by
  cases hc : u.usesCounter with
  | true =>
    rw [selectTarget_of_usesCounter hc]
    by_cases he : u.candidates = [] <;> simp [he]
  | false =>
    rw [selectTarget_snd_of_not_usesCounter hc]
    simp

/-- An index that is reduced modulo the length of a non-empty list hits the list. -/
theorem getElem?_mod_isSome {α : Type*} {l : List α} (h : l ≠ []) (n : Nat) :
    ∃ a, l[n % l.length]? = some a := by
  have hlt : n % l.length < l.length := Nat.mod_lt _ (List.length_pos_iff.mpr h)
  exact ⟨_, List.getElem?_eq_getElem hlt⟩

/-- **A selection succeeds exactly when the strategy has a candidate**, and then it returns
    one. -/
theorem selectTarget_fst (u : Upstream) (pick : Nat) :
    (u.candidates = [] ∧ (u.selectTarget pick).1 = none) ∨
      ∃ a ∈ u.candidates, (u.selectTarget pick).1 = some a := by
  by_cases he : u.candidates = []
  · refine Or.inl ⟨he, ?_⟩
    cases hc : u.usesCounter with
    | true => simp [selectTarget_of_usesCounter hc, he]
    | false =>
      rw [candidates_of_not_usesCounter hc] at he
      simp [selectTarget, he]
  · refine Or.inr ?_
    cases hc : u.usesCounter with
    | true =>
      obtain ⟨a, ha⟩ := getElem?_mod_isSome he u.roundRobinCounter
      refine ⟨a, List.mem_of_getElem? ha, ?_⟩
      rw [selectTarget_of_usesCounter hc, if_neg (by simpa using he), ha]
    | false =>
      rw [candidates_of_not_usesCounter hc] at he ⊢
      simp only [usesCounter, decide_eq_false_iff_not, not_or] at hc
      unfold selectTarget
      rw [if_neg (by simpa using he)]
      -- least connections takes a minimum, random a position below the length
      split
      · exact absurd ‹_› hc.1
      · obtain ⟨a, ha⟩ := Option.ne_none_iff_exists'.mp
          (fun h => he (List.argmin_eq_none.mp h) :
            selectLeastConnections u.healthyTargets ≠ none)
        exact ⟨a, List.argmin_mem ha, ha⟩
      · obtain ⟨a, ha⟩ := getElem?_mod_isSome he pick
        exact ⟨a, List.mem_of_getElem? ha, ha⟩
      · exact absurd ‹_› hc.2

/-- What is selected is a candidate. -/
theorem selectTarget_mem_candidates {u : Upstream} {pick : Nat} {a : TargetArc}
    (h : (u.selectTarget pick).1 = some a) : a ∈ u.candidates := by
  rcases u.selectTarget_fst pick with ⟨-, hn⟩ | ⟨b, hb, hs⟩
  · simp [hn] at h
  · obtain rfl : b = a := by simpa [hs] using h
    exact hb

/-- Nothing is selected exactly if there is no candidate. -/
theorem selectTarget_eq_none {u : Upstream} {pick : Nat} :
    (u.selectTarget pick).1 = none ↔ u.candidates = [] := by
  rcases u.selectTarget_fst pick with ⟨he, hn⟩ | ⟨a, ha, hs⟩
  · simp [he, hn]
  · simp [hs, List.ne_nil_of_mem ha]

/-- A failed selection leaves the upstream as it was. -/
theorem selectTarget_snd_of_none {u : Upstream} {pick : Nat}
    (h : (u.selectTarget pick).1 = none) : (u.selectTarget pick).2 = u := by
  rw [selectTarget_snd, if_neg (by simp [selectTarget_eq_none.mp h])]

end Upstream

end Sret
