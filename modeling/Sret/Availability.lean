import Sret.Balancing
import Sret.RoutingSpec

namespace Sret

open Text Router

/-!
# Availability

The health queries of an upstream against the selections that it makes.

* `hasHealthyTargets_iff`, `healthyTargetCount_pos` — the queries agree;
* `Upstream.Drained` — weighted round robin, with a weight of zero for every healthy target: the
  weights send no traffic to any of them;
* `available_iff` — a selection succeeds exactly when there is a healthy target and the upstream
  is not drained, and then no request that matches a route to it stays unrouted.
-/

namespace Upstream

/-- The weights of a weighted upstream leave nothing to the healthy targets. -/
def Drained (u : Upstream) : Prop :=
  u.strategy = .weightedRoundRobin ∧ ∀ t ∈ u.targets, t.isHealthy = true → t.weight = 0

/-- The test is that for a healthy target. -/
theorem hasHealthyTargets_iff (u : Upstream) :
    u.hasHealthyTargets = true ↔ ∃ t ∈ u.targets, t.isHealthy = true := by
  simp only [hasHealthyTargets, List.any_eq_true]

/-- So is the comparison of their number with 0. -/
theorem healthyTargetCount_pos (u : Upstream) :
    0 < u.healthyTargetCount ↔ ∃ t ∈ u.targets, t.isHealthy = true := by
  rw [healthyTargetCount, List.length_pos_iff_exists_mem]
  simp only [List.mem_filter]

/-- There is a candidate when a healthy target is left one by the weights. -/
theorem candidates_ne_nil_iff (u : Upstream) :
    u.candidates ≠ [] ↔ u.hasHealthyTargets = true ∧ ¬ u.Drained := by
  rw [hasHealthyTargets_iff]
  constructor
  · intro h
    obtain ⟨a, ha⟩ := List.exists_mem_of_ne_nil _ h
    obtain ⟨hindex, hhealthy, hweight⟩ := mem_candidates.mp ha
    have hmem := List.mem_of_getElem? hindex
    refine ⟨⟨a.target, hmem, hhealthy⟩, fun hdrained => ?_⟩
    exact absurd (hdrained.2 a.target hmem hhealthy) (hweight hdrained.1).ne'
  · rintro ⟨⟨t, hmem, hhealthy⟩, hnot⟩
    -- the target with a positive weight, if weights count at all
    have hcandidate : ∃ t ∈ u.targets, t.isHealthy = true ∧
        (u.strategy = .weightedRoundRobin → 0 < t.weight) := by
      by_cases hs : u.strategy = .weightedRoundRobin
      · by_contra hnone
        refine hnot ⟨hs, fun t' hmem' hhealthy' => ?_⟩
        by_contra hw
        exact hnone ⟨t', hmem', hhealthy', fun _ => Nat.pos_of_ne_zero hw⟩
      · exact ⟨t, hmem, hhealthy, fun h => absurd h hs⟩
    obtain ⟨t', hmem', hhealthy', hweight⟩ := hcandidate
    obtain ⟨i, hi⟩ := List.getElem?_of_mem hmem'
    exact List.ne_nil_of_mem (mem_candidates.mpr
      (show u.targets[(⟨i, t'⟩ : TargetArc).index]? = some t' ∧ _ from ⟨hi, hhealthy', hweight⟩))

/-- **When a selection finds a target**: some target is healthy, and under weights a healthy one has
    a weight. -/
theorem selectTarget_isSome_iff (u : Upstream) (pick : Nat) :
    (u.selectTarget pick).1.isSome = true ↔ u.hasHealthyTargets = true ∧ ¬ u.Drained := by
  rw [Option.isSome_iff_ne_none, Ne, selectTarget_eq_none]
  exact u.candidates_ne_nil_iff

end Upstream

/-- **Availability.**  For every upstream, in every state of its counter and its targets: the health
    queries agree, a selection succeeds exactly when they report a healthy target and the upstream
    is not drained, and in no router a request that matches a route to such an upstream is left
    unrouted. -/
theorem available_iff (u : Upstream) (pick : Nat) :
    (u.hasHealthyTargets = true ↔ 0 < u.healthyTargetCount) ∧
      ((u.selectTarget pick).1.isSome = true ↔ u.hasHealthyTargets = true ∧ ¬ u.Drained) ∧
      ∀ (p : Platform) (r : Router) (host : Option Str) (path : Str), ∀ route ∈ r.routes,
        route.Matches p host path → r.getUpstream route.upstreamId = some u →
          u.hasHealthyTargets = true → ¬ u.Drained →
            (r.routeRequest p host path pick).1.isSome = true := by
  refine ⟨?_, u.selectTarget_isSome_iff pick, fun p r host path route hmem hmatches hu hh hd => ?_⟩
  · rw [u.hasHealthyTargets_iff, u.healthyTargetCount_pos]
  · have hyields : Yields p r host path pick route :=
      ⟨hmatches, u, hu, (u.selectTarget_isSome_iff pick).mpr ⟨hh, hd⟩⟩
    rw [Option.isSome_iff_ne_none, routeRequest, Ne, routeFrom_eq_none_iff]
    exact fun hnone => hnone route hmem hyields

/-- A weighted upstream whose only target has the weight zero. -/
def drainedUpstream : Upstream :=
  Upstream.new ⟨"api".toList, [⟨"backend".toList, 8080, some 0, none⟩],
    some .weightedRoundRobin, none⟩

/-- It has a healthy target, and selects none. -/
theorem drained_selects_none :
    ¬ ∀ (u : Upstream) (pick : Nat),
      (u.selectTarget pick).1.isSome = true ↔ u.hasHealthyTargets = true := by
  intro h
  have hsome := (h drainedUpstream 0).mpr rfl
  exact Bool.false_ne_true hsome

end Sret
