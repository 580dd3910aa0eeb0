import Sret.Availability
import Sret.Foundation.MinBy

namespace Sret

open Text MinBy

/-!
# Least connections

`select_least_connections` as the source has it, a `min_by` over `f64` scores with a comparison
that may fail, against what the strategy is for.

* `Score`, `Score.div`, `Score.partialCmp` — floating-point numbers, with rounding left aside: a
  division may be undefined, and an undefined number compares with none;
* `score_eq` — the score of a target is always defined, since the divisor is at least one;
* `selectLeastConnections_eq_minBy` — so the fallback of the comparison is never used, and the
  `min_by` is the minimum of the exact scores;
* `least_connections_selects_minimum` — the selected target is the first healthy one in
  configuration order with the fewest connections for its weight.
-/

/-! ### Scores -/

/-- An `f64` without a sign: `none` is NaN, `some ⊤` is infinity. -/
abbrev Score := Option (WithTop ℚ)

/-- `/` on finite numbers that are not negative. -/
def Score.div (a b : ℚ) : Score :=
  if b = 0 then if a = 0 then none else some ⊤ else some ((a / b : ℚ) : WithTop ℚ)

/-- `f64::partial_cmp`. -/
def Score.partialCmp : Score → Score → Option Ordering
  | some a, some b => some (compare a b)
  | _, _ => none

/-- `Target::connection_score`, with the division that the source makes. -/
def Target.score (t : Target) : Score :=
  if t.isHealthy then Score.div t.activeConnections (max (t.weight : ℚ) 1) else some ⊤

/-- The comparison that `select_least_connections` gives to `min_by`. -/
def compareScores (a b : TargetArc) : Ordering :=
  (Score.partialCmp a.target.score b.target.score).getD .eq

/-- **The score is never undefined.** -/
theorem Target.score_eq (t : Target) : t.score = some t.connectionScore := by
  unfold Target.score Target.connectionScore
  split
  · -- the divisor is not zero, whatever the weight is
    have hpos : (0 : ℚ) < max (t.weight : ℚ) 1 := lt_max_of_lt_right one_pos
    rw [Score.div, if_neg hpos.ne']
  · rfl

/-- Scores are never incomparable. -/
theorem partialCmp_score (a b : Target) :
    Score.partialCmp a.score b.score = some (compare a.connectionScore b.connectionScore) := by
  rw [a.score_eq, b.score_eq, Score.partialCmp]

/-- The `min_by` of the source finds the minimum of the exact scores. -/
theorem selectLeastConnections_eq_minBy (targets : List TargetArc) :
    Upstream.selectLeastConnections targets = minBy compareScores targets := by
  -- the comparison is that of the exact scores
  refine (minBy_eq_argmin (fun a b => ?_) targets).symm
  rw [compareScores, partialCmp_score, Option.getD_some]

/-! ### The first minimum -/

/-- Connections for a weight, compared without a division. -/
def Target.LessLoaded (t u : Target) : Prop :=
  t.activeConnections * max u.weight 1 < u.activeConnections * max t.weight 1

/-- A smaller score is a smaller load by weight. -/
theorem connectionScore_lt_iff {t u : Target} (ht : t.isHealthy = true) (hu : u.isHealthy = true) :
    t.connectionScore < u.connectionScore ↔ t.LessLoaded u := by
  -- the divisors are positive, so the fractions can be multiplied out
  have hpos : ∀ weight : Nat, (0 : ℚ) < max (weight : ℚ) 1 :=
    fun weight => lt_max_of_lt_right one_pos
  rw [Target.connectionScore, Target.connectionScore, if_pos ht, if_pos hu, WithTop.coe_lt_coe,
    div_lt_div_iff₀ (hpos t.weight) (hpos u.weight), Target.LessLoaded]
  exact_mod_cast Iff.rfl

/-- The healthy targets are in the order of their positions. -/
theorem healthyTargets_pairwise (u : Upstream) :
    u.healthyTargets.Pairwise fun a b => a.index < b.index := by
  -- the targets are listed by position, and a filter keeps their order
  have hall : u.allTargets.Pairwise fun a b => a.index < b.index := by
    rw [← List.pairwise_map (f := TargetArc.index), Upstream.allTargets_map_index]
    exact List.pairwise_lt_range
  exact hall.filter _

/-- The target that a least-connections selection should return. -/
structure IsLeastLoaded (u : Upstream) (a : TargetArc) : Prop where
  target : u.targets[a.index]? = some a.target
  healthy : a.target.isHealthy = true
  least : ∀ b ∈ u.healthyTargets,
    a.target.activeConnections * max b.target.weight 1 ≤
      b.target.activeConnections * max a.target.weight 1
  first : ∀ b ∈ u.healthyTargets, b.index < a.index → a.target.LessLoaded b.target

/-- The minimum of the exact scores is the target to return. -/
theorem isLeastLoaded_of_argmin {u : Upstream} {a : TargetArc}
    (ha : Upstream.selectLeastConnections u.healthyTargets = some a) : IsLeastLoaded u a := by
  obtain ⟨htarget, hhealthy⟩ := Upstream.mem_healthyTargets.mp (List.argmin_mem ha)
  refine ⟨htarget, hhealthy, fun b hb => ?_, fun b hb hindex => ?_⟩
  · have hnot := not_lt.mpr (List.le_of_mem_argmin hb ha)
    rw [connectionScore_lt_iff (Upstream.mem_healthyTargets.mp hb).2 hhealthy] at hnot
    exact Nat.not_lt.mp hnot
  · -- a healthy target with a smaller index stands before the selected one
    obtain ⟨pre, post, hsplit, hpre, -⟩ := exists_split_of_argmin ha
    have horder := hsplit ▸ healthyTargets_pairwise u
    have hbefore : b ∈ pre := by
      rw [hsplit] at hb
      rcases List.mem_append.mp hb with hb | hb
      · exact hb
      · rcases List.mem_cons.mp hb with rfl | hb
        · omega
        · have := (List.pairwise_cons.mp (List.pairwise_append.mp horder).2.1).1 b hb
          omega
    rw [← connectionScore_lt_iff hhealthy (Upstream.mem_healthyTargets.mp hb).2]
    exact hpre b hbefore

/-- **Least connections.**  For every upstream with this strategy and a healthy target, whatever
    the health flags, connection counts and weights are: the selection returns the first healthy
    target of the configuration with the least connections for its weight; it is what the `min_by`
    of the source finds, and no two scores fail to compare. -/
theorem least_connections_selects_minimum (u : Upstream) (pick : Nat)
    (hs : u.strategy = .leastConnections) (hh : ∃ t ∈ u.targets, t.isHealthy = true) :
    (∃ a, (u.selectTarget pick).1 = some a ∧ IsLeastLoaded u a) ∧
      (u.selectTarget pick).1 = minBy compareScores u.healthyTargets ∧
      ∀ t v : Target, Score.partialCmp t.score v.score ≠ none := by
  -- a healthy target is a candidate under this strategy
  have hhealthy : u.healthyTargets ≠ [] := by
    have hcandidates := u.candidates_ne_nil_iff.mpr
      ⟨u.hasHealthyTargets_iff.mpr hh, fun h => absurd (hs.symm.trans h.1) (by decide)⟩
    rwa [Upstream.candidates_of_not_usesCounter (by simp [Upstream.usesCounter, hs])] at hcandidates
  have hselect := Upstream.selectTarget_leastConnections hs pick
  refine ⟨?_, hselect.trans (selectLeastConnections_eq_minBy _), fun t v => ?_⟩
  · obtain ⟨a, ha⟩ : ∃ a, Upstream.selectLeastConnections u.healthyTargets = some a :=
      Option.ne_none_iff_exists'.mp fun h => hhealthy (List.argmin_eq_none.mp h)
    exact ⟨a, hselect.trans ha, isLeastLoaded_of_argmin ha⟩
  · rw [partialCmp_score]
    exact Option.some_ne_none _

/-- A target with the given weight, health flag and connections. -/
def loadedTarget (weight : Nat) (healthy : Bool) (connections : Nat) : Target :=
  { Target.new ⟨"backend".toList, 8080, some weight, none⟩ with
    healthy := healthy, activeConnections := connections }

/-- An idle target that is down, and three that are up, the first two equally loaded. -/
def loadedUpstream : Upstream where
  id := "api".toList
  targets := [loadedTarget 1 false 0, loadedTarget 2 true 4, loadedTarget 0 true 2,
    loadedTarget 1 true 3]
  strategy := .leastConnections
  roundRobinCounter := 0

/-- A selection among loaded targets, one of them with the weight zero. -/
theorem least_connections_selects_minimum_loaded :
    ∃ a, (loadedUpstream.selectTarget 0).1 = some a ∧ IsLeastLoaded loadedUpstream a :=
  (least_connections_selects_minimum loadedUpstream 0 rfl
    ⟨loadedTarget 2 true 4, by simp [loadedUpstream], rfl⟩).1

end Sret
