import Mathlib.Algebra.BigOperators.Group.List.Basic
import Sret.Foundation.Rotation
import Sret.Foundation.Transition
import Sret.Router

namespace Sret

open Text Transition Rotation

/-!
# Exact balancing over runs of calls

Runs of `route_request` calls from a router whose counters are fresh, with arbitrary hosts and
paths, so that calls of all upstreams and calls that nothing matches are mixed.

* `selections id calls` — the targets that upstream `id` gave out, in order;
* `counts_selections` — along every run the counter of an upstream counts its own selections
  and nothing else, and the selections go round its candidates (`Rotation.Draws`);
* `route_request_balances` — hence every window of as many selections as there are candidates
  returns each healthy target once (round robin), or as often as its weight says (weighted).
-/

/-- `Upstream::healthy_target_count`. -/
def Upstream.healthyTargetCount (u : Upstream) : Nat := (u.targets.filter Target.isHealthy).length

/-- The total weight of the healthy targets. -/
def Upstream.totalWeight (u : Upstream) : Nat := (u.targets.map Target.effectiveWeight).sum

/-- One call of `route_request` with its answer. -/
structure RouteCall where
  host : Option Str
  path : Str
  pick : Nat
  routed : Option Routed

/-- The call takes the router from one state to the next. -/
def RouteCall.Step (p : Platform) (r : Router) (c : RouteCall) (r' : Router) : Prop :=
  r.routeRequest p c.host c.path c.pick = (c.routed, r')

/-- The target that the call got from upstream `id`, if it did. -/
def RouteCall.selectionOf (id : Str) (c : RouteCall) : Option TargetArc :=
  c.routed.bind fun d => if d.upstreamId = id then some d.arc else none

/-- The targets that upstream `id` gave out, in order. -/
def selections (id : Str) (calls : List RouteCall) : List TargetArc :=
  calls.filterMap (RouteCall.selectionOf id)

/-- The last call adds its selection, if it is one of the upstream. -/
theorem selections_snoc (id : Str) (calls : List RouteCall) (c : RouteCall) :
    selections id (calls ++ [c]) = selections id calls ++ (c.selectionOf id).toList := by
  cases h : c.selectionOf id <;> simp [selections, h]

/-- The calls that a list of requests (host, path, random pick) makes, one after the other. -/
def serve (p : Platform) : Router → List (Option Str × Str × Nat) → List RouteCall × Router
  | r, [] => ([], r)
  | r, (host, path, pick) :: rest =>
    let answer := r.routeRequest p host path pick
    let next := serve p answer.2 rest
    (⟨host, path, pick, answer.1⟩ :: next.1, next.2)

/-- Every list of requests makes a run. -/
theorem run_serve (p : Platform) (r : Router) (requests : List (Option Str × Str × Nat)) :
    Run (RouteCall.Step p) r (serve p r requests).1 (serve p r requests).2 := by
  induction requests generalizing r with
  | nil => exact Run.nil r
  | cons request rest ih =>
    obtain ⟨host, path, pick⟩ := request
    -- the first call, and then the run of the others
    have hstep : RouteCall.Step p r ⟨host, path, pick, (r.routeRequest p host path pick).1⟩
        (r.routeRequest p host path pick).2 := rfl
    exact (Run.single hstep).append (ih _)

/-! ### The candidates, counted -/

namespace Upstream

/-- Without their positions they are the targets. -/
theorem map_target_allTargets (u : Upstream) : u.allTargets.map TargetArc.target = u.targets := by
  refine List.ext_getElem? fun i => ?_
  -- position by position
  rcases Nat.lt_or_ge i u.targets.length with hi | hi
  · simp [allTargets, hi]
  · simp [allTargets, hi]

/-- The list is as long as there are healthy targets. -/
theorem length_healthyTargets (u : Upstream) : u.healthyTargets.length = u.healthyTargetCount := by
  conv_rhs => rw [healthyTargetCount, ← map_target_allTargets u, List.filter_map, List.length_map]
  rfl

/-- The weighted list is as long as the total weight. -/
theorem length_weightedTargets (u : Upstream) : u.weightedTargets.length = u.totalWeight := by
  conv_rhs => rw [totalWeight, ← map_target_allTargets u, List.map_map]
  rw [weightedTargets, List.length_flatMap]
  refine congrArg List.sum (List.map_congr_left fun a _ => ?_)
  -- a target counts with its weight, or not at all
  by_cases h : a.target.isHealthy = true
  · simp [h]
  · simp [h, Target.effectiveWeight]

/-- A healthy target occurs once among the healthy ones. -/
theorem count_healthyTargets {u : Upstream} {a : TargetArc} (h : a ∈ u.healthyTargets) :
    u.healthyTargets.count a = 1 :=
  List.count_eq_one_of_mem u.healthyTargets_nodup h

/-- A healthy target occurs in the weighted list as often as its weight says. -/
theorem count_weightedTargets {u : Upstream} {a : TargetArc} (h : a ∈ u.healthyTargets) :
    u.weightedTargets.count a = a.target.weight := by
  obtain ⟨hidx, hh⟩ := mem_healthyTargets.mp h
  rw [weightedTargets, List.count_flatMap]
  -- the copies of `a` are the only ones that are counted
  rw [List.sum_map_eq_nsmul_single a]
  · simp [List.count_eq_one_of_mem u.allTargets_nodup (mem_allTargets.mpr hidx), hh,
      Target.effectiveWeight_of_healthy hh]
  · intro b hne _
    simp only [Function.comp_apply]
    split
    · exact List.count_eq_zero_of_not_mem fun hm => hne (List.eq_of_mem_replicate hm).symm
    · rfl

/-- The candidates depend on the targets and the strategy only. -/
theorem candidates_congr {u u' : Upstream} (ht : u'.targets = u.targets)
    (hs : u'.strategy = u.strategy) : u'.candidates = u.candidates := by
  simp only [candidates, hs, weightedTargets, healthyTargets, allTargets, ht]

end Upstream

/-! ### The counter counts the selections -/

/-- What holds of upstream `id` after the calls: its targets are what they were, its counter is
    the number of its selections, and the selections went round its candidates. -/
def Counts (id : Str) (u : Upstream) (calls : List RouteCall) (r : Router) : Prop :=
  ∃ u', r.getUpstream id = some u' ∧ u'.targets = u.targets ∧ u'.strategy = u.strategy ∧
    u'.roundRobinCounter = (selections id calls).length % usizeSize ∧
    ((selections id calls).length ≤ usizeSize → Draws u.candidates (selections id calls))

/-- One call keeps the account of a counting upstream. -/
theorem counts_step {p : Platform} {id : Str} {u : Upstream} (huses : u.usesCounter = true)
    {calls : List RouteCall} {r r' : Router} {c : RouteCall} (h : Counts id u calls r)
    (hstep : RouteCall.Step p r c r') : Counts id u (calls ++ [c]) r' := by
  obtain ⟨w, hw, htargets, hstrategy, hcounter, hdraws⟩ := h
  have huses' : w.usesCounter = true := by
    simpa [Upstream.usesCounter, hstrategy] using huses
  have hframe := Router.getUpstream_of_routeRequest hstep hw
  -- the call selects from this upstream, or leaves it alone
  by_cases hmine : c.routed.map Routed.upstreamId = some id
  · -- the call was answered by this upstream
    obtain ⟨d, hd, hid⟩ := Option.map_eq_some_iff.mp hmine
    have hsel : c.selectionOf id = some d.arc := by simp [RouteCall.selectionOf, hd, hid]
    rw [RouteCall.Step, hd] at hstep
    obtain ⟨route, -, w', a, -, hw', hs, hid', rfl, -⟩ := Router.resolves_of_routeRequest hstep
    obtain rfl : w' = w := by
      rw [← hid', hid, hw] at hw'
      exact (Option.some.inj hw').symm
    rw [if_pos ⟨hmine, huses'⟩] at hframe
    refine ⟨_, hframe, htargets, hstrategy, ?_, fun hle => ?_⟩
    · simp [Upstream.bumpCounter, selections_snoc, hsel, hcounter, Nat.add_mod]
    · simp only [selections_snoc, hsel, Option.toList_some, List.length_append,
        List.length_singleton] at hle ⊢
      -- before the wrap the counter is the number of selections so far
      have hlt : (selections id calls).length < usizeSize := by omega
      refine (hdraws hlt.le).snoc ?_
      rw [Upstream.selectTarget_of_usesCounter huses', hcounter, Nat.mod_eq_of_lt hlt] at hs
      rw [← Upstream.candidates_congr htargets hstrategy]
      split at hs
      · simp at hs
      · exact hs
  · -- it was answered by another upstream, or not at all
    have hsel : c.selectionOf id = none := by
      cases hd : c.routed with
      | none => simp [RouteCall.selectionOf, hd]
      | some d =>
        have hne : d.upstreamId ≠ id := by simpa [hd] using hmine
        simp [RouteCall.selectionOf, hd, hne]
    rw [if_neg (fun h => hmine h.1)] at hframe
    have hsame : selections id (calls ++ [c]) = selections id calls := by
      simp [selections_snoc, hsel]
    exact ⟨w, hframe, htargets, hstrategy, hsame ▸ hcounter, hsame ▸ hdraws⟩

/-- **The counter of an upstream counts its own selections**, whatever else the run routes. -/
theorem counts_selections {p : Platform} {id : Str} {u : Upstream}
    (huses : u.usesCounter = true) {r r' : Router} {calls : List RouteCall}
    (hrun : Run (RouteCall.Step p) r calls r') (hu : r.getUpstream id = some u)
    (hfresh : u.roundRobinCounter = 0) : Counts id u calls r' := by
  refine hrun.invariant_trace (Counts id u) ⟨u, hu, rfl, rfl, ?_, fun _ => draws_nil _⟩ ?_
  · simp [selections, hfresh]
  · intro tr t a s _ h hstep
    exact counts_step huses h hstep

/-! ### The balance -/

/-- **Exact proportional balancing.**  In every run of calls from fresh counters, consider the
    selections of one upstream.  With round robin and `n` healthy targets, every `n` consecutive
    selections return each healthy target exactly once; with weighted round robin and total
    healthy weight `W`, every `W` consecutive selections return each healthy target exactly
    weight-many times. -/
theorem route_request_balances (p : Platform) (r r' : Router) (calls : List RouteCall)
    (hfresh : ∀ id u, r.getUpstream id = some u → u.roundRobinCounter = 0)
    (hrun : Run (RouteCall.Step p) r calls r') (id : Str) (u : Upstream)
    (hu : r.getUpstream id = some u) (hlen : (selections id calls).length < 2 ^ 64) :
    (u.strategy = .roundRobin →
      ∀ start, start + u.healthyTargetCount ≤ (selections id calls).length →
        ∀ t ∈ u.healthyTargets,
          (((selections id calls).drop start).take u.healthyTargetCount).count t = 1) ∧
    (u.strategy = .weightedRoundRobin →
      ∀ start, start + u.totalWeight ≤ (selections id calls).length →
        ∀ t ∈ u.healthyTargets,
          (((selections id calls).drop start).take u.totalWeight).count t = t.target.weight) := by
  have hle : (selections id calls).length ≤ usizeSize := le_of_lt hlen
  have hdraws : u.usesCounter = true → Draws u.candidates (selections id calls) := by
    intro huses
    obtain ⟨-, -, -, -, -, h⟩ := counts_selections huses hrun hu (hfresh id u hu)
    exact h hle
  constructor
  · intro hs start hstart t ht
    have hcand : u.candidates = u.healthyTargets := by simp [Upstream.candidates, hs]
    have h := hdraws (by simp [Upstream.usesCounter, hs])
    rw [hcand] at h
    rw [← Upstream.length_healthyTargets] at hstart ⊢
    rw [(h.window_perm start hstart).count_eq]
    exact Upstream.count_healthyTargets ht
  · intro hs start hstart t ht
    have hcand : u.candidates = u.weightedTargets := by simp [Upstream.candidates, hs]
    have h := hdraws (by simp [Upstream.usesCounter, hs])
    rw [hcand] at h
    rw [← Upstream.length_weightedTargets] at hstart ⊢
    rw [(h.window_perm start hstart).count_eq]
    exact Upstream.count_weightedTargets ht

/-- A weighted pair of targets. -/
def pairUpstream : UpstreamConfig where
  id := "api".toList
  targets := [⟨"127.0.0.1".toList, 8080, some 1, none⟩, ⟨"127.0.0.1".toList, 8081, some 2, none⟩]
  strategy := some .weightedRoundRobin
  healthCheck := none

/-- The pair, with a second upstream next to it. -/
def pairConfig : Config where
  servers := []
  upstreams :=
    [pairUpstream, ⟨"ui".toList, [⟨"127.0.0.1".toList, 3000, none, none⟩], none, none⟩]

/-- Two routes to the pair and one to the other upstream. -/
def pairServer : ServerConfig where
  id := "main".toList
  bindAddress := "0.0.0.0".toList
  port := 80
  routes :=
    [⟨none, some ["/api".toList, "/v1".toList], "api".toList⟩,
     ⟨some ["ui.home.arpa".toList], none, "ui".toList⟩,
     ⟨none, some ["/late".toList], "api".toList⟩]
  tls := none
  cache := none

/-- Requests for the pair over both its routes, with others in between. -/
def pairRequests : List (Option Str × Str × Nat) :=
  [(none, "/api/users".toList, 0), (some "UI.home.arpa:80".toList, "/".toList, 0),
   (none, "/late".toList, 0), (none, "/nowhere".toList, 0), (none, "/v1".toList, 0)]

/-- The heavier target of the pair. -/
def heavyTarget : TargetArc := ⟨1, Target.new ⟨"127.0.0.1".toList, 8081, some 2, none⟩⟩

/-- In a round of three requests the target of weight two is selected twice. -/
theorem route_request_balances_pair :
    (((selections "api".toList
      (serve Platform.ascii (Router.new pairConfig pairServer) pairRequests).1).drop 0).take
        (Upstream.new pairUpstream).totalWeight).count heavyTarget = 2 :=
  (route_request_balances Platform.ascii _ _ _
    (fun _ _ h => by obtain ⟨_, -, -, rfl⟩ := Router.getUpstream_new h; rfl)
    (run_serve _ _ pairRequests) "api".toList (Upstream.new pairUpstream)
    (by decide) (by decide)).2 rfl 0 (by decide) heavyTarget (by decide)

end Sret
