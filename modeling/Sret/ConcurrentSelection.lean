import Sret.Foundation.Atomic
import Sret.LeastConnections

namespace Sret

open Text Transition Atomic MinBy

/-!
# Selections that overlap

`Upstream::select_target` as the sequence of its atomic operations, so that the selections of
several tasks, and whatever else writes to the targets, may come between any two of them.

* `SelectOp` — the loads of `is_healthy` and `active_connections` and the `fetch_add` of the
  counter; everything else that a selection reads never changes;
* `Concurrent.selectTarget` — `select_target` as a program of these operations, with an outcome of
  its own for an index that is out of bounds;
* `eval_selectTarget` — without interruption it is `Upstream.selectTarget`;
* `selections_linearizable` — selections that overlap are selections made one after the other;
* `selections_balanced` — and so they are balanced, however they overlap;
* `selected_was_healthy` — whatever is written in between, a selection does not panic, and it
  returns a target that was healthy at one of its own loads.
-/

/-- The atomic operations of a selection. -/
inductive SelectOp
  | isHealthy (index : Nat)
  | activeConnections (index : Nat)
  | fetchAddCounter

/-- What an operation returns. -/
def SelectOp.Reply : SelectOp → Type
  | .isHealthy _ => Bool
  | .activeConnections _ => Nat
  | .fetchAddCounter => Nat

/-- The health flag of the target at the position. -/
def Upstream.flagAt (u : Upstream) (index : Nat) : Bool :=
  (u.targets[index]?).elim false Target.isHealthy

/-- The connections of the target at the position. -/
def Upstream.connectionsAt (u : Upstream) (index : Nat) : Nat :=
  (u.targets[index]?).elim 0 Target.activeConnections

/-- The weight of the target at the position. -/
def Upstream.weightAt (u : Upstream) (index : Nat) : Nat :=
  (u.targets[index]?).elim 0 Target.weight

/-- An operation on the upstream. -/
def SelectOp.exec : (op : SelectOp) → Upstream → op.Reply × Upstream
  | .isHealthy i, u => (u.flagAt i, u)
  | .activeConnections i, u => (u.connectionsAt i, u)
  | .fetchAddCounter, u => (u.roundRobinCounter, u.bumpCounter)

/-- A part of a selection. -/
abbrev SelectProgram (ρ : Type) := Program SelectOp SelectOp.Reply ρ

/-- How a selection ends: a target is known by its position. -/
inductive Selection
  | none
  | selected (index : Nat)
  | panicked
deriving DecidableEq

/-- A selection that does not panic. -/
def Selection.ofOption : Option Nat → Selection
  | .none => .none
  | .some index => .selected index

namespace Concurrent

/-- `Target::is_healthy`. -/
def isHealthy (index : Nat) : SelectProgram Bool := Program.perform (SelectOp.isHealthy index)

/-- `Target::active_connections`. -/
def activeConnections (index : Nat) : SelectProgram Nat :=
  Program.perform (SelectOp.activeConnections index)

/-- `round_robin_counter.fetch_add(1)`. -/
def fetchAddCounter : SelectProgram Nat := Program.perform SelectOp.fetchAddCounter

/-- `Target::effective_weight`. -/
def effectiveWeight (weight : Nat) (index : Nat) : SelectProgram Nat := do
  let healthy ← isHealthy index
  return if healthy then weight else 0

/-- `Target::connection_score`. -/
def connectionScore (weight : Nat) (index : Nat) : SelectProgram Score := do
  let healthy ← isHealthy index
  if healthy then
    let connections ← activeConnections index
    return Score.div connections (max (weight : ℚ) 1)
  else return some ⊤

/-- The head of `select_target`. -/
def healthyTargets (u : Upstream) : SelectProgram (List Nat) :=
  Program.filter isHealthy (List.range u.targets.length)

/-- `targets[index].clone()`. -/
def index (targets : List Nat) (i : Nat) : Selection :=
  (targets[i]?).elim .panicked .selected

/-- `Upstream::select_round_robin`. -/
def selectRoundRobin (targets : List Nat) : SelectProgram Selection :=
  if targets.isEmpty then return .none
  else do
    let counter ← fetchAddCounter
    return index targets (counter % targets.length)

/-- The comparison that `select_least_connections` gives to `min_by`. -/
def compareScores (u : Upstream) (i j : Nat) : SelectProgram Ordering := do
  let a ← connectionScore (u.weightAt i) i
  let b ← connectionScore (u.weightAt j) j
  return (Score.partialCmp a b).getD .eq

/-- `Upstream::select_least_connections`. -/
def selectLeastConnections (u : Upstream) (targets : List Nat) : SelectProgram Selection :=
  match targets with
  | [] => return .none
  | i :: rest => do
    let best ← Program.fold (fun best j => do
      let order ← compareScores u best j
      return if order = .gt then j else best) i rest
    return .selected best

/-- `Upstream::select_random`. -/
def selectRandom (targets : List Nat) (pick : Nat) : SelectProgram Selection :=
  return Selection.ofOption targets[pick % targets.length]?

/-- The list that `select_weighted_round_robin` builds: the flag is read twice. -/
def weightedTargets (u : Upstream) : SelectProgram (List Nat) :=
  Program.fold (fun weighted i => do
    let healthy ← isHealthy i
    if healthy then
      let weight ← effectiveWeight (u.weightAt i) i
      return weighted ++ List.replicate weight i
    else return weighted) [] (List.range u.targets.length)

/-- `Upstream::select_weighted_round_robin`. -/
def selectWeightedRoundRobin (u : Upstream) : SelectProgram Selection := do
  let targets ← weightedTargets u
  if targets.isEmpty then return .none
  else
    let counter ← fetchAddCounter
    return index targets (counter % targets.length)

/-- `Upstream::select_target`.  The upstream stands for what never changes: the strategy, the
    number of targets and their weights. -/
def selectTarget (u : Upstream) (pick : Nat) : SelectProgram Selection := do
  let targets ← healthyTargets u
  if targets.isEmpty then return .none
  else match u.strategy with
    | .roundRobin => selectRoundRobin targets
    | .leastConnections => selectLeastConnections u targets
    | .random => selectRandom targets pick
    | .weightedRoundRobin => selectWeightedRoundRobin u

/-! ### Without interruption -/

/-- A load returns the flag. -/
theorem eval_isHealthy (i : Nat) (u : Upstream) :
    (isHealthy i).eval SelectOp.exec u = (u.flagAt i, u) := rfl

/-- The effective weight is the weight of a healthy target, and 0 otherwise. -/
theorem eval_effectiveWeight (weight i : Nat) (u : Upstream) :
    (effectiveWeight weight i).eval SelectOp.exec u = (if u.flagAt i then weight else 0, u) := rfl

/-- The score is that of the sequential selection. -/
theorem eval_connectionScore (weight i : Nat) (u : Upstream) :
    (connectionScore weight i).eval SelectOp.exec u =
      (if u.flagAt i then Score.div (u.connectionsAt i) (max (weight : ℚ) 1) else some ⊤, u) := by
  rw [connectionScore, Program.eval_bind, eval_isHealthy]
  -- the connections are loaded only if the target is healthy
  cases u.flagAt i <;> rfl

/-- A target is found at its position. -/
theorem targetAt {u : Upstream} {a : TargetArc} (h : a ∈ u.allTargets) :
    u.flagAt a.index = a.target.isHealthy ∧ u.weightAt a.index = a.target.weight ∧
      (if u.flagAt a.index then
        Score.div (u.connectionsAt a.index) (max (u.weightAt a.index : ℚ) 1) else some ⊤) =
        a.target.score := by
  have hindex := Upstream.mem_allTargets.mp h
  simp [Upstream.flagAt, Upstream.weightAt, Upstream.connectionsAt, hindex, Target.score]

/-- The healthy targets by position. -/
theorem healthyTargets_map_index (u : Upstream) :
    u.healthyTargets.map TargetArc.index = (List.range u.targets.length).filter u.flagAt := by
  rw [← u.allTargets_map_index, List.filter_map, Upstream.healthyTargets]
  exact congrArg _ (List.filter_congr fun a ha => (targetAt ha).1.symm)

/-- The head of a selection finds the healthy targets. -/
theorem eval_healthyTargets (u : Upstream) :
    (healthyTargets u).eval SelectOp.exec u = (u.healthyTargets.map TargetArc.index, u) := by
  rw [healthyTargets_map_index]
  exact Program.eval_filter _ fun i _ => eval_isHealthy i u

/-- The weighted list by position. -/
theorem weightedTargets_map_index (u : Upstream) :
    u.weightedTargets.map TargetArc.index = (List.range u.targets.length).flatMap fun i =>
      if u.flagAt i then List.replicate (u.weightAt i) i else [] := by
  rw [← u.allTargets_map_index, List.flatMap_map, Upstream.weightedTargets, List.map_flatMap]
  refine List.flatMap_congr fun a ha => ?_
  obtain ⟨hflag, hweight, -⟩ := targetAt ha
  rw [hflag, hweight]
  cases hh : a.target.isHealthy with
  | true => simp [Target.effectiveWeight_of_healthy hh]
  | false => rfl

/-- The weighted list is that of the sequential selection, although each flag is read twice. -/
theorem eval_weightedTargets (u : Upstream) :
    (weightedTargets u).eval SelectOp.exec u = (u.weightedTargets.map TargetArc.index, u) := by
  rw [weightedTargets_map_index, List.flatMap_eq_foldl]
  refine Program.eval_fold _ (P := fun _ => True) trivial fun weighted _ i _ => ⟨?_, trivial⟩
  -- one step of the loop, on the target at the position `i`
  rw [Program.eval_bind, eval_isHealthy]
  cases hflag : u.flagAt i with
  | true => simp [eval_effectiveWeight, hflag]
  | false => simp

/-- The score of the target at the position. -/
def scoreAt (u : Upstream) (i : Nat) : Score :=
  if u.flagAt i then Score.div (u.connectionsAt i) (max (u.weightAt i : ℚ) 1) else some ⊤

/-- The comparison of two targets by position. -/
def orderAt (u : Upstream) (i j : Nat) : Ordering :=
  (Score.partialCmp (scoreAt u i) (scoreAt u j)).getD .eq

/-- Two scores are compared as they are. -/
theorem eval_compareScores (u : Upstream) (i j : Nat) :
    (compareScores u i j).eval SelectOp.exec u = (orderAt u i j, u) := by
  simp only [compareScores, Program.eval_bind, eval_connectionScore]
  rfl

/-- The minimum by position. -/
theorem selectLeastConnections_map_index (u : Upstream) :
    minBy (orderAt u) (u.healthyTargets.map TargetArc.index) =
      (Upstream.selectLeastConnections u.healthyTargets).map TargetArc.index := by
  rw [selectLeastConnections_eq_minBy]
  refine minBy_map _ fun a ha b hb => ?_
  have hscore : ∀ c ∈ u.healthyTargets, scoreAt u c.index = c.target.score := fun c hc =>
    (targetAt (List.mem_filter.mp hc).1).2.2
  rw [orderAt, hscore a ha, hscore b hb]
  rfl

/-- The target with the least score is selected, the first one of several. -/
theorem eval_selectLeastConnections (u : Upstream) (targets : List Nat) :
    (selectLeastConnections u targets).eval SelectOp.exec u =
      (Selection.ofOption (minBy (orderAt u) targets), u) := by
  cases targets with
  | nil => rfl
  | cons i rest =>
    -- no step of the fold writes, so it is a fold of the scores
    have hfold := Program.eval_fold SelectOp.exec (s := u) (l := rest) (b := i)
      (f := fun best j => do
        let order ← compareScores u best j
        return if order = .gt then j else best)
      (g := fun best j => if orderAt u best j = .gt then j else best) (P := fun _ => True) trivial
      fun best _ j _ => ⟨by rw [Program.eval_bind, eval_compareScores]; rfl, trivial⟩
    simp only [selectLeastConnections, Program.eval_bind, hfold]
    rfl

/-- A counter that draws from a list of targets does not leave it. -/
theorem index_map {l : List TargetArc} (h : l ≠ []) (counter : Nat) :
    index (l.map TargetArc.index) (counter % l.length) =
      Selection.ofOption ((l[counter % l.length]?).map TargetArc.index) := by
  obtain ⟨a, ha⟩ := Upstream.getElem?_mod_isSome h counter
  simp [index, ha, Selection.ofOption]

/-- The target at the counter is selected, and the counter is advanced. -/
theorem eval_selectRoundRobin (u : Upstream) (l : List TargetArc) :
    (selectRoundRobin (l.map TargetArc.index)).eval SelectOp.exec u =
      (Selection.ofOption ((u.selectRoundRobin l).1.map TargetArc.index),
        (u.selectRoundRobin l).2) := by
  cases l with
  | nil => rfl
  | cons a l =>
    have hindex := index_map (List.cons_ne_nil a l) u.roundRobinCounter
    simp only [selectRoundRobin, Upstream.selectRoundRobin, List.map_cons, List.isEmpty_cons,
      Bool.false_eq_true, if_false]
    rw [← hindex]
    show (Program.eval _ (.call SelectOp.fetchAddCounter _) u) = _
    rw [Program.eval_call, ← List.map_cons, List.length_map]
    rfl

/-- The same with the weighted list. -/
theorem eval_selectWeightedRoundRobin (u : Upstream) :
    (selectWeightedRoundRobin u).eval SelectOp.exec u =
      (Selection.ofOption (u.selectWeightedRoundRobin.1.map TargetArc.index),
        u.selectWeightedRoundRobin.2) := by
  have hprogram : (selectWeightedRoundRobin u).eval SelectOp.exec u =
      (selectRoundRobin (u.weightedTargets.map TargetArc.index)).eval SelectOp.exec u := by
    rw [selectWeightedRoundRobin, Program.eval_bind, eval_weightedTargets, selectRoundRobin]
  rw [hprogram, eval_selectRoundRobin]
  rfl

/-- **Without interruption the program is the selection**: the same answer, and the same change of
    the counter. -/
theorem eval_selectTarget (u : Upstream) (pick : Nat) :
    (selectTarget u pick).eval SelectOp.exec u =
      (Selection.ofOption ((u.selectTarget pick).1.map TargetArc.index),
        (u.selectTarget pick).2) := by
  rw [selectTarget, Program.eval_bind, eval_healthyTargets]
  -- the early return of `select_target`, and else the strategy
  by_cases hempty : u.healthyTargets = []
  · simp [hempty, Upstream.selectTarget, Selection.ofOption]
  · have hne : (u.healthyTargets.map TargetArc.index).isEmpty = false := by simpa using hempty
    have hne' : u.healthyTargets.isEmpty = false := by simpa using hempty
    simp only [hne, Upstream.selectTarget, hne', Bool.false_eq_true, if_false]
    cases u.strategy with
    | roundRobin => exact eval_selectRoundRobin u u.healthyTargets
    | leastConnections =>
      rw [eval_selectLeastConnections, selectLeastConnections_map_index]
    | random => simp [selectRandom, Upstream.selectRandom]
    | weightedRoundRobin => exact eval_selectWeightedRoundRobin u

/-! ### Overlapping selections -/

/-- What the loads of a selection read. -/
abbrev view (u : Upstream) : List Target := u.targets

/-- A load of a flag reads the targets. -/
theorem reads_isHealthy (i : Nat) : Reads SelectOp.exec view (.isHealthy i) :=
  ⟨fun targets => (targets[i]?).elim false Target.isHealthy, fun _ => rfl⟩

/-- So does a load of the connections. -/
theorem reads_activeConnections (i : Nat) : Reads SelectOp.exec view (.activeConnections i) :=
  ⟨fun targets => (targets[i]?).elim (0 : Nat) Target.activeConnections, fun _ => rfl⟩

/-- No operation of a selection writes to the targets. -/
theorem view_exec (op : SelectOp) (u : Upstream) : view (op.exec u).2 = view u := by
  cases op <;> rfl

/-- Reading a flag changes nothing. -/
theorem quiet_isHealthy (i : Nat) : Quiet SelectOp.exec view (isHealthy i) :=
  Quiet.perform (reads_isHealthy i)

/-- Nor does computing a score. -/
theorem quiet_connectionScore (weight i : Nat) :
    Quiet SelectOp.exec view (connectionScore weight i) := by
  refine (quiet_isHealthy i).bind fun healthy => ?_
  cases healthy with
  | true => exact (Quiet.perform (reads_activeConnections i)).bind fun _ => Quiet.done _
  | false => exact Quiet.done _

/-- Nor does building the weighted list. -/
theorem quiet_weightedTargets (u : Upstream) : Quiet SelectOp.exec view (weightedTargets u) := by
  refine Quiet.fold (fun weighted i => (quiet_isHealthy i).bind fun healthy => ?_) _ _
  cases healthy with
  | true =>
    exact ((quiet_isHealthy i).bind fun _ => Quiet.done _).bind fun _ => Quiet.done _
  | false => exact Quiet.done _

/-- Nor does selecting by the scores. -/
theorem quiet_selectLeastConnections (u : Upstream) (targets : List Nat) :
    Quiet SelectOp.exec view (selectLeastConnections u targets) := by
  cases targets with
  | nil => exact Quiet.done _
  | cons i rest =>
    -- each comparison loads the two scores anew
    refine (Quiet.fold (fun best j => Quiet.bind ?_ fun _ => Quiet.done _) _ _).bind
      fun _ => Quiet.done _
    exact (quiet_connectionScore _ _).bind fun _ => (quiet_connectionScore _ _).bind
      fun _ => Quiet.done _

/-- Selecting in turn makes one call that is not a load, the `fetch_add`. -/
theorem oneShot_selectRoundRobin (targets : List Nat) :
    OneShot SelectOp.exec view (selectRoundRobin targets) := by
  unfold selectRoundRobin
  split
  · exact OneShot.done _
  · exact OneShot.shot fun _ => Quiet.done _

/-- A selection advances the counter once at most. -/
theorem oneShot_selectTarget (u : Upstream) (pick : Nat) :
    OneShot SelectOp.exec view (selectTarget u pick) := by
  refine (Quiet.filter quiet_isHealthy _).bind_oneShot fun targets => ?_
  split
  · exact OneShot.done _
  · cases u.strategy with
    | roundRobin => exact oneShot_selectRoundRobin targets
    | leastConnections => exact (quiet_selectLeastConnections u targets).oneShot
    | random => exact OneShot.done _
    | weightedRoundRobin =>
      exact (quiet_weightedTargets u).bind_oneShot fun targets =>
        oneShot_selectRoundRobin targets

/-- Selections that are made one after the other, each as a whole: the selection with the number
    is made with its own random number. -/
def Selected (picks : List Nat) (u : Upstream) (x : Nat × Selection) (u' : Upstream) : Prop :=
  ∃ pick, picks[x.1]? = some pick ∧
    Selection.ofOption ((u.selectTarget pick).1.map TargetArc.index) = x.2 ∧
    (u.selectTarget pick).2 = u'

/-- Selections that start at the same time. -/
def selections (u : Upstream) (picks : List Nat) :
    Threads SelectOp SelectOp.Reply Upstream Selection where
  memory := u
  programs := picks.map (selectTarget u)

/-- Another value of the counter changes no program. -/
theorem selectTarget_congr {u u' : Upstream} (ht : u'.targets = u.targets)
    (hs : u'.strategy = u.strategy) (pick : Nat) : selectTarget u' pick = selectTarget u pick := by
  unfold selectTarget healthyTargets selectLeastConnections compareScores selectWeightedRoundRobin
    weightedTargets Upstream.weightAt
  rw [ht, hs]

/-- So it is with each of several selections. -/
theorem oneShot_selections (u : Upstream) (picks : List Nat) :
    ∀ p ∈ picks.map (selectTarget u), OneShot SelectOp.exec view p := by
  intro p hp
  obtain ⟨pick, -, rfl⟩ := List.mem_map.mp hp
  exact oneShot_selectTarget u pick

/-- As a whole each program is the selection of the upstream that it finds. -/
theorem selected_of_whole {u u' : Upstream} {picks : List Nat} {order : List (Nat × Selection)}
    (h : Run (Whole SelectOp.exec (picks.map (selectTarget u))) u order u') :
    Run (Selected picks) u order u' := by
  -- the programs are those of the first upstream, and only the counter changes
  refine (h.imp (fun m => m.targets = u.targets ∧ m.strategy = u.strategy) ⟨rfl, rfl⟩ ?_).2
  rintro m ⟨i, selection⟩ m' ⟨ht, hs⟩ ⟨p, hp, heval⟩
  obtain ⟨pick, hpick, rfl⟩ := Option.map_eq_some_iff.mp (List.getElem?_map .. ▸ hp)
  rw [← selectTarget_congr ht hs, eval_selectTarget] at heval
  obtain ⟨hselection, rfl⟩ := Prod.mk.inj heval
  refine ⟨?_, pick, hpick, hselection, rfl⟩
  rw [Upstream.selectTarget_snd]
  split
  · exact ⟨ht, hs⟩
  · exact ⟨ht, hs⟩

/-- **Selections that overlap are selections made one after the other.**  For every upstream, every
    number of selections and every interleaving of their loads and their `fetch_add`s, while nobody
    else writes to the targets: there is an order in which those that have ended, and perhaps some
    others, may be made as a whole, one after the other, with the same answers and the same counter
    in the end; and a selection that ended before another began comes before it. -/
theorem selections_linearizable (u : Upstream) (picks : List Nat) (tr : List Nat)
    (s : Threads SelectOp SelectOp.Reply Upstream Selection)
    (hrun : Run (Atomic.Step SelectOp.exec) (selections u picks) tr s) :
    ∃ order, Run (Selected picks) u order s.memory ∧ (order.map Prod.fst).Nodup ∧
      ∀ i selection, s.programs[i]? = some (.done selection) → (i, selection) ∈ order ∧
        ∀ j, Precedes tr i j → Before order i j := by
  obtain ⟨order, hwhole, hrest⟩ := linearizable view_exec (oneShot_selections u picks) hrun
  exact ⟨order, selected_of_whole hwhole, hrest⟩

/-- Two healthy targets in turn. -/
def pairInTurn : Upstream where
  id := "api".toList
  targets := [loadedTarget 1 true 0, loadedTarget 1 true 0]
  strategy := .roundRobin
  roundRobinCounter := 0

/-- Two selections have been made, and the second was the first to advance the counter. -/
def crossed : Threads SelectOp SelectOp.Reply Upstream Selection where
  memory := pairInTurn.bumpCounter.bumpCounter
  programs := [.done (.selected 1), .done (.selected 0)]

/-- The loads of the two come first, then the `fetch_add` of the second, then that of the first. -/
theorem run_crossed :
    Run (Atomic.Step SelectOp.exec) (selections pairInTurn [0, 0])
      ([] ++ [0] ++ [1] ++ [0] ++ [1] ++ [1] ++ [0]) crossed :=
  .snoc (.snoc (.snoc (.snoc (.snoc (.snoc (.nil _) ⟨_, _, rfl, rfl⟩) ⟨_, _, rfl, rfl⟩)
    ⟨_, _, rfl, rfl⟩) ⟨_, _, rfl, rfl⟩) ⟨_, _, rfl, rfl⟩) ⟨_, _, rfl, rfl⟩

/-- Made one after the other, the second selection would come first. -/
theorem selections_linearizable_crossed :
    ∃ order, Run (Selected [0, 0]) pairInTurn order pairInTurn.bumpCounter.bumpCounter ∧
      (order.map Prod.fst).Nodup ∧ (0, .selected 1) ∈ order ∧ (1, .selected 0) ∈ order := by
  obtain ⟨order, hrun, hnodup, hdone⟩ :=
    selections_linearizable pairInTurn [0, 0] _ crossed run_crossed
  exact ⟨order, hrun, hnodup, (hdone 0 _ rfl).1, (hdone 1 _ rfl).1⟩

/-! ### Balance -/

/-- The candidates, as selections. -/
def answers (u : Upstream) : List Selection := u.candidates.map fun a => .selected a.index

/-- A target is among the answers as often as among the candidates. -/
theorem count_answers {u : Upstream} {a : TargetArc} (ha : a ∈ u.healthyTargets) :
    (answers u).count (.selected a.index) = u.candidates.count a := by
  rw [answers, List.count_eq_countP, List.countP_map, List.count_eq_countP]
  refine List.countP_congr fun b hb => ?_
  have hb' := (Upstream.mem_candidates.mp hb).1
  have ha' := (Upstream.mem_healthyTargets.mp ha).1
  simp only [Function.comp_apply, beq_iff_eq, Selection.selected.injEq]
  constructor
  · intro hindex
    -- both stand at the same position
    rw [hindex, ha'] at hb'
    obtain ⟨i, t⟩ := a
    obtain ⟨j, t'⟩ := b
    obtain rfl : j = i := hindex
    obtain rfl : t = t' := Option.some.inj hb'
    rfl
  · rintro rfl
    rfl

/-- What holds after selections from a fresh counter: it has counted them, and they went round the
    answers. -/
structure Counted (u : Upstream) (order : List (Nat × Selection)) (m : Upstream) : Prop where
  targets : m.targets = u.targets
  strategy : m.strategy = u.strategy
  counter : m.roundRobinCounter = order.length % usizeSize
  draws : order.length ≤ usizeSize → Rotation.Draws (answers u) (order.map Prod.snd)

/-- **One selection keeps the count.** -/
theorem Counted.step {u m m' : Upstream} {picks : List Nat} {order : List (Nat × Selection)}
    {x : Nat × Selection} (h : Counted u order m) (huses : u.usesCounter = true)
    (hne : u.candidates ≠ []) (hstep : Selected picks m x m') : Counted u (order ++ [x]) m' := by
  obtain ⟨pick, -, hselection, rfl⟩ := hstep
  have huses' : m.usesCounter = true := by simpa [Upstream.usesCounter, h.strategy] using huses
  have hcandidates := Upstream.candidates_congr h.targets h.strategy
  have hne' : m.candidates.isEmpty = false := by simpa [hcandidates] using hne
  rw [Upstream.selectTarget_of_usesCounter huses', hne'] at hselection ⊢
  simp only [Bool.false_eq_true, if_false] at hselection ⊢
  -- a candidate exists, so the counter is advanced
  refine ⟨h.targets, h.strategy, ?_, fun hle => ?_⟩
  · simp [Upstream.bumpCounter, h.counter]
  · rw [List.length_append, List.length_singleton] at hle
    rw [List.map_append, List.map_singleton]
    refine (h.draws (by omega)).snoc ?_
    -- before the wrap the counter is the number of selections so far
    obtain ⟨a, ha⟩ := Upstream.getElem?_mod_isSome (hcandidates ▸ hne) m.roundRobinCounter
    rw [ha, Option.map_some] at hselection
    rw [h.counter, Nat.mod_eq_of_lt (show order.length < usizeSize by omega), hcandidates] at ha
    rw [List.length_map, answers, List.length_map, List.getElem?_map, ha, ← hselection]
    rfl

/-- Overlapping selections that fill `k` rounds return every target `k` times as often as it is a
    candidate. -/
theorem count_of_rounds {u : Upstream} {picks tr : List Nat} {results : List Selection}
    {s : Threads SelectOp SelectOp.Reply Upstream Selection} (huses : u.usesCounter = true)
    (hfresh : u.roundRobinCounter = 0)
    (hrun : Run (Atomic.Step SelectOp.exec) (selections u picks) tr s)
    (hdone : s.programs = results.map .done) (hle : picks.length ≤ usizeSize) {k : Nat}
    (hk : picks.length = k * u.candidates.length) {a : TargetArc} (ha : a ∈ u.healthyTargets) :
    results.count (.selected a.index) = k * u.candidates.count a := by
  have hlen : s.programs.length = picks.length :=
    hrun.invariant (fun t => t.programs.length = picks.length) (List.length_map _)
      fun _ _ _ ht hstep => hstep.length.trans ht
  rw [hdone, List.length_map] at hlen
  obtain ⟨order, hwhole, hnodup, hall⟩ := linearizable view_exec (oneShot_selections u picks) hrun
  have hselected := selected_of_whole hwhole
  -- no other selections come into the order than those that were started
  have hlt : ∀ x ∈ order, x.1 < results.length := by
    intro x hx
    obtain ⟨pre, post, rfl⟩ := List.append_of_mem hx
    obtain ⟨_, _, -, ⟨pick, hpick, -⟩, -⟩ := hselected.step_at
    rw [hlen]
    exact (List.getElem?_eq_some_iff.mp hpick).1
  have hperm := perm_results hnodup
    (fun i b hb => (hall i b (by rw [hdone, List.getElem?_map, hb]; rfl)).1) hlt
  by_cases hne : u.candidates = []
  · -- no round at all
    have hempty : results = [] := List.length_eq_zero_iff.mp (by simp [hlen, hk, hne])
    simp [hempty, hne]
  · -- the order is a run of whole selections, and these keep the count
    have hcounted := hselected.invariant_trace (Counted u)
      ⟨rfl, rfl, by simp [hfresh], fun _ => Rotation.draws_nil _⟩
      fun _ _ _ _ _ h hstep => h.step huses hne hstep
    have hlength : order.length = picks.length := by
      rw [← hlen, ← hperm.length_eq, List.length_map]
    rw [← hperm.count_eq, ← count_answers ha]
    refine (hcounted.draws (hlength ▸ hle)).count_rounds ?_ _
    rw [List.length_map, hlength, hk, answers, List.length_map]

/-- **Overlapping selections are balanced.**  From a fresh counter, any number of selections
    overlap in any way while the flags stay as they are, and all of them end.  In turn, a whole
    number `k` of rounds of the healthy targets returns each of them `k` times; by weight, `k`
    rounds of the total weight return each of them `k` times its weight. -/
theorem selections_balanced (u : Upstream) (hfresh : u.roundRobinCounter = 0) (picks tr : List Nat)
    (s : Threads SelectOp SelectOp.Reply Upstream Selection)
    (hrun : Run (Atomic.Step SelectOp.exec) (selections u picks) tr s) (results : List Selection)
    (hdone : s.programs = results.map .done) (hle : picks.length ≤ usizeSize) (k : Nat) :
    (u.strategy = .roundRobin → picks.length = k * u.healthyTargetCount →
      ∀ a ∈ u.healthyTargets, results.count (.selected a.index) = k) ∧
    (u.strategy = .weightedRoundRobin → picks.length = k * u.totalWeight →
      ∀ a ∈ u.healthyTargets, results.count (.selected a.index) = k * a.target.weight) := by
  constructor
  · intro hstrategy hk a ha
    have huses : u.usesCounter = true := by simp [Upstream.usesCounter, hstrategy]
    have hcandidates : u.candidates = u.healthyTargets := by simp [Upstream.candidates, hstrategy]
    rw [← Upstream.length_healthyTargets, ← hcandidates] at hk
    rw [count_of_rounds huses hfresh hrun hdone hle hk ha, hcandidates,
      Upstream.count_healthyTargets ha, Nat.mul_one]
  · intro hstrategy hk a ha
    have huses : u.usesCounter = true := by simp [Upstream.usesCounter, hstrategy]
    have hcandidates : u.candidates = u.weightedTargets := by simp [Upstream.candidates, hstrategy]
    rw [← Upstream.length_weightedTargets, ← hcandidates] at hk
    rw [count_of_rounds huses hfresh hrun hdone hle hk ha, hcandidates,
      Upstream.count_weightedTargets ha]

/-- The two selections are a round of the two targets. -/
theorem selections_balanced_crossed :
    ∃ results : List Selection, crossed.programs = results.map .done ∧
      ∀ a ∈ pairInTurn.healthyTargets, results.count (.selected a.index) = 1 :=
  ⟨[Selection.selected 1, .selected 0], rfl, (selections_balanced pairInTurn rfl [0, 0] _ crossed
    run_crossed _ rfl (by decide) 1).1 rfl (by decide)⟩

/-! ### Selections under interference -/

/-- The target exists, and was healthy at one of the loads. -/
def Seen (n : Nat) (met : List Upstream) (i : Nat) : Prop := i < n ∧ ∃ u ∈ met, u.flagAt i = true

/-- What was met among some memories was met among more. -/
theorem Seen.mono {n : Nat} {met met' : List Upstream} {i : Nat} (h : Seen n met i)
    (hsub : met ⊆ met') : Seen n met' i := by
  obtain ⟨hi, u, hu, hflag⟩ := h
  exact ⟨hi, u, hsub hu, hflag⟩

/-- A load returns the flag at a memory that it met. -/
theorem flag_of_answers {i : Nat} {met : List Upstream} {healthy : Bool}
    (h : Answers SelectOp.exec (isHealthy i) met healthy) :
    ∃ u ∈ met, healthy = u.flagAt i :=
  Answers.of_perform h

/-- The head of a selection keeps targets that it has seen healthy. -/
theorem seen_of_healthyTargets {u : Upstream} {met : List Upstream} {targets : List Nat}
    (h : Answers SelectOp.exec (healthyTargets u) met targets) :
    ∀ i ∈ targets, Seen u.targets.length met i := by
  intro i hi
  -- what the filter has kept, its load found healthy
  obtain ⟨hrange, met', hsub, htest⟩ := h.of_filter i hi
  obtain ⟨m, hm, hflag⟩ := flag_of_answers htest
  exact ⟨List.mem_range.mp hrange, m, hsub hm, hflag.symm⟩

/-- So does the weighted list, with the flags as they are when it is built. -/
theorem seen_of_weightedTargets {u : Upstream} {met : List Upstream} {targets : List Nat}
    (h : Answers SelectOp.exec (weightedTargets u) met targets) :
    ∀ i ∈ targets, Seen u.targets.length met i := by
  refine h.of_fold (P := fun weighted => ∀ i ∈ weighted, Seen u.targets.length met i) (by simp) ?_
  intro weighted hweighted j hj met' weighted' hsub h
  -- the first of the two loads of the flag lets the target in
  obtain ⟨met₁, met₂, healthy, rfl, hload, h⟩ := h.of_bind
  obtain ⟨m, hm, rfl⟩ := flag_of_answers hload
  split at h
  · rename_i hflag
    obtain ⟨_, _, weight, -, -, h⟩ := h.of_bind
    obtain rfl := h.of_done
    intro i hi
    rcases List.mem_append.mp hi with hi | hi
    · exact hweighted i hi
    · obtain rfl := List.eq_of_mem_replicate hi
      exact ⟨List.mem_range.mp hj, m, hsub (List.mem_append_left _ hm), hflag⟩
  · obtain rfl := h.of_done
    exact hweighted

/-- A selection that has not panicked, and has selected one of these targets if any. -/
def DrawnFrom (targets : List Nat) (selection : Selection) : Prop :=
  selection ≠ .panicked ∧ ∀ i, selection = .selected i → i ∈ targets

/-- No target is selected. -/
theorem drawnFrom_none (targets : List Nat) : DrawnFrom targets .none := ⟨by simp, by simp⟩

/-- A target of the list is selected. -/
theorem drawnFrom_selected {targets : List Nat} {i : Nat} (h : i ∈ targets) :
    DrawnFrom targets (.selected i) :=
  ⟨by simp, fun _ hj => Selection.selected.inj hj ▸ h⟩

/-- A counter that is reduced modulo the length stays within the list. -/
theorem drawnFrom_index {targets : List Nat} (h : targets.isEmpty = false) (counter : Nat) :
    DrawnFrom targets (index targets (counter % targets.length)) := by
  have hlt : counter % targets.length < targets.length :=
    Nat.mod_lt _ (List.length_pos_iff.mpr (by simpa using h))
  rw [index, List.getElem?_eq_getElem hlt, Option.elim]
  exact drawnFrom_selected (List.getElem_mem hlt)

/-- A selection in turn draws from its list, whatever the counter is. -/
theorem drawnFrom_selectRoundRobin {targets : List Nat} {met : List Upstream}
    {selection : Selection}
    (h : Answers SelectOp.exec (selectRoundRobin targets) met selection) :
    DrawnFrom targets selection := by
  unfold selectRoundRobin at h
  split at h
  · obtain rfl := h.of_done
    exact drawnFrom_none targets
  · rename_i hne
    obtain ⟨_, _, counter, -, -, h⟩ := Answers.of_bind h
    obtain rfl := h.of_done
    exact drawnFrom_index (by simpa using hne) counter

/-- A selection by scores draws from its list, whatever the scores are. -/
theorem drawnFrom_selectLeastConnections {u : Upstream} {targets : List Nat} {met : List Upstream}
    {selection : Selection}
    (h : Answers SelectOp.exec (selectLeastConnections u targets) met selection) :
    DrawnFrom targets selection := by
  cases targets with
  | nil =>
    obtain rfl := h.of_done
    exact drawnFrom_none []
  | cons i rest =>
    obtain ⟨_, _, best, -, hbest, h⟩ := Answers.of_bind h
    obtain rfl := h.of_done
    -- the scores may change as they like: the best so far stays one of the targets
    refine drawnFrom_selected (hbest.of_fold (P := fun best => best ∈ i :: rest) (by simp) ?_)
    intro best hbest j hj _ best' _ h
    obtain ⟨_, _, order, -, -, h⟩ := h.of_bind
    obtain rfl := h.of_done
    split
    · exact List.mem_cons_of_mem i hj
    · exact hbest

/-- **What a selection returns it has seen healthy**, whatever its loads meet. -/
theorem seen_of_selectTarget {u : Upstream} {pick : Nat} {met : List Upstream}
    {selection : Selection}
    (h : Answers SelectOp.exec (selectTarget u pick) met selection) :
    selection ≠ .panicked ∧
      ∀ i, selection = .selected i → Seen u.targets.length met i := by
  obtain ⟨met₁, met₂, targets, rfl, hhead, h⟩ := h.of_bind
  -- it is enough that the strategy draws from a list of targets seen healthy
  have hfrom : ∀ {l : List Nat} {seen : List Upstream}, DrawnFrom l selection →
      (∀ i ∈ l, Seen u.targets.length seen i) → seen ⊆ met₁ ++ met₂ →
      selection ≠ .panicked ∧
        ∀ i, selection = .selected i → Seen u.targets.length (met₁ ++ met₂) i :=
    fun hdrawn hseen hsub => ⟨hdrawn.1, fun i hi => (hseen i (hdrawn.2 i hi)).mono hsub⟩
  have hhealthy := seen_of_healthyTargets hhead
  have hleft := List.subset_append_left met₁ met₂
  split at h
  · obtain rfl := h.of_done
    exact ⟨by simp, by simp⟩
  · rename_i hne
    split at h
    · exact hfrom (drawnFrom_selectRoundRobin h) hhealthy hleft
    · exact hfrom (drawnFrom_selectLeastConnections h) hhealthy hleft
    · obtain rfl := h.of_done
      obtain ⟨i, hi⟩ := Upstream.getElem?_mod_isSome (by simpa using hne) pick
      rw [hi] at hfrom ⊢
      exact hfrom (drawnFrom_selected (List.mem_of_getElem? hi)) hhealthy hleft
    · obtain ⟨met₃, met₄, weighted, rfl, hweighted, h⟩ := h.of_bind
      exact hfrom (drawnFrom_selectRoundRobin h) (seen_of_weightedTargets hweighted)
        fun m hm => by simp [hm]

/-- **Selections under interference.**  In every run in which any number of selections are
    interleaved, load by load, with any writes to the flags, the connections and the counter: a
    selection that has ended has not panicked, and if it has returned a target, the target exists
    and was healthy when one of the selection's own operations met it. -/
theorem selected_was_healthy (u : Upstream) (picks : List Nat) (tr : List (Option Nat))
    (s : Threads SelectOp SelectOp.Reply Upstream Selection)
    (hrun : Run (Interfered SelectOp.exec) (selections u picks) tr s) (k : Nat)
    (selection : Selection) (hdone : s.programs[k]? = some (.done selection)) :
    selection ≠ .panicked ∧ ∀ i, selection = .selected i → i < u.targets.length ∧
      ∃ m, Met SelectOp.exec (selections u picks) tr k m ∧ m.flagAt i = true := by
  have hlt : k < (selections u picks).programs.length := by
    rw [← length_of_run hrun]
    exact (List.getElem?_eq_some_iff.mp hdone).1
  -- what the run has returned, the program may return on what it met
  obtain ⟨met, hans, hmet⟩ := answers_of_run hrun (List.getElem?_eq_getElem hlt) hdone
  obtain ⟨pick, -, hprogram⟩ := List.mem_map.mp (List.getElem_mem hlt)
  obtain ⟨hpanic, hseen⟩ := seen_of_selectTarget (hprogram ▸ hans)
  refine ⟨hpanic, fun i hi => ?_⟩
  obtain ⟨hbound, m, hm, hflag⟩ := hseen i hi
  exact ⟨hbound, m, hmet m hm, hflag⟩

/-- The first of the two targets has gone down. -/
def pairHalfDown : Upstream :=
  { pairInTurn with targets := [loadedTarget 1 false 0, loadedTarget 1 true 0] }

/-- A selection has returned the first target after it went down. -/
def lateSelection : Threads SelectOp SelectOp.Reply Upstream Selection where
  memory := pairHalfDown.bumpCounter
  programs := [.done (.selected 0)]

/-- The flag is loaded, the target goes down, and the selection goes on. -/
theorem run_lateSelection :
    Run (Interfered SelectOp.exec) (selections pairInTurn [0])
      ([] ++ [some 0] ++ [none] ++ [some 0] ++ [some 0]) lateSelection := by
  have hload : Interfered SelectOp.exec (selections pairInTurn [0]) (some 0) _ :=
    ⟨_, _, rfl, rfl⟩
  have hwritten := ((Run.nil _).snoc hload).snoc (Interfered.write SelectOp.exec _ pairHalfDown)
  exact .snoc (.snoc hwritten ⟨_, _, rfl, rfl⟩) ⟨_, _, rfl, rfl⟩

/-- The target was healthy at the load, and is down when it is returned. -/
theorem selected_was_healthy_late :
    ∃ m, Met SelectOp.exec (selections pairInTurn [0])
        ([] ++ [some 0] ++ [none] ++ [some 0] ++ [some 0]) 0 m ∧
      m.flagAt 0 = true ∧ lateSelection.memory.flagAt 0 = false := by
  obtain ⟨-, h⟩ := selected_was_healthy pairInTurn [0] _ lateSelection run_lateSelection 0 _ rfl
  obtain ⟨-, m, hmet, hflag⟩ := h 0 rfl
  exact ⟨m, hmet, hflag, by decide⟩

end Concurrent

end Sret
