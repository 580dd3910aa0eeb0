import Mathlib.Data.List.Induction

namespace Transition

/-!
# Labelled transition systems

Runs of a labelled step relation `step : σ → α → σ → Prop`, over any states and labels:

* `Run step s tr t` — the labels of `tr`, taken one after the other, lead from `s` to `t`;
* `Run.invariant` / `Run.invariant_trace` — the two induction rules: a property of the state
  (or of the state together with the labels so far) that the start has and that every step
  keeps holds at the end of every run; `Run.imp` — steps that are steps of another relation
  under an invariant make a run of that relation;
* `Run.simulation`, `Run.simulation_of_run` — steps that stand for steps of another system, or for
  none, make a run of that system;
* `Run.split` / `Run.step_at` — a run can be cut at any point, so a property of every run
  also holds at every point inside a run; `exists_nth_label` — in particular at the n-th label
  of a kind;
* `Run.countP_le_one` — labels that need something undone and do it for good occur once;
* `withGhost` — the same steps with a ghost beside the state, which records something about them
  and decides nothing: runs with the ghost are runs (`Run.forget`), and every run has one
  (`Run.exists_ghost`).
-/

variable {σ α γ : Type*} {step : σ → α → σ → Prop}

/-- The labels of the list, in order, lead from the first state to the last one. -/
inductive Run (step : σ → α → σ → Prop) : σ → List α → σ → Prop
  | nil (s : σ) : Run step s [] s
  | snoc {s t u : σ} {tr : List α} {a : α} :
      Run step s tr t → step t a u → Run step s (tr ++ [a]) u

/-- **State invariants.** A property that the start has and every step keeps holds at the
    end of every run. -/
theorem Run.invariant {s t : σ} {tr : List α} (I : σ → Prop) (h : Run step s tr t) (h0 : I s)
    (hstep : ∀ t a u, I t → step t a u → I u) : I t := by
  induction h with
  | nil => exact h0
  | snoc _ hs ih => exact hstep _ _ _ ih hs

/-- **History invariants.** The same for a property of the state and the labels so far. -/
theorem Run.invariant_trace {s t : σ} {tr : List α} (I : List α → σ → Prop)
    (h : Run step s tr t) (h0 : I [] s)
    (hstep : ∀ tr t a u, Run step s tr t → I tr t → step t a u → I (tr ++ [a]) u) : I tr t := by
  induction h with
  | nil => exact h0
  | snoc hr hs ih => exact hstep _ _ _ _ hr ih hs

/-- Under an invariant the steps of one relation may be steps of another. -/
theorem Run.imp {step' : σ → α → σ → Prop} {s t : σ} {tr : List α} (I : σ → Prop)
    (h : Run step s tr t) (h0 : I s)
    (hstep : ∀ t a u, I t → step t a u → I u ∧ step' t a u) : I t ∧ Run step' s tr t := by
  induction h with
  | nil => exact ⟨h0, Run.nil _⟩
  | snoc _ hs ih =>
    obtain ⟨ht, hr⟩ := ih
    obtain ⟨hu, hs'⟩ := hstep _ _ _ ht hs
    exact ⟨hu, Run.snoc hr hs'⟩

/-- **Simulation.** States of one system stand for states of another, and a label stands for one
    there or for nothing; if every step that can be reached stands for a step or for none, then
    every run stands for a run. -/
theorem Run.simulation_of_run {τ β : Type*} {step' : τ → β → τ → Prop} (R : σ → τ → Prop)
    (f : α → Option β) {s t : σ} {tr : List α} (h : Run step s tr t)
    (hsim : ∀ tr t x a u, Run step s tr t → R t x → step t a u →
      ∃ y, R u y ∧ ((∃ b, f a = some b ∧ step' x b y) ∨ f a = none ∧ y = x))
    {x : τ} (hx : R s x) : ∃ y, R t y ∧ Run step' x (tr.filterMap f) y := by
  induction h with
  | nil => exact ⟨x, hx, Run.nil x⟩
  | @snoc t u tr a hpre hstep ih =>
    obtain ⟨y, hy, hrun⟩ := ih
    obtain ⟨z, hz, ⟨b, hb, hstep'⟩ | ⟨hnone, rfl⟩⟩ := hsim tr t y a u hpre hy hstep
    · refine ⟨z, hz, ?_⟩
      rw [List.filterMap_append, List.filterMap_cons_some hb, List.filterMap_nil]
      exact hrun.snoc hstep'
    · refine ⟨z, hz, ?_⟩
      rwa [List.filterMap_append, List.filterMap_cons_none hnone, List.filterMap_nil,
        List.append_nil]

/-- The same, for steps from any states. -/
theorem Run.simulation {τ β : Type*} {step' : τ → β → τ → Prop} (R : σ → τ → Prop)
    (f : α → Option β)
    (hsim : ∀ s x a t, R s x → step s a t →
      ∃ y, R t y ∧ ((∃ b, f a = some b ∧ step' x b y) ∨ f a = none ∧ y = x))
    {s t : σ} {tr : List α} (h : Run step s tr t) {x : τ} (hx : R s x) :
    ∃ y, R t y ∧ Run step' x (tr.filterMap f) y :=
  h.simulation_of_run R f (fun _ s x a t _ => hsim s x a t) hx

/-- The empty run goes nowhere. -/
theorem Run.eq_of_nil {s t : σ} (h : Run step s [] t) : t = s := by
  generalize htr : ([] : List α) = tr at h
  cases h with
  | nil => rfl
  | snoc _ _ => simp at htr

/-- The last step of a run that does not end with the empty trace. -/
theorem Run.last {s u : σ} {tr : List α} {a : α} (h : Run step s (tr ++ [a]) u) :
    ∃ t, Run step s tr t ∧ step t a u := by
  -- the trace is an index of `Run`, so it is made a variable before the case split
  generalize htr : tr ++ [a] = tr' at h
  cases h with
  | nil => simp at htr
  | snoc hr hs =>
    obtain ⟨rfl, ha⟩ := List.append_inj' htr rfl
    obtain rfl : a = _ := by simpa using ha
    exact ⟨_, hr, hs⟩

/-- Two runs in a row. -/
theorem Run.append {s t u : σ} {pre post : List α} (h : Run step s pre t)
    (h' : Run step t post u) : Run step s (pre ++ post) u := by
  induction h' with
  | nil => simpa using h
  | snoc _ hs ih => simpa using Run.snoc ih hs

/-- One step is a run. -/
theorem Run.single {s t : σ} {a : α} (h : step s a t) : Run step s [a] t := by
  simpa using Run.snoc (Run.nil s) h

/-- A run can be cut at every point of its trace. -/
theorem Run.split {s u : σ} {pre post : List α} (h : Run step s (pre ++ post) u) :
    ∃ t, Run step s pre t ∧ Run step t post u := by
  induction post using List.reverseRecOn generalizing u with
  | nil => exact ⟨u, by simpa using h, Run.nil u⟩
  | append_singleton post a ih =>
    rw [← List.append_assoc] at h
    obtain ⟨t, hr, hs⟩ := h.last
    obtain ⟨m, hpre, hpost⟩ := ih hr
    exact ⟨m, hpre, Run.snoc hpost hs⟩

/-- The step that a given label of the trace took. -/
theorem Run.step_at {s u : σ} {pre post : List α} {a : α} (h : Run step s (pre ++ a :: post) u) :
    ∃ t t', Run step s pre t ∧ step t a t' ∧ Run step t' post u := by
  rw [List.append_cons] at h
  obtain ⟨t', hpre, hpost⟩ := h.split
  obtain ⟨t, hr, hs⟩ := hpre.last
  exact ⟨t, t', hr, hs, hpost⟩

/-- The label with which the count of a kind goes past a number. -/
theorem exists_nth_label {kind : α → Bool} {tr : List α} {k : Nat} (h : k < tr.countP kind) :
    ∃ pre a post, tr = pre ++ a :: post ∧ kind a = true ∧ pre.countP kind = k := by
  induction tr using List.reverseRecOn with
  | nil => simp at h
  | append_singleton tr a ih =>
    rcases Nat.lt_or_ge k (tr.countP kind) with hlt | hge
    · obtain ⟨pre, b, post, rfl, hb, hcount⟩ := ih hlt
      exact ⟨pre, b, post ++ [a], by simp, hb, hcount⟩
    · -- the count reaches the number with the last label
      rw [List.countP_append, List.countP_singleton] at h
      cases ha : kind a with
      | false =>
        simp only [ha, Bool.false_eq_true, if_false] at h
        omega
      | true =>
        simp only [ha, if_true] at h
        exact ⟨tr, a, [], rfl, ha, by omega⟩

/-- **Once.** A kind of label that a step can only take before something is done, and that does it
    for good, occurs at most once, and only if it is done in the end. -/
theorem Run.countP_le_one {kind : α → Bool} (Done : σ → Prop)
    (hkept : ∀ t a u, Done t → step t a u → Done u)
    (hkind : ∀ t a u, kind a = true → step t a u → ¬ Done t ∧ Done u) {s t : σ} {tr : List α}
    (h : Run step s tr t) : tr.countP kind ≤ 1 ∧ (0 < tr.countP kind → Done t) := by
  refine h.invariant_trace (fun tr t => tr.countP kind ≤ 1 ∧ (0 < tr.countP kind → Done t))
    (by simp) fun tr t a u _ ⟨hle, hdone⟩ hstep => ?_
  rw [List.countP_append, List.countP_singleton]
  cases ha : kind a with
  | false => exact ⟨by simpa using hle, fun hpos => hkept _ _ _ (hdone (by simpa using hpos)) hstep⟩
  | true =>
    obtain ⟨hnot, hnow⟩ := hkind _ _ _ ha hstep
    have hzero : tr.countP kind = 0 := Nat.eq_zero_of_not_pos fun hpos => hnot (hdone hpos)
    exact ⟨by simp [hzero], fun _ => hnow⟩

/-! ### Ghosts -/

/-- The steps with a ghost, which each step updates by what it sees of the state and the label. -/
def withGhost (step : σ → α → σ → Prop) (update : σ → α → γ → γ) (x : σ × γ) (a : α)
    (y : σ × γ) : Prop :=
  step x.1 a y.1 ∧ y.2 = update x.1 a x.2

/-- Without its ghost a run is a run. -/
theorem Run.forget {update : σ → α → γ → γ} {x y : σ × γ} {tr : List α}
    (h : Run (withGhost step update) x tr y) : Run step x.1 tr y.1 := by
  induction h with
  | nil => exact Run.nil _
  | snoc _ hs ih => exact Run.snoc ih hs.1

/-- Every run can carry a ghost. -/
theorem Run.exists_ghost (update : σ → α → γ → γ) {s t : σ} {tr : List α} (h : Run step s tr t)
    (g : γ) : ∃ g', Run (withGhost step update) (s, g) tr (t, g') := by
  induction h with
  | nil => exact ⟨g, Run.nil _⟩
  | snoc _ hs ih =>
    obtain ⟨g', hr⟩ := ih
    exact ⟨_, Run.snoc hr ⟨hs, rfl⟩⟩

end Transition
