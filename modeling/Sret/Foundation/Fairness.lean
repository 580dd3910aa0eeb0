import Mathlib.Data.List.Range
import Sret.Foundation.Transition

namespace Fairness

open Transition

/-!
# Fair executions

Infinite executions of a labelled step relation, and what weak fairness makes of them.

* `Execution` — a state and a label at every time; at some times nothing happens;
* `Execution.run_upTo` — up to any time an execution is a run, so what holds after every run holds
  at every time (`Execution.always`);
* `Execution.Fair` — a kind of label that can be taken from some time on is taken;
* `Execution.Recurs` — labels of a kind come for ever;
* `Execution.eventually_of_next` — a goal is reached, if until then there always is another label of
  a kind that decreases a measure, which no other label increases; `Execution.eventually` for a
  fair kind;
* `Execution.next_of` — the next label of a kind finds what no other label undoes;
  `Execution.exists_next` for a fair kind;
* `Execution.exists_simulation` — an execution stands for one of another system;
  `Execution.Fair.simulation` — that one is fair to a kind that the first is fair to, if it can be
  taken there only when it can be taken here;
* `exists_of_run`, `Execution.fair_of_ended` — a run can stay where it ends, and the execution is
  fair to what cannot be taken there.
-/

variable {σ α : Type*} {step : σ → α → σ → Prop}

/-- An infinite execution, in which nothing happens at the times without a label. -/
structure Execution (step : σ → α → σ → Prop) where
  state : Nat → σ
  label : Nat → Option α
  next : ∀ n a, label n = some a → step (state n) a (state (n + 1))
  idle : ∀ n, label n = none → state (n + 1) = state n

namespace Execution

/-- The labels before the time. -/
def upTo (x : Execution step) (n : Nat) : List α := (List.range n).filterMap x.label

theorem upTo_succ (x : Execution step) (n : Nat) :
    x.upTo (n + 1) = x.upTo n ++ (x.label n).toList := by
  rw [upTo, List.range_succ, List.filterMap_append, ← upTo]
  cases h : x.label n <;> simp [h]

/-- Up to any time an execution is a run. -/
theorem run_upTo (x : Execution step) (n : Nat) : Run step (x.state 0) (x.upTo n) (x.state n) := by
  induction n with
  | zero => exact Run.nil _
  | succ n ih =>
    rw [upTo_succ]
    cases h : x.label n with
    | none => simpa [x.idle n h] using ih
    | some a => exact ih.snoc (x.next n a h)

/-- What every step keeps from one time on holds ever after. -/
theorem always (x : Execution step) (P : σ → Prop) (hkept : ∀ s a t, P s → step s a t → P t)
    {n : Nat} (hn : P (x.state n)) {m : Nat} (hle : n ≤ m) : P (x.state m) := by
  induction m, hle using Nat.le_induction with
  | base => exact hn
  | succ m _ ih =>
    cases h : x.label m with
    | none => rwa [x.idle m h]
    | some a => exact hkept _ _ _ ih (x.next m a h)

/-- **Weak fairness.** A kind of label that can be taken at all times from some time on is taken. -/
def Fair (x : Execution step) (kind : α → Prop) : Prop :=
  ∀ n, (∀ m, n ≤ m → ∃ a t, kind a ∧ step (x.state m) a t) →
    ∃ m a, n ≤ m ∧ x.label m = some a ∧ kind a

/-- Labels of the kind come for ever. -/
def Recurs (x : Execution step) (kind : α → Prop) : Prop :=
  ∀ n, ∃ m a, n ≤ m ∧ x.label m = some a ∧ kind a

/-- **The measure rule.** From a time on at which the invariant holds, the goal is reached: as long
    as it is not, there is another label of the kind, which decreases the measure; no other
    increases it. -/
theorem eventually_of_next (x : Execution step) {kind : α → Prop} (I Goal : σ → Prop)
    (measure : σ → Nat)
    (hle : ∀ s a t, I s → I t → ¬ Goal s → step s a t → measure t ≤ measure s)
    (hlt : ∀ s a t, I s → I t → ¬ Goal s → step s a t → kind a → measure t < measure s) {n : Nat}
    (hI : ∀ m, n ≤ m → I (x.state m))
    (hnext : ∀ k, n ≤ k → (∀ m, k ≤ m → ¬ Goal (x.state m)) →
      ∃ m a, k ≤ m ∧ x.label m = some a ∧ kind a) : ∃ m, n ≤ m ∧ Goal (x.state m) := by
  -- the measure at the time is the induction; the next label finds a time at which it is less
  induction hmeasure : measure (x.state n) using Nat.strong_induction_on generalizing n with
  | _ k ih =>
    subst hmeasure
    by_contra hnever
    have hnot : ∀ m, n ≤ m → ¬ Goal (x.state m) := fun m hm hgoal => hnever ⟨m, hm, hgoal⟩
    obtain ⟨m, a, hm, hlabel, hkind⟩ := hnext n le_rfl hnot
    have hstep := x.next m a hlabel
    have hbefore : measure (x.state m) ≤ measure (x.state n) := by
      clear hlabel hstep
      induction m, hm using Nat.le_induction with
      | base => exact le_rfl
      | succ j hj ih =>
        refine le_trans ?_ ih
        cases hb : x.label j with
        | none => rw [x.idle j hb]
        | some b =>
          exact hle _ _ _ (hI j hj) (hI (j + 1) (hj.trans (Nat.le_succ j))) (hnot j hj)
            (x.next j b hb)
    have hafter : n ≤ m + 1 := hm.trans (Nat.le_succ m)
    have hless := hlt _ _ _ (hI m hm) (hI (m + 1) hafter) (hnot m hm) hstep hkind
    obtain ⟨m', hm', hgoal⟩ := ih _ (hless.trans_le hbefore)
      (fun k hk => hI k (hafter.trans hk)) (fun k hk => hnext k (hafter.trans hk)) rfl
    exact hnever ⟨m', hafter.trans hm', hgoal⟩

/-- The measure rule for a fair kind, of which a label can be taken until the goal is reached. -/
theorem eventually (x : Execution step) {kind : α → Prop} (hfair : x.Fair kind) (I Goal : σ → Prop)
    (measure : σ → Nat) (hinv : ∀ s a t, I s → step s a t → I t)
    (henabled : ∀ s, I s → ¬ Goal s → ∃ a t, kind a ∧ step s a t)
    (hle : ∀ s a t, I s → ¬ Goal s → step s a t → measure t ≤ measure s)
    (hlt : ∀ s a t, I s → ¬ Goal s → step s a t → kind a → measure t < measure s) {n : Nat}
    (hn : I (x.state n)) : ∃ m, n ≤ m ∧ Goal (x.state m) := by
  have hI : ∀ m, n ≤ m → I (x.state m) := fun m hm => x.always I hinv hn hm
  exact x.eventually_of_next I Goal measure (fun s a t hs _ => hle s a t hs)
    (fun s a t hs _ => hlt s a t hs) hI
    fun k hk hnot => hfair k fun m hm => henabled _ (hI m (hk.trans hm)) (hnot m hm)

/-- **The next label of a kind** finds what no other label undoes. -/
theorem next_of (x : Execution step) {kind : α → Prop} (P : σ → Prop) {n : Nat}
    (hn : P (x.state n)) (hkept : ∀ m a, n ≤ m → P (x.state m) → x.label m = some a → ¬ kind a →
      P (x.state (m + 1)))
    (hnext : (∀ m, n ≤ m → P (x.state m)) → ∃ m a, n ≤ m ∧ x.label m = some a ∧ kind a) :
    ∃ m a, n ≤ m ∧ P (x.state m) ∧ x.label m = some a ∧ kind a := by
  by_contra hnever
  have hP : ∀ m, n ≤ m → P (x.state m) := by
    intro m hm
    induction m, hm using Nat.le_induction with
    | base => exact hn
    | succ j hj ih =>
      cases ha : x.label j with
      | none => rwa [x.idle j ha]
      | some a => exact hkept j a hj ih ha fun hk => hnever ⟨j, a, hj, ih, ha, hk⟩
  obtain ⟨m, a, hm, ha, hk⟩ := hnext hP
  exact hnever ⟨m, a, hm, hP m hm, ha, hk⟩

/-- The same for a fair kind, of which a label can be taken. -/
theorem exists_next (x : Execution step) {kind : α → Prop} (hfair : x.Fair kind) (P : σ → Prop)
    (hkept : ∀ s a t, P s → ¬ kind a → step s a t → P t)
    (henabled : ∀ s, P s → ∃ a t, kind a ∧ step s a t) {n : Nat} (hn : P (x.state n)) :
    ∃ m a, n ≤ m ∧ P (x.state m) ∧ x.label m = some a ∧ kind a :=
  x.next_of P hn (fun m a _ hm ha hk => hkept _ _ _ hm hk (x.next m a ha))
    fun hP => hfair n fun m hm => henabled _ (hP m hm)

/-- An execution is fair to what cannot be taken from some time on. -/
theorem fair_of_ended (x : Execution step) {kind : α → Prop} {n : Nat}
    (hended : ∀ m, n ≤ m → ¬ ∃ a t, kind a ∧ step (x.state m) a t) : x.Fair kind := by
  intro k hk
  exact absurd (hk (max n k) (le_max_right n k)) (hended _ (le_max_left n k))

/-! ### Simulation -/

variable {τ β : Type*} {step' : τ → β → τ → Prop}

/-- **Simulation.** If every step stands for a step of another system or for none, then an execution
    stands for an execution there. -/
theorem exists_simulation (x : Execution step) (R : σ → τ → Prop) (f : α → Option β)
    (hsim : ∀ s y a t, R s y → step s a t →
      ∃ z, R t z ∧ ((∃ b, f a = some b ∧ step' y b z) ∨ f a = none ∧ z = y))
    {y₀ : τ} (h₀ : R (x.state 0) y₀) :
    ∃ y : Execution step', y.state 0 = y₀ ∧
      ∀ n, R (x.state n) (y.state n) ∧ y.label n = (x.label n).bind f := by
  have hnext : ∀ n (y : { y // R (x.state n) y }), ∃ z : { z // R (x.state (n + 1)) z },
      (∀ b, (x.label n).bind f = some b → step' y.val b z.val) ∧
        ((x.label n).bind f = none → z.val = y.val) := by
    rintro n ⟨y, hy⟩
    cases ha : x.label n with
    | none => exact ⟨⟨y, (x.idle n ha).symm ▸ hy⟩, by simp⟩
    | some a =>
      obtain ⟨z, hz, ⟨b, hb, hstep⟩ | ⟨hnone, rfl⟩⟩ := hsim _ y a _ hy (x.next n a ha)
      · exact ⟨⟨z, hz⟩, by simp [hb, hstep]⟩
      · exact ⟨⟨z, hz⟩, by simp [hnone]⟩
  choose g hg using hnext
  let ys (n : Nat) : { y // R (x.state n) y } := Nat.rec ⟨y₀, h₀⟩ g n
  exact ⟨⟨fun n => (ys n).val, fun n => (x.label n).bind f, fun n => (hg n (ys n)).1,
    fun n => (hg n (ys n)).2⟩, rfl, fun n => ⟨(ys n).property, rfl⟩⟩

/-- **Fairness of the image.** -/
theorem Fair.simulation {x : Execution step} {y : Execution step'} {f : α → Option β}
    (hlabel : ∀ n, y.label n = (x.label n).bind f) {kind : α → Prop} {kind' : β → Prop}
    (hfair : x.Fair kind) (hkind : ∀ a, kind a → ∃ b, f a = some b ∧ kind' b)
    (henabled : ∀ n, (∃ b t, kind' b ∧ step' (y.state n) b t) →
      ∃ a t, kind a ∧ step (x.state n) a t) : y.Fair kind' := by
  intro n hn
  obtain ⟨m, a, hm, ha, hkind'⟩ := hfair n fun m hm => henabled m (hn m hm)
  obtain ⟨b, hb, hb'⟩ := hkind a hkind'
  exact ⟨m, b, hm, by rw [hlabel, ha, Option.bind_some, hb], hb'⟩

end Execution

/-- **A run can stay where it ends.** -/
theorem exists_of_run {s t : σ} {tr : List α} (h : Run step s tr t) :
    ∃ x : Execution step, x.state 0 = s ∧
      ∀ n, tr.length ≤ n → x.state n = t ∧ x.label n = none := by
  induction h with
  | nil => exact ⟨⟨fun _ => s, fun _ => none, by simp, by simp⟩, rfl, fun _ _ => ⟨rfl, rfl⟩⟩
  | @snoc t u tr a _ hstep ih =>
    obtain ⟨x, hstart, hstay⟩ := ih
    -- one more label, and the new state from then on
    refine ⟨⟨fun n => if n ≤ tr.length then x.state n else u,
      fun n => if n = tr.length then some a else x.label n, fun n b hb => ?_, fun n hn => ?_⟩,
      by simpa using hstart, fun n hn => ?_⟩
    · rcases Nat.lt_trichotomy n tr.length with hlt | rfl | hgt
      · rw [if_neg hlt.ne] at hb
        rw [if_pos hlt.le, if_pos (Nat.succ_le_of_lt hlt)]
        exact x.next n b hb
      · rw [if_pos rfl] at hb
        obtain rfl := Option.some.inj hb
        rw [if_pos le_rfl, if_neg (by omega), (hstay _ le_rfl).1]
        exact hstep
      · rw [if_neg hgt.ne', (hstay n hgt.le).2] at hb
        simp at hb
    · rcases Nat.lt_trichotomy n tr.length with hlt | rfl | hgt
      · rw [if_neg hlt.ne] at hn
        rw [if_pos hlt.le, if_pos (Nat.succ_le_of_lt hlt)]
        exact x.idle n hn
      · simp at hn
      · rw [if_neg (by omega), if_neg (by omega)]
    · rw [List.length_append, List.length_singleton] at hn
      exact ⟨if_neg (by omega), by
        show (if n = tr.length then some a else x.label n) = none
        rw [if_neg (by omega), (hstay n (by omega)).2]⟩

end Fairness
