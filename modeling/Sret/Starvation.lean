import Mathlib.Data.List.Range
import Sret.Foundation.Rotation
import Sret.Foundation.Transition
import Sret.Upstream

namespace Sret

open Text Transition Rotation

/-!
# Round robin under changing health

Runs of a round-robin upstream between whose selections any health flags may be written.

* `UpstreamEvent` — a selection, with the flags that it read, or a write of a flag;
* `raised` — the positions of the healthy targets; a selection takes the one at the counter modulo
  their number (`select_index`), so the list changes under the counter;
* `SelectedWithin` — a target that is healthy at all of `K` selections is selected by one of them;
* `selectedWithin_of_common` — that is so when there is a counter value at which the target is
  selected whatever the other flags are, since the counter comes to every value;
* `not_selectedWithin_of_avoidable` — and never so when at every counter value some flags avoid it;
* `no_starvation_iff` — so the first target is never starved, the last one is not as long as the
  numbers up to the number of targets have a common multiple in the range of the counter, and
  every target between them can be.
-/

/-! ### Runs -/

/-- What happens to an upstream. -/
inductive UpstreamEvent
  /-- A selection that read these flags. -/
  | select (flags : List Bool) (pick : Nat) (selected : Option TargetArc)
  /-- A health check writes a flag. -/
  | setHealthy (index : Nat) (healthy : Bool) (now : Instant)

namespace UpstreamEvent

/-- The event takes the upstream from one state to the next. -/
def Step (u : Upstream) (e : UpstreamEvent) (u' : Upstream) : Prop :=
  match e with
  | .select flags pick selected =>
    flags = u.targets.map Target.isHealthy ∧ u.selectTarget pick = (selected, u')
  | .setHealthy index healthy now =>
    u' = { u with targets := u.targets.modify index fun t => t.setHealthy healthy now }

/-- The event is a selection. -/
def isSelect : UpstreamEvent → Bool
  | .select _ _ _ => true
  | .setHealthy _ _ _ => false

end UpstreamEvent

/-- The number of selections. -/
def selectCount (tr : List UpstreamEvent) : Nat := tr.countP UpstreamEvent.isSelect

/-- The target is healthy at every selection. -/
def HealthyThroughout (m : Nat) (tr : List UpstreamEvent) : Prop :=
  ∀ flags pick selected, .select flags pick selected ∈ tr → flags[m]? = some true

/-- Some selection returns the target. -/
def Selects (m : Nat) (tr : List UpstreamEvent) : Prop :=
  ∃ flags pick a, .select flags pick (some a) ∈ tr ∧ a.index = m

/-- In every run of `K` selections of a round-robin upstream with `n` targets, whatever the counter
    at the start and the other flags, target `m` is selected if it is healthy throughout. -/
def SelectedWithin (n m K : Nat) : Prop :=
  ∀ (u u' : Upstream) (tr : List UpstreamEvent), u.strategy = .roundRobin → u.targets.length = n →
    u.roundRobinCounter < usizeSize → Run UpstreamEvent.Step u tr u' → selectCount tr = K →
    HealthyThroughout m tr → Selects m tr

/-! ### A single selection -/

/-- The positions of the flags that are up. -/
def raised (flags : List Bool) : List Nat :=
  (List.range flags.length).filter fun i => flags[i]? = some true

/-- The list has the positions of the flags that are up. -/
theorem mem_raised {flags : List Bool} {m : Nat} : m ∈ raised flags ↔ flags[m]? = some true := by
  rw [raised, List.mem_filter, List.mem_range, decide_eq_true_eq, and_iff_right_iff_imp]
  intro h
  exact (List.getElem?_eq_some_iff.mp h).1

/-- It is no longer than that of the flags. -/
theorem length_raised_le (flags : List Bool) : (raised flags).length ≤ flags.length := by
  refine (List.length_filter_le _ _).trans ?_
  rw [List.length_range]

/-- The healthy targets stand at the positions of the raised flags. -/
theorem healthyTargets_map_index (u : Upstream) :
    u.healthyTargets.map TargetArc.index = raised (u.targets.map Target.isHealthy) := by
  have hflag : ∀ a ∈ u.allTargets, a.target.isHealthy =
      decide ((u.targets.map Target.isHealthy)[a.index]? = some true) := by
    intro a ha
    rw [List.getElem?_map, Upstream.mem_allTargets.mp ha, Option.map_some]
    simp
  rw [Upstream.healthyTargets, List.filter_congr hflag, raised, List.length_map,
    ← Upstream.allTargets_map_index, List.filter_map]
  rfl

/-- **What a selection takes**: the raised position at the counter, modulo their number. -/
theorem select_index {u u' : Upstream} {flags : List Bool} {pick : Nat}
    {selected : Option TargetArc} (hs : u.strategy = .roundRobin)
    (hstep : UpstreamEvent.Step u (.select flags pick selected) u') (hne : raised flags ≠ []) :
    selected.map TargetArc.index =
        (raised flags)[u.roundRobinCounter % (raised flags).length]? ∧ u' = u.bumpCounter := by
  obtain ⟨rfl, hselect⟩ := hstep
  have hcand : u.candidates = u.healthyTargets := by simp [Upstream.candidates, hs]
  have hindex := healthyTargets_map_index u
  have hempty : u.candidates.isEmpty = false := by
    rw [hcand]
    by_contra h
    rw [Bool.not_eq_false, List.isEmpty_iff] at h
    rw [h] at hindex
    exact hne hindex.symm
  rw [Upstream.selectTarget_of_usesCounter (by simp [Upstream.usesCounter, hs]), hempty, hcand]
    at hselect
  obtain ⟨rfl, rfl⟩ := Prod.mk.inj hselect
  rw [← hindex, List.getElem?_map, List.length_map]
  exact ⟨rfl, rfl⟩

/-! ### The counter comes to every value -/

/-- What a run of selections that all find a target has done to the upstream. -/
structure AfterSelections (u u' : Upstream) (n k : Nat) : Prop where
  strategy : u'.strategy = .roundRobin
  length : u'.targets.length = n
  counter : u'.roundRobinCounter = (u.roundRobinCounter + k) % usizeSize

/-- A selection advances the counter by one. -/
theorem AfterSelections.select {u v w : Upstream} {n k : Nat} (h : AfterSelections u v n k)
    {flags : List Bool} {pick : Nat} {selected : Option TargetArc} {m : Nat}
    (hstep : UpstreamEvent.Step v (.select flags pick selected) w)
    (hm : flags[m]? = some true) : AfterSelections u w n (k + 1) := by
  obtain ⟨-, rfl⟩ := select_index h.strategy hstep (List.ne_nil_of_mem (mem_raised.mpr hm))
  refine ⟨h.strategy, h.length, ?_⟩
  show (v.roundRobinCounter + 1) % usizeSize = _
  rw [h.counter, Nat.mod_add_mod, Nat.add_assoc]

/-- After a run the counter has been advanced by the number of its selections. -/
theorem afterSelections_of_run {u u' : Upstream} {tr : List UpstreamEvent}
    (hrun : Run UpstreamEvent.Step u tr u') (hs : u.strategy = .roundRobin)
    (hcounter : u.roundRobinCounter < usizeSize) {m : Nat} (hm : HealthyThroughout m tr) :
    AfterSelections u u' u.targets.length (selectCount tr) := by
  refine hrun.invariant_trace (fun tr v => HealthyThroughout m tr →
    AfterSelections u v u.targets.length (selectCount tr))
    (fun _ => ⟨hs, rfl, (Nat.mod_eq_of_lt hcounter).symm⟩) ?_ hm
  intro tr v e w _ ih hstep hm
  have hv := ih fun flags pick selected hmem => hm flags pick selected (List.mem_append_left _ hmem)
  rw [selectCount, List.countP_append, List.countP_singleton]
  cases e with
  | select flags pick selected => exact hv.select hstep (hm flags pick selected (by simp))
  | setHealthy index healthy now =>
    obtain rfl := hstep
    exact ⟨hv.strategy, by simpa using hv.length, hv.counter⟩

/-- **A counter value that always selects the target** bounds the wait: `2 ^ 64` selections pass
    through every value. -/
theorem selectedWithin_of_common {n m c : Nat} (hc : c < usizeSize)
    (hcommon : ∀ flags : List Bool, flags.length = n → flags[m]? = some true →
      (raised flags)[c % (raised flags).length]? = some m) : SelectedWithin n m usizeSize := by
  rintro u u' tr hs rfl hcounter hrun hcount hm
  -- the selection before which the counter has come to the value
  have hk : (c + usizeSize - u.roundRobinCounter) % usizeSize < selectCount tr := by
    rw [hcount]
    exact Nat.mod_lt _ (by decide)
  obtain ⟨pre, e, post, rfl, hselect, hpre⟩ := exists_nth_label hk
  cases e with
  | setHealthy index healthy now => simp [UpstreamEvent.isSelect] at hselect
  | select flags pick selected =>
    obtain ⟨v, w, hrunpre, hstep, -⟩ := hrun.step_at
    have hup := hm flags pick selected (by simp)
    have hv := afterSelections_of_run hrunpre hs hcounter (m := m)
      fun flags pick selected hmem => hm flags pick selected (List.mem_append_left _ hmem)
    have hvalue : v.roundRobinCounter = c := by
      rw [hv.counter, selectCount, hpre]
      simp only [usizeSize] at hc hcounter ⊢
      omega
    obtain ⟨hindex, -⟩ := select_index hv.strategy hstep (List.ne_nil_of_mem (mem_raised.mpr hup))
    have hlength : flags.length = u.targets.length := by
      rw [hstep.1, List.length_map, hv.length]
    rw [hvalue, hcommon flags hlength hup] at hindex
    obtain ⟨a, rfl, ha⟩ := Option.map_eq_some_iff.mp hindex
    exact ⟨flags, pick, a, by simp, ha⟩

/-- The first target comes first among the healthy ones. -/
theorem head?_raised {flags : List Bool} (h : flags[0]? = some true) :
    (raised flags).head? = some 0 := by
  obtain ⟨hlen, -⟩ := List.getElem?_eq_some_iff.mp h
  obtain ⟨k, hk⟩ := Nat.exists_eq_succ_of_ne_zero (Nat.pos_iff_ne_zero.mp hlen)
  rw [raised, hk, List.range_succ_eq_map, List.filter_cons_of_pos (by simpa using h)]
  rfl

/-- The last target comes last among them. -/
theorem getLast?_raised {flags : List Bool} {m : Nat} (hlast : flags.length = m + 1)
    (h : flags[m]? = some true) : (raised flags).getLast? = some m := by
  rw [raised, hlast, List.range_succ, List.filter_append,
    List.filter_cons_of_pos (by simpa using h), List.filter_nil, List.getLast?_concat]

/-- The first target is not starved. -/
theorem selectedWithin_first (n : Nat) : SelectedWithin n 0 usizeSize :=
  selectedWithin_of_common (by decide) fun _ _ h => draw_first (head?_raised h)

/-- Neither is the last one, where the counter can come right before a common multiple. -/
theorem selectedWithin_last {m L : Nat} (hpos : 0 < L) (hL : L ≤ usizeSize)
    (hmul : ∀ j, 0 < j → j ≤ m + 1 → j ∣ L) : SelectedWithin (m + 1) m usizeSize := by
  refine selectedWithin_of_common (c := L - 1) (by omega) fun flags hlength h => ?_
  refine draw_last (getLast?_raised hlength h) ?_
  rw [Nat.sub_add_cancel hpos]
  have hle := length_raised_le flags
  exact hmul _ (List.length_pos_of_mem (mem_raised.mpr h)) (by omega)

/-! ### Starving a target -/

/-- The checks can bring the first `k` flags to any values between two selections. -/
theorem exists_run_setFlags (u : Upstream) (f : Nat → Bool) (k : Nat) :
    ∃ tr u', Run UpstreamEvent.Step u tr u' ∧ (∀ e ∈ tr, e.isSelect = false) ∧
      u'.strategy = u.strategy ∧ u'.roundRobinCounter = u.roundRobinCounter ∧
      u'.targets.length = u.targets.length ∧
      ∀ i t, i < k → u'.targets[i]? = some t → t.isHealthy = f i := by
  induction k with
  | zero => exact ⟨[], u, Run.nil u, by simp, rfl, rfl, rfl, by simp⟩
  | succ k ih =>
    obtain ⟨tr, v, hrun, hnone, hstrategy, hcounter, hlength, hflags⟩ := ih
    have hstep : UpstreamEvent.Step v (.setHealthy k (f k) 0)
        { v with targets := v.targets.modify k fun t => t.setHealthy (f k) 0 } := rfl
    refine ⟨_, _, hrun.snoc hstep, ?_, hstrategy, hcounter, ?_, ?_⟩
    · intro e he
      rcases List.mem_append.mp he with hold | hnew
      · exact hnone e hold
      · obtain rfl := List.mem_singleton.mp hnew
        rfl
    · simpa using hlength
    · intro i t hi ht
      rw [List.getElem?_modify] at ht
      obtain ⟨t', ht', rfl⟩ := Option.map_eq_some_iff.mp ht
      by_cases hik : k = i
      · rw [if_pos hik, ← hik]
        rfl
      · rw [if_neg hik]
        exact hflags i t' (by omega) ht'

/-- With the flags of an interval raised the selection moves within the interval. -/
theorem raised_interval {flags : List Bool} {a j : Nat} (h : a + j ≤ flags.length)
    (hflags : ∀ i, i < flags.length → flags[i]? = some (decide (a ≤ i ∧ i < a + j))) :
    raised flags = List.range' a j := by
  refine filter_range_interval h fun i => ?_
  rw [decide_eq_true_eq]
  rcases Nat.lt_or_ge i flags.length with hi | hi
  · rw [hflags i hi, Option.some.injEq, decide_eq_true_eq]
  · rw [List.getElem?_eq_none hi]
    simp only [reduceCtorEq, false_iff]
    omega

/-- A selection takes the position of the interval that the counter points to. -/
theorem select_interval {v w : Upstream} {flags : List Bool} {pick a j : Nat}
    {selected : Option TargetArc} (hs : v.strategy = .roundRobin) (hj : 0 < j)
    (h : a + j ≤ flags.length)
    (hflags : ∀ i, i < flags.length → flags[i]? = some (decide (a ≤ i ∧ i < a + j)))
    (hstep : UpstreamEvent.Step v (.select flags pick selected) w) :
    selected.map TargetArc.index = some (a + v.roundRobinCounter % j) ∧ w = v.bumpCounter := by
  have hraised := raised_interval h hflags
  have hmem : a ∈ raised flags := by
    rw [hraised, List.mem_range'_1]
    omega
  obtain ⟨hindex, hbump⟩ := select_index hs hstep (List.ne_nil_of_mem hmem)
  rw [hraised, List.length_range', List.getElem?_range' (Nat.mod_lt _ hj), Nat.one_mul] at hindex
  exact ⟨hindex, hbump⟩

/-- The last event of the trace is its only selection. -/
theorem select_mem_snoc {tr : List UpstreamEvent} (hnone : ∀ e ∈ tr, e.isSelect = false)
    {flags flags' : List Bool} {pick pick' : Nat} {selected selected' : Option TargetArc}
    (h : .select flags' pick' selected' ∈ tr ++ [.select flags pick selected]) :
    flags' = flags ∧ selected' = selected := by
  rcases List.mem_append.mp h with hold | hnew
  · simpa [UpstreamEvent.isSelect] using hnone _ hold
  · obtain ⟨rfl, -, rfl⟩ := UpstreamEvent.select.inj (List.mem_singleton.mp hnew)
    exact ⟨rfl, rfl⟩

/-- **One selection that passes the target by.**  The flags of an interval around the target are
    raised, and the counter takes another position of it. -/
theorem exists_run_avoiding {u : Upstream} {m a j : Nat} (hs : u.strategy = .roundRobin)
    (ha : a ≤ m) (hm : m < a + j) (hn : a + j ≤ u.targets.length)
    (havoid : a + u.roundRobinCounter % j ≠ m) :
    ∃ tr u', Run UpstreamEvent.Step u tr u' ∧ selectCount tr = 1 ∧ HealthyThroughout m tr ∧
      ¬ Selects m tr ∧ u'.strategy = .roundRobin ∧ u'.targets.length = u.targets.length ∧
      u'.roundRobinCounter < usizeSize := by
  obtain ⟨tr, v, hrun, hnone, hstrategy, hcounter, hlength, hset⟩ :=
    exists_run_setFlags u (fun i => decide (a ≤ i ∧ i < a + j)) u.targets.length
  have hlen : (v.targets.map Target.isHealthy).length = u.targets.length := by
    rw [List.length_map, hlength]
  have hflags : ∀ i, i < (v.targets.map Target.isHealthy).length →
      (v.targets.map Target.isHealthy)[i]? = some (decide (a ≤ i ∧ i < a + j)) := by
    intro i hi
    rw [List.length_map] at hi
    rw [List.getElem?_map, List.getElem?_eq_getElem hi, Option.map_some,
      hset i _ (hlength ▸ hi) (List.getElem?_eq_getElem hi)]
  have hstep : UpstreamEvent.Step v
      (.select (v.targets.map Target.isHealthy) 0 (v.selectTarget 0).1) (v.selectTarget 0).2 :=
    ⟨rfl, rfl⟩
  obtain ⟨hindex, hbump⟩ :=
    select_interval (hstrategy.trans hs) (by omega) (hlen ▸ hn) hflags hstep
  refine ⟨_, _, hrun.snoc hstep, ?_, ?_, ?_, ?_, ?_, ?_⟩
  · rw [selectCount, List.countP_append, List.countP_eq_zero.mpr fun e he => by simp [hnone e he]]
    rfl
  · intro flags pick selected hin
    rw [(select_mem_snoc hnone hin).1, hflags m (by omega), decide_eq_true ⟨ha, hm⟩]
  · rintro ⟨flags, pick, b, hin, hb⟩
    rw [← (select_mem_snoc hnone hin).2, Option.map_some, Option.some.injEq, hb, hcounter] at hindex
    exact havoid hindex.symm
  · rw [hbump]
    exact hstrategy.trans hs
  · rw [hbump]
    exact hlength
  · rw [hbump]
    exact Nat.mod_lt _ (by decide)

/-- A target that is healthy in two parts is so in the whole. -/
theorem HealthyThroughout.append {m : Nat} {tr tr' : List UpstreamEvent}
    (h : HealthyThroughout m tr) (h' : HealthyThroughout m tr') :
    HealthyThroughout m (tr ++ tr') := by
  intro flags pick selected hin
  rcases List.mem_append.mp hin with hold | hnew
  · exact h flags pick selected hold
  · exact h' flags pick selected hnew

/-- A selection is in one part or the other. -/
theorem selects_append {m : Nat} {tr tr' : List UpstreamEvent} (h : Selects m (tr ++ tr')) :
    Selects m tr ∨ Selects m tr' := by
  obtain ⟨flags, pick, a, hin, ha⟩ := h
  rcases List.mem_append.mp hin with hold | hnew
  · exact Or.inl ⟨flags, pick, a, hold, ha⟩
  · exact Or.inr ⟨flags, pick, a, hnew, ha⟩

/-- **A target that can be avoided at every counter value can be starved** for any number of
    selections, from any state of the upstream. -/
theorem exists_run_starving {n m : Nat}
    (havoid : ∀ c < usizeSize, ∃ a j, a ≤ m ∧ m < a + j ∧ a + j ≤ n ∧ a + c % j ≠ m)
    {u : Upstream} (hs : u.strategy = .roundRobin) (hn : u.targets.length = n)
    (hcounter : u.roundRobinCounter < usizeSize) (K : Nat) :
    ∃ tr u', Run UpstreamEvent.Step u tr u' ∧ selectCount tr = K ∧ HealthyThroughout m tr ∧
      ¬ Selects m tr ∧ u'.strategy = .roundRobin ∧ u'.targets.length = n ∧
      u'.roundRobinCounter < usizeSize := by
  induction K with
  | zero =>
    exact ⟨[], u, Run.nil u, rfl, by simp [HealthyThroughout], by simp [Selects], hs, hn, hcounter⟩
  | succ K ih =>
    obtain ⟨tr, v, hrun, hcount, hup, hnot, hs', hn', hcounter'⟩ := ih
    obtain ⟨a, j, ha, hm, hle, hne⟩ := havoid v.roundRobinCounter hcounter'
    obtain ⟨tr', w, hrun', hcount', hup', hnot', hs'', hn'', hcounter''⟩ :=
      exists_run_avoiding hs' ha hm (hn' ▸ hle) hne
    refine ⟨_, w, hrun.append hrun', ?_, hup.append hup', fun hsel => ?_, hs'', hn''.trans hn',
      hcounter''⟩
    · rw [selectCount, List.countP_append]
      exact congrArg₂ (· + ·) hcount hcount'
    · rcases selects_append hsel with h | h
      · exact hnot h
      · exact hnot' h

/-- A target that can be avoided at every value of the counter is avoided for any number of
    selections. -/
theorem not_selectedWithin_of_avoidable {n m : Nat}
    (havoid : ∀ c < usizeSize, ∃ a j, a ≤ m ∧ m < a + j ∧ a + j ≤ n ∧ a + c % j ≠ m) (K : Nat) :
    ¬ SelectedWithin n m K := by
  intro h
  have hn : (Upstream.new ⟨[], List.replicate n ⟨[], 0, none, none⟩, none, none⟩).targets.length =
      n := by
    simp [Upstream.new]
  obtain ⟨tr, u', hrun, hcount, hup, hnot, -⟩ :=
    exists_run_starving havoid rfl hn (show 0 < usizeSize by decide) K
  exact hnot (h _ u' tr rfl hn (show 0 < usizeSize by decide) hrun hcount hup)

/-- A target between two others is avoided with one of its neighbours up. -/
theorem avoidable_middle {n m c : Nat} (hfirst : 0 < m) (hlast : m + 1 < n) :
    ∃ a j, a ≤ m ∧ m < a + j ∧ a + j ≤ n ∧ a + c % j ≠ m := by
  rcases Nat.mod_two_eq_zero_or_one c with heven | hodd
  · exact ⟨m - 1, 2, by omega, by omega, by omega, by omega⟩
  · exact ⟨m, 2, by omega, by omega, by omega, by omega⟩

/-- The last target is avoided where some number of targets does not divide the next value. -/
theorem avoidable_last {m c j : Nat} (hpos : 0 < j) (hj : j ≤ m + 1) (hndvd : ¬ j ∣ c + 1) :
    ∃ a k, a ≤ m ∧ m < a + k ∧ a + k ≤ m + 1 ∧ a + c % k ≠ m := by
  refine ⟨m + 1 - j, j, by omega, by omega, by omega, fun heq => hndvd ?_⟩
  have hmod : c % j + 1 = j := by omega
  rw [← Nat.div_add_mod c j, Nat.add_assoc, hmod]
  exact Nat.dvd_add_self_right.mpr (Nat.dvd_mul_right j _)

/-! ### Which targets are never starved -/

/-- The counter can come right before a common multiple of the numbers up to `n`. -/
def CommonMultipleInRange (n : Nat) : Prop :=
  ∃ L, 0 < L ∧ L ≤ usizeSize ∧ ∀ j, 0 < j → j ≤ n → j ∣ L

/-- **When a healthy target is selected in the end**: it is the first one, or it is the last one and
    some value of the counter leaves no way around it. -/
theorem selectedWithin_iff (n m : Nat) (hm : m < n) :
    (∃ K, SelectedWithin n m K) ↔ m = 0 ∨ m + 1 = n ∧ CommonMultipleInRange n := by
  constructor
  · rintro ⟨K, hK⟩
    by_contra hno
    push Not at hno
    obtain ⟨hfirst, hlast⟩ := hno
    refine not_selectedWithin_of_avoidable (fun c hc => ?_) K hK
    by_cases hend : m + 1 = n
    · -- the next counter value is no common multiple
      subst hend
      have hno := hlast rfl
      simp only [CommonMultipleInRange, not_exists, not_and, not_forall] at hno
      obtain ⟨j, hpos, hj, hndvd⟩ := hno (c + 1) (Nat.succ_pos c) hc
      exact avoidable_last hpos hj hndvd
    · exact avoidable_middle (Nat.pos_of_ne_zero hfirst) (by omega)
  · rintro (rfl | ⟨rfl, L, hpos, hL, hmul⟩)
    · exact ⟨usizeSize, selectedWithin_first n⟩
    · exact ⟨usizeSize, selectedWithin_last hpos hL hmul⟩

/-- **No starvation** holds of an upstream of at most two targets.  In a larger one it holds of the
    first target, and of the last one as long as the numbers up to the number of targets have a
    common multiple in the range of the counter. -/
theorem no_starvation_iff (n : Nat) :
    ((∃ K, ∀ m < n, SelectedWithin n m K) ↔ n ≤ 2) ∧
      ∀ m : Fin n, (∃ K, SelectedWithin n m K) ↔
        m.val = 0 ∨ m.val + 1 = n ∧ CommonMultipleInRange n := by
  refine ⟨⟨?_, ?_⟩, fun m => selectedWithin_iff n m m.isLt⟩
  · rintro ⟨K, hK⟩
    by_contra hn
    -- the second of three targets or more
    rcases (selectedWithin_iff n 1 (by omega)).mp ⟨K, hK 1 (by omega)⟩ with h | ⟨h, -⟩
    · exact absurd h Nat.one_ne_zero
    · omega
  · intro hn
    refine ⟨usizeSize, fun m hm => ?_⟩
    have hm : m = 0 ∨ m = 1 ∧ n = 2 := by omega
    rcases hm with rfl | ⟨rfl, rfl⟩
    · exact selectedWithin_first n
    · refine selectedWithin_last Nat.two_pos (by decide) fun j hpos hj => ?_
      have hj : j = 1 ∨ j = 2 := by omega
      rcases hj with rfl | rfl
      · exact Nat.one_dvd 2
      · exact Nat.dvd_refl 2

/-- The second of three targets is healthy throughout and never selected, when the first one is up
    with it at every even counter value and the third one at every odd value. -/
theorem second_of_three_starved : ¬ ∀ n, ∃ K, ∀ m < n, SelectedWithin n m K := by
  intro h
  obtain ⟨K, hK⟩ := h 3
  exact not_selectedWithin_of_avoidable
    (fun _ _ => avoidable_middle Nat.one_pos (Nat.lt_succ_self 2)) K (hK 1 (by decide))

end Sret
