import Mathlib.Data.List.Basic

namespace Tasks

/-!
# Numbered tasks

A list of tasks, each known by its position.  A task starts by being appended and moves on by
having its place overwritten, so every task keeps its number and everything about it that the
overwriting keeps:

* `of_set`, `of_append` — where a task of the list after a step comes from;
* `keeps_set`, `keeps_append` — a task of the list before a step is there after it;
* `moves_set` — an overwriting moves its own task only;
* `map_set` — an overwriting that keeps something about its task keeps it about all;
* `frozen_set`, `frozen_append` — a task in a state that no overwriting starts from stays as it is;
* `exists_start` — the task with a number was started by the entry of the log with this number.
-/

variable {α β : Type*}

/-- A task after an overwriting is the new one, or an old one at another place. -/
theorem of_set {tasks : List α} {i j : Nat} {a x : α} (h : (tasks.set i a)[j]? = some x) :
    (i = j ∧ a = x) ∨ (i ≠ j ∧ tasks[j]? = some x) := by
  rw [List.getElem?_set] at h
  by_cases hij : i = j
  · rw [if_pos hij] at h
    split at h
    · exact Or.inl ⟨hij, Option.some.inj h⟩
    · simp at h
  · rw [if_neg hij] at h
    exact Or.inr ⟨hij, h⟩

/-- A task after an append is an old one or a new one. -/
theorem of_append {tasks new : List α} {j : Nat} {x : α} (h : (tasks ++ new)[j]? = some x) :
    tasks[j]? = some x ∨ tasks.length ≤ j ∧ new[j - tasks.length]? = some x := by
  rw [List.getElem?_append] at h
  split at h
  · exact Or.inl h
  · rename_i hj
    exact Or.inr ⟨Nat.le_of_not_lt hj, h⟩

/-- An overwriting that keeps `f` of the task at its place keeps `f` of every task. -/
theorem keeps_set (f : α → β) {tasks : List α} {i : Nat} {a b : α} (hb : tasks[i]? = some b)
    (hf : f a = f b) {j : Nat} {x : α} (hx : tasks[j]? = some x) :
    ∃ y, (tasks.set i a)[j]? = some y ∧ f y = f x := by
  obtain ⟨hj, -⟩ := List.getElem?_eq_some_iff.mp hx
  by_cases hij : i = j
  · subst hij
    obtain rfl : b = x := Option.some.inj (hb.symm.trans hx)
    exact ⟨a, by rw [List.getElem?_set_self hj], hf⟩
  · exact ⟨x, by rw [List.getElem?_set_ne hij, hx], rfl⟩

/-- An overwriting that raises the rank of the task at its place leaves the others alone. -/
theorem moves_set (rank : α → Nat) {tasks : List α} {i : Nat} {a b : α} (hb : tasks[i]? = some b)
    (hlt : rank b < rank a) {j : Nat} {x : α} (hx : tasks[j]? = some x) :
    ∃ y, (tasks.set i a)[j]? = some y ∧ (i = j → rank x < rank y) ∧ (i ≠ j → y = x) := by
  obtain ⟨hj, -⟩ := List.getElem?_eq_some_iff.mp hx
  by_cases hij : i = j
  · subst hij
    obtain rfl : b = x := Option.some.inj (hb.symm.trans hx)
    exact ⟨a, List.getElem?_set_self hj, fun _ => hlt, fun hne => absurd rfl hne⟩
  · exact ⟨x, by rw [List.getElem?_set_ne hij, hx], fun h => absurd h hij, fun _ => rfl⟩

/-- An overwriting that keeps something about the task at its place keeps it about all tasks. -/
theorem map_set (f : α → β) {tasks : List α} {i : Nat} {a b : α} (hb : tasks[i]? = some b)
    (hf : f a = f b) : (tasks.set i a).map f = tasks.map f := by
  obtain ⟨hi, rfl⟩ := List.getElem?_eq_some_iff.mp hb
  rw [List.map_set, hf, ← List.getElem_map f (h := by simpa using hi), List.set_getElem_self]

/-- An append keeps every task. -/
theorem keeps_append (f : α → β) {tasks : List α} (new : List α) {j : Nat} {x : α}
    (hx : tasks[j]? = some x) : ∃ y, (tasks ++ new)[j]? = some y ∧ f y = f x := by
  obtain ⟨hj, -⟩ := List.getElem?_eq_some_iff.mp hx
  exact ⟨x, by rw [List.getElem?_append_left hj, hx], rfl⟩

/-- A task with a property that no overwritten task has is not overwritten. -/
theorem frozen_set (P : α → Prop) {tasks : List α} {i j : Nat} {x z : α} (hz : tasks[i]? = some z)
    (hP : P z) (hx : tasks[j]? = some x) (hnot : ¬ P x) (y : α) :
    (tasks.set j y)[i]? = some z := by
  have hij : j ≠ i := by
    rintro rfl
    obtain rfl : x = z := Option.some.inj (hx.symm.trans hz)
    exact hnot hP
  rw [List.getElem?_set_ne hij, hz]

/-- An append overwrites nothing. -/
theorem frozen_append {tasks : List α} {i : Nat} {z : α} (hz : tasks[i]? = some z)
    (new : List α) : (tasks ++ new)[i]? = some z := by
  obtain ⟨hi, -⟩ := List.getElem?_eq_some_iff.mp hz
  rw [List.getElem?_append_left hi, hz]

/-- Where a log starts the task with a number: as many were started before. -/
theorem exists_start {start : α → Option β} {log : List α} {j : Nat} {b : β}
    (h : (log.filterMap start)[j]? = some b) :
    ∃ pre a post, log = pre ++ a :: post ∧ start a = some b ∧
      (pre.filterMap start).length = j := by
  obtain ⟨hj, rfl⟩ := List.getElem?_eq_some_iff.mp h
  have hcut := (List.take_append_drop j (log.filterMap start)).symm
  rw [List.drop_eq_getElem_cons hj] at hcut
  obtain ⟨before, rest, rfl, hbefore, hrest⟩ := List.filterMap_eq_append_iff.mp hcut
  obtain ⟨skipped, a, post, rfl, hskipped, ha, -⟩ := List.filterMap_eq_cons_iff.mp hrest
  refine ⟨before ++ skipped, a, post, by rw [List.append_assoc], ha, ?_⟩
  -- nothing is started between the task before and this one
  rw [List.filterMap_append, List.filterMap_eq_nil_iff.mpr hskipped, List.append_nil, hbefore,
    List.length_take, Nat.min_eq_left (Nat.le_of_lt hj)]

end Tasks
