import Mathlib.Data.List.MinMax

namespace MinBy

/-!
# The minimum of a list by a comparison

`minBy` keeps the best element that it has met, and takes the next one only when that compares
less, as Rust's `Iterator::min_by` does.

* `minBy_map` — renaming the elements renames the minimum;
* `minBy_eq_argmin` — with a comparison of values in a linear order it is Mathlib's `argmin`;
* `exists_split_of_argmin` — the element that `argmin` returns is the first of the minima: what
  comes before it is greater, what comes after it is not less.
-/

variable {α β : Type*}

/-- `Iterator::min_by`: of two elements that compare equal the earlier one is kept. -/
def minBy (cmp : α → α → Ordering) : List α → Option α
  | [] => none
  | a :: l => some (l.foldl (fun best b => if cmp best b = .gt then b else best) a)

theorem minBy_concat (cmp : α → α → Ordering) (l : List α) (b : α) :
    minBy cmp (l ++ [b]) =
      some ((minBy cmp l).elim b fun best => if cmp best b = .gt then b else best) := by
  cases l with
  | nil => rfl
  | cons a l =>
    show some ((l ++ [b]).foldl _ a) = _
    rw [List.foldl_append]
    rfl

/-- The minimum is an element of the list. -/
theorem mem_of_minBy {cmp : α → α → Ordering} {l : List α} {m : α} (h : minBy cmp l = some m) :
    m ∈ l := by
  induction l using List.reverseRecOn generalizing m with
  | nil => simp [minBy] at h
  | append_singleton l b ih =>
    rw [minBy_concat, Option.some.injEq] at h
    cases hl : minBy cmp l with
    | none => simp [← h, hl]
    | some best =>
      simp only [hl, Option.elim] at h
      split at h
      · simp [← h]
      · rw [← h]
        exact List.mem_append_left _ (ih hl)

/-- Renaming the elements of the list, with a comparison that follows. -/
theorem minBy_map (f : α → β) {cmp : α → α → Ordering} {cmp' : β → β → Ordering} {l : List α}
    (h : ∀ a ∈ l, ∀ b ∈ l, cmp' (f a) (f b) = cmp a b) :
    minBy cmp' (l.map f) = (minBy cmp l).map f := by
  induction l using List.reverseRecOn with
  | nil => rfl
  | append_singleton l b ih =>
    have ih' := ih fun a ha b hb => h a (List.mem_append_left _ ha) b (List.mem_append_left _ hb)
    rw [List.map_append, List.map_singleton, minBy_concat, minBy_concat, ih']
    cases hl : minBy cmp l with
    | none => rfl
    | some best =>
      have hbest := h best (List.mem_append_left _ (mem_of_minBy hl)) b (by simp)
      simp only [Option.map_some, Option.elim, hbest]
      split
      · rfl
      · rfl

variable [LinearOrder β]

/-- **A comparison of values finds the minimum of the values.** -/
theorem minBy_eq_argmin {cmp : α → α → Ordering} {f : α → β}
    (h : ∀ a b, cmp a b = compare (f a) (f b)) (l : List α) : minBy cmp l = l.argmin f := by
  induction l using List.reverseRecOn with
  | nil => rfl
  | append_singleton l b ih =>
    rw [minBy_concat, List.argmin_concat, ih]
    cases l.argmin f with
    | none => rfl
    | some best =>
      simp only [Option.elim, h, compare_gt_iff_gt]
      split
      · rfl
      · rfl

/-- **The minimum is the first one.** -/
theorem exists_split_of_argmin {f : α → β} {l : List α} {m : α} (h : l.argmin f = some m) :
    ∃ pre post, l = pre ++ m :: post ∧ (∀ a ∈ pre, f m < f a) ∧ ∀ a ∈ post, f m ≤ f a := by
  induction l using List.reverseRecOn generalizing m with
  | nil => simp at h
  | append_singleton l b ih =>
    rw [List.argmin_concat] at h
    cases hl : l.argmin f with
    | none =>
      -- the first element of all
      obtain rfl := List.argmin_eq_none.mp hl
      rw [hl] at h
      obtain rfl := Option.some.inj h
      exact ⟨[], [], rfl, by simp, by simp⟩
    | some best =>
      obtain ⟨pre, post, rfl, hpre, hpost⟩ := ih hl
      simp only [hl] at h
      split at h
      · rename_i hlt
        obtain rfl := Option.some.inj h
        refine ⟨pre ++ best :: post, [], rfl, fun a ha => ?_, by simp⟩
        rcases List.mem_append.mp ha with ha | ha
        · exact hlt.trans (hpre a ha)
        · rcases List.mem_cons.mp ha with rfl | ha
          · exact hlt
          · exact hlt.trans_le (hpost a ha)
      · rename_i hge
        obtain rfl := Option.some.inj h
        refine ⟨pre, post ++ [b], by simp, hpre, fun a ha => ?_⟩
        rcases List.mem_append.mp ha with ha | ha
        · exact hpost a ha
        · obtain rfl := List.mem_singleton.mp ha
          exact not_lt.mp hge

end MinBy
