import Mathlib.Data.List.Rotate

namespace Rotation

/-!
# Cyclic draws from a list

A sequence that takes its `j`-th element from a list `l` at position `j % l.length` — a counter
that runs round the list.  Every window of `l.length` consecutive draws, wherever it starts, is
a rotation of `l` (`window_eq_rotate`), so it contains each element as often as `l` does, and
`k` rounds contain it `k` times as often (`count_rounds`).

When the list changes between the draws, what a single draw takes is all there is:

* `draw_first`, `draw_last` — a counter that is zero takes the first element of every list, one
  that precedes a multiple of the length the last;
* `filter_range_interval` — the positions of an interval among all positions.

* `distance`, `distance_advance` — how far a counter is from a position that it comes to.
-/

variable {α : Type*}

/-- The sequence `s` draws from `l` in cyclic order, from position `0` on. -/
def Draws (l s : List α) : Prop := ∀ j < s.length, s[j]? = l[j % l.length]?

/-- No draw at all. -/
theorem draws_nil (l : List α) : Draws l [] := by
  intro j hj
  simp at hj

/-- One more draw, at the position that the number of draws so far selects. -/
theorem Draws.snoc {l s : List α} {a : α} (h : Draws l s)
    (ha : l[s.length % l.length]? = some a) : Draws l (s ++ [a]) := by
  intro j hj
  rcases Nat.lt_or_ge j s.length with hlt | hge
  · rw [List.getElem?_append_left hlt]
    exact h j hlt
  · -- the draw that has just been made
    have hj' : j = s.length := by
      simp only [List.length_append, List.length_singleton] at hj
      omega
    subst hj'
    rw [ha]
    simp

/-- A window of `l.length` consecutive draws is `l`, rotated to where the window starts. -/
theorem Draws.window_eq_rotate {l s : List α} (h : Draws l s) (a : Nat)
    (ha : a + l.length ≤ s.length) : (s.drop a).take l.length = l.rotate a := by
  refine List.ext_getElem? fun i => ?_
  rcases Nat.lt_or_ge i l.length with hi | hi
  · have hmod : (a + i) % l.length < l.length := Nat.mod_lt _ (by omega)
    rw [List.getElem?_take_of_lt hi, List.getElem?_drop, h (a + i) (by omega),
      List.getElem?_eq_getElem hmod, List.getElem?_eq_getElem (by simpa using hi),
      List.getElem_rotate]
    simp [Nat.add_comm]
  · -- past the window both lists have ended
    rw [List.getElem?_eq_none (by simp; omega), List.getElem?_eq_none (by simpa using hi)]

/-- **Window fairness.** A window of `l.length` consecutive draws holds the elements of `l`,
    each as often as `l` does. -/
theorem Draws.window_perm {l s : List α} (h : Draws l s) (a : Nat)
    (ha : a + l.length ≤ s.length) : ((s.drop a).take l.length).Perm l := by
  rw [h.window_eq_rotate a ha]
  exact List.rotate_perm l a

/-- Without the draws of the first round, the rest draws from the list as well. -/
theorem Draws.drop_length {l s : List α} (h : Draws l s) : Draws l (s.drop l.length) := by
  intro j hj
  rw [List.length_drop] at hj
  rw [List.getElem?_drop, h _ (by omega), Nat.add_mod_left]

/-- **Whole rounds.** As many draws as fill `k` rounds hold each element `k` times as often as the
    list does. -/
theorem Draws.count_rounds [DecidableEq α] {l s : List α} (h : Draws l s) {k : Nat}
    (hk : s.length = k * l.length) (a : α) : s.count a = k * l.count a := by
  induction k generalizing s with
  | zero => simp [List.length_eq_zero_iff.mp (hk.trans (Nat.zero_mul _))]
  | succ k ih =>
    rw [Nat.succ_mul] at hk
    -- the first round, and the rounds after it
    have hround := h.window_perm 0 (by omega)
    rw [List.drop_zero] at hround
    have hrest := ih h.drop_length (by rw [List.length_drop]; omega)
    rw [← List.take_append_drop l.length s, List.count_append, hround.count_eq, hrest, Nat.succ_mul,
      Nat.add_comm]

/-! ### Single draws -/

/-- At zero the first element is drawn. -/
theorem draw_first {l : List α} {a : α} (h : l.head? = some a) : l[0 % l.length]? = some a := by
  rw [Nat.zero_mod, ← List.head?_eq_getElem?, h]

/-- One before a multiple of the length the last element is drawn. -/
theorem draw_last {l : List α} {a : α} (h : l.getLast? = some a) {c : Nat}
    (hc : l.length ∣ c + 1) : l[c % l.length]? = some a := by
  have hne : l ≠ [] := by
    rintro rfl
    simp at h
  have hpos := List.length_pos_iff.mpr hne
  have hmod : c % l.length = l.length - 1 := by
    obtain ⟨k, hk⟩ := hc
    cases k with
    | zero => omega
    | succ k =>
      rw [Nat.mul_succ] at hk
      rw [show c = l.length * k + (l.length - 1) by omega, Nat.mul_add_mod,
        Nat.mod_eq_of_lt (by omega)]
  rw [hmod, ← List.getLast?_eq_getElem?, h]

/-- The positions of an interval. -/
theorem filter_range_interval {n a j : Nat} (h : a + j ≤ n) {f : Nat → Bool}
    (hf : ∀ i, f i = true ↔ a ≤ i ∧ i < a + j) : (List.range n).filter f = List.range' a j := by
  obtain ⟨d, rfl⟩ : ∃ d, n = a + (j + d) := ⟨n - (a + j), by omega⟩
  -- the positions before the interval, in it and after it
  have hsplit : List.range (a + (j + d)) =
      List.range' 0 a ++ (List.range' a j ++ List.range' (a + j) d) := by
    rw [List.range'_append_1, List.range_eq_range', ← List.range'_append_1, Nat.zero_add]
  have hbefore : (List.range' 0 a).filter f = [] := by
    refine List.filter_eq_nil_iff.mpr fun i hi => ?_
    rw [List.mem_range'_1] at hi
    rw [hf]
    omega
  have hin : (List.range' a j).filter f = List.range' a j := by
    refine List.filter_eq_self.mpr fun i hi => ?_
    rw [List.mem_range'_1] at hi
    rwa [hf]
  have hafter : (List.range' (a + j) d).filter f = [] := by
    refine List.filter_eq_nil_iff.mpr fun i hi => ?_
    rw [List.mem_range'_1] at hi
    rw [hf]
    omega
  rw [hsplit, List.filter_append, List.filter_append, hbefore, hin, hafter, List.nil_append,
    List.append_nil]

/-! ### Distances -/

/-- How many times a counter that runs round `length` positions moves on from one to the other. -/
def distance (length position j : Nat) : Nat :=
  if position ≤ j then j - position else length + j - position

/-- A step forward is one closer. -/
theorem distance_advance {length position j : Nat} (hposition : position < length)
    (hj : j < length) (hne : position ≠ j) :
    distance length ((position + 1) % length) j + 1 = distance length position j := by
  rcases Nat.lt_or_ge (position + 1) length with hlt | hge
  · rw [Nat.mod_eq_of_lt hlt]
    unfold distance
    split <;> split <;> omega
  · rw [show position + 1 = length by omega, Nat.mod_self]
    unfold distance
    split <;> split <;> omega

end Rotation
