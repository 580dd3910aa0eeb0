import Mathlib.Data.List.Induction

namespace History

/-!
# The last write of a keyed store

A trace of events over a keyed store, where each event may drop one key and then bind one:

* `replay` — the contents the events leave behind, starting from nothing;
* `LastWrite` — the same contents told as history: a write of the key that no later event
  overwrites or drops;
* `replay_eq_some` — the two agree, so a store that follows `replay` answers every lookup with
  the last write;
* `latest` — the most recent observation that the events of a trace allow.
-/

variable {ε κ ν β : Type*}

/-- What the last event with an observation shows. -/
def latest (observe : ε → Option β) (tr : List ε) : Option β :=
  tr.foldl (fun last e => (observe e).or last) none

/-- Nothing has been seen yet. -/
@[simp] theorem latest_nil (observe : ε → Option β) : latest observe [] = none := rfl

/-- The last event counts, if anything is seen of it. -/
theorem latest_snoc (observe : ε → Option β) (tr : List ε) (e : ε) :
    latest observe (tr ++ [e]) = (observe e).or (latest observe tr) := by
  simp [latest]

/-- The latest observation was made by one of the events. -/
theorem exists_of_latest {observe : ε → Option β} {tr : List ε} {b : β}
    (h : latest observe tr = some b) : ∃ e ∈ tr, observe e = some b := by
  induction tr using List.reverseRecOn with
  | nil => simp at h
  | append_singleton tr e ih =>
    rw [latest_snoc] at h
    cases he : observe e with
    | some b' =>
      -- the last event observes something, so it is the one
      rw [he, Option.some_or] at h
      exact ⟨e, by simp, he.trans h⟩
    | none =>
      rw [he, Option.none_or] at h
      obtain ⟨e', hmem, he'⟩ := ih h
      exact ⟨e', by simp [hmem], he'⟩

/-- What one event does to the store: it drops a key, then binds a key. -/
structure Effect (κ ν : Type*) where
  dropped : Option κ
  written : Option (κ × ν)

/-- The event binds or drops the key. -/
def Effect.Touches (e : Effect κ ν) (k : κ) : Prop :=
  e.dropped = some k ∨ ∃ v, e.written = some (k, v)

/-- The event `e` of the trace wrote `v` at `k`, and nothing after it touches `k`. -/
def LastWrite (effect : ε → Effect κ ν) (tr : List ε) (k : κ) (v : ν) : Prop :=
  ∃ xs e ys, tr = xs ++ e :: ys ∧ (effect e).written = some (k, v) ∧
    ∀ e' ∈ ys, ¬ (effect e').Touches k

/-- A last write survives an event that does not touch its key. -/
theorem LastWrite.snoc {effect : ε → Effect κ ν} {tr : List ε} {k : κ} {v : ν}
    (h : LastWrite effect tr k v) {e : ε} (he : ¬ (effect e).Touches k) :
    LastWrite effect (tr ++ [e]) k v := by
  obtain ⟨xs, w, ys, rfl, hw, hys⟩ := h
  refine ⟨xs, w, ys ++ [e], by simp, hw, fun e' he' => ?_⟩
  rcases List.mem_append.mp he' with h' | h'
  · exact hys e' h'
  · rw [List.mem_singleton.mp h']
    exact he

/-- The last event of a trace either is the last write or leaves an earlier one in place. -/
theorem LastWrite.of_snoc {effect : ε → Effect κ ν} {tr : List ε} {k : κ} {v : ν} {e : ε}
    (h : LastWrite effect (tr ++ [e]) k v) :
    (effect e).written = some (k, v) ∨ (¬ (effect e).Touches k ∧ LastWrite effect tr k v) := by
  obtain ⟨xs, w, ys, heq, hw, hys⟩ := h
  -- by the last event after the write, if there is one
  induction ys using List.reverseRecOn with
  | nil =>
    obtain ⟨-, he⟩ := List.append_inj' heq rfl
    obtain rfl : e = w := by simpa using he
    exact Or.inl hw
  | append_singleton ys y _ =>
    have heq' : tr ++ [e] = (xs ++ w :: ys) ++ [y] := by simpa using heq
    obtain ⟨rfl, he⟩ := List.append_inj' heq' rfl
    obtain rfl : e = y := by simpa using he
    exact Or.inr ⟨hys e (by simp), xs, w, ys, rfl, hw, fun e' he' => hys e' (by simp [he'])⟩

variable [DecidableEq κ]

/-- The contents after the event. -/
def Effect.apply (e : Effect κ ν) (m : κ → Option ν) (k : κ) : Option ν :=
  match e.written with
  | some (k', v) => if k' = k then some v else if e.dropped = some k then none else m k
  | none => if e.dropped = some k then none else m k

/-- A written key has its value. -/
theorem Effect.apply_written {e : Effect κ ν} {k : κ} {v : ν} (h : e.written = some (k, v))
    (m : κ → Option ν) : e.apply m k = some v := by
  simp [Effect.apply, h]

/-- A key that the event does not touch keeps its value. -/
theorem Effect.apply_of_not_touches {e : Effect κ ν} {k : κ} (h : ¬ e.Touches k)
    (m : κ → Option ν) : e.apply m k = m k := by
  simp only [Effect.Touches, not_or, not_exists] at h
  obtain ⟨hd, hw⟩ := h
  unfold Effect.apply
  split
  · rename_i k' v hk
    have hne : k' ≠ k := by
      rintro rfl
      exact hw v hk
    rw [if_neg hne, if_neg hd]
  · rw [if_neg hd]

/-- A key that the event touches without writing it is gone. -/
theorem Effect.apply_dropped {e : Effect κ ν} {k : κ} (h : e.Touches k)
    (hw : ∀ v, e.written ≠ some (k, v)) (m : κ → Option ν) : e.apply m k = none := by
  have hd : e.dropped = some k := by
    rcases h with hd | ⟨v, hv⟩
    · exact hd
    · exact absurd hv (hw v)
  unfold Effect.apply
  split
  · rename_i k' v hk
    have hne : k' ≠ k := by
      rintro rfl
      exact hw v hk
    rw [if_neg hne, if_pos hd]
  · rw [if_pos hd]

/-- The contents after the events of the trace, from an empty store. -/
def replay (effect : ε → Effect κ ν) (tr : List ε) : κ → Option ν :=
  tr.foldl (fun m e => (effect e).apply m) (fun _ => none)

/-- Nothing has been written yet. -/
@[simp] theorem replay_nil (effect : ε → Effect κ ν) (k : κ) : replay effect [] k = none := rfl

/-- The last event is applied to what the others have left. -/
theorem replay_snoc (effect : ε → Effect κ ν) (tr : List ε) (e : ε) :
    replay effect (tr ++ [e]) = (effect e).apply (replay effect tr) := by
  simp [replay]

/-- **Replaying is reading the last write.** -/
theorem replay_eq_some {effect : ε → Effect κ ν} {tr : List ε} {k : κ} {v : ν} :
    replay effect tr k = some v ↔ LastWrite effect tr k v := by
  induction tr using List.reverseRecOn generalizing v with
  | nil => simp [LastWrite]
  | append_singleton tr e ih =>
    rw [replay_snoc]
    by_cases ht : (effect e).Touches k
    · -- a key that the last event touches holds what that event wrote, or nothing
      by_cases hw : ∃ w, (effect e).written = some (k, w)
      · obtain ⟨w, hw⟩ := hw
        rw [Effect.apply_written hw]
        constructor
        · intro h
          rw [← Option.some.inj h]
          exact ⟨tr, e, [], rfl, hw, by simp⟩
        · intro h
          rcases h.of_snoc with h' | ⟨h', -⟩
          · simpa [hw] using h'
          · exact absurd ht h'
      · have hw' : ∀ w, (effect e).written ≠ some (k, w) := fun w h => hw ⟨w, h⟩
        rw [Effect.apply_dropped ht hw']
        constructor
        · intro h
          simp at h
        · intro h
          rcases h.of_snoc with h' | ⟨h', -⟩
          · exact absurd h' (hw' v)
          · exact absurd ht h'
    · -- any other key is left to the events before
      rw [Effect.apply_of_not_touches ht, ih]
      constructor
      · intro h
        exact h.snoc ht
      · intro h
        rcases h.of_snoc with h' | ⟨-, h'⟩
        · exact absurd (Or.inr ⟨v, h'⟩) ht
        · exact h'

end History
