import Mathlib.Data.List.Nodup
import Mathlib.Data.List.Range
import Sret.Foundation.Tasks
import Sret.Foundation.Transition

namespace Atomic

open Transition

/-!
# Programs of atomic calls

Threads that share a memory and touch it by atomic calls only, over any memory and any calls.

* `Program` — a thread: it is done, or it makes a call and goes on with the reply; `eval` runs it
  without interruption, `Step` interleaves the calls of several threads;
* `Answers` — what a program can return when anything may happen to the memory between its calls;
* `Quiet`, `OneShot` — programs all of whose calls read a part of the memory that no call changes,
  and programs with at most one other call;
* `linearizable` — any number of one-shot programs, interleaved call by call, do what they do
  when each runs as a whole, in an order that keeps those apart that did not overlap;
* `answers_of_run` — threads between whose calls anything may be written.
-/

variable {Op : Type} {Reply : Op → Type} {σ ω α β ρ : Type}

/-- A thread: it is done, or it makes an atomic call and goes on with the reply. -/
inductive Program (Op : Type) (Reply : Op → Type) (ρ : Type)
  | done (result : ρ)
  | call (op : Op) (next : Reply op → Program Op Reply ρ)

namespace Program

/-- The second program goes on with the result of the first. -/
def bind : Program Op Reply α → (α → Program Op Reply β) → Program Op Reply β
  | .done a, f => f a
  | .call op next, f => .call op fun r => (next r).bind f

/-- Programs are written with `do`. -/
instance : Monad (Program Op Reply) where
  pure := .done
  bind := bind

/-- Returning is being done. -/
@[simp] theorem pure_eq (a : α) : (pure a : Program Op Reply α) = .done a := rfl

/-- A program that is done hands its result on. -/
@[simp] theorem done_bind (a : α) (f : α → Program Op Reply β) : .done a >>= f = f a := rfl

/-- A call comes before the rest of both programs. -/
@[simp] theorem call_bind (op : Op) (next : Reply op → Program Op Reply α)
    (f : α → Program Op Reply β) :
    .call op next >>= f = .call op fun r => next r >>= f := rfl

/-- The program that makes one call. -/
def perform (op : Op) : Program Op Reply (Reply op) := .call op .done

/-- The elements that a test keeps, tested in order. -/
def filter (test : α → Program Op Reply Bool) : List α → Program Op Reply (List α)
  | [] => pure []
  | a :: l => do
    let keep ← test a
    let rest ← filter test l
    return if keep then a :: rest else rest

/-- A left fold. -/
def fold (f : β → α → Program Op Reply β) (b : β) : List α → Program Op Reply β
  | [] => pure b
  | a :: l => do
    let b' ← f b a
    fold f b' l

end Program

/-! ### Without interruption -/

section Eval

variable (exec : (op : Op) → σ → Reply op × σ)

/-- The program runs from beginning to end. -/
def Program.eval : Program Op Reply ρ → σ → ρ × σ
  | .done a, s => (a, s)
  | .call op next, s => (next (exec op s).1).eval (exec op s).2

/-- A program that is done leaves the memory as it is. -/
@[simp] theorem Program.eval_done (a : ρ) (s : σ) :
    (.done a : Program Op Reply ρ).eval exec s = (a, s) := rfl

/-- A call is executed, and the rest runs on the memory that it leaves. -/
@[simp] theorem Program.eval_call (op : Op) (next : Reply op → Program Op Reply ρ) (s : σ) :
    (Program.call op next).eval exec s = (next (exec op s).1).eval exec (exec op s).2 := rfl

/-- The second program runs on the memory that the first one leaves. -/
@[simp] theorem Program.eval_bind (p : Program Op Reply α) (f : α → Program Op Reply β) (s : σ) :
    (p >>= f).eval exec s = (f (p.eval exec s).1).eval exec (p.eval exec s).2 := by
  induction p generalizing s with
  | done a => rfl
  | call op next ih => exact ih _ _

/-- A filter whose test leaves the memory as it is. -/
theorem Program.eval_filter {test : α → Program Op Reply Bool} {f : α → Bool} {s : σ} {l : List α}
    (h : ∀ a ∈ l, (test a).eval exec s = (f a, s)) :
    (filter test l).eval exec s = (l.filter f, s) := by
  induction l with
  | nil => rfl
  | cons a l ih =>
    have hrest := ih fun b hb => h b (List.mem_cons_of_mem a hb)
    simp only [filter, eval_bind, h a List.mem_cons_self, hrest, pure_eq, eval_done,
      List.filter_cons]

/-- A fold whose steps leave the memory as it is. -/
theorem Program.eval_fold {f : β → α → Program Op Reply β} {g : β → α → β} {s : σ} {l : List α}
    {P : β → Prop} {b : β} (hb : P b)
    (h : ∀ b, P b → ∀ a ∈ l, (f b a).eval exec s = (g b a, s) ∧ P (g b a)) :
    (fold f b l).eval exec s = (l.foldl g b, s) := by
  induction l generalizing b with
  | nil => rfl
  | cons a l ih =>
    obtain ⟨hstep, hnext⟩ := h b hb a List.mem_cons_self
    simp only [fold, eval_bind, hstep, List.foldl_cons]
    exact ih hnext fun b' hb' a' ha' => h b' hb' a' (List.mem_cons_of_mem a ha')

end Eval

/-! ### With interference -/

/-- The program may return the result when its calls meet these memories, one after the other;
    what happens in between is not restricted. -/
inductive Answers (exec : (op : Op) → σ → Reply op × σ) :
    Program Op Reply ρ → List σ → ρ → Prop
  | done (a : ρ) : Answers exec (.done a) [] a
  | call {op : Op} {next : Reply op → Program Op Reply ρ} {s : σ} {met : List σ} {a : ρ} :
      Answers exec (next (exec op s).1) met a → Answers exec (.call op next) (s :: met) a

section Answers

variable {exec : (op : Op) → σ → Reply op × σ}

/-- The memories that a sequence meets are those of the first program and then those of the second.
    -/
theorem Answers.of_bind {p : Program Op Reply α} {f : α → Program Op Reply β} {met : List σ}
    {b : β} (h : Answers exec (p >>= f) met b) :
    ∃ met₁ met₂ a, met = met₁ ++ met₂ ∧ Answers exec p met₁ a ∧ Answers exec (f a) met₂ b := by
  induction p generalizing met with
  | done a => exact ⟨[], met, a, rfl, Answers.done a, h⟩
  -- the first memory is the one that the call of the first program meets
  | call op next ih =>
    cases h with
    | call h =>
      obtain ⟨met₁, met₂, a, rfl, hp, hf⟩ := ih _ h
      exact ⟨_ :: met₁, met₂, a, rfl, Answers.call hp, hf⟩

/-- A program that is done returns its result. -/
theorem Answers.of_done {a b : ρ} {met : List σ}
    (h : Answers exec (.done a : Program Op Reply ρ) met b) : b = a := by
  cases h
  rfl

/-- What a call replies, it replies to a memory that it meets. -/
theorem Answers.of_perform {op : Op} {met : List σ} {r : Reply op}
    (h : Answers exec (Program.perform op) met r) : ∃ s ∈ met, r = (exec op s).1 := by
  cases h with
  | call h => exact ⟨_, List.mem_cons_self, h.of_done⟩

/-- What a filter keeps, its test has accepted. -/
theorem Answers.of_filter {test : α → Program Op Reply Bool} {l kept : List α} {met : List σ}
    (h : Answers exec (Program.filter test l) met kept) :
    ∀ a ∈ kept, a ∈ l ∧ ∃ met', met' ⊆ met ∧ Answers exec (test a) met' true := by
  induction l generalizing met kept with
  | nil =>
    obtain rfl := h.of_done
    simp
  | cons a l ih =>
    -- the test of the first element comes before the rest of the filter
    obtain ⟨met₁, _, keep, rfl, htest, h⟩ := h.of_bind
    obtain ⟨met₂, met₃, rest, rfl, hrest, h⟩ := h.of_bind
    obtain rfl := h.of_done
    have hrest' : ∀ b ∈ rest, b ∈ a :: l ∧ ∃ met', met' ⊆ met₁ ++ (met₂ ++ met₃) ∧
        Answers exec (test b) met' true := by
      intro b hb
      obtain ⟨hmem, met', hsub, hans⟩ := ih hrest b hb
      exact ⟨List.mem_cons_of_mem a hmem, met', fun s hs => by simp [hsub hs], hans⟩
    intro b hb
    split at hb
    · rename_i hkeep
      rcases List.mem_cons.mp hb with rfl | hb
      · exact ⟨List.mem_cons_self, met₁, List.subset_append_left _ _, hkeep ▸ htest⟩
      · exact hrest' b hb
    · exact hrest' b hb

/-- What a fold keeps in every step, its result has. -/
theorem Answers.of_fold {f : β → α → Program Op Reply β} {P : β → Prop} {l : List α} {b b' : β}
    {met : List σ} (h : Answers exec (Program.fold f b l) met b') (hb : P b)
    (hstep : ∀ b, P b → ∀ a ∈ l, ∀ met' b', met' ⊆ met → Answers exec (f b a) met' b' → P b') :
    P b' := by
  induction l generalizing b met with
  | nil =>
    obtain rfl := h.of_done
    exact hb
  | cons a l ih =>
    obtain ⟨met₁, met₂, b₁, rfl, hfirst, h⟩ := h.of_bind
    have hb₁ := hstep b hb a List.mem_cons_self met₁ b₁ (List.subset_append_left met₁ met₂) hfirst
    exact ih h hb₁ fun b hb a' ha' met' b' hsub =>
      hstep b hb a' (List.mem_cons_of_mem a ha') met' b'
        (List.Subset.trans hsub (List.subset_append_right met₁ met₂))

end Answers

/-! ### Threads -/

/-- The memory and what is left of each program. -/
structure Threads (Op : Type) (Reply : Op → Type) (σ ρ : Type) where
  memory : σ
  programs : List (Program Op Reply ρ)

section Threads

variable (exec : (op : Op) → σ → Reply op × σ)

/-- The thread with the number makes its next call. -/
def Step (s : Threads Op Reply σ ρ) (i : Nat) (s' : Threads Op Reply σ ρ) : Prop :=
  ∃ op next, s.programs[i]? = some (.call op next) ∧
    s' = ⟨(exec op s.memory).2, s.programs.set i (next (exec op s.memory).1)⟩

/-- No thread is lost. -/
theorem Step.length {exec : (op : Op) → σ → Reply op × σ} {s s' : Threads Op Reply σ ρ} {i : Nat}
    (h : Step exec s i s') : s'.programs.length = s.programs.length := by
  obtain ⟨op, next, -, rfl⟩ := h
  exact List.length_set

/-- The thread with the number runs as a whole, and returns the result. -/
def Whole (programs : List (Program Op Reply ρ)) (s : σ) (x : Nat × ρ) (s' : σ) : Prop :=
  ∃ p, programs[x.1]? = some p ∧ p.eval exec s = (x.2, s')

/-- The call reads a part of the memory, and writes nothing. -/
def Reads (view : σ → ω) (op : Op) : Prop :=
  ∃ read : ω → Reply op, ∀ s, exec op s = (read (view s), s)

/-- All calls read. -/
inductive Quiet (view : σ → ω) : Program Op Reply ρ → Prop
  | done (a : ρ) : Quiet view (.done a)
  | call {op : Op} {next : Reply op → Program Op Reply ρ} :
      Reads exec view op → (∀ r, Quiet view (next r)) → Quiet view (.call op next)

/-- All calls read, but for one at most. -/
inductive OneShot (view : σ → ω) : Program Op Reply ρ → Prop
  | done (a : ρ) : OneShot view (.done a)
  | read {op : Op} {next : Reply op → Program Op Reply ρ} :
      Reads exec view op → (∀ r, OneShot view (next r)) → OneShot view (.call op next)
  | shot {op : Op} {next : Reply op → Program Op Reply ρ} :
      (∀ r, Quiet exec view (next r)) → OneShot view (.call op next)

end Threads

section Quiet

variable {exec : (op : Op) → σ → Reply op × σ} {view : σ → ω}

/-- A quiet program has no other call at all. -/
theorem Quiet.oneShot {p : Program Op Reply ρ} (h : Quiet exec view p) : OneShot exec view p := by
  induction h with
  | done a => exact OneShot.done a
  | call hreads _ ih => exact OneShot.read hreads ih

/-- A sequence of quiet programs is quiet. -/
theorem Quiet.bind {p : Program Op Reply α} (h : Quiet exec view p)
    {f : α → Program Op Reply β} (hf : ∀ a, Quiet exec view (f a)) :
    Quiet exec view (p >>= f) := by
  induction h with
  | done a => exact hf a
  | call hreads _ ih => exact Quiet.call hreads ih

/-- A quiet program may come before a one-shot program. -/
theorem Quiet.bind_oneShot {p : Program Op Reply α} (h : Quiet exec view p)
    {f : α → Program Op Reply β} (hf : ∀ a, OneShot exec view (f a)) :
    OneShot exec view (p >>= f) := by
  induction h with
  | done a => exact hf a
  | call hreads _ ih => exact OneShot.read hreads ih

/-- A call that reads is quiet. -/
theorem Quiet.perform {op : Op} (h : Reads exec view op) :
    Quiet exec view (Program.perform op : Program Op Reply (Reply op)) :=
  Quiet.call h fun r => Quiet.done r

/-- A filter with a quiet test is quiet. -/
theorem Quiet.filter {test : α → Program Op Reply Bool} (h : ∀ a, Quiet exec view (test a))
    (l : List α) : Quiet exec view (Program.filter test l) := by
  induction l with
  | nil => exact Quiet.done _
  | cons a l ih => exact (h a).bind fun keep => ih.bind fun rest => Quiet.done _

/-- A fold with quiet steps is quiet. -/
theorem Quiet.fold {f : β → α → Program Op Reply β} (h : ∀ b a, Quiet exec view (f b a)) (b : β)
    (l : List α) : Quiet exec view (Program.fold f b l) := by
  induction l generalizing b with
  | nil => exact Quiet.done _
  | cons a l ih => exact (h b a).bind fun b' => ih b'

/-- A quiet program writes nothing. -/
theorem Quiet.eval_snd {p : Program Op Reply ρ} (h : Quiet exec view p) (s : σ) :
    (p.eval exec s).2 = s := by
  induction h with
  | done a => rfl
  | call hreads _ ih =>
    obtain ⟨read, hread⟩ := hreads
    rw [Program.eval_call, hread]
    exact ih _

/-- What a quiet program returns depends on what it reads. -/
theorem Quiet.eval_fst {p : Program Op Reply ρ} (h : Quiet exec view p) {s s' : σ}
    (hview : view s' = view s) : (p.eval exec s').1 = (p.eval exec s).1 := by
  induction h with
  | done a => rfl
  | call hreads _ ih =>
    obtain ⟨read, hread⟩ := hreads
    rw [Program.eval_call, Program.eval_call, hread, hread, hview]
    exact ih _

/-- After a call that reads, the rest of a program does what the program would have done. -/
theorem Reads.eval_next {op : Op} (h : Reads exec view op) {s s' : σ} (hview : view s' = view s)
    (next : Reply op → Program Op Reply ρ) :
    (next (exec op s).1).eval exec s' = (Program.call op next).eval exec s' := by
  obtain ⟨read, hread⟩ := h
  rw [Program.eval_call, hread, hread, hview]

/-- A call that reads leaves the memory as it is. -/
theorem Reads.snd {op : Op} (h : Reads exec view op) (s : σ) : (exec op s).2 = s := by
  obtain ⟨read, hread⟩ := h
  rw [hread]

end Quiet

/-! ### Linearizability -/

/-- A one-shot program that is about to make a call: the call reads, or it is the shot. -/
theorem OneShot.cases_call {exec : (op : Op) → σ → Reply op × σ} {view : σ → ω} {op : Op}
    {next : Reply op → Program Op Reply ρ} (h : OneShot exec view (.call op next)) :
    (Reads exec view op ∧ ∀ r, OneShot exec view (next r)) ∨ ∀ r, Quiet exec view (next r) := by
  cases h with
  | read hreads hnext => exact Or.inl ⟨hreads, hnext⟩
  | shot hnext => exact Or.inr hnext

/-- The threads of the list have taken effect, in this order.  What is left of each of them only
    computes the result that is noted; all others have done nothing yet that could be seen, and
    will do as a whole what they would have done at the start. -/
structure Linearized (exec : (op : Op) → σ → Reply op × σ) (view : σ → ω)
    (programs : List (Program Op Reply ρ)) (start : σ) (order : List (Nat × ρ))
    (s : Threads Op Reply σ ρ) : Prop where
  view_eq : view s.memory = view start
  whole : Run (Whole exec programs) start order s.memory
  nodup : (order.map Prod.fst).Nodup
  settled : ∀ i a, (i, a) ∈ order → ∃ q, s.programs[i]? = some q ∧ Quiet exec view q ∧
    (q.eval exec s.memory).1 = a
  pending : ∀ i p, i ∉ order.map Prod.fst → programs[i]? = some p →
    ∃ op next, s.programs[i]? = some (.call op next) ∧ OneShot exec view (.call op next) ∧
      ∀ m, view m = view start → (Program.call op next).eval exec m = p.eval exec m
  same : s.programs.length = programs.length

section Linearized

variable {exec : (op : Op) → σ → Reply op × σ} {view : σ → ω}
  {programs : List (Program Op Reply ρ)} {start : σ} {order : List (Nat × ρ)}
  {s s' : Threads Op Reply σ ρ} {i : Nat}

/-- The thread has taken effect, and a later call of it changes nothing. -/
theorem Linearized.step_settled (h : Linearized exec view programs start order s)
    (hi : i ∈ order.map Prod.fst) (hstep : Step exec s i s') :
    Linearized exec view programs start order s' := by
  obtain ⟨op, next, hcall, rfl⟩ := hstep
  obtain ⟨⟨j, a⟩, hmem, rfl⟩ := List.mem_map.mp hi
  obtain ⟨q, hq, hquiet, hresult⟩ := h.settled j a hmem
  obtain rfl : q = .call op next := Option.some.inj (hq.symm.trans hcall)
  cases hquiet with
  | call hreads hnext =>
    have hmemory : (exec op s.memory).2 = s.memory := hreads.snd s.memory
    -- the call reads, so nothing changes but what is left of the thread
    refine ⟨by rw [hmemory, h.view_eq], hmemory.symm ▸ h.whole, h.nodup, fun k b hk => ?_,
      fun k p hk hp => ?_, by rw [List.length_set, h.same]⟩
    · obtain ⟨q, hq', hquiet', hresult'⟩ := h.settled k b hk
      by_cases hjk : j = k
      · subst hjk
        obtain ⟨hj, -⟩ := List.getElem?_eq_some_iff.mp hcall
        obtain rfl : a = b := by
          rw [← hresult, ← hresult', Option.some.inj (hcall.symm.trans hq')]
        refine ⟨_, List.getElem?_set_self hj, hnext _, ?_⟩
        rw [hmemory, hreads.eval_next rfl, hresult]
      · refine ⟨q, by rw [List.getElem?_set_ne hjk, hq'], hquiet', ?_⟩
        rw [hmemory, hresult']
    · obtain ⟨op', next', hcall', hone, heval⟩ := h.pending k p hk hp
      have hjk : j ≠ k := fun hjk => hk (hjk ▸ hi)
      exact ⟨op', next', by rw [List.getElem?_set_ne hjk, hcall'], hone, heval⟩

/-- The thread takes effect. -/
theorem Linearized.settle (h : Linearized exec view programs start order s)
    (hi : i ∉ order.map Prod.fst) {p q : Program Op Reply ρ} {a : ρ} {m : σ}
    (hp : programs[i]? = some p) (hview : view m = view start)
    (hwhole : p.eval exec s.memory = (a, m)) (hquiet : Quiet exec view q)
    (hresult : (q.eval exec m).1 = a) :
    Linearized exec view programs start (order ++ [(i, a)]) ⟨m, s.programs.set i q⟩ := by
  have hlt : i < s.programs.length := by
    rw [h.same]
    exact (List.getElem?_eq_some_iff.mp hp).1
  refine ⟨hview, Run.snoc h.whole ⟨p, hp, hwhole⟩, ?_, fun k b hk => ?_, fun k p' hk hp' => ?_,
    by rw [List.length_set, h.same]⟩
  · -- the thread was not in the order before
    rw [List.map_append, List.nodup_append]
    refine ⟨h.nodup, by simp, fun j hj k hk => ?_⟩
    obtain rfl : k = i := by simpa using hk
    exact fun hjk => hi (hjk ▸ hj)
  · rcases List.mem_append.mp hk with hk | hk
    · -- the others that have taken effect see the same part of the memory
      obtain ⟨q', hq', hquiet', hresult'⟩ := h.settled k b hk
      have hik : i ≠ k := fun hik => hi (hik ▸ List.mem_map_of_mem hk)
      refine ⟨q', by rw [List.getElem?_set_ne hik, hq'], hquiet', ?_⟩
      rw [← hresult', hquiet'.eval_fst (hview.trans h.view_eq.symm)]
    · obtain ⟨rfl, rfl⟩ : k = i ∧ b = a := by simpa using hk
      exact ⟨q, List.getElem?_set_self hlt, hquiet, hresult⟩
  · rw [List.map_append, List.mem_append, not_or] at hk
    obtain ⟨op, next, hcall, hone, heval⟩ := h.pending k p' hk.1 hp'
    have hik : i ≠ k := fun hik => hk.2 (by simp [hik])
    exact ⟨op, next, by rw [List.getElem?_set_ne hik, hcall], hone, heval⟩

/-- The thread has not taken effect yet: it does so with this call, or it goes on reading. -/
theorem Linearized.step_pending (hkept : ∀ op m, view (exec op m).2 = view m)
    (h : Linearized exec view programs start order s) (hi : i ∉ order.map Prod.fst)
    (hstep : Step exec s i s') :
    ∃ new, Linearized exec view programs start (order ++ new) s' ∧ ∀ x ∈ new, x.1 = i := by
  obtain ⟨op, next, hcall, rfl⟩ := hstep
  have hlt : i < s.programs.length := (List.getElem?_eq_some_iff.mp hcall).1
  obtain ⟨p, hp⟩ : ∃ p, programs[i]? = some p :=
    ⟨_, List.getElem?_eq_getElem (h.same ▸ hlt)⟩
  obtain ⟨op', next', hcall', hone, heval⟩ := h.pending i p hi hp
  obtain ⟨rfl, hnext⟩ := Program.call.inj (Option.some.inj (hcall'.symm.trans hcall))
  obtain rfl := eq_of_heq hnext
  have hview : view (exec op' s.memory).2 = view start := (hkept op' s.memory).trans h.view_eq
  have hwhole := heval s.memory h.view_eq
  rcases hone.cases_call with ⟨hreads, hnexts⟩ | hquiet
  · have hmemory : (exec op' s.memory).2 = s.memory := hreads.snd s.memory
    -- after a call that reads, the rest still has the effect of the whole
    have hrest : ∀ m, view m = view start →
        (next' (exec op' s.memory).1).eval exec m = p.eval exec m := fun m hm =>
      (hreads.eval_next (hm.trans h.view_eq.symm) next').trans (heval m hm)
    cases hcase : next' (exec op' s.memory).1 with
    | done a =>
      -- the last call has been made: this is the moment
      refine ⟨[(i, a)], ?_, by simp⟩
      rw [hmemory]
      refine h.settle hi hp h.view_eq ?_ (Quiet.done a) rfl
      rw [← hrest s.memory h.view_eq, hcase, Program.eval_done]
    | call op next =>
      refine ⟨[], ?_, by simp⟩
      rw [hmemory, List.append_nil]
      refine ⟨h.view_eq, h.whole, h.nodup, fun k b hk => ?_, fun k p' hk hp' => ?_,
        by rw [List.length_set, h.same]⟩
      · obtain ⟨q, hq, hquiet, hresult⟩ := h.settled k b hk
        have hik : i ≠ k := fun hik => hi (hik ▸ List.mem_map_of_mem hk)
        exact ⟨q, by rw [List.getElem?_set_ne hik, hq], hquiet, hresult⟩
      · by_cases hik : i = k
        · subst hik
          obtain rfl : p = p' := Option.some.inj (hp.symm.trans hp')
          refine ⟨op, next, List.getElem?_set_self hlt, hcase ▸ hnexts _, fun m hm => ?_⟩
          rw [← hrest m hm, hcase]
        · obtain ⟨op'', next'', hcall'', hone'', heval''⟩ := h.pending k p' hk hp'
          exact ⟨op'', next'', by rw [List.getElem?_set_ne hik, hcall''], hone'', heval''⟩
  · -- the shot
    refine ⟨[(i, ((next' (exec op' s.memory).1).eval exec (exec op' s.memory).2).1)], ?_, by simp⟩
    refine h.settle hi hp hview ?_ (hquiet _) rfl
    rw [← hwhole, Program.eval_call]
    exact Prod.ext rfl ((hquiet _).eval_snd _)

/-- **One call keeps the order**, or the thread that makes it is added at the end. -/
theorem Linearized.step (hkept : ∀ op m, view (exec op m).2 = view m)
    (h : Linearized exec view programs start order s) (hstep : Step exec s i s') :
    ∃ new, Linearized exec view programs start (order ++ new) s' ∧ ∀ x ∈ new, x.1 = i := by
  by_cases hi : i ∈ order.map Prod.fst
  · exact ⟨[], by simpa using h.step_settled hi hstep, by simp⟩
  · exact h.step_pending hkept hi hstep

/-- The programs that are done without any call, with their results. -/
def finished (programs : List (Program Op Reply ρ)) : List (Nat × ρ) :=
  programs.zipIdx.filterMap fun x =>
    match x.1 with
    | .done a => some (x.2, a)
    | .call _ _ => none

/-- The list has exactly the programs that are done. -/
theorem mem_finished {a : ρ} : (i, a) ∈ finished programs ↔ programs[i]? = some (.done a) := by
  simp only [finished, List.mem_filterMap, Prod.exists, List.mk_mem_zipIdx_iff_getElem?]
  constructor
  · rintro ⟨p, j, hp, heq⟩
    split at heq
    · obtain ⟨rfl, rfl⟩ := Prod.mk.inj (Option.some.inj heq)
      exact hp
    · simp at heq
  · intro hp
    exact ⟨_, i, hp, rfl⟩

/-- It has each of them once. -/
theorem nodup_finished (programs : List (Program Op Reply ρ)) :
    ((finished programs).map Prod.fst).Nodup := by
  -- each program is listed with its number, and the numbers differ
  have hindex : programs.zipIdx.Pairwise fun x y => x.2 ≠ y.2 := by
    rw [← List.pairwise_map (f := Prod.snd), List.zipIdx_map_snd]
    exact List.nodup_range'
  rw [List.Nodup, List.pairwise_map]
  refine List.Pairwise.filterMap _ (fun x y hxy a ha b hb => ?_) hindex
  split at ha
  · split at hb
    · rwa [← Option.some.inj ha, ← Option.some.inj hb]
    · simp at hb
  · simp at ha

/-- Programs that are done take effect in any order. -/
theorem run_whole_of_done {l : List (Nat × ρ)}
    (h : ∀ x ∈ l, programs[x.1]? = some (.done x.2)) (m : σ) :
    Run (Whole exec programs) m l m := by
  induction l using List.reverseRecOn with
  | nil => exact Run.nil m
  | append_singleton l x ih =>
    have hlast := h x (by simp)
    exact Run.snoc (ih fun y hy => h y (List.mem_append_left _ hy)) ⟨_, hlast, rfl⟩

/-- At the start. -/
theorem Linearized.initial (hone : ∀ p ∈ programs, OneShot exec view p) (m : σ) :
    Linearized exec view programs m (finished programs) ⟨m, programs⟩ where
  view_eq := rfl
  whole := run_whole_of_done (fun _ hx => mem_finished.mp hx) m
  nodup := nodup_finished programs
  settled _ _ hi := ⟨_, mem_finished.mp hi, Quiet.done _, rfl⟩
  pending i p hi hp := by
    cases p with
    | done a => exact absurd (List.mem_map_of_mem (mem_finished.mpr hp)) hi
    | call op next => exact ⟨op, next, hp, hone _ (List.mem_of_getElem? hp), fun _ _ => rfl⟩
  same := rfl

end Linearized

/-- All calls of the first thread come before all calls of the second. -/
def Precedes (tr : List Nat) (i j : Nat) : Prop :=
  ∃ pre post, tr = pre ++ post ∧ i ∉ post ∧ j ∉ pre ∧ j ∈ post

/-- The order has the first thread before the second. -/
def Before (order : List (Nat × ρ)) (i j : Nat) : Prop :=
  ∃ pre post, order = pre ++ post ∧ i ∈ pre.map Prod.fst ∧ j ∉ pre.map Prod.fst

/-- What is done has taken effect. -/
theorem Linearized.mem_of_done {exec : (op : Op) → σ → Reply op × σ} {view : σ → ω}
    {programs : List (Program Op Reply ρ)} {start : σ} {order : List (Nat × ρ)}
    {s : Threads Op Reply σ ρ} {i : Nat} {a : ρ}
    (h : Linearized exec view programs start order s) (hi : s.programs[i]? = some (.done a)) :
    (i, a) ∈ order := by
  by_cases hmem : i ∈ order.map Prod.fst
  · obtain ⟨⟨j, b⟩, hb, rfl⟩ := List.mem_map.mp hmem
    obtain ⟨q, hq, -, hresult⟩ := h.settled j b hb
    obtain rfl : q = .done a := Option.some.inj (hq.symm.trans hi)
    obtain rfl : a = b := hresult
    exact hb
  · -- a thread that has not taken effect has a call to make
    have hlt : i < programs.length := by
      rw [← h.same]
      exact (List.getElem?_eq_some_iff.mp hi).1
    obtain ⟨op, next, hcall, -⟩ := h.pending i _ hmem (List.getElem?_eq_getElem hlt)
    simp [hi] at hcall

/-- A longer order keeps what it has apart. -/
theorem Before.append {order : List (Nat × ρ)} {i j : Nat} (h : Before order i j)
    (new : List (Nat × ρ)) : Before (order ++ new) i j := by
  obtain ⟨pre, post, rfl, hi, hj⟩ := h
  exact ⟨pre, post ++ new, List.append_assoc pre post new, hi, hj⟩

/-- The order of a run, together with what ties it to the trace: it has only threads that have
    made a call or that need none, and it keeps those apart that did not overlap. -/
structure Linearization (exec : (op : Op) → σ → Reply op × σ) (view : σ → ω)
    (programs : List (Program Op Reply ρ)) (start : σ) (order : List (Nat × ρ)) (tr : List Nat)
    (s : Threads Op Reply σ ρ) : Prop where
  linearized : Linearized exec view programs start order s
  finished : ∀ (i : Nat) a, programs[i]? = some (.done a) → s.programs[i]? = some (.done a)
  called : ∀ x ∈ order, x.1 ∈ tr ∨ x ∈ Atomic.finished programs
  before : ∀ i j a, s.programs[i]? = some (.done a) → Precedes tr i j → Before order i j

/-- **One call keeps the linearization.** -/
theorem Linearization.step {exec : (op : Op) → σ → Reply op × σ} {view : σ → ω}
    (hkept : ∀ op m, view (exec op m).2 = view m) {programs : List (Program Op Reply ρ)}
    {start : σ} {order : List (Nat × ρ)} {tr : List Nat} {s s' : Threads Op Reply σ ρ} {k : Nat}
    (h : Linearization exec view programs start order tr s) (hstep : Step exec s k s') :
    ∃ order', Linearization exec view programs start order' (tr ++ [k]) s' := by
  obtain ⟨new, hlin, hnew⟩ := h.linearized.step hkept hstep
  obtain ⟨op, next, hcall, rfl⟩ := hstep
  refine ⟨order ++ new, hlin, fun i a hi => ?_, fun x hx => ?_, ?_⟩
  · have hi' := h.finished i a hi
    have hki : k ≠ i := by
      rintro rfl
      simp [hi'] at hcall
    rw [List.getElem?_set_ne hki, hi']
  · rcases List.mem_append.mp hx with hx | hx
    · exact (h.called x hx).imp_left (List.mem_append_left _)
    · exact Or.inl (by simp [hnew x hx])
  · rintro i j a hi ⟨pre, post, hsplit, hipost, hjpre, hjpost⟩
    obtain ⟨post', b, rfl⟩ := (List.eq_nil_or_concat post).resolve_left (List.ne_nil_of_mem hjpost)
    rw [List.concat_eq_append] at hsplit hipost hjpost
    rw [← List.append_assoc] at hsplit
    obtain ⟨rfl, hb⟩ := List.append_inj' hsplit rfl
    obtain rfl : k = b := by simpa using hb
    rw [List.mem_append, List.mem_singleton, not_or] at hipost
    -- the first thread does not make this call, so it was done before
    have hi' : s.programs[i]? = some (.done a) := by
      rwa [List.getElem?_set_ne (Ne.symm hipost.2)] at hi
    by_cases hj : j ∈ post'
    · exact (h.before i j a hi' ⟨pre, post', rfl, hipost.1, hjpre, hj⟩).append new
    · -- the second thread makes its first call now
      obtain rfl : j = k := by simpa [hj] using hjpost
      refine ⟨order, new, rfl, List.mem_map_of_mem (h.linearized.mem_of_done hi'), fun hmem => ?_⟩
      obtain ⟨⟨j', c⟩, hc, rfl⟩ := List.mem_map.mp hmem
      rcases h.called _ hc with hcalled | hfinished
      · exact absurd hcalled (by simp [hjpre, hj])
      · simp [h.finished j' c (mem_finished.mp hfinished)] at hcall

/-- **Linearizability.**  Any number of programs, each with one call at most that does more than
    read what no call changes, are interleaved call by call.  Then there is an order in which those
    that are done, and perhaps some others, may run as a whole instead: the memory is the same,
    each one that is done has returned the same, and a program whose last call came before the
    first call of another comes before that in the order. -/
theorem linearizable {exec : (op : Op) → σ → Reply op × σ} {view : σ → ω}
    (hkept : ∀ op m, view (exec op m).2 = view m) {programs : List (Program Op Reply ρ)}
    (hone : ∀ p ∈ programs, OneShot exec view p) {start : σ} {tr : List Nat}
    {s : Threads Op Reply σ ρ} (hrun : Run (Step exec) ⟨start, programs⟩ tr s) :
    ∃ order, Run (Whole exec programs) start order s.memory ∧ (order.map Prod.fst).Nodup ∧
      ∀ i a, s.programs[i]? = some (.done a) → (i, a) ∈ order ∧
        ∀ j, Precedes tr i j → Before order i j := by
  obtain ⟨order, h⟩ := hrun.invariant_trace
    (fun tr t => ∃ order, Linearization exec view programs start order tr t)
    ⟨_, Linearized.initial hone start, fun _ _ hi => hi, fun _ hx => Or.inr hx,
      by simp [Precedes]⟩
    fun _ _ _ _ _ ⟨_, h⟩ hstep => h.step hkept hstep
  exact ⟨order, h.linearized.whole, h.linearized.nodup, fun i a hi =>
    ⟨h.linearized.mem_of_done hi, fun j hij => h.before i j a hi hij⟩⟩

/-- When all have taken effect, the order has their results. -/
theorem perm_results {order : List (Nat × ρ)} {results : List ρ}
    (hnodup : (order.map Prod.fst).Nodup)
    (hmem : ∀ i a, results[i]? = some a → (i, a) ∈ order)
    (hlt : ∀ x ∈ order, x.1 < results.length) : (order.map Prod.snd).Perm results := by
  -- the order and the results, listed with their numbers, have the same elements
  have horder : order.Perm (results.zipIdx.map Prod.swap) := by
    refine (List.perm_ext_iff_of_nodup hnodup.of_map ?_).mpr fun ⟨i, a⟩ => ?_
    · refine List.Nodup.of_map Prod.fst ?_
      rw [List.map_map, show Prod.fst ∘ Prod.swap = (Prod.snd : ρ × Nat → Nat) from rfl,
        List.zipIdx_map_snd]
      exact List.nodup_range'
    · have hresult : (i, a) ∈ results.zipIdx.map Prod.swap ↔ results[i]? = some a := by
        simp [List.mk_mem_zipIdx_iff_getElem?]
      rw [hresult]
      refine ⟨fun h => ?_, hmem i a⟩
      have hi := List.getElem?_eq_getElem (hlt _ h)
      have hsame := List.inj_on_of_nodup_map hnodup h (hmem i _ hi) rfl
      rw [hi, ← (Prod.mk.inj hsame).2]
  refine (horder.map Prod.snd).trans ?_
  rw [List.map_map, show Prod.snd ∘ Prod.swap = (Prod.fst : ρ × Nat → ρ) from rfl,
    List.zipIdx_map_fst]

/-! ### Threads under interference -/

/-- A call of the thread with the number, or anything that may happen to the memory. -/
def Interfered (exec : (op : Op) → σ → Reply op × σ) (s : Threads Op Reply σ ρ)
    (l : Option Nat) (s' : Threads Op Reply σ ρ) : Prop :=
  match l with
  | some i => Step exec s i s'
  | none => s'.programs = s.programs

/-- Anything may be written. -/
theorem Interfered.write (exec : (op : Op) → σ → Reply op × σ) (s : Threads Op Reply σ ρ) (m : σ) :
    Interfered exec s none ⟨m, s.programs⟩ := rfl

/-- No thread is lost under interference. -/
theorem length_of_run {exec : (op : Op) → σ → Reply op × σ} {s s' : Threads Op Reply σ ρ}
    {tr : List (Option Nat)} (hrun : Run (Interfered exec) s tr s') :
    s'.programs.length = s.programs.length := by
  refine hrun.invariant (fun t => t.programs.length = s.programs.length) rfl
    fun t l u ht hstep => ?_
  cases l with
  | none => rw [show u.programs = t.programs from hstep, ht]
  | some i => rw [Step.length hstep, ht]

/-- A call of the thread meets the memory in the run. -/
def Met (exec : (op : Op) → σ → Reply op × σ) (s : Threads Op Reply σ ρ)
    (tr : List (Option Nat)) (i : Nat) (m : σ) : Prop :=
  ∃ pre post t, tr = pre ++ some i :: post ∧ Run (Interfered exec) s pre t ∧ t.memory = m

/-- What a call has met it has met in every longer run. -/
theorem Met.snoc {exec : (op : Op) → σ → Reply op × σ} {s : Threads Op Reply σ ρ}
    {tr : List (Option Nat)} {i : Nat} {m : σ} (h : Met exec s tr i m) (l : Option Nat) :
    Met exec s (tr ++ [l]) i m := by
  obtain ⟨pre, post, t, rfl, hrun, hm⟩ := h
  exact ⟨pre, post ++ [l], t, by simp, hrun, hm⟩

/-- **What a thread returns in a run, its program may return** on the memories that its own calls
    meet. -/
theorem answers_of_run {exec : (op : Op) → σ → Reply op × σ} {s s' : Threads Op Reply σ ρ}
    {tr : List (Option Nat)} (hrun : Run (Interfered exec) s tr s') {i : Nat}
    {p : Program Op Reply ρ} {a : ρ} (hp : s.programs[i]? = some p)
    (ha : s'.programs[i]? = some (.done a)) :
    ∃ met, Answers exec p met a ∧ ∀ m ∈ met, Met exec s tr i m := by
  have hrest : ∀ q, s'.programs[i]? = some q → ∃ met, (∀ m ∈ met, Met exec s tr i m) ∧
      ∀ met' b, Answers exec q met' b → Answers exec p (met ++ met') b := by
    refine hrun.invariant_trace (fun tr t => ∀ q, t.programs[i]? = some q → ∃ met,
      (∀ m ∈ met, Met exec s tr i m) ∧
        ∀ met' b, Answers exec q met' b → Answers exec p (met ++ met') b) ?_ ?_
    · intro q hq
      obtain rfl : p = q := Option.some.inj (hp.symm.trans hq)
      exact ⟨[], by simp, fun met' b h => h⟩
    · intro tr t l u hpre ih hstep q hq
      cases l with
      | none =>
        obtain ⟨met, hmet, hans⟩ := ih q (by rwa [← show u.programs = t.programs from hstep])
        exact ⟨met, fun m hm => (hmet m hm).snoc none, hans⟩
      | some j =>
        obtain ⟨op, next, hcall, rfl⟩ := hstep
        rcases Tasks.of_set hq with ⟨rfl, rfl⟩ | ⟨-, hq⟩
        · -- the thread makes a call, and meets the memory as it is now
          obtain ⟨met, hmet, hans⟩ := ih _ hcall
          refine ⟨met ++ [t.memory], fun m hm => ?_, fun met' b h => ?_⟩
          · rcases List.mem_append.mp hm with hm | hm
            · exact (hmet m hm).snoc (some j)
            · exact ⟨tr, [], t, rfl, hpre, (List.mem_singleton.mp hm).symm⟩
          · rw [List.append_assoc]
            exact hans _ b (Answers.call h)
        · obtain ⟨met, hmet, hans⟩ := ih q hq
          exact ⟨met, fun m hm => (hmet m hm).snoc (some j), hans⟩
  obtain ⟨met, hmet, hans⟩ := hrest _ ha
  exact ⟨met, by simpa using hans [] a (Answers.done a), hmet⟩

end Atomic
