import Sret.System

namespace Sret

open Text KeyedMap Transition

/-!
# The life of a request and of its put

What every run says about a single `handle_request` and about the put that it may spawn, from any
state in which nothing is under way.

* `Event.Ends` — the events that give an exchange its answer; an exchange is answered once, and
  nothing happens to it afterwards (`not_ends_of_answered`, `ends_once`);
* `KeyedLookups` — an exchange looks up the key of its own request, so only GET and HEAD requests
  do;
* `State.Settled` — a put that is done; it stays so (`not_commit_of_settled`);
* `PutInvariant` — a put was spawned when the request of its exchange ended with a response, and
  carries that response, it made its entry of it, and what it inserts is that entry;
* `putInvariant_of_run` — in every state that is reached.
-/

/-! ### Answers -/

/-- Nothing is under way. -/
def State.Quiet (s : State) : Prop := s.exchanges = [] ∧ s.puts = []

/-- A started server is quiet. -/
theorem State.quiet_initial {Acceptor : Type} (server : Server Acceptor) :
    (State.initial server).Quiet := ⟨rfl, rfl⟩

/-- The exchange has its answer. -/
def Exchange.Answered (x : Exchange) : Prop := ∃ response, x.stage = .answered response

/-- The exchange with the number has its answer. -/
def State.Answered (s : State) (i : Nat) : Prop := ∃ x, s.exchanges[i]? = some x ∧ x.Answered

/-- The event gives the exchange its answer: a hit, the own 404, the own 502 or the response with
    which its request to the assigned URL ended. -/
def Event.Ends (i : Nat) : Event → Prop
  | .lookup j _ (some _) => j = i
  | .route j _ none => j = i
  | .finish j _ => j = i
  | _ => False

/-- An answer is final. -/
theorem State.Answered.step {p : Platform} {s s' : State} {e : Event} {i : Nat}
    (h : s.Answered i) (hstep : e.Step p s s') : s'.Answered i := by
  obtain ⟨x, hx, hans⟩ := h
  refine ⟨x, ?_, hans⟩
  rcases exchanges_of_step hstep with heq | ⟨request, -, heq⟩ | ⟨j, y, stage, hy, hne, heq, -⟩
  · rw [heq, hx]
  · rw [heq]
    exact Tasks.frozen_append hx _
  · -- a step moves only exchanges without an answer
    rw [heq]
    exact Tasks.frozen_set Exchange.Answered hx hans hy (fun ⟨r, hr⟩ => hne r hr) _

/-- An event that ends an exchange finds it without an answer and leaves it with one. -/
theorem Event.Ends.answered {p : Platform} {s s' : State} {e : Event} {i : Nat} (h : e.Ends i)
    (hstep : e.Step p s s') : ¬ s.Answered i ∧ s'.Answered i := by
  -- in each of the three cases the exchange is at a stage before the answer
  have hfound : ∀ {x : Exchange} {stage : Stage} {response : Response},
      s.exchanges[i]? = some x → x.stage = stage → (∀ r, stage ≠ .answered r) →
      s'.exchanges = s.exchanges.set i (x.to (.answered response)) →
      ¬ s.Answered i ∧ s'.Answered i := by
    intro x stage response hx hstage hne heq
    constructor
    · rintro ⟨y, hy, r, hr⟩
      obtain rfl : x = y := Option.some.inj (hx.symm.trans hy)
      exact hne r (hstage.symm.trans hr)
    · obtain ⟨hi, -⟩ := List.getElem?_eq_some_iff.mp hx
      exact ⟨_, by rw [heq, List.getElem?_set_self hi], response, rfl⟩
  cases e with
  | lookup j now result =>
    cases result with
    | none => exact h.elim
    | some response =>
      obtain rfl : j = i := h
      obtain ⟨x, key, _, hx, hstage, _, _, rfl⟩ := hstep
      exact hfound hx hstage (by simp) rfl
  | route j pick routed =>
    cases routed with
    | some d => exact h.elim
    | none =>
      obtain rfl : j = i := h
      obtain ⟨x, hx, hstage, _, rfl⟩ := hstep
      exact hfound hx hstage (by simp) rfl
  | finish j outcome =>
    obtain rfl : j = i := h
    obtain ⟨x, d, hx, hstage, rfl⟩ := hstep
    cases outcome <;> exact hfound hx hstage (by simp) rfl
  | _ => exact h.elim

/-- An exchange keeps its request through every run. -/
theorem exchange_of_run {p : Platform} {s s' : State} {tr : List Event}
    (hrun : Run (Event.Step p) s tr s') {i : Nat} {x : Exchange} (hx : s.exchanges[i]? = some x) :
    ∃ x', s'.exchanges[i]? = some x' ∧ x'.request = x.request := by
  refine hrun.invariant (fun t => ∃ x', t.exchanges[i]? = some x' ∧ x'.request = x.request)
    ⟨x, hx, rfl⟩ ?_
  rintro t e u ⟨y, hy, hreq⟩ hstep
  obtain ⟨z, hz, hreq'⟩ := exchange_of_step hstep hy
  exact ⟨z, hz, hreq'.trans hreq⟩

/-- Nothing gives an answered exchange another answer. -/
theorem not_ends_of_answered {p : Platform} {s s' : State} {tr : List Event} {i : Nat}
    (hrun : Run (Event.Step p) s tr s') (h : s.Answered i) :
    s'.Answered i ∧ ∀ e ∈ tr, ¬ e.Ends i := by
  refine hrun.invariant_trace (fun tr t => t.Answered i ∧ ∀ e ∈ tr, ¬ e.Ends i)
    ⟨h, by simp⟩ fun tr t e u _ ⟨hans, hnone⟩ hstep => ⟨hans.step hstep, ?_⟩
  intro e' hmem hends
  rcases List.mem_append.mp hmem with hold | hnew
  · exact hnone e' hold hends
  · obtain rfl := List.mem_singleton.mp hnew
    exact (hends.answered hstep).1 hans

/-- An exchange has its answer once an event of the run has ended it. -/
theorem answered_of_mem {p : Platform} {s s' : State} {tr : List Event} {i : Nat}
    (hrun : Run (Event.Step p) s tr s') {e : Event} (he : e ∈ tr) (hends : e.Ends i) :
    s'.Answered i := by
  obtain ⟨pre, post, rfl⟩ := List.append_of_mem he
  obtain ⟨t, t', -, hstep, hpost⟩ := hrun.step_at
  exact (not_ends_of_answered hpost (hends.answered hstep).2).1

/-- **An exchange is answered once.** -/
theorem ends_once {p : Platform} {s s' : State} {tr : List Event} {i : Nat}
    (hrun : Run (Event.Step p) s tr s') {e e' : Event} (he : e ∈ tr) (he' : e' ∈ tr)
    (hends : e.Ends i) (hends' : e'.Ends i) : e = e' := by
  have hafter : ∀ (pre post : List Event) (a : Event), tr = pre ++ a :: post → a.Ends i →
      ∀ b ∈ post, ¬ b.Ends i := by
    rintro pre post a rfl ha
    obtain ⟨t, t', -, hstep, hpost⟩ := hrun.step_at
    exact (not_ends_of_answered hpost (ha.answered hstep).2).2
  obtain ⟨pre, post, htr⟩ := List.append_of_mem he
  by_contra hne
  -- the other event comes after this one, or before it
  rw [htr, List.mem_append, List.mem_cons] at he'
  rcases he' with hbefore | heq | hlater
  · obtain ⟨a, b, rfl⟩ := List.append_of_mem hbefore
    exact hafter a (b ++ e :: post) e' (by simpa using htr) hends' e (by simp) hends
  · exact hne heq.symm
  · exact hafter pre post e htr hends e' hlater hends'

/-! ### Lookups -/

/-- An exchange that is about to look a key up does so for its own request. -/
def KeyedLookups (s : State) : Prop :=
  ∀ (i : Nat) x key, s.exchanges[i]? = some x → x.stage = .lookup key →
    cacheKey true x.request = some key

/-- A new exchange that starts with a lookup looks its own key up. -/
theorem lookup_of_start {hasCache : Bool} {request : Request} {key : Str}
    (h : (Exchange.start hasCache request).stage = .lookup key) :
    cacheKey true request = some key := by
  simp only [Exchange.start] at h
  split at h
  · rename_i key' hkey
    rw [← Stage.lookup.inj h]
    exact cacheKey_true hkey
  · simp at h

/-- A step keeps the lookups keyed. -/
theorem KeyedLookups.step {p : Platform} {s s' : State} {e : Event} (h : KeyedLookups s)
    (hstep : e.Step p s s') : KeyedLookups s' := by
  intro i x key hx hstage
  rcases exchanges_of_step hstep with heq | ⟨request, -, heq⟩ | ⟨j, y, stage, -, -, heq, hnew⟩
  · exact h i x key (heq ▸ hx) hstage
  · rw [heq] at hx
    rcases Tasks.of_append hx with hx | ⟨-, hnew⟩
    · exact h i x key hx hstage
    · obtain rfl := List.mem_singleton.mp (List.mem_of_getElem? hnew)
      exact lookup_of_start hstage
  · rw [heq] at hx
    rcases Tasks.of_set hx with ⟨-, rfl⟩ | ⟨-, hx⟩
    · -- no step moves an exchange back to its lookup
      rcases hnew with rfl | ⟨response, rfl⟩ | ⟨pick, d, -, rfl⟩ <;> simp [Exchange.to] at hstage
    · exact h i x key hx hstage

/-- So they are in every state that is reached. -/
theorem keyedLookups_of_run {p : Platform} {s₀ s : State} {tr : List Event} (hquiet : s₀.Quiet)
    (hrun : Run (Event.Step p) s₀ tr s) : KeyedLookups s := by
  refine hrun.invariant KeyedLookups ?_ fun _ _ _ h hstep => h.step hstep
  intro i x key hx
  simp [hquiet.1] at hx

/-! ### Puts -/

/-- The put that an exchange with a cache key spawns. -/
theorem of_spawnedPuts {hasCache : Bool} {i k : Nat} {request : Request} {response : Response}
    {t : PutTask} (h : (spawnedPuts hasCache i request response)[k]? = some t) :
    k = 0 ∧ ∃ key, cacheKey hasCache request = some key ∧ t = ⟨i, key, response, .spawned⟩ := by
  unfold spawnedPuts at h
  split at h
  · rename_i key hkey
    obtain ⟨rfl, rfl⟩ : k = 0 ∧ _ = t := by simpa [List.getElem?_singleton] using h
    exact ⟨rfl, key, hkey, rfl⟩
  · simp at h

/-- A put after a step: it is as it was, or an exchange has just spawned it, or it has just made
    its entry, or it has just inserted it. -/
theorem put_cases_of_step {p : Platform} {s s' : State} {e : Event} (h : e.Step p s s') {q : Nat}
    {t : PutTask} (ht : s'.puts[q]? = some t) :
    s.puts[q]? = some t ∨
      (∃ x response, e = .finish t.exchange (.replied response) ∧
        s.exchanges[t.exchange]? = some x ∧ cacheKey s.cache.isSome x.request = some t.key ∧
        t.response = relayedResponse response ∧ t.stage = .spawned ∧ q = s.puts.length) ∨
      (∃ t' clock ttl, e = .prepare q clock ∧ s.puts[q]? = some t' ∧ t'.stage = .spawned ∧
        t = { t' with
          stage := .ofPreparation (ResponseCache.preparePut p ttl t'.response clock) }) ∨
      ∃ t' key entry victim, e = .commit q key entry victim ∧ s.puts[q]? = some t' ∧
        t'.key = key ∧ t'.stage = .ready entry ∧ t = { t' with stage := .finished } := by
  rcases puts_of_step h with heq | ⟨i, x, response, rfl, hx, heq⟩ |
    ⟨r, u, cache, clock, rfl, hu, hstage, -, heq⟩ |
    ⟨r, u, key, entry, victim, rfl, hu, hkey, hstage, heq⟩
  · exact Or.inl (heq ▸ ht)
  · rw [heq] at ht
    rcases Tasks.of_append ht with hold | ⟨hlen, hnew⟩
    · exact Or.inl hold
    · -- the one new put stands at the end
      obtain ⟨hzero, key, hkey, rfl⟩ := of_spawnedPuts hnew
      exact Or.inr (Or.inl ⟨x, response, rfl, hx, hkey, rfl, rfl, by omega⟩)
  · rw [heq] at ht
    rcases Tasks.of_set ht with ⟨rfl, rfl⟩ | ⟨-, hold⟩
    · exact Or.inr (Or.inr (Or.inl ⟨u, clock, cache.defaultTtl, rfl, hu, hstage, rfl⟩))
    · exact Or.inl hold
  · rw [heq] at ht
    rcases Tasks.of_set ht with ⟨rfl, rfl⟩ | ⟨-, hold⟩
    · exact Or.inr (Or.inr (Or.inr ⟨u, key, entry, victim, rfl, hu, hkey, hstage, rfl⟩))
    · exact Or.inl hold

/-- A put keeps what it was spawned with through every run. -/
theorem putTask_of_run {p : Platform} {s s' : State} {tr : List Event}
    (hrun : Run (Event.Step p) s tr s') {q : Nat} {t : PutTask} (ht : s.puts[q]? = some t) :
    ∃ t', s'.puts[q]? = some t' ∧ t'.origin = t.origin := by
  refine hrun.invariant (fun u => ∃ t', u.puts[q]? = some t' ∧ t'.origin = t.origin)
    ⟨t, ht, rfl⟩ ?_
  rintro u e v ⟨y, hy, horigin⟩ hstep
  obtain ⟨z, hz, horigin'⟩ := put_of_step hstep hy
  exact ⟨z, hz, horigin'.trans horigin⟩

/-- The put with the number is done. -/
def State.Settled (s : State) (q : Nat) : Prop := ∃ t, s.puts[q]? = some t ∧ t.stage = .finished

/-- A put that is done stays as it is. -/
theorem State.Settled.step {p : Platform} {s s' : State} {e : Event} {q : Nat} (h : s.Settled q)
    (hstep : e.Step p s s') : s'.Settled q := by
  obtain ⟨t, ht, hstage⟩ := h
  obtain ⟨t', ht', -⟩ := put_of_step hstep ht
  rcases put_cases_of_step hstep ht' with hsame | ⟨_, _, -, -, -, -, -, hq⟩ |
    ⟨u, _, _, -, hu, hspawned, -⟩ | ⟨u, _, _, _, -, hu, -, hready, -⟩
  · obtain rfl : t' = t := Option.some.inj (hsame.symm.trans ht)
    exact ⟨t', ht', hstage⟩
  · obtain ⟨hlt, -⟩ := List.getElem?_eq_some_iff.mp ht
    omega
  · obtain rfl : u = t := Option.some.inj (hu.symm.trans ht)
    simp [hstage] at hspawned
  · obtain rfl : u = t := Option.some.inj (hu.symm.trans ht)
    simp [hstage] at hready

/-- The put with the number made the entry of the response. -/
def PreparedBy (p : Platform) (tr : List Event) (q : Nat) (response : Response)
    (entry : CacheEntry) : Prop :=
  ∃ clock ttl, .prepare q clock ∈ tr ∧
    ResponseCache.preparePut p ttl response clock = .ready entry

/-- What the trace says about the puts. -/
structure PutInvariant (p : Platform) (tr : List Event) (s : State) : Prop where
  spawned : ∀ (q : Nat) t, s.puts[q]? = some t → ∃ x response,
    s.exchanges[t.exchange]? = some x ∧ cacheKey true x.request = some t.key ∧
    .finish t.exchange (.replied response) ∈ tr ∧ t.response = relayedResponse response
  ready : ∀ (q : Nat) t entry, s.puts[q]? = some t → t.stage = .ready entry →
    PreparedBy p tr q t.response entry
  written : ∀ q key entry victim, .commit q key entry victim ∈ tr →
    ∃ t, s.puts[q]? = some t ∧ t.key = key ∧ t.stage = .finished ∧
      PreparedBy p tr q t.response entry

/-- What a put has prepared it has prepared in every longer run. -/
theorem PreparedBy.snoc {p : Platform} {tr : List Event} {q : Nat} {response : Response}
    {entry : CacheEntry} (h : PreparedBy p tr q response entry) (e : Event) :
    PreparedBy p (tr ++ [e]) q response entry := by
  obtain ⟨clock, ttl, hmem, hready⟩ := h
  exact ⟨clock, ttl, List.mem_append_left _ hmem, hready⟩

/-- After a step every put was spawned by its exchange. -/
theorem PutInvariant.step_spawned {p : Platform} {tr : List Event} {s s' : State} {e : Event}
    (h : PutInvariant p tr s) (hstep : e.Step p s s') {q : Nat} {t : PutTask}
    (ht : s'.puts[q]? = some t) :
    ∃ x response, s'.exchanges[t.exchange]? = some x ∧ cacheKey true x.request = some t.key ∧
      .finish t.exchange (.replied response) ∈ tr ++ [e] ∧
      t.response = relayedResponse response := by
  -- the put was there before, with the same origin, or this step is the reply
  have hbefore : ∀ t', s.puts[q]? = some t' → t'.origin = t.origin →
      ∃ x response, s.exchanges[t.exchange]? = some x ∧ cacheKey true x.request = some t.key ∧
        .finish t.exchange (.replied response) ∈ tr ++ [e] ∧
        t.response = relayedResponse response := by
    intro t' ht' horigin
    obtain ⟨hexchange, hrest⟩ := Prod.mk.inj horigin
    obtain ⟨hkey, hresponse⟩ := Prod.mk.inj hrest
    obtain ⟨x, response, hx, hxkey, hmem, hreply⟩ := h.spawned q t' ht'
    rw [hexchange] at hx hmem
    exact ⟨x, response, hx, hkey ▸ hxkey, List.mem_append_left _ hmem, hresponse ▸ hreply⟩
  obtain ⟨x, response, hx, hkey, hmem, hreply⟩ : ∃ x response,
      s.exchanges[t.exchange]? = some x ∧ cacheKey true x.request = some t.key ∧
      .finish t.exchange (.replied response) ∈ tr ++ [e] ∧
      t.response = relayedResponse response := by
    rcases put_cases_of_step hstep ht with hsame | ⟨x, response, rfl, hx, hkey, hreply, -, -⟩ |
      ⟨t', _, _, -, ht', -, rfl⟩ | ⟨t', _, _, _, -, ht', -, -, rfl⟩
    · exact hbefore t hsame rfl
    · exact ⟨x, response, hx, cacheKey_true hkey, by simp, hreply⟩
    · exact hbefore t' ht' rfl
    · exact hbefore t' ht' rfl
  obtain ⟨x', hx', hrequest⟩ := exchange_of_step hstep hx
  exact ⟨x', response, hx', hrequest ▸ hkey, hmem, hreply⟩

/-- After a step every entry that is ready was made by its put. -/
theorem PutInvariant.step_ready {p : Platform} {tr : List Event} {s s' : State} {e : Event}
    (h : PutInvariant p tr s) (hstep : e.Step p s s') {q : Nat} {t : PutTask} {entry : CacheEntry}
    (ht : s'.puts[q]? = some t) (hstage : t.stage = .ready entry) :
    PreparedBy p (tr ++ [e]) q t.response entry := by
  rcases put_cases_of_step hstep ht with hsame | ⟨_, _, -, -, -, -, hspawned, -⟩ |
    ⟨t', clock, ttl, rfl, -, -, rfl⟩ | ⟨_, _, _, _, -, -, -, -, rfl⟩
  · exact (h.ready q t entry hsame hstage).snoc e
  · simp [hstage] at hspawned
  · -- the put has just made its entry
    refine ⟨clock, ttl, by simp, ?_⟩
    unfold PutStage.ofPreparation at hstage
    split at hstage
    · rename_i hready
      rw [← PutStage.ready.inj hstage, hready]
    · simp at hstage
    · simp at hstage
  · simp at hstage

/-- After a step every entry that was inserted was made by its put. -/
theorem PutInvariant.step_written {p : Platform} {tr : List Event} {s s' : State} {e : Event}
    (h : PutInvariant p tr s) (hstep : e.Step p s s') {q : Nat} {key : Str} {entry : CacheEntry}
    {victim : Option Str} (hmem : .commit q key entry victim ∈ tr ++ [e]) :
    ∃ t, s'.puts[q]? = some t ∧ t.key = key ∧ t.stage = .finished ∧
      PreparedBy p (tr ++ [e]) q t.response entry := by
  rcases List.mem_append.mp hmem with hold | hnew
  · -- a put that is done stays as it is
    obtain ⟨t, ht, hkey, hstage, hprepared⟩ := h.written q key entry victim hold
    obtain ⟨t', ht', horigin⟩ := put_of_step hstep ht
    obtain ⟨u, hu, hfinished⟩ := (show s.Settled q from ⟨t, ht, hstage⟩).step hstep
    obtain rfl : u = t' := Option.some.inj (hu.symm.trans ht')
    obtain ⟨-, hrest⟩ := Prod.mk.inj horigin
    obtain ⟨hsame, hresponse⟩ := Prod.mk.inj hrest
    exact ⟨u, hu, hsame.trans hkey, hfinished, hresponse ▸ hprepared.snoc e⟩
  · obtain rfl := List.mem_singleton.mp hnew
    obtain ⟨t, cache, iter, ht, hkey, hstage, -, -, -, rfl⟩ := hstep
    obtain ⟨hq, -⟩ := List.getElem?_eq_some_iff.mp ht
    exact ⟨_, List.getElem?_set_self hq, hkey, rfl, (h.ready q t entry ht hstage).snoc _⟩

/-- **A step keeps the invariant of the puts.** -/
theorem PutInvariant.step {p : Platform} {tr : List Event} {s s' : State} {e : Event}
    (h : PutInvariant p tr s) (hstep : e.Step p s s') : PutInvariant p (tr ++ [e]) s' where
  spawned _ _ ht := h.step_spawned hstep ht
  ready _ _ _ ht hstage := h.step_ready hstep ht hstage
  written _ _ _ _ hmem := h.step_written hstep hmem

/-- **The invariant holds in every state that is reached from a quiet one.** -/
theorem putInvariant_of_run {p : Platform} {s₀ s : State} {tr : List Event} (hquiet : s₀.Quiet)
    (hrun : Run (Event.Step p) s₀ tr s) : PutInvariant p tr s := by
  refine hrun.invariant_trace (PutInvariant p) ⟨?_, ?_, ?_⟩ fun _ _ _ _ _ h hstep => h.step hstep
  · simp [hquiet.2]
  · simp [hquiet.2]
  · simp

/-- A put that is done inserts nothing any more. -/
theorem not_commit_of_settled {p : Platform} {s s' : State} {tr : List Event} {q : Nat}
    (hrun : Run (Event.Step p) s tr s') (h : s.Settled q) :
    s'.Settled q ∧ ∀ key entry victim, .commit q key entry victim ∉ tr := by
  refine hrun.invariant_trace
    (fun tr t => t.Settled q ∧ ∀ key entry victim, .commit q key entry victim ∉ tr)
    ⟨h, by simp⟩ fun tr t e u _ ⟨hsettled, hnone⟩ hstep => ⟨hsettled.step hstep, ?_⟩
  intro key entry victim hmem
  rcases List.mem_append.mp hmem with hold | hnew
  · exact hnone key entry victim hold
  · obtain rfl := List.mem_singleton.mp hnew
    obtain ⟨t', _, _, ht', -, hstage, -⟩ := hstep
    obtain ⟨t'', ht'', hfinished⟩ := hsettled
    obtain rfl : t'' = t' := Option.some.inj (ht''.symm.trans ht')
    simp [hfinished] at hstage

end Sret
