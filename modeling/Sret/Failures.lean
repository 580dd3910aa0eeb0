import Sret.CacheRuns
import Sret.Lifecycle

namespace Sret

open Text KeyedMap Transition

/-!
# What a failed request leaves behind

The exit points of `handle_request`, in any run, from any router, cache and checkers, and among any
other requests.

* `Event.Of` — the steps of one exchange; `Event.Fails` — its own 404 and 502;
* `sameShared_of_exchange_step` — no step of an exchange changes an entry of the cache or a target;
* `entry_origin` — an entry was in the cache at the start, or a put has inserted it;
* `failed_requests_leave_no_trace` — a request that fails spawns no put, so that no later lookup
  returns its answer, and a request that is neither GET nor HEAD does not touch the cache at all.
-/

/-! ### The steps of one request -/

/-- The step belongs to the exchange with the number. -/
def Event.Of (s : State) (i : Nat) : Event → Prop
  | .accept _ => s.exchanges.length = i
  | .lookup j _ _ => j = i
  | .route j _ _ => j = i
  | .finish j _ => j = i
  | _ => False

/-- The exchange ends in the 404 of a request without a route, or in the 502. -/
def Event.Fails (i : Nat) : Event → Prop
  | .route j _ none => j = i
  | .finish _ (.replied _) => False
  | .finish j _ => j = i
  | _ => False

/-- The entries of the cache and the targets, with their flags and counters, are the same. -/
structure SameShared (s s' : State) : Prop where
  entries : s'.cache.map ResponseCache.entries = s.cache.map ResponseCache.entries
  targets : ∀ ref, s'.router.getTarget ref = s.router.getTarget ref

/-- Every step of the exchange, at its point of the run, takes the state where `P` allows. -/
def StepsOf (p : Platform) (s₀ : State) (tr : List Event) (s : State) (i : Nat)
    (P : State → State → Prop) : Prop :=
  ∀ pre e post m m', tr = pre ++ e :: post → Run (Event.Step p) s₀ pre m → e.Step p m m' →
    Run (Event.Step p) m' post s → e.Of m i → P m m'

/-- Whatever a lookup returns was in the cache at the start, or was obtained by another exchange
    than this one. -/
def HitsFromOthers (p : Platform) (s₀ : State) (tr : List Event) (s : State) (i : Nat) : Prop :=
  ∀ j now hit s', Event.Step p s (.lookup j now (some hit)) s' →
    ∃ key entry, hit = entry.toResponse now ∧
      ((∃ c₀, s₀.cache = some c₀ ∧ c₀.entries.lookup key = some entry) ∨
        ∃ q t victim, .commit q key entry victim ∈ tr ∧ s.puts[q]? = some t ∧ t.exchange ≠ i ∧
          PreparedBy p tr q t.response entry)

/-- The answer to a failed request is an answer. -/
theorem Event.Fails.ends {e : Event} {i : Nat} (h : e.Fails i) : e.Ends i := by
  cases e with
  | route j pick routed =>
    cases routed with
    | none => exact h
    | some d => exact h.elim
  | finish j outcome =>
    cases outcome with
    | replied response => exact h.elim
    | _ => exact h
  | _ => exact h.elim

/-- **No step of a request changes an entry or a target.** -/
theorem sameShared_of_exchange_step {p : Platform} {s s' : State} {e : Event} {i : Nat}
    (hstep : e.Step p s s') (hof : e.Of s i) : SameShared s s' := by
  cases e with
  | accept request =>
    obtain rfl := hstep
    exact ⟨rfl, fun _ => rfl⟩
  | lookup j now result =>
    obtain ⟨x, key, c, -, -, hc, -, rfl⟩ := hstep
    exact ⟨by simp [hc, ResponseCache.get_entries], fun _ => rfl⟩
  | route j pick routed =>
    obtain ⟨x, -, -, -, rfl⟩ := hstep
    exact ⟨rfl, Router.getTarget_of_routeRequest (Prod.mk.eta).symm⟩
  | finish j outcome =>
    obtain ⟨x, d, -, -, rfl⟩ := hstep
    cases outcome <;> exact ⟨rfl, fun _ => rfl⟩
  | _ => exact hof.elim

/-- A step of a request that has no cache key leaves the cache alone, counters included. -/
theorem cache_of_uncacheable_step {p : Platform} {s s' : State} {e : Event} {i : Nat}
    (hlookups : KeyedLookups s) (hstep : e.Step p s s') (hof : e.Of s i)
    (hmethod : ∀ x, s.exchanges[i]? = some x → isCacheableMethod x.request.method = false) :
    s'.cache = s.cache := by
  cases e with
  | accept request =>
    obtain rfl := hstep
    rfl
  | lookup j now result =>
    -- such a request does not come to a lookup
    obtain rfl : j = i := hof
    obtain ⟨x, key, c, hx, hstage, -⟩ := hstep
    have hcacheable := (cacheKey_eq_some (hlookups j x key hx hstage)).1
    rw [hmethod x hx] at hcacheable
    simp at hcacheable
  | route j pick routed =>
    obtain ⟨x, -, -, -, rfl⟩ := hstep
    rfl
  | finish j outcome =>
    obtain ⟨x, d, -, -, rfl⟩ := hstep
    cases outcome <;> rfl
  | _ => exact hof.elim

/-! ### Runs -/

/-- **Where an entry comes from.** -/
theorem entry_origin {p : Platform} {s₀ s : State} {tr : List Event}
    (hrun : Run (Event.Step p) s₀ tr s) {c : ResponseCache} (hc : s.cache = some c) {key : Str}
    {entry : CacheEntry} (hentry : c.entries.lookup key = some entry) :
    (∃ c₀, s₀.cache = some c₀ ∧ c₀.entries.lookup key = some entry) ∨
      ∃ q victim, .commit q key entry victim ∈ tr := by
  refine hrun.invariant_trace (fun tr s => ∀ c, s.cache = some c →
    c.entries.lookup key = some entry →
    (∃ c₀, s₀.cache = some c₀ ∧ c₀.entries.lookup key = some entry) ∨
      ∃ q victim, .commit q key entry victim ∈ tr) (fun c hc h => Or.inl ⟨c, hc, h⟩) ?_ c hc hentry
  intro tr t e u _ ih hstep c' hc' hentry'
  have hold : ∀ c, t.cache = some c → c.entries.lookup key = some entry →
      (∃ c₀, s₀.cache = some c₀ ∧ c₀.entries.lookup key = some entry) ∨
        ∃ q victim, .commit q key entry victim ∈ tr ++ [e] := by
    intro c hc h
    rcases ih c hc h with h' | ⟨q, victim, hmem⟩
    · exact Or.inl h'
    · exact Or.inr ⟨q, victim, List.mem_append_left _ hmem⟩
  rcases cache_of_step hstep with ⟨heq, -⟩ | ⟨_, now, _, x, k, c, -, -, hc, heq⟩ |
    ⟨q, k, entry', victim, c, c₁, rfl, hc, heq, hins⟩
  · exact hold c' (heq ▸ hc') hentry'
  · rw [← Option.some.inj (heq.symm.trans hc'), ResponseCache.get_entries] at hentry'
    exact hold c hc hentry'
  · rw [← Option.some.inj (heq.symm.trans hc'), hins.lookup] at hentry'
    split at hentry'
    · -- the entry that has just been inserted
      rename_i hk
      obtain rfl := Option.some.inj hentry'
      exact Or.inr ⟨q, victim, by simp [hk]⟩
    · split at hentry'
      · simp at hentry'
      · exact hold c hc hentry'

/-- A request that fails spawns no put. -/
theorem no_put_of_fails {p : Platform} {s₀ s : State} {tr : List Event} (hquiet : s₀.Quiet)
    (hrun : Run (Event.Step p) s₀ tr s) {i : Nat} {e : Event} (he : e ∈ tr) (hfails : e.Fails i)
    {q : Nat} {t : PutTask} (ht : s.puts[q]? = some t) : t.exchange ≠ i := by
  rintro rfl
  obtain ⟨-, response, -, -, hreply, -⟩ := (putInvariant_of_run hquiet hrun).spawned q t ht
  -- the exchange would have been answered twice
  obtain rfl := ends_once hrun he hreply hfails.ends rfl
  exact hfails

/-- **Failed requests leave no trace.**  From any quiet state, whatever else goes on: if a request
    ends in the own 404 or in the 502, its steps change no entry of the cache, no health flag and
    no connection count, it spawns no put, and no lookup returns a response that it obtained.  A
    request that is neither GET nor HEAD leaves the entries and the counters of the cache as they
    are and spawns no put, whatever the outcome. -/
theorem failed_requests_leave_no_trace (p : Platform) (s₀ : State) (hquiet : s₀.Quiet)
    (tr : List Event) (s : State) (hrun : Run (Event.Step p) s₀ tr s) (i : Nat) :
    ((∃ e ∈ tr, e.Fails i) → StepsOf p s₀ tr s i SameShared ∧
      (∀ (q : Nat) t, s.puts[q]? = some t → t.exchange ≠ i) ∧ HitsFromOthers p s₀ tr s i) ∧
    ∀ x, s.exchanges[i]? = some x → isCacheableMethod x.request.method = false →
      StepsOf p s₀ tr s i (fun m m' => m'.cache = m.cache) ∧
        ∀ (q : Nat) t, s.puts[q]? = some t → t.exchange ≠ i := by
  have hputs := putInvariant_of_run hquiet hrun
  constructor
  · rintro ⟨e, he, hfails⟩
    have hnone : ∀ (q : Nat) t, s.puts[q]? = some t → t.exchange ≠ i :=
      fun q t ht => no_put_of_fails hquiet hrun he hfails ht
    refine ⟨fun _ _ _ _ _ _ _ hstep _ hof => sameShared_of_exchange_step hstep hof, hnone, ?_⟩
    rintro j now hit s' ⟨x, key, c, -, -, hc, hget, -⟩
    obtain ⟨entry, hentry, -, rfl⟩ := (ResponseCache.get_fst _ _ _ _ _).mp hget
    refine ⟨key, entry, rfl, ?_⟩
    rcases entry_origin hrun hc hentry with hstart | ⟨q, victim, hmem⟩
    · exact Or.inl hstart
    · obtain ⟨t, ht, -, -, hprepared⟩ := hputs.written q key entry victim hmem
      exact Or.inr ⟨q, t, victim, hmem, ht, hnone q t ht, hprepared⟩
  · intro x hx hmethod
    constructor
    · intro pre e post m m' _ hpre hstep hpost hof
      refine cache_of_uncacheable_step (keyedLookups_of_run hquiet hpre) hstep hof ?_
      intro y hy
      obtain ⟨z, hz, hreq⟩ := exchange_of_run ((Run.single hstep).append hpost) hy
      obtain rfl : z = x := Option.some.inj (hz.symm.trans hx)
      rw [← hreq, hmethod]
    · rintro q t ht rfl
      obtain ⟨y, -, hy, hkey, -⟩ := hputs.spawned q t ht
      obtain rfl : y = x := Option.some.inj (hy.symm.trans hx)
      rw [(cacheKey_eq_some hkey).1] at hmethod
      simp at hmethod

/-- A server that has a cache and no routes. -/
def blankState : State where
  router := ⟨∅, []⟩
  cache := some (ResponseCache.new 8 0)
  checkers := []
  exchanges := []
  puts := []

def formRequest : Request where
  method := .post
  uri := Uri.ofParts "/form".toList none (by decide)
  headers := HeaderMap.empty

theorem failed_requests_leave_no_trace_form :
    ∃ s, Run (Event.Step Platform.ascii) blankState
        ([.accept formRequest] ++ [.route 0 0 none]) s ∧
      (StepsOf Platform.ascii blankState ([.accept formRequest] ++ [.route 0 0 none]) s 0
          SameShared ∧
        (∀ (q : Nat) t, s.puts[q]? = some t → t.exchange ≠ 0) ∧
        HitsFromOthers Platform.ascii blankState ([.accept formRequest] ++ [.route 0 0 none]) s 0) ∧
      StepsOf Platform.ascii blankState ([.accept formRequest] ++ [.route 0 0 none]) s 0
        fun m m' => m'.cache = m.cache := by
  have hrun : Run (Event.Step Platform.ascii) blankState
      ([.accept formRequest] ++ [.route 0 0 none]) _ :=
    Run.snoc (Run.single rfl) ⟨_, rfl, rfl, rfl, rfl⟩
  obtain ⟨hfailed, huncached⟩ :=
    failed_requests_leave_no_trace Platform.ascii blankState ⟨rfl, rfl⟩ _ _ hrun 0
  exact ⟨_, hrun, hfailed ⟨.route 0 0 none, by simp, rfl⟩, (huncached _ rfl rfl).1⟩

end Sret
