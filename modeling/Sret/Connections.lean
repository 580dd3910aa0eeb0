import Sret.Health

namespace Sret

open Text Transition

/-!
# Connection counts and requests in flight

The counter `active_connections` of a target against the requests that are on their way to it.

* `State.inFlight` — the requests that have been assigned to a target and have not finished;
* `idle_of_run` — along every run every counter stays where it started, at zero: no step of a
  request writes it;
* `least_connections_takes_first` — so a least-connections upstream always selects the first of
  its healthy targets;
* `connections_tracked_iff` — the counters agree with the requests in flight, at every point of
  a run, exactly when no request of the run is assigned to a target.
-/

variable {File Cert Key Acceptor : Type}

/-- The target that the exchange is assigned to. -/
def Exchange.assigned (x : Exchange) : Option TargetRef :=
  match x.stage with
  | .forwarding d => some d.ref
  | _ => none

/-- The number of requests that are assigned to the target and have not finished. -/
def State.inFlight (s : State) (ref : TargetRef) : Nat :=
  s.exchanges.countP fun x => x.assigned = some ref

/-- Every counter is the number of requests in flight. -/
def ConnectionsTracked (s : State) : Prop :=
  ∀ ref t, s.router.getTarget ref = some t → t.activeConnections = s.inFlight ref

/-- No healthy target of the upstream has fewer requests in flight for its weight than the
    selected one. -/
def LeastLoaded (s : State) (d : Routed) : Prop :=
  ∀ u, s.router.getUpstream d.upstreamId = some u → u.strategy = .leastConnections →
    ∀ a ∈ u.healthyTargets,
      s.inFlight d.ref * max a.target.weight 1 ≤
        s.inFlight ⟨d.upstreamId, a.index⟩ * max d.target.weight 1

/-! ### The counters -/

/-- No target has a connection. -/
def Idle (s : State) : Prop := ∀ ref t, s.router.getTarget ref = some t → t.activeConnections = 0

/-- **No step writes a connection counter.** -/
theorem Idle.step {p : Platform} {s s' : State} {e : Event} (h : Idle s)
    (hstep : e.Step p s s') : Idle s' := by
  intro ref t ht
  rcases router_of_step hstep with heq | ⟨_, _, _, _, -, -, hroute⟩ |
    ⟨c, ref', _, ok, now, was, -, heq⟩
  · exact h ref t (heq ▸ ht)
  · exact h ref t ((Router.getTarget_of_routeRequest hroute ref) ▸ ht)
  · rw [heq, getTarget_applyVerdict] at ht
    split at ht
    · obtain ⟨t', ht', rfl⟩ := Option.map_eq_some_iff.mp ht
      exact h ref t' ht'
    · exact h ref t ht

theorem idle_of_run {lib : TlsLibrary File Cert Key Acceptor} {p : Platform} {config : Config}
    {serverConfig : ServerConfig} {tr : List Event} {s : State}
    (hrun : Run (Event.Step p) (State.initial (Server.new lib config serverConfig)) tr s) :
    Idle s := by
  refine hrun.invariant Idle ?_ fun _ _ _ h hstep => h.step hstep
  intro ref t ht
  obtain ⟨tc, rfl⟩ := target_of_new_router ht
  rfl

/-- Where all values agree, the first element is the minimum that is taken. -/
theorem argmin_eq_head? {α β : Type*} [LinearOrder β] {f : α → β} {b : β} {l : List α}
    (h : ∀ x ∈ l, f x = b) : l.argmin f = l.head? := by
  cases l with
  | nil => rfl
  | cons a rest =>
    rw [List.argmin_cons]
    cases hmin : rest.argmin f with
    | none => rfl
    | some c =>
      have heq : f c = f a := by
        rw [h c (List.mem_cons_of_mem a (List.argmin_mem hmin)), h a List.mem_cons_self]
      simp [heq]

/-- **What is left of least connections.**  Along every run a least-connections upstream selects
    the first of its healthy targets, whatever is in flight. -/
theorem least_connections_takes_first {lib : TlsLibrary File Cert Key Acceptor} {p : Platform}
    {config : Config} {serverConfig : ServerConfig} {tr : List Event} {s : State}
    (hrun : Run (Event.Step p) (State.initial (Server.new lib config serverConfig)) tr s)
    {id : Str} {u : Upstream} (hu : s.router.getUpstream id = some u)
    (hs : u.strategy = .leastConnections) (pick : Nat) :
    (u.selectTarget pick).1 = u.healthyTargets.head? := by
  have hidle : ∀ a ∈ u.healthyTargets, a.target.connectionScore = 0 := by
    intro a ha
    obtain ⟨hidx, hhealthy⟩ := Upstream.mem_healthyTargets.mp ha
    refine Target.connectionScore_of_idle hhealthy (idle_of_run hrun ⟨id, a.index⟩ a.target ?_)
    simp [Router.getTarget, hu, hidx]
  rw [Upstream.selectTarget_leastConnections hs]
  exact argmin_eq_head? hidle

/-! ### Requests in flight -/

/-- What a step does to the assignments: it assigns a request, or every request in flight was in
    flight before. -/
theorem assigned_of_step {p : Platform} {s s' : State} {e : Event} (hstep : e.Step p s s') :
    (∃ i pick d, e = .route i pick (some d)) ∨
      ∀ x' ∈ s'.exchanges, x'.assigned ≠ none → ∃ x ∈ s.exchanges, x.assigned = x'.assigned := by
  rcases exchanges_of_step hstep with heq | ⟨request, -, heq⟩ | ⟨i, x, stage, -, -, heq, hstage⟩
  · exact Or.inr fun x' hx' _ => ⟨x', heq ▸ hx', rfl⟩
  · refine Or.inr fun x' hx' hne => ?_
    rw [heq] at hx'
    rcases List.mem_append.mp hx' with hmem | hnew
    · exact ⟨x', hmem, rfl⟩
    · obtain rfl := List.mem_singleton.mp hnew
      simp only [Exchange.assigned, Exchange.start] at hne
      split at hne
      · rename_i hstage
        split at hstage <;> simp at hstage
      · simp at hne
  · have hset : (x.to stage).assigned = none → ∀ x' ∈ s'.exchanges, x'.assigned ≠ none →
        ∃ y ∈ s.exchanges, y.assigned = x'.assigned := by
      intro hnone x' hx' hne
      rw [heq] at hx'
      rcases List.mem_or_eq_of_mem_set hx' with hmem | rfl
      · exact ⟨x', hmem, rfl⟩
      · exact absurd hnone hne
    rcases hstage with rfl | ⟨response, rfl⟩ | ⟨pick, d, he, -⟩
    · exact Or.inr (hset rfl)
    · exact Or.inr (hset rfl)
    · exact Or.inl ⟨i, pick, d, he⟩

/-- As long as no request is assigned, nothing is in flight. -/
theorem inFlight_of_unassigned {p : Platform} {server : Server Acceptor} {tr : List Event}
    {s : State} (hrun : Run (Event.Step p) (State.initial server) tr s)
    (hnone : ∀ i pick d, .route i pick (some d) ∉ tr) (ref : TargetRef) : s.inFlight ref = 0 := by
  have hassigned : (∀ i pick d, .route i pick (some d) ∉ tr) →
      ∀ x ∈ s.exchanges, x.assigned = none := by
    refine hrun.invariant_trace (fun tr s => (∀ i pick d, .route i pick (some d) ∉ tr) →
      ∀ x ∈ s.exchanges, x.assigned = none) (fun _ x hx => by simp [State.initial] at hx) ?_
    intro tr s e s' _ ih hstep hnone x' hx'
    have hold := ih fun i pick d hmem => hnone i pick d (List.mem_append_left _ hmem)
    by_contra hne
    rcases assigned_of_step hstep with ⟨i, pick, d, rfl⟩ | hback
    · exact hnone i pick d (by simp)
    · obtain ⟨x, hx, hxx⟩ := hback x' hx' hne
      exact hne (hxx ▸ hold x hx)
  rw [State.inFlight, List.countP_eq_zero]
  intro x hx
  simp [hassigned hnone x hx]

/-- A request that has just been assigned is in flight. -/
theorem inFlight_of_routed {p : Platform} {s s' : State} {i pick : Nat} {d : Routed}
    (hstep : Event.Step p s (.route i pick (some d)) s') : 0 < s'.inFlight d.ref := by
  obtain ⟨x, hx, -, -, rfl⟩ := hstep
  rw [State.inFlight, List.countP_pos_iff]
  obtain ⟨hi, -⟩ := List.getElem?_eq_some_iff.mp hx
  exact ⟨_, List.mem_set hi _, by simp [Exchange.assigned, Exchange.to]⟩

/-- **Connection counts.**  In every run, over every interleaving of requests, the counter of
    every target equals its requests in flight at every point, and every selection of a
    least-connections upstream takes a least loaded target, exactly when no request of the run is
    assigned to a target at all. -/
theorem connections_tracked_iff (lib : TlsLibrary File Cert Key Acceptor) (p : Platform)
    (config : Config) (serverConfig : ServerConfig) (tr : List Event) (s : State)
    (hrun : Run (Event.Step p) (State.initial (Server.new lib config serverConfig)) tr s) :
    (∀ pre post m, tr = pre ++ post →
      Run (Event.Step p) (State.initial (Server.new lib config serverConfig)) pre m →
      ConnectionsTracked m ∧
        ∀ i pick d rest, post = .route i pick (some d) :: rest → LeastLoaded m d) ↔
      ∀ i pick d, .route i pick (some d) ∉ tr := by
  constructor
  · intro h i pick d hmem
    obtain ⟨pre, post, rfl⟩ := List.append_of_mem hmem
    obtain ⟨m, m', hpre, hstep, -⟩ := hrun.step_at
    have hrun' := Run.snoc hpre hstep
    -- right after the assignment the target has a request in flight and a counter of zero
    have hflight := inFlight_of_routed hstep
    obtain ⟨x, -, -, hrouted, rfl⟩ := hstep
    have hroute : m.router.routeRequest p (requestHost x.request) x.request.uri.path pick =
        (some d, (m.router.routeRequest p (requestHost x.request) x.request.uri.path pick).2) :=
      Prod.ext hrouted rfl
    obtain ⟨u, -, -, htarget⟩ := Router.getTarget_of_routed hroute
    rw [← Router.getTarget_of_routeRequest hroute] at htarget
    have htracked := (h _ post _ (by simp) hrun').1 d.ref d.target htarget
    rw [idle_of_run hrun' d.ref d.target htarget] at htracked
    omega
  · rintro h pre post m rfl hpre
    have hzero := inFlight_of_unassigned hpre fun i pick d hmem =>
      h i pick d (List.mem_append_left _ hmem)
    refine ⟨fun ref t ht => ?_, ?_⟩
    · rw [idle_of_run hpre ref t ht, hzero]
    · rintro i pick d rest rfl
      exact absurd (by simp) (h i pick d)

/-- A request that the first route takes. -/
def pageRequest : Request where
  method := .get
  uri := Uri.ofParts "/page".toList none (by decide)
  headers := HeaderMap.empty

/-- A server without routes answers the request itself. -/
def routelessServer : ServerConfig := { checkedServer with routes := [] }

theorem connections_tracked_iff_unrouted :
    ∃ s, Run (Event.Step Platform.ascii)
        (State.initial (Server.new noFiles checkedConfig routelessServer))
        ([.accept pageRequest] ++ [.route 0 0 none]) s ∧
      ∀ pre post m, [.accept pageRequest] ++ [.route 0 0 none] = pre ++ post →
        Run (Event.Step Platform.ascii)
          (State.initial (Server.new noFiles checkedConfig routelessServer)) pre m →
        ConnectionsTracked m ∧
          ∀ i pick d rest, post = .route i pick (some d) :: rest → LeastLoaded m d := by
  have hrun : Run (Event.Step Platform.ascii)
      (State.initial (Server.new noFiles checkedConfig routelessServer))
      ([.accept pageRequest] ++ [.route 0 0 none]) _ :=
    Run.snoc (Run.single rfl) ⟨_, rfl, rfl, rfl, rfl⟩
  exact ⟨_, hrun, (connections_tracked_iff noFiles Platform.ascii checkedConfig routelessServer _ _
    hrun).mpr (by simp)⟩

/-- The request is assigned to the first target. -/
def pageRouted : Routed :=
  ⟨"api".toList, ⟨0, Target.new ⟨"127.0.0.1".toList, 3000, none, none⟩⟩, some "/".toList⟩

/-- A request is in flight, and the counter of its target is zero. -/
theorem request_not_counted :
    ¬ ∀ (lib : TlsLibrary Unit Unit Unit Unit) (p : Platform) (config : Config)
      (serverConfig : ServerConfig) (tr : List Event) (s : State),
      Run (Event.Step p) (State.initial (Server.new lib config serverConfig)) tr s →
      ConnectionsTracked s := by
  intro h
  have hrun : Run (Event.Step Platform.ascii)
      (State.initial (Server.new noFiles checkedConfig checkedServer))
      ([.accept pageRequest] ++ [.route 0 0 (some pageRouted)]) _ :=
    Run.snoc (Run.single rfl) ⟨_, rfl, rfl, by decide, rfl⟩
  have hcount := h _ _ _ _ _ _ hrun ⟨"api".toList, 0⟩ pageRouted.target (by decide)
  have hflight : (0 : Nat) ≠ 1 := by decide
  exact hflight hcount

end Sret
