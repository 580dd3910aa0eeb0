import Sret.Process
import Sret.Progress

namespace Sret

open Transition Fairness

/-!
# The process answers

Liveness of the whole process: whatever its servers, listeners, connections and checkers do besides,
every request that comes in is answered and every put that is spawned ends.

* `tasks_of_execution` — an infinite execution of the process is, for each server, one of its tasks;
* `running_of_busy` — `main` does not return once a request has come in, so what the tasks of a
  server can do they can do in the process;
* `fair_tasks` — so an execution that is fair to a task in the process is fair to it in its server;
* `requests_answered` — the result, from the measure rules of a single server.
-/

variable {File Cert Key Acceptor : Type} {lib : TlsLibrary File Cert Key Acceptor} {p : Platform}
  {config : Config}

/-- The tasks of the server with the number. -/
def HasTasks (i : Nat) (s : Process Acceptor) (tasks : State) : Prop :=
  ∃ server, s.servers[i]? = some server ∧ server.tasks = tasks

/-- What the tasks of a server see of a step of the process. -/
def ProcessEvent.tasked (i : Nat) (e : ProcessEvent) : Option Event :=
  (e.of i).bind ServerEvent.tasked

/-- The step is one of this kind of the tasks of the server. -/
def ProcessEvent.Takes (i : Nat) (kind : Event → Prop) (e : ProcessEvent) : Prop :=
  ∃ e', e = .server i (.task e') ∧ kind e'

/-- A step of the process is one of the tasks of the server, or leaves them alone. -/
theorem HasTasks.step {i : Nat} {s s' : Process Acceptor} {tasks : State} (h : HasTasks i s tasks)
    {e : ProcessEvent} (hstep : e.Step p s s') :
    ∃ tasks', HasTasks i s' tasks' ∧
      ((∃ e', e.tasked i = some e' ∧ e'.Step p tasks tasks') ∨
        e.tasked i = none ∧ tasks' = tasks) := by
  obtain ⟨x, hx, rfl⟩ := h
  obtain ⟨x', hx', ⟨e', hof, hserver⟩ | ⟨hof, rfl⟩⟩ := hstep.server hx
  · refine ⟨x'.tasks, ⟨x', hx', rfl⟩, ?_⟩
    rw [ProcessEvent.tasked, hof, Option.bind_some]
    exact hserver.tasks
  · refine ⟨x'.tasks, ⟨x', hx', rfl⟩, Or.inr ⟨?_, rfl⟩⟩
    rw [ProcessEvent.tasked, hof, Option.bind_none]

section Executions

variable {x : Execution (@ProcessEvent.Step Acceptor p)}

/-- **The tasks of a server on their own.** -/
theorem tasks_of_execution (hinitial : x.state 0 = Process.start lib config) {i : Nat}
    {serverConfig : ServerConfig} (hi : config.servers[i]? = some serverConfig) :
    ∃ y : Execution (Event.Step p), y.state 0 = State.initial (Server.new lib config serverConfig) ∧
      ∀ n, HasTasks i (x.state n) (y.state n) ∧
        y.label n = (x.label n).bind (ProcessEvent.tasked i) := by
  refine x.exists_simulation (HasTasks i) _ (fun _ _ _ _ h hstep => h.step hstep) ?_
  rw [hinitial]
  exact ⟨RunningServer.spawn (Server.new lib config serverConfig), by simp [Process.start, hi], rfl⟩

/-- **A process with something to do runs on.** -/
theorem running_of_busy (hinitial : x.state 0 = Process.start lib config) {n i : Nat}
    {tasks : State} (htasks : HasTasks i (x.state n) tasks)
    (hbusy : tasks.exchanges ≠ [] ∨ tasks.puts ≠ []) :
    (x.state n).ended = false := by
  by_contra hended
  obtain ⟨server, hserver, rfl⟩ := htasks
  have hrun := x.run_upTo n
  rw [hinitial] at hrun
  have hlt := lt_length_of_server hrun hserver
  obtain ⟨server', hserver', halone, -⟩ := runs_of_process hrun (List.getElem?_eq_getElem hlt)
  obtain rfl : server' = server := Option.some.inj (hserver'.symm.trans hserver)
  -- `main` returns only when no server has come to listen
  have hfailed := failed_of_ended hrun (by simpa using hended) _ (List.mem_of_getElem? hserver)
  have hsilent := silent_of_run halone (by simp [hfailed])
  exact hbusy.elim (fun h => h hsilent.exchanges) fun h => h hsilent.puts

/-- A step of an exchange or of a put. -/
def Event.OfRequest (e : Event) : Prop := e.exchange.isSome = true ∨ e.put.isSome = true

/-- A step of an exchange or of a put needs one to take it. -/
theorem Event.OfRequest.busy {s s' : State} {e : Event} (h : e.OfRequest) (hstep : e.Step p s s') :
    s.exchanges ≠ [] ∨ s.puts ≠ [] := by
  cases e with
  | lookup i now result =>
    obtain ⟨_, _, _, hx, -⟩ := hstep
    exact Or.inl (List.ne_nil_of_mem (List.mem_of_getElem? hx))
  | route i pick routed =>
    obtain ⟨_, hx, -⟩ := hstep
    exact Or.inl (List.ne_nil_of_mem (List.mem_of_getElem? hx))
  | finish i outcome =>
    obtain ⟨_, _, hx, -⟩ := hstep
    exact Or.inl (List.ne_nil_of_mem (List.mem_of_getElem? hx))
  | prepare q clock =>
    obtain ⟨_, _, ht, -⟩ := hstep
    exact Or.inr (List.ne_nil_of_mem (List.mem_of_getElem? ht))
  | commit q key entry victim =>
    obtain ⟨_, _, _, ht, -⟩ := hstep
    exact Or.inr (List.ne_nil_of_mem (List.mem_of_getElem? ht))
  | _ => simp [Event.OfRequest, Event.exchange, Event.put] at h

/-- It brings no new request. -/
theorem Event.OfRequest.not_accept {e : Event} (h : e.OfRequest) (request : Request) :
    e ≠ .accept request := by
  rintro rfl
  simp [Event.OfRequest, Event.exchange, Event.put] at h

/-- It is not the step of a checker. -/
theorem Event.OfRequest.checker {e : Event} (h : e.OfRequest) : e.checker = none := by
  cases e with
  | probe c => simp [Event.OfRequest, Event.exchange, Event.put] at h
  | verdict c ref reply isHealthy now => simp [Event.OfRequest, Event.exchange, Event.put] at h
  | _ => rfl

/-- **What is fair in the process is fair in the server.** -/
theorem fair_tasks (hinitial : x.state 0 = Process.start lib config) {i : Nat}
    {y : Execution (Event.Step p)}
    (hy : ∀ n, HasTasks i (x.state n) (y.state n) ∧
      y.label n = (x.label n).bind (ProcessEvent.tasked i)) {kind : Event → Prop}
    (hkind : ∀ e, kind e → e.OfRequest) (hfair : x.Fair (ProcessEvent.Takes i kind)) :
    y.Fair kind := by
  refine hfair.simulation (fun n => (hy n).2) ?_ ?_
  · rintro e ⟨e', rfl, he'⟩
    exact ⟨e', by simp [ProcessEvent.tasked, ProcessEvent.of, ServerEvent.tasked], he'⟩
  · rintro n ⟨e, tasks', he, hstep⟩
    have hrunning := running_of_busy hinitial (hy n).1 ((hkind e he).busy hstep)
    obtain ⟨server, hserver, htasks⟩ := (hy n).1
    rw [← htasks] at hstep
    refine ⟨.server i (.task e), _, ⟨e, rfl, he⟩, hrunning, server, ⟨server.listener, tasks'⟩,
      hserver, ⟨(hkind e he).not_accept, ?_, hstep, rfl⟩, rfl⟩
    intro c k hc
    simp [(hkind e he).checker] at hc

end Executions

/-- **Every request of the process is answered.**  In every infinite execution of the process that
    is fair to each exchange and to each put of each server, whatever listeners, connections,
    checkers and other servers do in between: every exchange that a server has started has its
    answer at some time and from then on, and every put that it has spawned is done at some time
    and from then on. -/
theorem requests_answered (lib : TlsLibrary File Cert Key Acceptor) (p : Platform) (config : Config)
    (x : Execution (@ProcessEvent.Step Acceptor p))
    (hinitial : x.state 0 = Process.start lib config)
    (hexchanges : ∀ i j, x.Fair (ProcessEvent.Takes i fun e => e.exchange = some j))
    (hputs : ∀ i q, x.Fair (ProcessEvent.Takes i fun e => e.put = some q)) (n i : Nat)
    (server : RunningServer Acceptor) (hserver : (x.state n).servers[i]? = some server) :
    (∀ j < server.tasks.exchanges.length, ∃ m, n ≤ m ∧ ∀ k, m ≤ k →
      ∃ tasks, HasTasks i (x.state k) tasks ∧ tasks.Answered j) ∧
    ∀ q < server.tasks.puts.length, ∃ m, n ≤ m ∧ ∀ k, m ≤ k →
      ∃ tasks, HasTasks i (x.state k) tasks ∧ tasks.Settled q := by
  have hlt := lt_length_of_server (hinitial ▸ x.run_upTo n) hserver
  obtain ⟨y, hstart, hy⟩ := tasks_of_execution hinitial (List.getElem?_eq_getElem hlt)
  have htasks : server.tasks = y.state n := by
    obtain ⟨server', hserver', htasks⟩ := (hy n).1
    rw [← htasks, Option.some.inj (hserver'.symm.trans hserver)]
  have hunblocked : Unblocked (y.state n) := unblocked_of_run (hstart ▸ y.run_upTo n)
  rw [htasks]
  constructor
  · intro j hj
    have hfair : y.Fair fun e => e.exchange = some j :=
      fair_tasks hinitial hy (fun e he => Or.inl (by simp [he])) (hexchanges i j)
    obtain ⟨m, hm, hans⟩ := eventually_answered y hfair hunblocked hj
    refine ⟨m, hm, fun k hk => ⟨y.state k, (hy k).1, ?_⟩⟩
    exact y.always (fun s => s.Answered j) (fun _ _ _ h hstep => h.step hstep) hans hk
  · intro q hq
    have hfair : y.Fair fun e => e.put = some q :=
      fair_tasks hinitial hy (fun e he => Or.inr (by simp [he])) (hputs i q)
    obtain ⟨m, hm, hsettled⟩ := eventually_settled y hfair hunblocked hq
    refine ⟨m, hm, fun k hk => ⟨y.state k, (hy k).1, ?_⟩⟩
    exact y.always (fun s => s.Settled q) (fun _ _ _ h hstep => h.step hstep) hsettled hk

/-- A server without TLS. -/
def openRunning (phase : ListenerPhase) (connections : List (Connection Unit)) (tasks : State) :
    RunningServer Unit where
  listener := ⟨Server.new noFiles openConfig openServer, phase, connections⟩
  tasks := tasks

/-- The process with this one server. -/
def openProcess (phase : ListenerPhase) (connections : List (Connection Unit)) (tasks : State) :
    Process Unit where
  servers := [openRunning phase connections tasks]
  ended := false

/-- It listens, takes a request, and cannot reach its target. -/
theorem exists_run_unreachable :
    ∃ tr s, Run (ProcessEvent.Step Platform.ascii) (Process.start noFiles openConfig) tr
        (openProcess .listening [.serving] s) ∧
      s.exchanges = [⟨formRequest, .answered badGateway⟩] ∧ s.puts = [] := by
  obtain ⟨tr, s, hrun, hexchanges, hputs, haccepts⟩ := exists_run_routed
  have hbind : ProcessEvent.Step Platform.ascii (openProcess .starting [] openState)
      (.server 0 (.listener (.bind true))) (openProcess .listening [] openState) :=
    ⟨rfl, _, openRunning .listening [] openState, rfl, ⟨by simp, ⟨rfl, rfl⟩, rfl⟩, rfl⟩
  have haccept : ProcessEvent.Step Platform.ascii (openProcess .listening [] openState)
      (.server 0 (.listener (.accept true))) (openProcess .listening [.serving] openState) :=
    ⟨rfl, _, openRunning .listening [.serving] openState, rfl, ⟨by simp, ⟨rfl, rfl⟩, rfl⟩, rfl⟩
  have hrequest : ProcessEvent.Step Platform.ascii (openProcess .listening [.serving] openState)
      (.server 0 (.request 0 formRequest)) (openProcess .listening [.serving] formState) :=
    ⟨rfl, _, openRunning .listening [.serving] formState, rfl, ⟨⟨rfl, rfl⟩, rfl⟩, rfl⟩
  have htasks := server_of_tasks hrun haccepts (by simp [formState, openState])
    ⟨Server.new noFiles openConfig openServer, .listening, [.serving]⟩
  have hprocess : Run (ProcessEvent.Step Platform.ascii)
      (openProcess .listening [.serving] formState) _ (openProcess .listening [.serving] s) :=
    process_of_server rfl (i := 0) rfl htasks
  exact ⟨_, s, (((Run.single hbind).snoc haccept).snoc hrequest).append hprocess, hexchanges,
    hputs⟩

/-- The request gets its 502, and keeps it. -/
theorem requests_answered_unreachable :
    ∃ x : Execution (@ProcessEvent.Step Unit Platform.ascii),
      x.state 0 = Process.start noFiles openConfig ∧
      ∃ m, ∀ k, m ≤ k → ∃ tasks, HasTasks 0 (x.state k) tasks ∧ tasks.Answered 0 := by
  obtain ⟨tr, s, hrun, hexchanges, hputs⟩ := exists_run_unreachable
  obtain ⟨x, hstart, hstay⟩ := exists_of_run hrun
  have hrest : s.AtRest := ⟨by simp [hexchanges, Exchange.Answered], hputs⟩
  -- what a server could still do, the only one would have to do
  have htasks : ∀ {i : Nat} {e : Event} {t : Process Unit}, ProcessEvent.Step Platform.ascii
      (openProcess .listening [.serving] s) (.server i (.task e)) t →
      ∃ s', Event.Step Platform.ascii s e s' := by
    rintro i e t ⟨-, server, server', hserver, ⟨-, -, hstep, -⟩, -⟩
    obtain rfl := List.mem_singleton.mp (List.mem_of_getElem? hserver)
    exact ⟨_, hstep⟩
  have hexchange : ∀ i j, x.Fair (ProcessEvent.Takes i fun e => e.exchange = some j) := by
    refine fun i j => x.fair_of_ended fun m (hm : tr.length ≤ m) => ?_
    rw [(hstay m hm).1]
    rintro ⟨_, t, ⟨e, rfl, hown⟩, hstep⟩
    obtain ⟨s', hstep⟩ := htasks hstep
    exact hrest.not_exchange j ⟨e, s', hown, hstep⟩
  have hput : ∀ i q, x.Fair (ProcessEvent.Takes i fun e => e.put = some q) := by
    refine fun i q => x.fair_of_ended fun m (hm : tr.length ≤ m) => ?_
    rw [(hstay m hm).1]
    rintro ⟨_, t, ⟨e, rfl, hown⟩, hstep⟩
    obtain ⟨s', hstep⟩ := htasks hstep
    exact hrest.not_put q ⟨e, s', hown, hstep⟩
  obtain ⟨m, -, hans⟩ := (requests_answered noFiles Platform.ascii openConfig x hstart hexchange
    hput tr.length 0 (openRunning .listening [.serving] s) (by rw [(hstay _ le_rfl).1]; rfl)).1 0
    (by rw [openRunning, hexchanges]; exact Nat.one_pos)
  exact ⟨x, hstart, m, hans⟩

end Sret
