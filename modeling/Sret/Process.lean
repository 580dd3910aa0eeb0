import Sret.CheckOrder
import Sret.Listener
import Sret.Loading
import Sret.Provenance
import Sret.Resolution
import Sret.ReverseProxy

namespace Sret

open Text Transition

/-!
# The whole process

`main` loads the configuration, makes a server for each entry, lets each run in a task of its own,
and waits for all of them.

* `Process.main`, `main_outcome` — loading and starting, and what is reported instead;
* `ServerEvent.Step` — one server: its listener and its connections beside the tasks that they and
  the health checks have spawned;
* `ProcessEvent.Step` — all servers, whose steps come in any order, until `main` returns;
* `server_of_process`, `listener_of_server`, `tasks_of_server` — a run of the process is, for each
  server, a run of its own, and that is a run of the listener and a run of the tasks, so what
  holds there holds in the process; `process_of_server` is the way back;
* `servers_judge_alone` — servers with the same upstream keep flags of their own for its targets;
* `servers_are_proxies` — every server is a reverse proxy for its part of the file;
* `requests_encrypted` — in a process with the certificates in place, every exchange of a TLS
  server came over a connection that had completed its handshake;
* `ended_served_nothing` — a process that ends has not served a single request.
-/

variable {File Cert Key Acceptor : Type}

/-! ### Starting -/

/-- A server in its task: the listener with its connections, and all that has been spawned. -/
structure RunningServer (Acceptor : Type) where
  listener : ListenerState Acceptor
  tasks : State

/-- The task before its first step. -/
def RunningServer.spawn (server : Server Acceptor) : RunningServer Acceptor where
  listener := ListenerState.start server
  tasks := State.initial server

/-- The servers that `main` has spawned. -/
structure Process (Acceptor : Type) where
  servers : List (RunningServer Acceptor)
  /-- `main` has returned. -/
  ended : Bool

/-- The tasks of `main` for a configuration.  Without servers it returns at once. -/
def Process.start (lib : TlsLibrary File Cert Key Acceptor) (config : Config) :
    Process Acceptor where
  servers := config.servers.map fun serverConfig =>
    RunningServer.spawn (Server.new lib config serverConfig)
  ended := config.servers.isEmpty

/-- `main`, as far as it goes before it waits for its tasks. -/
def Process.main (loader : Loader) (lib : TlsLibrary File Cert Key Acceptor) (path : Str) :
    Except Str (Process Acceptor) := do
  let config ← Config.fromFile loader path
  return Process.start lib config

/-- What has been loaded is started. -/
theorem main_of_fromFile {loader : Loader} {path : Str} {config : Config}
    (h : Config.fromFile loader path = .ok config) (lib : TlsLibrary File Cert Key Acceptor) :
    Process.main loader lib path = .ok (Process.start lib config) := by
  unfold Process.main
  rw [h]
  rfl

/-- What cannot be loaded is reported. -/
theorem main_of_error {loader : Loader} {path text : Str}
    (h : Config.fromFile loader path = .error text) (lib : TlsLibrary File Cert Key Acceptor) :
    Process.main loader lib path = .error text := by
  unfold Process.main
  rw [h]
  rfl

/-- **What becomes of `main`.**  It starts the servers of a file exactly if the file holds a
    configuration whose routes all resolve and whose ids are distinct.  Everything else is
    reported: that the file cannot be read or parsed, or else the first fault of the
    configuration, with the id it is about. -/
theorem main_outcome (loader : Loader) (lib : TlsLibrary File Cert Key Acceptor) (path : Str) :
    (∀ process, Process.main loader lib path = .ok process ↔
      ∃ config, loader.Holds path config ∧ config.RoutesResolve ∧ config.IdsDistinct ∧
        process = Process.start lib config) ∧
      ∀ text, Process.main loader lib path = .error text ↔ loader.Fault path text := by
  cases hfile : Config.fromFile loader path with
  | ok config =>
    rw [main_of_fromFile hfile]
    constructor
    · intro process
      constructor
      · intro h
        obtain ⟨hholds, hroutes, hids⟩ := Config.fromFile_eq_ok.mp hfile
        exact ⟨config, hholds, hroutes, hids, (Except.ok.inj h).symm⟩
      · rintro ⟨config', hholds, hroutes, hids, rfl⟩
        have hfile' := Config.fromFile_eq_ok.mpr ⟨hholds, hroutes, hids⟩
        obtain rfl := Except.ok.inj (hfile.symm.trans hfile')
        rfl
    · intro text
      rw [← Config.fromFile_eq_error, hfile]
      simp
  | error text =>
    rw [main_of_error hfile]
    constructor
    · intro process
      refine iff_of_false (by simp) ?_
      rintro ⟨config, hholds, hroutes, hids, -⟩
      rw [Config.fromFile_eq_ok.mpr ⟨hholds, hroutes, hids⟩] at hfile
      simp at hfile
    · intro text'
      rw [← Config.fromFile_eq_error, hfile]
      simp

/-! ### Running -/

/-- What happens in one server. -/
inductive ServerEvent
  /-- A step of the listener or of a connection, but no request. -/
  | listener (e : ListenerEvent)
  /-- A request comes in over a connection. -/
  | request (connection : Nat) (req : Request)
  /-- A step of an exchange, of a put or of a checker. -/
  | task (e : Event)

/-- The event takes the server from one state to the next. -/
def ServerEvent.Step (p : Platform) (s : RunningServer Acceptor) (e : ServerEvent)
    (s' : RunningServer Acceptor) : Prop :=
  match e with
  | .listener e => (∀ connection, e ≠ .request connection) ∧ e.Step s.listener s'.listener ∧
      s'.tasks = s.tasks
  | .request connection req =>
      ListenerEvent.Step s.listener (.request connection) s'.listener ∧
        Event.Step p s.tasks (.accept req) s'.tasks
  | .task e => (∀ request, e ≠ .accept request) ∧
      -- a checker without an interval has panicked
      (∀ c k, e.checker = some c → s.tasks.checkers[c]? = some k →
        k.checker.config.intervalSeconds ≠ 0) ∧
      e.Step p s.tasks s'.tasks ∧ s'.listener = s.listener

/-- What happens in the process. -/
inductive ProcessEvent
  | server (server : Nat) (e : ServerEvent)
  /-- `main` returns, and everything that still runs is dropped. -/
  | exit

/-- The event takes the process from one state to the next. -/
def ProcessEvent.Step (p : Platform) (s : Process Acceptor) (e : ProcessEvent)
    (s' : Process Acceptor) : Prop :=
  s.ended = false ∧
    match e with
    | .server i e => ∃ x x', s.servers[i]? = some x ∧ e.Step p x x' ∧
        s' = { s with servers := s.servers.set i x' }
    -- the loop over the tasks: each has ended, which `start` does on a failed `bind` only
    | .exit => (∀ x ∈ s.servers, x.listener.phase = .failed) ∧ s' = { s with ended := true }

/-! ### Projections -/

/-- The steps of one server. -/
def ProcessEvent.of (server : Nat) : ProcessEvent → Option ServerEvent
  | .server i e => if i = server then some e else none
  | .exit => none

/-- What the listener sees of a step. -/
def ServerEvent.listened : ServerEvent → Option ListenerEvent
  | .listener e => some e
  | .request connection _ => some (.request connection)
  | .task _ => none

/-- What the tasks see of a step. -/
def ServerEvent.tasked : ServerEvent → Option Event
  | .listener _ => none
  | .request _ req => some (.accept req)
  | .task e => some e

/-- A step of the process is one of a server, or leaves it alone. -/
theorem ProcessEvent.Step.server {p : Platform} {s s' : Process Acceptor} {e : ProcessEvent}
    (h : e.Step p s s') {i : Nat} {x : RunningServer Acceptor} (hx : s.servers[i]? = some x) :
    ∃ x', s'.servers[i]? = some x' ∧
      ((∃ e', e.of i = some e' ∧ e'.Step p x x') ∨ e.of i = none ∧ x' = x) := by
  obtain ⟨-, hstep⟩ := h
  cases e with
  | exit =>
    obtain ⟨-, rfl⟩ := hstep
    exact ⟨x, hx, Or.inr ⟨rfl, rfl⟩⟩
  | server j e =>
    obtain ⟨y, y', hy, hstep, rfl⟩ := hstep
    by_cases hji : j = i
    · subst hji
      obtain rfl : y = x := Option.some.inj (hy.symm.trans hx)
      obtain ⟨hlt, -⟩ := List.getElem?_eq_some_iff.mp hx
      exact ⟨y', List.getElem?_set_self hlt, Or.inl ⟨e, if_pos rfl, hstep⟩⟩
    · exact ⟨x, (List.getElem?_set_ne hji).trans hx, Or.inr ⟨if_neg hji, rfl⟩⟩

/-- **Each server runs on its own.** -/
theorem server_of_process {p : Platform} {s s' : Process Acceptor} {tr : List ProcessEvent}
    (hrun : Run (ProcessEvent.Step p) s tr s') {i : Nat} {x : RunningServer Acceptor}
    (hx : s.servers[i]? = some x) :
    ∃ x', s'.servers[i]? = some x' ∧
      Run (ServerEvent.Step p) x (tr.filterMap (ProcessEvent.of i)) x' :=
  hrun.simulation (fun s x => s.servers[i]? = some x) _ (fun _ _ _ _ hx hstep => hstep.server hx) hx

/-- What a server does alone it may do in the process. -/
theorem process_of_server {p : Platform} {s : Process Acceptor} (hrunning : s.ended = false)
    {i : Nat} {x x' : RunningServer Acceptor} (hx : s.servers[i]? = some x)
    {tr : List ServerEvent} (hrun : Run (ServerEvent.Step p) x tr x') :
    Run (ProcessEvent.Step p) s (tr.map (.server i)) { s with servers := s.servers.set i x' } := by
  obtain ⟨hlt, hget⟩ := List.getElem?_eq_some_iff.mp hx
  induction hrun with
  | nil =>
    have hself : s.servers.set i x = s.servers := by rw [← hget, List.set_getElem_self]
    rw [hself]
    exact Run.nil s
  | @snoc y z tr e _ hstep ih =>
    rw [List.map_append, List.map_singleton]
    refine ih.snoc ⟨hrunning, y, z, List.getElem?_set_self hlt, hstep, ?_⟩
    rw [List.set_set]

/-- The listener of a server. -/
theorem listener_of_server {p : Platform} {x x' : RunningServer Acceptor} {tr : List ServerEvent}
    (hrun : Run (ServerEvent.Step p) x tr x') :
    Run ListenerEvent.Step x.listener (tr.filterMap ServerEvent.listened) x'.listener := by
  obtain ⟨y, rfl, h⟩ : ∃ y, x'.listener = y ∧
      Run ListenerEvent.Step x.listener (tr.filterMap ServerEvent.listened) y := by
    refine hrun.simulation (fun x y => x.listener = y) ServerEvent.listened ?_ rfl
    rintro s x e t rfl hstep
    cases e with
    | listener e => exact ⟨_, rfl, Or.inl ⟨e, rfl, hstep.2.1⟩⟩
    | request connection req => exact ⟨_, rfl, Or.inl ⟨_, rfl, hstep.1⟩⟩
    | task e => exact ⟨_, rfl, Or.inr ⟨rfl, hstep.2.2.2⟩⟩
  exact h

/-- A step of a server is one of its tasks, or leaves them alone. -/
theorem ServerEvent.Step.tasks {p : Platform} {x x' : RunningServer Acceptor} {e : ServerEvent}
    (h : e.Step p x x') :
    (∃ e', e.tasked = some e' ∧ e'.Step p x.tasks x'.tasks) ∨
      e.tasked = none ∧ x'.tasks = x.tasks := by
  cases e with
  | listener e => exact Or.inr ⟨rfl, h.2.2⟩
  | request connection req => exact Or.inl ⟨_, rfl, h.2⟩
  | task e => exact Or.inl ⟨e, rfl, h.2.2.1⟩

/-- The tasks of a server. -/
theorem tasks_of_server {p : Platform} {x x' : RunningServer Acceptor} {tr : List ServerEvent}
    (hrun : Run (ServerEvent.Step p) x tr x') :
    Run (Event.Step p) x.tasks (tr.filterMap ServerEvent.tasked) x'.tasks := by
  obtain ⟨y, rfl, h⟩ := hrun.simulation (fun x y => x.tasks = y) ServerEvent.tasked
    (by rintro s x e t rfl hstep; exact ⟨_, rfl, hstep.tasks⟩) rfl
  exact h

/-- A run of the tasks is one of the server when every step of it is. -/
theorem server_of_steps {p : Platform} {listener : ListenerState Acceptor}
    {within : Event → ServerEvent} {s s' : State} {tr : List Event}
    (hrun : Run (Event.Step p) s tr s')
    (hinterval : ∀ k ∈ s.checkers, k.checker.config.intervalSeconds ≠ 0)
    (hwithin : ∀ e ∈ tr, ∀ t t' : State,
      (∀ k ∈ t.checkers, k.checker.config.intervalSeconds ≠ 0) → e.Step p t t' →
      (within e).Step p ⟨listener, t⟩ ⟨listener, t'⟩) :
    Run (ServerEvent.Step p) ⟨listener, s⟩ (tr.map within) ⟨listener, s'⟩ := by
  have hall : (∀ k ∈ s'.checkers, k.checker.config.intervalSeconds ≠ 0) ∧
      Run (ServerEvent.Step p) ⟨listener, s⟩ (tr.map within) ⟨listener, s'⟩ := by
    induction hrun with
    | nil => exact ⟨hinterval, Run.nil _⟩
    | @snoc t u tr e _ hstep ih =>
      obtain ⟨hchecks, hserver⟩ := ih fun e' hmem => hwithin e' (List.mem_append_left _ hmem)
      refine ⟨fun k hk => ?_, ?_⟩
      · -- a step changes the places of the checkers, not what they are configured with
        obtain ⟨k₀, hk₀, -, hsame⟩ := checker_of_step hstep hk
        exact hsame ▸ hchecks k₀ hk₀
      · rw [List.map_append, List.map_singleton]
        exact hserver.snoc
          (hwithin e (List.mem_append_right _ List.mem_cons_self) _ _ hchecks hstep)
  exact hall.2

/-- Steps of the tasks that bring no request are steps of the server. -/
theorem server_of_tasks {p : Platform} {s s' : State} {tr : List Event}
    (hrun : Run (Event.Step p) s tr s') (haccept : ∀ request, .accept request ∉ tr)
    (hinterval : ∀ k ∈ s.checkers, k.checker.config.intervalSeconds ≠ 0)
    (listener : ListenerState Acceptor) :
    Run (ServerEvent.Step p) ⟨listener, s⟩ (tr.map .task) ⟨listener, s'⟩ := by
  refine server_of_steps hrun hinterval fun e hmem t t' hchecks hstep => ?_
  refine ⟨fun request he => haccept request (he ▸ hmem), fun c k _ hk => ?_, hstep, rfl⟩
  exact hchecks k (List.mem_of_getElem? hk)

/-- What a step of the tasks is when every request comes over one connection. -/
def ServerEvent.over (connection : Nat) : Event → ServerEvent
  | .accept req => .request connection req
  | e => .task e

/-- A server with an open connection can do all that its tasks can do. -/
theorem server_of_serving {p : Platform} {s s' : State} {tr : List Event}
    (hrun : Run (Event.Step p) s tr s')
    (hinterval : ∀ k ∈ s.checkers, k.checker.config.intervalSeconds ≠ 0)
    {listener : ListenerState Acceptor} (connection : Nat)
    (hserving : listener.connections[connection]? = some .serving) :
    Run (ServerEvent.Step p) ⟨listener, s⟩ (tr.map (ServerEvent.over connection))
      ⟨listener, s'⟩ := by
  refine server_of_steps hrun hinterval fun e _ t t' hchecks hstep => ?_
  have htask : (∀ request, e ≠ .accept request) →
      ServerEvent.Step p ⟨listener, t⟩ (.task e) ⟨listener, t'⟩ :=
    fun hne => ⟨hne, fun c k _ hk => hchecks k (List.mem_of_getElem? hk), hstep, rfl⟩
  cases e with
  | accept request => exact ⟨⟨hserving, rfl⟩, hstep⟩
  | _ => exact htask (by simp)

/-- The steps of the listener of one server. -/
def listenerTrace (i : Nat) (tr : List ProcessEvent) : List ListenerEvent :=
  (tr.filterMap (ProcessEvent.of i)).filterMap ServerEvent.listened

/-- The steps of the tasks of one server. -/
def taskTrace (i : Nat) (tr : List ProcessEvent) : List Event :=
  (tr.filterMap (ProcessEvent.of i)).filterMap ServerEvent.tasked

/-- The steps of a server are those that the process takes for it. -/
theorem mem_of_filterMap_of {i : Nat} {tr : List ProcessEvent} {e : ServerEvent} :
    e ∈ tr.filterMap (ProcessEvent.of i) ↔ .server i e ∈ tr := by
  rw [List.mem_filterMap]
  constructor
  · rintro ⟨a, ha, hof⟩
    unfold ProcessEvent.of at hof
    split at hof
    · split at hof
      · rename_i hj
        obtain rfl := Option.some.inj hof
        exact hj ▸ ha
      · simp at hof
    · simp at hof
  · exact fun h => ⟨_, h, if_pos rfl⟩

section Runs

variable {lib : TlsLibrary File Cert Key Acceptor} {p : Platform} {config : Config}
  {tr : List ProcessEvent} {s : Process Acceptor}

/-- **What holds of a server holds of it in the process.** -/
theorem runs_of_process (hrun : Run (ProcessEvent.Step p) (Process.start lib config) tr s) {i : Nat}
    {serverConfig : ServerConfig} (hi : config.servers[i]? = some serverConfig) :
    ∃ x, s.servers[i]? = some x ∧
      Run (ServerEvent.Step p) (RunningServer.spawn (Server.new lib config serverConfig))
        (tr.filterMap (ProcessEvent.of i)) x ∧
      Run ListenerEvent.Step (ListenerState.start (Server.new lib config serverConfig))
        (listenerTrace i tr) x.listener ∧
      Run (Event.Step p) (State.initial (Server.new lib config serverConfig)) (taskTrace i tr)
        x.tasks := by
  have hstart : (Process.start lib config).servers[i]? =
      some (RunningServer.spawn (Server.new lib config serverConfig)) := by
    simp [Process.start, hi]
  obtain ⟨x, hx, hserver⟩ := server_of_process hrun hstart
  exact ⟨x, hx, hserver, listener_of_server hserver, tasks_of_server hserver⟩

/-- There are as many servers as are configured. -/
theorem length_servers (hrun : Run (ProcessEvent.Step p) (Process.start lib config) tr s) :
    s.servers.length = config.servers.length := by
  refine hrun.invariant (fun s => s.servers.length = config.servers.length)
    (by simp [Process.start]) ?_
  rintro t e u ih ⟨-, hstep⟩
  cases e with
  | server i e =>
    obtain ⟨_, _, -, -, rfl⟩ := hstep
    simpa using ih
  | exit =>
    obtain ⟨-, rfl⟩ := hstep
    exact ih

/-- A server of the process is a configured one. -/
theorem lt_length_of_server (hrun : Run (ProcessEvent.Step p) (Process.start lib config) tr s)
    {i : Nat} {server : RunningServer Acceptor} (h : s.servers[i]? = some server) :
    i < config.servers.length := by
  obtain ⟨hlt, -⟩ := List.getElem?_eq_some_iff.mp h
  exact hlt.trans_eq (length_servers hrun)

end Runs

/-! ### Separate servers -/

/-- **Servers judge by their own checks.**  In every run of a process that `main` has started, the
    flags of the targets of a server say what the last of its own checks have found, although other
    servers may share its upstreams; and every route of the server leads to an upstream. -/
theorem servers_judge_alone (loader : Loader) (lib : TlsLibrary File Cert Key Acceptor)
    (p : Platform) (path : Str) (config : Config)
    (hfile : Config.fromFile loader path = .ok config) (process : Process Acceptor)
    (hmain : Process.main loader lib path = .ok process) (tr : List ProcessEvent)
    (s : Process Acceptor) (hrun : Run (ProcessEvent.Step p) process tr s) (i : Nat)
    (serverConfig : ServerConfig) (hi : config.servers[i]? = some serverConfig) :
    ∃ server, s.servers[i]? = some server ∧
      (∀ ref t, server.tasks.router.getTarget ref = some t →
        t.isHealthy = (lastVerdict (taskTrace i tr) ref).getD true) ∧
      ∀ host path pick, server.tasks.router.missingUpstreams p host path pick = [] := by
  obtain ⟨-, hroutes, hids⟩ := Config.fromFile_eq_ok.mp hfile
  have hvalid := Config.validate_eq_ok.mpr ⟨hroutes, hids⟩
  rw [main_of_fromFile hfile] at hmain
  obtain rfl := Except.ok.inj hmain
  obtain ⟨server, hserver, -, -, htasks⟩ := runs_of_process hrun hi
  refine ⟨server, hserver, (healthInvariant_of_run hvalid htasks).2.flag, fun host path pick => ?_⟩
  have hcomplete := htasks.invariant (fun s => s.router.Complete)
    (Router.complete_new hvalid (List.mem_of_getElem? hi)) fun _ _ _ h hstep => h.step hstep
  exact Router.missingUpstreams_eq_nil hcomplete p host path pick

/-- Two servers in front of one upstream. -/
def sharedUpstream : Config where
  servers := [checkedServer, { checkedServer with id := "admin".toList, port := 81 }]
  upstreams := checkedConfig.upstreams

/-- A file system with one file, which holds the configuration. -/
def oneFile (config : Config) : Loader where
  readToString _ := .ok []
  fromStr _ := .ok config

/-- The first server finds the first target down. -/
def judgedTrace : List ProcessEvent :=
  [.server 0 (.task (.probe 0)), .server 0 (.task (.verdict 0 ⟨"api".toList, 0⟩ none false 7))]

/-- The first server makes one check, and the second none. -/
theorem exists_run_judged : ∃ s, Run (ProcessEvent.Step Platform.ascii)
    (Process.start noFiles sharedUpstream) judgedTrace s := by
  have hprobe := Run.single (show Event.Step Platform.ascii
    (State.initial (Server.new noFiles sharedUpstream checkedServer)) (.probe 0) _ from
    ⟨_, _, _, rfl, rfl, rfl, rfl, rfl⟩)
  have hverdict := hprobe.snoc (show Event.Step Platform.ascii _
    (.verdict 0 ⟨"api".toList, 0⟩ none false 7) _ from ⟨_, _, rfl, rfl, rfl, rfl, rfl⟩)
  have hserver := server_of_tasks hverdict (by simp) (by simp [State.initial]; decide)
    (ListenerState.start (Server.new noFiles sharedUpstream checkedServer))
  exact ⟨_, process_of_server rfl (i := 0) rfl hserver⟩

/-- The target is down for the first server, and up for the second. -/
theorem servers_judge_alone_shared :
    ∃ s : Process Unit, Run (ProcessEvent.Step Platform.ascii)
        (Process.start noFiles sharedUpstream) judgedTrace s ∧
      (∃ first, s.servers[0]? = some first ∧
        ∀ t, first.tasks.router.getTarget ⟨"api".toList, 0⟩ = some t → t.isHealthy = false) ∧
      ∃ second, s.servers[1]? = some second ∧
        ∀ t, second.tasks.router.getTarget ⟨"api".toList, 0⟩ = some t → t.isHealthy = true := by
  obtain ⟨s, hrun⟩ := exists_run_judged
  obtain ⟨first, hfirst, hdown, -⟩ := servers_judge_alone (oneFile sharedUpstream) noFiles
    Platform.ascii [] sharedUpstream rfl _ rfl judgedTrace s hrun 0 _ rfl
  obtain ⟨second, hsecond, hup, -⟩ := servers_judge_alone (oneFile sharedUpstream) noFiles
    Platform.ascii [] sharedUpstream rfl _ rfl judgedTrace s hrun 1 _ rfl
  exact ⟨s, hrun, ⟨first, hfirst, fun t ht => hdown _ t ht⟩,
    second, hsecond, fun t ht => hup _ t ht⟩

/-! ### Reverse proxies -/

/-- **A process is its reverse proxies.**  In every run of a process that `main` has started, every
    server does what the specification says for its part of the file: the steps of its tasks are a
    run of the reverse proxy, and the state that they lead to shows the server. -/
theorem servers_are_proxies (loader : Loader) (lib : TlsLibrary File Cert Key Acceptor)
    (p : Platform) (path : Str) (config : Config)
    (hfile : Config.fromFile loader path = .ok config) (process : Process Acceptor)
    (hmain : Process.main loader lib path = .ok process) (tr : List ProcessEvent)
    (s : Process Acceptor) (hrun : Run (ProcessEvent.Step p) process tr s) (i : Nat)
    (serverConfig : ServerConfig) (hi : config.servers[i]? = some serverConfig) :
    ∃ server proxy, s.servers[i]? = some server ∧ ReverseProxy.Shows server.tasks proxy ∧
      Run (ReverseProxy.Action.Step (ReverseProxy.Setup.of p config serverConfig))
        ReverseProxy.start ((taskTrace i tr).filterMap Event.action) proxy := by
  obtain ⟨-, hroutes, hids⟩ := Config.fromFile_eq_ok.mp hfile
  rw [main_of_fromFile hfile] at hmain
  obtain rfl := Except.ok.inj hmain
  obtain ⟨server, hserver, -, -, htasks⟩ := runs_of_process hrun hi
  obtain ⟨proxy, hshows, hproxy⟩ :=
    ReverseProxy.shows_of_run (Config.validate_eq_ok.mpr ⟨hroutes, hids⟩) htasks
  exact ⟨server, proxy, hserver, hshows, hproxy⟩

/-- A server with a cache in front of one target. -/
def raceConfig : Config := { openConfig with servers := [raceServer] }

/-- The server accepts a connection, over which the two requests come. -/
def servedProcessTrace : List ProcessEvent :=
  ([ServerEvent.listener (.bind true), .listener (.accept true)] ++
    servedTrace.map (ServerEvent.over 0)).map (.server 0)

/-- The requests come over the one connection, and are answered. -/
theorem exists_run_servedProcess :
    ∃ tasks, Run (ProcessEvent.Step Platform.ascii) (Process.start noFiles raceConfig)
        servedProcessTrace
        ⟨[⟨⟨Server.new noFiles raceConfig raceServer, .listening, [.serving]⟩, tasks⟩], false⟩ ∧
      tasks.exchanges = [⟨startRequest, .answered oldPage⟩,
        ⟨startRequest, .answered ((pageEntry oldPage).toResponse 0)⟩] := by
  obtain ⟨tasks, htasks, hexchanges⟩ := exists_run_served
  have hbind := Run.single (show ServerEvent.Step Platform.ascii
    (RunningServer.spawn (Server.new noFiles raceConfig raceServer)) (.listener (.bind true))
    ⟨⟨Server.new noFiles raceConfig raceServer, .listening, []⟩,
      State.initial (Server.new noFiles raceConfig raceServer)⟩ from
    ⟨by simp, ⟨rfl, rfl⟩, rfl⟩)
  have haccept := hbind.snoc (show ServerEvent.Step Platform.ascii _ (.listener (.accept true))
    ⟨⟨Server.new noFiles raceConfig raceServer, .listening, [.serving]⟩,
      State.initial (Server.new noFiles raceConfig raceServer)⟩ from
    ⟨by simp, ⟨rfl, rfl⟩, rfl⟩)
  -- the server has no checker, and the two configurations give it the same upstreams
  have hserved : Run (ServerEvent.Step Platform.ascii)
      ⟨⟨Server.new noFiles raceConfig raceServer, .listening, [.serving]⟩,
        State.initial (Server.new noFiles raceConfig raceServer)⟩ _ ⟨_, tasks⟩ :=
    server_of_serving htasks (by simp [State.initial]; decide) 0 rfl
  exact ⟨tasks, process_of_server rfl (i := 0) rfl (haccept.append hserved), hexchanges⟩

/-- The first request is forwarded and relayed, and the second is answered from what is remembered
    of the first. -/
theorem servers_are_proxies_served :
    ∃ s proxy, Run (@ProcessEvent.Step Unit Platform.ascii) (Process.start noFiles raceConfig)
        servedProcessTrace s ∧
      Run (ReverseProxy.Action.Step (ReverseProxy.Setup.of Platform.ascii raceConfig raceServer))
        ReverseProxy.start
        [.receive startRequest, .forward 0 ⟨"backend".toList, 0⟩ (some "/".toList),
          .relay 0 oldPage, .receive startRequest,
          .recall 1 ((pageEntry oldPage).toResponse 0)] proxy ∧
      proxy.exchanges = [(startRequest, .answered oldPage),
        (startRequest, .answered ((pageEntry oldPage).toResponse 0))] := by
  obtain ⟨tasks, hrun, hexchanges⟩ := exists_run_servedProcess
  obtain ⟨server, proxy, hserver, hshows, hproxy⟩ := servers_are_proxies (oneFile raceConfig)
    noFiles Platform.ascii [] raceConfig rfl _ rfl _ _ hrun 0 raceServer rfl
  obtain rfl := Option.some.inj hserver
  refine ⟨_, proxy, hrun, hproxy, ?_⟩
  rw [hshows.exchanges, hexchanges]
  rfl

/-! ### Encrypted requests -/

/-- The request with a number that the tasks have seen came over a connection, and as many before
    it. -/
theorem exists_requestEvent {lib : TlsLibrary File Cert Key Acceptor} {p : Platform}
    {config : Config} {tr : List ProcessEvent} {s : Process Acceptor}
    (hrun : Run (ProcessEvent.Step p) (Process.start lib config) tr s) {i j : Nat} {req : Request}
    (h : (requests (taskTrace i tr))[j]? = some req) :
    ∃ pre connection post, tr = pre ++ .server i (.request connection req) :: post ∧
      (requests (taskTrace i pre)).length = j := by
  simp only [requests, taskTrace, List.filterMap_filterMap] at h ⊢
  obtain ⟨pre, e, post, rfl, he, hlength⟩ := Tasks.exists_start h
  simp only [Option.bind_eq_some_iff] at he
  obtain ⟨e'', ⟨e', hof, htasked⟩, haccepted⟩ := he
  obtain rfl : e = .server i e' := by
    cases e with
    | exit => simp [ProcessEvent.of] at hof
    | server k e =>
      obtain ⟨rfl, rfl⟩ : k = i ∧ e = e' := by simpa [ProcessEvent.of] using hof
      rfl
  obtain rfl : e'' = .accept req := by
    cases e'' with
    | accept request => exact congrArg Event.accept (Option.some.inj haccepted)
    | _ => simp [Event.accepted] at haccepted
  cases e' with
  | listener e => simp [ServerEvent.tasked] at htasked
  | request connection req' =>
    obtain rfl : req' = req := by simpa [ServerEvent.tasked] using htasked
    exact ⟨pre, connection, post, rfl, hlength⟩
  | task e =>
    -- the tasks take no request of their own
    obtain rfl := Option.some.inj htasked
    obtain ⟨t, t', -, ⟨-, x, x', -, ⟨haccept, -⟩, -⟩, -⟩ := hrun.step_at
    exact absurd rfl (haccept req)

/-- **TLS from end to end.**  In every run of the process, every exchange of a server with TLS whose
    certificate and key load was started by the request with its number, which came over a
    connection that had completed its handshake before. -/
theorem requests_encrypted (lib : TlsLibrary File Cert Key Acceptor) (p : Platform)
    (config : Config) (tr : List ProcessEvent) (s : Process Acceptor)
    (hrun : Run (ProcessEvent.Step p) (Process.start lib config) tr s) (i : Nat)
    (serverConfig : ServerConfig) (hi : config.servers[i]? = some serverConfig) (tls : TlsConfig)
    (htls : serverConfig.tls = some tls) (hloads : lib.Loads tls) :
    ∃ server, s.servers[i]? = some server ∧
      ∀ (j : Nat) x, server.tasks.exchanges[j]? = some x →
        ∃ pre connection post, tr = pre ++ .server i (.request connection x.request) :: post ∧
          (requests (taskTrace i pre)).length = j ∧
          .server i (.listener (.handshake connection true)) ∈ pre := by
  obtain ⟨acceptor, hacceptor⟩ := (Server.exists_tlsAcceptor_iff lib config htls).mpr hloads
  obtain ⟨server, hserver, -, hlistener, htasks⟩ := runs_of_process hrun hi
  refine ⟨server, hserver, fun j x hx => ?_⟩
  -- the request of the exchange is the one of the trace with its number
  have hrequest : (requests (taskTrace i tr))[j]? = some x.request := by
    rw [← requests_of_run (State.quiet_initial _) htasks, List.getElem?_map, hx]
    rfl
  obtain ⟨pre, connection, post, rfl, hnumber⟩ := exists_requestEvent hrun hrequest
  refine ⟨pre, connection, post, rfl, hnumber, ?_⟩
  -- and the listener has seen its handshake
  have hlisten : listenerTrace i (pre ++ .server i (.request connection x.request) :: post) =
      listenerTrace i pre ++ .request connection :: listenerTrace i post := by
    simp [listenerTrace, ProcessEvent.of, ServerEvent.listened]
  have hseen := onlyEncrypted_of_acceptor hacceptor hlistener _ connection _ hlisten
  obtain ⟨e, he, hlistened⟩ := List.mem_filterMap.mp hseen
  cases e with
  | listener e =>
    obtain rfl := Option.some.inj hlistened
    exact mem_of_filterMap_of.mp he
  | request connection' req => simp [ServerEvent.listened] at hlistened
  | task e => simp [ServerEvent.listened] at hlistened

/-- One server for HTTPS. -/
def httpsOnly : Config := ⟨[httpsConfig], []⟩

/-- It accepts a connection, completes the handshake and gets a request. -/
def httpsTrace : List ProcessEvent :=
  [.server 0 (.listener (.bind true)), .server 0 (.listener (.accept true)),
    .server 0 (.listener (.handshake 0 true)), .server 0 (.request 0 startRequest)]

/-- The server before its first request. -/
def httpsServer (phase : ListenerPhase) (connections : List (Connection Unit)) :
    RunningServer Unit where
  listener := ⟨Server.new oneCertificate httpsOnly httpsConfig, phase, connections⟩
  tasks := State.initial (Server.new oneCertificate httpsOnly httpsConfig)

/-- The process with this one server. -/
def httpsProcess (phase : ListenerPhase) (connections : List (Connection Unit)) : Process Unit where
  servers := [httpsServer phase connections]
  ended := false

/-- The one exchange came over the connection that had completed its handshake. -/
theorem requests_encrypted_https :
    ∃ s, Run (ProcessEvent.Step Platform.ascii) (Process.start oneCertificate httpsOnly)
        httpsTrace s ∧
      ∃ server, s.servers[0]? = some server ∧
        ∀ (j : Nat) x, server.tasks.exchanges[j]? = some x →
          ∃ pre connection post,
            httpsTrace = pre ++ .server 0 (.request connection x.request) :: post ∧
            (requests (taskTrace 0 pre)).length = j ∧
            .server 0 (.listener (.handshake connection true)) ∈ pre := by
  have hbind : ProcessEvent.Step Platform.ascii (httpsProcess .starting [])
      (.server 0 (.listener (.bind true))) (httpsProcess .listening []) :=
    ⟨rfl, _, httpsServer .listening [], rfl, ⟨by simp, ⟨rfl, rfl⟩, rfl⟩, rfl⟩
  have haccept : ProcessEvent.Step Platform.ascii (httpsProcess .listening [])
      (.server 0 (.listener (.accept true))) (httpsProcess .listening [.handshaking ()]) :=
    ⟨rfl, _, httpsServer .listening [.handshaking ()], rfl, ⟨by simp, ⟨rfl, rfl⟩, rfl⟩, rfl⟩
  have hhandshake : ProcessEvent.Step Platform.ascii (httpsProcess .listening [.handshaking ()])
      (.server 0 (.listener (.handshake 0 true))) (httpsProcess .listening [.serving]) :=
    ⟨rfl, _, httpsServer .listening [.serving], rfl, ⟨by simp, ⟨(), rfl, rfl⟩, rfl⟩, rfl⟩
  have hrequest : ∃ s, ProcessEvent.Step Platform.ascii (httpsProcess .listening [.serving])
      (.server 0 (.request 0 startRequest)) s :=
    ⟨_, rfl, _, ⟨(httpsServer .listening [.serving]).listener,
      { (httpsServer .listening [.serving]).tasks with exchanges := [⟨startRequest, .route⟩] }⟩,
      rfl, ⟨⟨rfl, rfl⟩, rfl⟩, rfl⟩
  obtain ⟨s, hrequest⟩ := hrequest
  have hrun := ((Run.single hbind).snoc haccept).snoc hhandshake |>.snoc hrequest
  exact ⟨s, hrun, requests_encrypted oneCertificate Platform.ascii httpsOnly _ s hrun 0 httpsConfig
    rfl _ rfl ⟨(), [()], (), (), (), rfl, rfl, rfl, rfl, rfl⟩⟩

/-! ### The end of the process -/

/-- A server that does not listen has done nothing but fail to, and check its targets. -/
structure Silent (tr : List ServerEvent) (x : RunningServer Acceptor) : Prop where
  connections : x.listener.connections = []
  exchanges : x.tasks.exchanges = []
  puts : x.tasks.puts = []
  events : ∀ e ∈ tr, e = .listener (.bind false) ∨ ∃ e', e = .task e' ∧ e'.checker.isSome = true
  failed : x.listener.phase = .failed → .listener (.bind false) ∈ tr

/-- A step of the tasks without exchanges and puts is a step of a checker, or a request. -/
theorem checker_of_silent {p : Platform} {s s' : State} {e : Event} (h : e.Step p s s')
    (hexchanges : s.exchanges = []) (hputs : s.puts = [])
    (haccept : ∀ request, e ≠ .accept request) :
    e.checker.isSome = true ∧ s'.exchanges = [] ∧ s'.puts = [] := by
  cases e with
  | accept request => exact absurd rfl (haccept request)
  | lookup i now result =>
    obtain ⟨_, _, _, hx, -⟩ := h
    simp [hexchanges] at hx
  | route i pick routed =>
    obtain ⟨_, hx, -⟩ := h
    simp [hexchanges] at hx
  | finish i outcome =>
    obtain ⟨_, _, hx, -⟩ := h
    simp [hexchanges] at hx
  | prepare q clock =>
    obtain ⟨_, _, ht, -⟩ := h
    simp [hputs] at ht
  | commit q key entry victim =>
    obtain ⟨_, _, _, ht, -⟩ := h
    simp [hputs] at ht
  | probe c =>
    obtain ⟨_, _, _, _, _, _, _, rfl⟩ := h
    exact ⟨rfl, hexchanges, hputs⟩
  | verdict c ref reply isHealthy now =>
    obtain ⟨_, _, _, _, _, _, rfl⟩ := h
    exact ⟨rfl, hexchanges, hputs⟩

/-- A step that serves nothing keeps the server silent. -/
theorem Silent.snoc {tr : List ServerEvent} {x x' : RunningServer Acceptor} {e : ServerEvent}
    (h : Silent tr x) (hconnections : x'.listener.connections = [])
    (hexchanges : x'.tasks.exchanges = []) (hputs : x'.tasks.puts = [])
    (he : e = .listener (.bind false) ∨ ∃ e', e = .task e' ∧ e'.checker.isSome = true)
    (hfailed : x'.listener.phase = .failed →
      e = .listener (.bind false) ∨ x.listener.phase = .failed) : Silent (tr ++ [e]) x' where
  connections := hconnections
  exchanges := hexchanges
  puts := hputs
  events e' hmem := by
    rcases List.mem_append.mp hmem with hold | hnew
    · exact h.events e' hold
    · obtain rfl := List.mem_singleton.mp hnew
      exact he
  failed hphase := by
    rcases hfailed hphase with rfl | hold
    · exact List.mem_append_right _ List.mem_cons_self
    · exact List.mem_append_left _ (h.failed hold)

/-- **A server serves only once it listens.** -/
theorem silent_of_run {p : Platform} {server : Server Acceptor} {tr : List ServerEvent}
    {x : RunningServer Acceptor}
    (hrun : Run (ServerEvent.Step p) (RunningServer.spawn server) tr x) :
    x.listener.phase ≠ .listening → Silent tr x := by
  refine hrun.invariant_trace (fun tr x => x.listener.phase ≠ .listening → Silent tr x)
    (fun _ => ⟨rfl, rfl, rfl, by simp, by simp [RunningServer.spawn, ListenerState.start]⟩) ?_
  rintro tr x e x' - ih hstep hphase
  cases e with
  | listener e =>
    obtain ⟨hrequest, hstep, htasks⟩ := hstep
    cases e with
    | bind succeeds =>
      obtain ⟨hstarting, hlistener⟩ := hstep
      have h := ih (by simp [hstarting])
      cases succeeds with
      | true => simp [hlistener] at hphase
      | false =>
        exact h.snoc (by simp [hlistener, h.connections]) (htasks ▸ h.exchanges) (htasks ▸ h.puts)
          (Or.inl rfl) fun _ => Or.inl rfl
    | accept succeeds =>
      obtain ⟨hlistening, hlistener⟩ := hstep
      refine absurd ?_ hphase
      rw [hlistener]
      split <;> exact hlistening
    | handshake i succeeds =>
      obtain ⟨acceptor, hi, hlistener⟩ := hstep
      have h := ih (by simpa [hlistener] using hphase)
      simp [h.connections] at hi
    | request i => exact absurd rfl (hrequest i)
    | close i =>
      obtain ⟨hi, hlistener⟩ := hstep
      have h := ih (by simpa [hlistener] using hphase)
      simp [h.connections] at hi
  | request connection req =>
    obtain ⟨⟨hserving, hlistener⟩, -⟩ := hstep
    have h := ih (by simpa [hlistener] using hphase)
    simp [h.connections] at hserving
  | task e =>
    obtain ⟨haccept, -, hstep, hlistener⟩ := hstep
    have h := ih (hlistener ▸ hphase)
    obtain ⟨hchecker, hexchanges, hputs⟩ := checker_of_silent hstep h.exchanges h.puts haccept
    exact h.snoc (hlistener ▸ h.connections) hexchanges hputs (Or.inr ⟨e, rfl, hchecker⟩)
      fun hfailed => Or.inr (hlistener ▸ hfailed)

/-- The process ends when no server has come to listen. -/
theorem failed_of_ended {lib : TlsLibrary File Cert Key Acceptor} {p : Platform} {config : Config}
    {tr : List ProcessEvent} {s : Process Acceptor}
    (hrun : Run (ProcessEvent.Step p) (Process.start lib config) tr s) (hended : s.ended = true) :
    ∀ x ∈ s.servers, x.listener.phase = .failed := by
  refine hrun.invariant
    (fun s => s.ended = true → ∀ x ∈ s.servers, x.listener.phase = .failed) ?_ ?_ hended
  · intro hempty x hx
    simp [Process.start, List.isEmpty_iff.mp hempty] at hx
  · rintro t e u - ⟨hrunning, hstep⟩ hended
    cases e with
    | server i e =>
      obtain ⟨_, _, -, -, rfl⟩ := hstep
      simp [hrunning] at hended
    | exit =>
      obtain ⟨hfailed, rfl⟩ := hstep
      exact hfailed

/-- **A process that ends has not served.**  In every run of the process after which `main` has
    returned, every server has failed to bind, and all that any of them has done besides is to
    check its targets: there was no connection and no request.  So once a server listens, the
    process does not end. -/
theorem ended_served_nothing (lib : TlsLibrary File Cert Key Acceptor) (p : Platform)
    (config : Config) (tr : List ProcessEvent) (s : Process Acceptor)
    (hrun : Run (ProcessEvent.Step p) (Process.start lib config) tr s) (hended : s.ended = true) :
    (∀ i < config.servers.length, .server i (.listener (.bind false)) ∈ tr) ∧
      ∀ i e, .server i e ∈ tr →
        e = .listener (.bind false) ∨ ∃ e', e = .task e' ∧ e'.checker.isSome = true := by
  have hsilent : ∀ i (hi : i < config.servers.length), ∃ x ∈ s.servers,
      Silent (tr.filterMap (ProcessEvent.of i)) x := by
    intro i hi
    obtain ⟨x, hx, hserver, -⟩ := runs_of_process hrun (List.getElem?_eq_getElem hi)
    have hmem := List.mem_of_getElem? hx
    exact ⟨x, hmem, silent_of_run hserver (by simp [failed_of_ended hrun hended x hmem])⟩
  constructor
  · intro i hi
    obtain ⟨x, hmem, h⟩ := hsilent i hi
    exact mem_of_filterMap_of.mp (h.failed (failed_of_ended hrun hended x hmem))
  · intro i e he
    have hi : i < config.servers.length := by
      obtain ⟨pre, post, rfl⟩ := List.append_of_mem he
      obtain ⟨t, t', hpre, ⟨-, x, x', hx, -⟩, -⟩ := hrun.step_at
      exact lt_length_of_server hpre hx
    obtain ⟨x, -, h⟩ := hsilent i hi
    exact h.events e (mem_of_filterMap_of.mpr he)

/-- The port is taken, and the process ends. -/
def refusedTrace : List ProcessEvent := [.server 0 (.listener (.bind false)), .exit]

/-- The process ends without a request. -/
theorem ended_served_nothing_refused :
    (∃ s, Run (ProcessEvent.Step Platform.ascii) (Process.start oneCertificate httpsOnly)
        refusedTrace s ∧ s.ended = true) ∧
      ∀ connection req, .server 0 (.request connection req) ∉ refusedTrace := by
  have hbind : ProcessEvent.Step Platform.ascii (httpsProcess .starting [])
      (.server 0 (.listener (.bind false))) (httpsProcess .failed []) :=
    ⟨rfl, _, httpsServer .failed [], rfl, ⟨by simp, ⟨rfl, rfl⟩, rfl⟩, rfl⟩
  have hexit : ProcessEvent.Step Platform.ascii (httpsProcess .failed []) .exit
      { httpsProcess .failed [] with ended := true } := by
    refine ⟨rfl, fun x hx => ?_, rfl⟩
    obtain rfl := List.mem_singleton.mp hx
    rfl
  have hrun := (Run.single hbind).snoc hexit
  refine ⟨⟨_, hrun, rfl⟩, fun connection req hmem => ?_⟩
  have hnothing := (ended_served_nothing oneCertificate Platform.ascii httpsOnly _ _ hrun rfl).2 0 _
    hmem
  simp at hnothing

end Sret
