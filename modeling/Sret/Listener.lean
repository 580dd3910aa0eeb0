import Sret.Foundation.Tasks
import Sret.Foundation.Transition
import Sret.Server

namespace Sret

open Text Transition

/-!
# The accept loop

`Server::start` as a transition system over the connections it has accepted.

* `ListenerState` — the server, whether it listens, and the state of each connection;
* `ListenerEvent.Step` — binding, accepting, a TLS handshake and its outcome, a request on a
  connection that is being served;
* `OnlyEncrypted` — every request in the trace came over a connection whose handshake had
  completed before;
* `only_encrypted_iff` — a server that is configured for TLS serves only such requests, in every
  run, exactly when every step of loading its certificate succeeded.
-/

variable {File Cert Key Acceptor : Type}

/-- The state of an accepted connection. -/
inductive Connection (Acceptor : Type)
  /-- The task waits for the TLS handshake. -/
  | handshaking (acceptor : Acceptor)
  /-- `serve_connection` runs, over the TLS stream or over the plain one. -/
  | serving
  /-- The task has ended. -/
  | closed

/-- How far `start` has come. -/
inductive ListenerPhase
  | starting | listening | failed

structure ListenerState (Acceptor : Type) where
  server : Server Acceptor
  phase : ListenerPhase
  connections : List (Connection Acceptor)

/-- What happens at the listener and at its connections, which are numbered as they come in. -/
inductive ListenerEvent
  | bind (succeeds : Bool)
  | accept (succeeds : Bool)
  | handshake (connection : Nat) (succeeds : Bool)
  | request (connection : Nat)
  | close (connection : Nat)

/-- `start` on a server. -/
def ListenerState.start (server : Server Acceptor) : ListenerState Acceptor where
  server := server
  phase := .starting
  connections := []

/-- What the spawned task does first with its stream: with an acceptor it waits for the
    handshake, without one it serves the plain stream. -/
def Connection.spawn : Option Acceptor → Connection Acceptor
  | some acceptor => .handshaking acceptor
  | none => .serving

/-- The event takes the listener from one state to the next. -/
def ListenerEvent.Step (s : ListenerState Acceptor) (e : ListenerEvent)
    (s' : ListenerState Acceptor) : Prop :=
  match e with
  | .bind succeeds => s.phase = .starting ∧
      s' = { s with phase := if succeeds then .listening else .failed }
  | .accept succeeds => s.phase = .listening ∧
      s' = if succeeds then
          { s with connections := s.connections ++ [Connection.spawn s.server.tlsAcceptor] }
        else s
  | .handshake i succeeds => ∃ acceptor, s.connections[i]? = some (.handshaking acceptor) ∧
      s' = { s with connections := s.connections.set i (if succeeds then .serving else .closed) }
  | .request i => s.connections[i]? = some .serving ∧ s' = s
  | .close i => s.connections[i]? = some .serving ∧
      s' = { s with connections := s.connections.set i .closed }

/-- Every request came over a connection that had completed its TLS handshake. -/
def OnlyEncrypted (tr : List ListenerEvent) : Prop :=
  ∀ pre i post, tr = pre ++ .request i :: post → .handshake i true ∈ pre

/-- With an acceptor, every connection that is served has completed its handshake. -/
def Guarded (acceptor : Acceptor) (tr : List ListenerEvent) (s : ListenerState Acceptor) : Prop :=
  s.server.tlsAcceptor = some acceptor ∧
    ∀ i, s.connections[i]? = some .serving → .handshake i true ∈ tr

/-- **One step keeps the guard.** -/
theorem Guarded.step {acceptor : Acceptor} {tr : List ListenerEvent}
    {s s' : ListenerState Acceptor} {e : ListenerEvent} (h : Guarded acceptor tr s)
    (hstep : e.Step s s') : Guarded acceptor (tr ++ [e]) s' := by
  obtain ⟨hserver, hguard⟩ := h
  have hold : ∀ i, s.connections[i]? = some .serving → .handshake i true ∈ tr ++ [e] :=
    fun i hi => List.mem_append_left _ (hguard i hi)
  cases e with
  | bind succeeds =>
    obtain ⟨-, rfl⟩ := hstep
    exact ⟨hserver, hold⟩
  | accept succeeds =>
    obtain ⟨-, rfl⟩ := hstep
    cases succeeds with
    | false => exact ⟨hserver, hold⟩
    | true =>
      refine ⟨hserver, fun i hi => hold i ?_⟩
      -- the new connection waits for its handshake
      simp only [if_true, hserver, Connection.spawn, List.getElem?_append] at hi
      split at hi
      · exact hi
      · have := List.mem_of_getElem? hi
        simp at this
  | handshake i succeeds =>
    obtain ⟨_, -, rfl⟩ := hstep
    refine ⟨hserver, fun j hj => ?_⟩
    rcases Tasks.of_set hj with ⟨rfl, hc⟩ | ⟨-, hj⟩
    · cases succeeds with
      | true => simp
      | false => simp at hc
    · exact hold j hj
  | request i =>
    obtain ⟨-, rfl⟩ := hstep
    exact ⟨hserver, hold⟩
  | close i =>
    obtain ⟨-, rfl⟩ := hstep
    refine ⟨hserver, fun j hj => ?_⟩
    rcases Tasks.of_set hj with ⟨-, hc⟩ | ⟨-, hj⟩
    · simp at hc
    · exact hold j hj

/-- A server with an acceptor serves encrypted connections only. -/
theorem onlyEncrypted_of_acceptor {server : Server Acceptor} {acceptor : Acceptor}
    (hserver : server.tlsAcceptor = some acceptor) {tr : List ListenerEvent}
    {s : ListenerState Acceptor}
    (hrun : Run ListenerEvent.Step (ListenerState.start server) tr s) : OnlyEncrypted tr := by
  rintro pre i post rfl
  obtain ⟨t, t', hpre, ⟨hserving, -⟩, -⟩ := hrun.step_at
  -- the guard holds before the request, so the connection it came over was encrypted
  have hguard : Guarded acceptor pre t :=
    hpre.invariant_trace (Guarded acceptor) ⟨hserver, by simp [ListenerState.start]⟩
      fun _ _ _ _ _ hinv hstep => hinv.step hstep
  exact hguard.2 i hserving

/-- A server without an acceptor serves its first connection as it comes. -/
theorem run_plain {server : Server Acceptor} (hserver : server.tlsAcceptor = none) :
    Run ListenerEvent.Step (ListenerState.start server) [.bind true, .accept true, .request 0]
      ⟨server, .listening, [.serving]⟩ := by
  have hbind : ListenerEvent.Step (ListenerState.start server) (.bind true)
      ⟨server, .listening, []⟩ := ⟨rfl, rfl⟩
  have haccept : ListenerEvent.Step ⟨server, .listening, []⟩ (.accept true)
      ⟨server, .listening, [.serving]⟩ := ⟨rfl, by simp [hserver, Connection.spawn]⟩
  have hrequest : ListenerEvent.Step ⟨server, .listening, [.serving]⟩ (.request 0)
      ⟨server, .listening, [.serving]⟩ := ⟨rfl, rfl⟩
  exact Run.snoc (Run.snoc (Run.single hbind) haccept) hrequest

/-- A server with an acceptor serves a connection that has completed its handshake. -/
theorem run_encrypted {server : Server Acceptor} {acceptor : Acceptor}
    (hserver : server.tlsAcceptor = some acceptor) :
    Run ListenerEvent.Step (ListenerState.start server)
      [.bind true, .accept true, .handshake 0 true, .request 0]
      ⟨server, .listening, [.serving]⟩ := by
  have hbind : ListenerEvent.Step (ListenerState.start server) (.bind true)
      ⟨server, .listening, []⟩ := ⟨rfl, rfl⟩
  have haccept : ListenerEvent.Step ⟨server, .listening, []⟩ (.accept true)
      ⟨server, .listening, [.handshaking acceptor]⟩ :=
    ⟨rfl, by simp [hserver, Connection.spawn]⟩
  have hhandshake : ListenerEvent.Step ⟨server, .listening, [.handshaking acceptor]⟩
      (.handshake 0 true) ⟨server, .listening, [.serving]⟩ := ⟨acceptor, rfl, rfl⟩
  have hrequest : ListenerEvent.Step ⟨server, .listening, [.serving]⟩ (.request 0)
      ⟨server, .listening, [.serving]⟩ := ⟨rfl, rfl⟩
  exact Run.snoc (Run.snoc (Run.snoc (Run.single hbind) haccept) hhandshake) hrequest

/-- **When a TLS server serves encrypted requests only.**  For every configuration with TLS, no
    run of the server serves a request over a connection that did not complete a handshake
    exactly when every step of loading the certificate and the key succeeded. -/
theorem only_encrypted_iff (lib : TlsLibrary File Cert Key Acceptor) (config : Config)
    (serverConfig : ServerConfig) (tls : TlsConfig) (htls : serverConfig.tls = some tls) :
    (∀ tr s, Run ListenerEvent.Step
        (ListenerState.start (Server.new lib config serverConfig)) tr s → OnlyEncrypted tr) ↔
      lib.Loads tls := by
  rw [← Server.exists_tlsAcceptor_iff lib config htls]
  constructor
  · intro h
    cases hacceptor : (Server.new lib config serverConfig).tlsAcceptor with
    | some acceptor => exact ⟨acceptor, rfl⟩
    | none =>
      have hmem := h _ _ (run_plain hacceptor) [.bind true, .accept true] 0 [] rfl
      simp at hmem
  · rintro ⟨acceptor, hacceptor⟩ tr s hrun
    exact onlyEncrypted_of_acceptor hacceptor hrun

/-- A TLS library that finds one certificate and one key in every file. -/
def oneCertificate : TlsLibrary Unit Unit Unit Unit where
  openFile _ := .ok ()
  certs _ := [.ok ()]
  privateKey _ := .ok (some ())
  withSingleCert _ _ := .ok ()

/-- A server for HTTPS. -/
def httpsConfig : ServerConfig where
  id := "main".toList
  bindAddress := "0.0.0.0".toList
  port := 443
  routes := []
  tls := some ⟨"cert.pem".toList, "key.pem".toList⟩
  cache := none

theorem only_encrypted_iff_https :
    (∃ s, Run ListenerEvent.Step
        (ListenerState.start (Server.new oneCertificate ⟨[], []⟩ httpsConfig))
        [.bind true, .accept true, .handshake 0 true, .request 0] s) ∧
      OnlyEncrypted [.bind true, .accept true, .handshake 0 true, .request 0] := by
  have hrun := run_encrypted
    (show (Server.new oneCertificate ⟨[], []⟩ httpsConfig).tlsAcceptor = some () from rfl)
  have hloads : oneCertificate.Loads ⟨"cert.pem".toList, "key.pem".toList⟩ :=
    ⟨(), [()], (), (), (), rfl, rfl, rfl, rfl, rfl⟩
  exact ⟨⟨_, hrun⟩,
    (only_encrypted_iff oneCertificate ⟨[], []⟩ httpsConfig _ rfl).mpr hloads _ _ hrun⟩

/-- Without its certificate file the server for HTTPS serves plain HTTP. -/
theorem plain_without_certificate :
    ¬ ∀ (lib : TlsLibrary Unit Unit Unit Unit) (config : Config) (serverConfig : ServerConfig),
      serverConfig.tls ≠ none →
      ∀ tr s, Run ListenerEvent.Step
        (ListenerState.start (Server.new lib config serverConfig)) tr s → OnlyEncrypted tr := by
  intro h
  have hmem := h noFiles ⟨[], []⟩ httpsConfig (by simp [httpsConfig]) _ _ (run_plain rfl)
    [.bind true, .accept true] 0 [] rfl
  simp at hmem

end Sret
