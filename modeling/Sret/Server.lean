import Sret.Cache
import Sret.Router

namespace Sret

open Text

/-!
# Building a server

`Server::new` and what it builds: the router, the health checkers, the TLS acceptor and the cache.

* `HealthChecker` — the health check of one upstream, with the targets it goes through;
* `TlsLibrary` — the file system and the TLS library, as far as `load_tls_config` uses them;
* `loadTlsConfig` — five steps, each of which may fail;
* `Server.new` — a failure of `loadTlsConfig` leaves the acceptor empty;
* `checkers_new`, `targets_disjoint` — each checker holds the router's own targets of its
  upstream, and in a validated configuration no target has two checkers.
-/

/-! ### Health checkers -/

/-- A checker and the targets it was given, which are the router's. -/
structure HealthChecker where
  config : HealthCheckConfig
  targets : List TargetRef

/-- What `check_target` makes of the reply: the status that came back, or nothing when the
    request failed. -/
def HealthChecker.checkTarget (checker : HealthChecker) (reply : Option StatusCode) : Bool :=
  match reply with
  | some status => status == checker.config.expectedStatus
  | none => false

structure HealthCheckManager where
  checkers : List HealthChecker

/-! ### TLS -/

/-- The file system and the TLS library. -/
structure TlsLibrary (File Cert Key Acceptor : Type) where
  /-- `File::open`. -/
  openFile : Str → Except Str File
  /-- `rustls_pemfile::certs`: one result for each certificate of the file. -/
  certs : File → List (Except Str Cert)
  /-- `rustls_pemfile::private_key`: the first key of the file, if it has one. -/
  privateKey : File → Except Str (Option Key)
  /-- `RustlsConfig::with_single_cert`, and the acceptor made from the result. -/
  withSingleCert : List Cert → Key → Except Str Acceptor

variable {File Cert Key Acceptor : Type}

/-- `Server::load_tls_config`. -/
def loadTlsConfig (lib : TlsLibrary File Cert Key Acceptor) (tls : TlsConfig) :
    Except Str Acceptor := do
  let certFile ← lib.openFile tls.certPath
  -- `collect::<Result<Vec<_>, _>>()`: the first certificate that does not parse ends it
  let certChain ← (lib.certs certFile).mapM id
  let keyFile ← lib.openFile tls.keyPath
  match ← lib.privateKey keyFile with
  | none => .error "No private key found".toList
  | some privateKey => lib.withSingleCert certChain privateKey

/-- Every step of `loadTlsConfig` succeeds. -/
def TlsLibrary.Loads (lib : TlsLibrary File Cert Key Acceptor) (tls : TlsConfig) : Prop :=
  ∃ certFile certChain keyFile privateKey acceptor,
    lib.openFile tls.certPath = .ok certFile ∧ (lib.certs certFile).mapM id = .ok certChain ∧
    lib.openFile tls.keyPath = .ok keyFile ∧ lib.privateKey keyFile = .ok (some privateKey) ∧
    lib.withSingleCert certChain privateKey = .ok acceptor

/-- A TLS library on a file system without files. -/
def noFiles : TlsLibrary Unit Unit Unit Unit where
  openFile path := .error ("No such file: ".toList ++ path)
  certs _ := []
  privateKey _ := .ok none
  withSingleCert _ _ := .ok ()

/-- A fallible step followed by another. -/
theorem bind_ok_iff {α β : Type} (first : Except Str α) (next : α → Except Str β) (b : β) :
    first >>= next = .ok b ↔ ∃ a, first = .ok a ∧ next a = .ok b := by
  cases first with
  | ok a => simp [bind, Except.bind]
  | error e => simp [bind, Except.bind]

/-- An acceptor comes out exactly when no step failed. -/
theorem exists_loadTlsConfig_iff {lib : TlsLibrary File Cert Key Acceptor} {tls : TlsConfig} :
    (∃ acceptor, loadTlsConfig lib tls = .ok acceptor) ↔ lib.Loads tls := by
  simp only [loadTlsConfig, bind_ok_iff]
  constructor
  · rintro ⟨acceptor, certFile, hcert, certChain, hchain, keyFile, hkey, found, hfound, hlast⟩
    cases found with
    | none => simp at hlast
    | some privateKey =>
      exact ⟨certFile, certChain, keyFile, privateKey, acceptor, hcert, hchain, hkey, hfound, hlast⟩
  · rintro ⟨certFile, certChain, keyFile, privateKey, acceptor, hcert, hchain, hkey, hfound, hlast⟩
    exact ⟨acceptor, certFile, hcert, certChain, hchain, keyFile, hkey, some privateKey, hfound,
      hlast⟩

/-! ### The server -/

structure Server (Acceptor : Type) where
  id : Str
  bindAddress : Str
  port : Nat
  router : Router
  healthManager : Option HealthCheckManager
  tlsAcceptor : Option Acceptor
  cache : Option ResponseCache

namespace Server

/-- `upstream.all_targets().to_vec()`: handles on the targets of the upstream in the router. -/
def targetRefs (router : Router) (upstreamId : Str) : List TargetRef :=
  match router.getUpstream upstreamId with
  | some upstream => upstream.allTargets.map fun a => ⟨upstreamId, a.index⟩
  | none => []

/-- The checker for one upstream: none without a health check or without targets. -/
def checkerFor (router : Router) (upstreamConfig : UpstreamConfig) : Option HealthChecker :=
  match upstreamConfig.healthCheck with
  | none => none
  | some healthConfig =>
    let targets := targetRefs router upstreamConfig.id
    if targets.isEmpty then none else some ⟨healthConfig, targets⟩

/-- `Server::new`. -/
def new (lib : TlsLibrary File Cert Key Acceptor) (config : Config)
    (serverConfig : ServerConfig) : Server Acceptor :=
  let router := Router.new config serverConfig
  { id := serverConfig.id
    bindAddress := serverConfig.bindAddress
    port := serverConfig.port
    router := router
    healthManager :=
      if config.upstreams.any (fun u => u.healthCheck.isSome) then
        some ⟨config.upstreams.filterMap (checkerFor router)⟩
      else none
    tlsAcceptor :=
      match serverConfig.tls with
      | none => none
      | some tls =>
        match loadTlsConfig lib tls with
        | .ok acceptor => some acceptor
        -- the error is logged, and the value is the one of a server without TLS
        | .error _ => none
    cache := serverConfig.cache.map fun cacheConfig =>
      ResponseCache.new cacheConfig.maxSize (Duration.fromSecs cacheConfig.defaultTtlSeconds) }

/-- The checkers of the server. -/
def checkers (server : Server Acceptor) : List HealthChecker :=
  match server.healthManager with
  | some manager => manager.checkers
  | none => []

/-- A new server has an acceptor exactly when it was asked for one and every step of loading it
    succeeded. -/
theorem exists_tlsAcceptor_iff (lib : TlsLibrary File Cert Key Acceptor) (config : Config)
    {serverConfig : ServerConfig} {tls : TlsConfig} (htls : serverConfig.tls = some tls) :
    (∃ acceptor, (new lib config serverConfig).tlsAcceptor = some acceptor) ↔ lib.Loads tls := by
  rw [← exists_loadTlsConfig_iff]
  simp only [new, htls]
  cases loadTlsConfig lib tls with
  | ok acceptor => simp
  | error e => simp

/-- The checkers of a new server. -/
theorem checkers_new (lib : TlsLibrary File Cert Key Acceptor) (config : Config)
    (serverConfig : ServerConfig) :
    (new lib config serverConfig).checkers =
      config.upstreams.filterMap (checkerFor (Router.new config serverConfig)) := by
  simp only [checkers, new]
  split
  · rename_i manager hmanager
    split at hmanager
    · rw [← Option.some.inj hmanager]
    · simp at hmanager
  · rename_i hmanager
    split at hmanager
    · simp at hmanager
    · rename_i hany
      -- without a manager no upstream has a health check
      symm
      rw [List.filterMap_eq_nil_iff]
      intro u hu
      have hnone : u.healthCheck = none := by
        rw [← Option.not_isSome_iff_eq_none]
        exact fun h => hany (List.any_eq_true.mpr ⟨u, hu, h⟩)
      simp only [checkerFor, hnone]

/-- A checker of an upstream goes through the upstream's own targets. -/
theorem upstreamId_of_checkerFor {router : Router} {u : UpstreamConfig} {checker : HealthChecker}
    (h : checkerFor router u = some checker) {ref : TargetRef} (href : ref ∈ checker.targets) :
    ref.upstreamId = u.id ∧ u.healthCheck = some checker.config := by
  unfold checkerFor at h
  split at h
  · simp at h
  · rename_i healthConfig hconfig
    simp only at h
    split at h
    · simp at h
    · obtain rfl := Option.some.inj h
      refine ⟨?_, hconfig⟩
      simp only [targetRefs] at href
      split at href
      · obtain ⟨a, -, rfl⟩ := List.mem_map.mp href
        rfl
      · simp at href

/-- In a validated configuration no target has two checkers. -/
theorem targets_disjoint (lib : TlsLibrary File Cert Key Acceptor) {config : Config}
    (hvalid : config.validate = .ok ()) (serverConfig : ServerConfig) :
    (new lib config serverConfig).checkers.Pairwise fun a b =>
      ∀ ref ∈ a.targets, ref ∉ b.targets := by
  rw [checkers_new]
  have hnodup := (Config.validate_eq_ok.mp hvalid).2.2
  rw [List.Nodup, List.pairwise_map] at hnodup
  refine List.Pairwise.filterMap _ ?_ hnodup
  intro u u' hne a ha b hb ref hrefa hrefb
  exact hne ((upstreamId_of_checkerFor ha hrefa).1.symm.trans (upstreamId_of_checkerFor hb hrefb).1)

end Server

end Sret
