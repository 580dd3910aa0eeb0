import Sret.Foundation.History
import Sret.Foundation.Tasks
import Sret.Foundation.Transition
import Sret.Proxy
import Sret.Server

namespace Sret

open Text KeyedMap Transition

/-!
# The running server

Everything that happens inside one server, as a transition system whose steps are the points at
which its tasks touch what they share: any number of `handle_request` executions, the detached
puts that they spawn, and the health checkers.

* `Exchange` — one `handle_request`: its request, and how far it has come;
* `PutTask` — one spawned `cache.put`;
* `CheckerState` — one health checker: the target of the pass it has come to, and the flag it
  has read while it waits for the reply;
* `Event.Step` — one step of any of the tasks; the label tells what it saw and what came out;
* `router_of_step`, `checkers_of_step`, `exchanges_of_step`, `puts_of_step`, `cache_of_step` — the
  ways in which a step changes each part of the state; the invariants are proved from these;
* `exchange_of_step`, `put_of_step` — a task keeps its number and what it started with.
-/

variable {Acceptor : Type}

/-! ### Tasks -/

/-- Where a request is on its way through `handle_request`. -/
inductive Stage
  /-- It has a cache key and looks it up next. -/
  | lookup (key : Str)
  /-- It asks the router next. -/
  | route
  /-- It has been assigned to a target; the request to the URL is on its way. -/
  | forwarding (d : Routed)
  | answered (response : Response)

/-- One execution of `handle_request`. -/
structure Exchange where
  request : Request
  stage : Stage

/-- How `do_proxy_request` ends: with a failure to read the request body, to send the request or
    to read the response body, or with the response that the client returns, after the redirects
    that it has followed. -/
inductive Outcome
  | bodyFailed | sendFailed | readFailed
  | replied (response : Response)

/-- How far a put has come. -/
inductive PutStage
  | spawned
  /-- It has made its entry and waits for the write lock. -/
  | ready (entry : CacheEntry)
  | finished

/-- A put that an exchange has spawned. -/
structure PutTask where
  exchange : Nat
  key : Str
  response : Response
  stage : PutStage

/-- A checker in the middle of `check_all_targets`: the position it has come to, and the flag
    `was_healthy` while it waits for the reply. -/
structure CheckerState where
  checker : HealthChecker
  position : Nat
  probing : Option Bool

/-- The target that the checker has come to. -/
def CheckerState.current (k : CheckerState) : Option TargetRef := k.checker.targets[k.position]?

/-- The next target, or the first one of the next pass. -/
def CheckerState.advance (k : CheckerState) : CheckerState where
  checker := k.checker
  position := (k.position + 1) % k.checker.targets.length
  probing := none

/-- The server with its tasks. -/
structure State where
  router : Router
  cache : Option ResponseCache
  checkers : List CheckerState
  exchanges : List Exchange
  puts : List PutTask

/-- A started server without requests. -/
def State.initial (server : Server Acceptor) : State where
  router := server.router
  cache := server.cache
  checkers := server.checkers.map fun checker => ⟨checker, 0, none⟩
  exchanges := []
  puts := []

/-! ### Steps -/

/-- One step of one of the tasks, which are numbered in the order in which they start. -/
inductive Event
  /-- A request comes in. -/
  | accept (request : Request)
  /-- An exchange looks its key up. -/
  | lookup (exchange : Nat) (now : Instant) (result : Option Response)
  /-- An exchange asks the router. -/
  | route (exchange : Nat) (pick : Nat) (routed : Option Routed)
  /-- The client's request for an exchange ends. -/
  | finish (exchange : Nat) (outcome : Outcome)
  /-- A put reads its response and the clock. -/
  | prepare (put : Nat) (clock : Clock)
  /-- A put gets the write lock and inserts its entry. -/
  | commit (put : Nat) (key : Str) (entry : CacheEntry) (victim : Option Str)
  /-- A checker reads the flag of its current target and sends its request. -/
  | probe (checker : Nat)
  /-- The check of a target is completed. -/
  | verdict (checker : Nat) (ref : TargetRef) (reply : Option StatusCode) (isHealthy : Bool)
      (now : Instant)

/-- A new exchange: with a cache key it starts with the lookup. -/
def Exchange.start (hasCache : Bool) (request : Request) : Exchange where
  request := request
  stage :=
    match cacheKey hasCache request with
    | some key => .lookup key
    | none => .route

/-- The exchange in a new stage. -/
def Exchange.to (x : Exchange) (stage : Stage) : Exchange := { x with stage := stage }

/-- The put that an exchange spawns with its response. -/
def spawnedPuts (hasCache : Bool) (i : Nat) (request : Request) (response : Response) :
    List PutTask :=
  match cacheKey hasCache request with
  | some key => [⟨i, key, response, .spawned⟩]
  | none => []

/-- What a put becomes when it has read its response. -/
def PutStage.ofPreparation : Preparation → PutStage
  | .ready entry => .ready entry
  | .refused | .panicked => .finished

/-- `set_healthy`, when the check has changed the state of the target. -/
def applyVerdict (router : Router) (ref : TargetRef) (wasHealthy isHealthy : Bool)
    (now : Instant) : Router :=
  if wasHealthy ≠ isHealthy then router.modifyTarget ref fun t => t.setHealthy isHealthy now
  else router

/-- The event takes the server from one state to the next. -/
def Event.Step (p : Platform) (s : State) (e : Event) (s' : State) : Prop :=
  match e with
  | .accept request =>
    -- the key is computed as soon as the request is there
    s' = { s with exchanges := s.exchanges ++ [Exchange.start s.cache.isSome request] }
  | .lookup i now result => ∃ x key cache, s.exchanges[i]? = some x ∧ x.stage = .lookup key ∧
      s.cache = some cache ∧ (cache.get key x.request.headers now).1 = result ∧
      s' = { s with
        cache := some (cache.get key x.request.headers now).2
        exchanges := s.exchanges.set i (x.to
          (match result with
            | some response => .answered response
            | none => .route)) }
  -- all of `route_request` is one step: the counters and the flags that it reads
  | .route i pick routed => ∃ x, s.exchanges[i]? = some x ∧ x.stage = .route ∧
      (s.router.routeRequest p (requestHost x.request) x.request.uri.path pick).1 = routed ∧
      s' = { s with
        router := (s.router.routeRequest p (requestHost x.request) x.request.uri.path pick).2
        exchanges := s.exchanges.set i (x.to
          (match routed with
            | some d => .forwarding d
            | none => .answered notFound)) }
  | .finish i outcome => ∃ x d, s.exchanges[i]? = some x ∧ x.stage = .forwarding d ∧
      s' = match outcome with
        | .replied response => { s with
            exchanges := s.exchanges.set i (x.to (.answered (relayedResponse response)))
            puts := s.puts ++
              spawnedPuts s.cache.isSome i x.request (relayedResponse response) }
        | _ => { s with exchanges := s.exchanges.set i (x.to (.answered badGateway)) }
  -- the put reads the clock before it waits for the lock
  | .prepare q clock => ∃ t cache, s.puts[q]? = some t ∧ t.stage = .spawned ∧
      s.cache = some cache ∧
      s' = { s with puts := s.puts.set q { t with
        stage := .ofPreparation
          (ResponseCache.preparePut p cache.defaultTtl t.response clock) } }
  | .commit q key entry victim => ∃ t cache iter, s.puts[q]? = some t ∧ t.key = key ∧
      t.stage = .ready entry ∧ s.cache = some cache ∧ Enumerates iter cache.entries ∧
      (cache.insertEntry iter key entry).1 = victim ∧
      s' = { s with
        cache := some (cache.insertEntry iter key entry).2
        puts := s.puts.set q { t with stage := .finished } }
  | .probe c => ∃ k ref t, s.checkers[c]? = some k ∧ k.probing = none ∧ k.current = some ref ∧
      s.router.getTarget ref = some t ∧
      s' = { s with checkers := s.checkers.set c { k with probing := some t.isHealthy } }
  -- the flag is compared with what was read before the request
  | .verdict c ref reply isHealthy now => ∃ k was, s.checkers[c]? = some k ∧
      k.probing = some was ∧ k.current = some ref ∧ k.checker.checkTarget reply = isHealthy ∧
      s' = { s with
        router := applyVerdict s.router ref was isHealthy now
        checkers := s.checkers.set c k.advance }

/-! ### What a step changes -/

/-- The router: a step leaves it alone, routes a request, or completes a check. -/
theorem router_of_step {p : Platform} {s s' : State} {e : Event} (h : e.Step p s s') :
    s'.router = s.router ∨
      (∃ i pick routed x, e = .route i pick routed ∧ s.exchanges[i]? = some x ∧
        s.router.routeRequest p (requestHost x.request) x.request.uri.path pick =
          (routed, s'.router)) ∨
      ∃ c ref reply isHealthy now was, e = .verdict c ref reply isHealthy now ∧
        s'.router = applyVerdict s.router ref was isHealthy now := by
  cases e with
  | accept request =>
    obtain rfl := h
    exact Or.inl rfl
  | lookup i now result =>
    obtain ⟨_, _, _, _, _, _, _, rfl⟩ := h
    exact Or.inl rfl
  | route i pick routed =>
    obtain ⟨x, hx, -, rfl, rfl⟩ := h
    exact Or.inr (Or.inl ⟨i, pick, _, x, rfl, hx, rfl⟩)
  | finish i outcome =>
    obtain ⟨_, _, _, _, rfl⟩ := h
    cases outcome <;> exact Or.inl rfl
  | prepare q clock =>
    obtain ⟨_, _, _, _, _, rfl⟩ := h
    exact Or.inl rfl
  | commit q key entry victim =>
    obtain ⟨_, _, _, _, _, _, _, _, _, rfl⟩ := h
    exact Or.inl rfl
  | probe c =>
    obtain ⟨_, _, _, _, _, _, _, rfl⟩ := h
    exact Or.inl rfl
  | verdict c ref reply isHealthy now =>
    obtain ⟨k, was, -, -, -, -, rfl⟩ := h
    exact Or.inr (Or.inr ⟨c, ref, reply, isHealthy, now, was, rfl, rfl⟩)

/-- The checkers: a step leaves them alone, or moves one of them on. -/
theorem checkers_of_step {p : Platform} {s s' : State} {e : Event} (h : e.Step p s s') :
    s'.checkers = s.checkers ∨
      (∃ c k ref t, e = .probe c ∧ s.checkers[c]? = some k ∧ k.probing = none ∧
        k.current = some ref ∧ s.router.getTarget ref = some t ∧ s'.router = s.router ∧
        s'.checkers = s.checkers.set c { k with probing := some t.isHealthy }) ∨
      ∃ c k was ref reply isHealthy now, e = .verdict c ref reply isHealthy now ∧
        s.checkers[c]? = some k ∧ k.probing = some was ∧ k.current = some ref ∧
        s'.router = applyVerdict s.router ref was isHealthy now ∧
        s'.checkers = s.checkers.set c k.advance := by
  cases e with
  | accept request =>
    obtain rfl := h
    exact Or.inl rfl
  | lookup i now result =>
    obtain ⟨_, _, _, _, _, _, _, rfl⟩ := h
    exact Or.inl rfl
  | route i pick routed =>
    obtain ⟨_, _, _, _, rfl⟩ := h
    exact Or.inl rfl
  | finish i outcome =>
    obtain ⟨_, _, _, _, rfl⟩ := h
    cases outcome <;> exact Or.inl rfl
  | prepare q clock =>
    obtain ⟨_, _, _, _, _, rfl⟩ := h
    exact Or.inl rfl
  | commit q key entry victim =>
    obtain ⟨_, _, _, _, _, _, _, _, _, rfl⟩ := h
    exact Or.inl rfl
  | probe c =>
    obtain ⟨k, ref, t, hk, hnone, hcur, ht, rfl⟩ := h
    exact Or.inr (Or.inl ⟨c, k, ref, t, rfl, hk, hnone, hcur, ht, rfl, rfl⟩)
  | verdict c ref reply isHealthy now =>
    obtain ⟨k, was, hk, hwas, hcur, -, rfl⟩ := h
    exact Or.inr (Or.inr ⟨c, k, was, ref, reply, isHealthy, now, rfl, hk, hwas, hcur, rfl, rfl⟩)

/-- The exchanges: a step leaves them alone, starts one, or moves one that has no answer yet to
    another stage, and it assigns one to a target only by routing it. -/
theorem exchanges_of_step {p : Platform} {s s' : State} {e : Event} (h : e.Step p s s') :
    s'.exchanges = s.exchanges ∨
      (∃ request, e = .accept request ∧
        s'.exchanges = s.exchanges ++ [Exchange.start s.cache.isSome request]) ∨
      ∃ i x stage, s.exchanges[i]? = some x ∧ (∀ response, x.stage ≠ .answered response) ∧
        s'.exchanges = s.exchanges.set i (x.to stage) ∧
        (stage = .route ∨ (∃ response, stage = .answered response) ∨
          ∃ pick d, e = .route i pick (some d) ∧ stage = .forwarding d) := by
  cases e with
  | accept request =>
    obtain rfl := h
    exact Or.inr (Or.inl ⟨request, rfl, rfl⟩)
  | lookup i now result =>
    obtain ⟨x, _, _, hx, hstage, _, _, rfl⟩ := h
    have hne : ∀ response, x.stage ≠ .answered response := by simp [hstage]
    cases result with
    | some response =>
      exact Or.inr (Or.inr ⟨i, x, _, hx, hne, rfl, Or.inr (Or.inl ⟨response, rfl⟩)⟩)
    | none => exact Or.inr (Or.inr ⟨i, x, _, hx, hne, rfl, Or.inl rfl⟩)
  | route i pick routed =>
    obtain ⟨x, hx, hstage, _, rfl⟩ := h
    have hne : ∀ response, x.stage ≠ .answered response := by simp [hstage]
    cases routed with
    | some d =>
      exact Or.inr (Or.inr ⟨i, x, _, hx, hne, rfl, Or.inr (Or.inr ⟨pick, d, rfl, rfl⟩)⟩)
    | none => exact Or.inr (Or.inr ⟨i, x, _, hx, hne, rfl, Or.inr (Or.inl ⟨_, rfl⟩)⟩)
  | finish i outcome =>
    obtain ⟨x, _, hx, hstage, rfl⟩ := h
    have hne : ∀ response, x.stage ≠ .answered response := by simp [hstage]
    cases outcome <;> exact Or.inr (Or.inr ⟨i, x, _, hx, hne, rfl, Or.inr (Or.inl ⟨_, rfl⟩)⟩)
  | prepare q clock =>
    obtain ⟨_, _, _, _, _, rfl⟩ := h
    exact Or.inl rfl
  | commit q key entry victim =>
    obtain ⟨_, _, _, _, _, _, _, _, _, rfl⟩ := h
    exact Or.inl rfl
  | probe c =>
    obtain ⟨_, _, _, _, _, _, _, rfl⟩ := h
    exact Or.inl rfl
  | verdict c ref reply isHealthy now =>
    obtain ⟨_, _, _, _, _, _, rfl⟩ := h
    exact Or.inl rfl

/-- The puts: a step leaves them alone, spawns the put of an exchange that got its response, lets
    one read its response, or lets one insert its entry. -/
theorem puts_of_step {p : Platform} {s s' : State} {e : Event} (h : e.Step p s s') :
    s'.puts = s.puts ∨
      (∃ i x response, e = .finish i (.replied response) ∧ s.exchanges[i]? = some x ∧
        s'.puts = s.puts ++ spawnedPuts s.cache.isSome i x.request (relayedResponse response)) ∨
      (∃ q t cache clock, e = .prepare q clock ∧ s.puts[q]? = some t ∧ t.stage = .spawned ∧
        s.cache = some cache ∧
        s'.puts = s.puts.set q { t with
          stage := .ofPreparation
            (ResponseCache.preparePut p cache.defaultTtl t.response clock) }) ∨
      ∃ q t key entry victim, e = .commit q key entry victim ∧ s.puts[q]? = some t ∧
        t.key = key ∧ t.stage = .ready entry ∧
        s'.puts = s.puts.set q { t with stage := .finished } := by
  cases e with
  | accept request =>
    obtain rfl := h
    exact Or.inl rfl
  | lookup i now result =>
    obtain ⟨_, _, _, _, _, _, _, rfl⟩ := h
    exact Or.inl rfl
  | route i pick routed =>
    obtain ⟨_, _, _, _, rfl⟩ := h
    exact Or.inl rfl
  | finish i outcome =>
    obtain ⟨x, _, hx, _, rfl⟩ := h
    cases outcome with
    | replied response => exact Or.inr (Or.inl ⟨i, x, response, rfl, hx, rfl⟩)
    | bodyFailed => exact Or.inl rfl
    | sendFailed => exact Or.inl rfl
    | readFailed => exact Or.inl rfl
  | prepare q clock =>
    obtain ⟨t, cache, ht, hstage, hc, rfl⟩ := h
    exact Or.inr (Or.inr (Or.inl ⟨q, t, cache, clock, rfl, ht, hstage, hc, rfl⟩))
  | commit q key entry victim =>
    obtain ⟨t, _, _, ht, hkey, hstage, _, _, _, rfl⟩ := h
    exact Or.inr (Or.inr (Or.inr ⟨q, t, key, entry, victim, rfl, ht, hkey, hstage, rfl⟩))
  | probe c =>
    obtain ⟨_, _, _, _, _, _, _, rfl⟩ := h
    exact Or.inl rfl
  | verdict c ref reply isHealthy now =>
    obtain ⟨_, _, _, _, _, _, rfl⟩ := h
    exact Or.inl rfl

/-- The cache: a step leaves it alone, looks a key up, or inserts an entry. -/
theorem cache_of_step {p : Platform} {s s' : State} {e : Event} (h : e.Step p s s') :
    (s'.cache = s.cache ∧ ∀ q key entry victim, e ≠ .commit q key entry victim) ∨
      (∃ i now result x key c, e = .lookup i now result ∧ s.exchanges[i]? = some x ∧
        s.cache = some c ∧ s'.cache = some (c.get key x.request.headers now).2) ∨
      ∃ q key entry victim c c', e = .commit q key entry victim ∧ s.cache = some c ∧
        s'.cache = some c' ∧ ResponseCache.Insertion c key entry victim c' := by
  cases e with
  | accept request =>
    obtain rfl := h
    exact Or.inl ⟨rfl, by simp⟩
  | lookup i now result =>
    obtain ⟨x, key, c, hx, _, hc, _, rfl⟩ := h
    exact Or.inr (Or.inl ⟨i, now, result, x, key, c, rfl, hx, hc, rfl⟩)
  | route i pick routed =>
    obtain ⟨_, _, _, _, rfl⟩ := h
    exact Or.inl ⟨rfl, by simp⟩
  | finish i outcome =>
    obtain ⟨_, _, _, _, rfl⟩ := h
    cases outcome <;> exact Or.inl ⟨rfl, by simp⟩
  | prepare q clock =>
    obtain ⟨_, _, _, _, _, rfl⟩ := h
    exact Or.inl ⟨rfl, by simp⟩
  | commit q key entry victim =>
    obtain ⟨_, c, iter, _, _, _, hc, hiter, rfl, rfl⟩ := h
    exact Or.inr (Or.inr ⟨q, key, entry, _, c, _, rfl, hc, rfl,
      ResponseCache.insertEntry_insertion hiter key entry⟩)
  | probe c =>
    obtain ⟨_, _, _, _, _, _, _, rfl⟩ := h
    exact Or.inl ⟨rfl, by simp⟩
  | verdict c ref reply isHealthy now =>
    obtain ⟨_, _, _, _, _, _, rfl⟩ := h
    exact Or.inl ⟨rfl, by simp⟩

/-! ### What a step keeps -/

/-- A completed check writes its own target only, and only the flag and the time. -/
theorem getTarget_applyVerdict (router : Router) (ref ref' : TargetRef) (was isHealthy : Bool)
    (now : Instant) :
    (applyVerdict router ref was isHealthy now).getTarget ref' =
      if was ≠ isHealthy ∧ ref = ref' then
        (router.getTarget ref').map fun t => t.setHealthy isHealthy now
      else router.getTarget ref' := by
  unfold applyVerdict
  by_cases hwas : was = isHealthy
  · simp [hwas]
  · rw [if_pos hwas, Router.getTarget_modifyTarget]
    simp [hwas]

/-- An exchange keeps its number and its request. -/
theorem exchange_of_step {p : Platform} {s s' : State} {e : Event} (h : e.Step p s s') {i : Nat}
    {x : Exchange} (hx : s.exchanges[i]? = some x) :
    ∃ x', s'.exchanges[i]? = some x' ∧ x'.request = x.request := by
  rcases exchanges_of_step h with heq | ⟨request, -, heq⟩ | ⟨j, y, stage, hy, -, heq, -⟩
  · exact ⟨x, heq ▸ hx, rfl⟩
  · rw [heq]
    exact Tasks.keeps_append Exchange.request _ hx
  · rw [heq]
    exact Tasks.keeps_set Exchange.request hy (by rfl) hx

/-- What a put was spawned with. -/
def PutTask.origin (t : PutTask) : Nat × Str × Response := (t.exchange, t.key, t.response)

/-- A put keeps its number and what it was spawned with. -/
theorem put_of_step {p : Platform} {s s' : State} {e : Event} (h : e.Step p s s') {q : Nat}
    {t : PutTask} (ht : s.puts[q]? = some t) :
    ∃ t', s'.puts[q]? = some t' ∧ t'.origin = t.origin := by
  rcases puts_of_step h with heq | ⟨i, x, response, -, -, heq⟩ |
    ⟨r, u, _, _, -, hu, -, -, heq⟩ | ⟨r, u, _, _, _, -, hu, -, -, heq⟩
  · exact ⟨t, heq ▸ ht, rfl⟩
  · rw [heq]
    exact Tasks.keeps_append PutTask.origin _ ht
  · rw [heq]
    exact Tasks.keeps_set PutTask.origin hu (by rfl) ht
  · rw [heq]
    exact Tasks.keeps_set PutTask.origin hu (by rfl) ht

end Sret
