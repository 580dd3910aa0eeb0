import Sret.Capacity
import Sret.Freshness

namespace Sret

open Text KeyedMap Transition ResponseCache

/-!
# The cache of a running server

The server uses its cache from many tasks: an exchange looks its key up, and a put reads its
response in one step and inserts its entry in a later one.

* `requests`, `putArguments` — what the exchanges and the puts of a trace were started with, told
  by the trace alone; `requests_of_run`, `putArguments_of_run` — that is what the state holds;
* `Calls` — the `get` and `put` calls that take effect in a trace, each at one of its own steps;
* `server_cache_sequential` — the cache of every reachable state is the one that these calls leave
  behind when they are made one after the other, with the same answers;
* `server_metrics_of_run` — its counters count the lookups of the trace and its evictions.
-/

/-! ### What a trace says about its tasks -/

/-- The request that the event brings. -/
def Event.accepted : Event → Option Request
  | .accept request => some request
  | _ => none

/-- The requests, in the order in which they come in. -/
def requests (tr : List Event) : List Request := tr.filterMap Event.accepted

/-- The response with which the request of an exchange ends, with the number of the exchange. -/
def Event.fetched : Event → Option (Nat × Response)
  | .finish i (.replied response) => some (i, response)
  | _ => none

/-- The put that a response is given to: its key and the response that it gets. -/
def putOf (all : List Request) (x : Nat × Response) : Option (Str × Response) :=
  (all[x.1]?).bind fun request =>
    (cacheKey true request).map fun key => (key, relayedResponse x.2)

/-- What a put is called with. -/
def PutTask.arguments (t : PutTask) : Str × Response := (t.key, t.response)

/-- What the puts are called with, in the order in which they are spawned. -/
def putArguments (tr : List Event) : List (Str × Response) :=
  (tr.filterMap Event.fetched).filterMap (putOf (requests tr))

/-- A step adds the request that it brings. -/
theorem requests_snoc (tr : List Event) (e : Event) :
    requests (tr ++ [e]) = requests tr ++ e.accepted.toList := by
  cases e <;> simp [requests, Event.accepted]

/-- A step starts an exchange with the request that it brings, and no other. -/
theorem requests_of_step {p : Platform} {s s' : State} {e : Event} (h : e.Step p s s') :
    s'.exchanges.map Exchange.request =
      s.exchanges.map Exchange.request ++ e.accepted.toList := by
  have hto : ∀ {i : Nat} {x : Exchange} (stage : Stage), s.exchanges[i]? = some x →
      (s.exchanges.set i (x.to stage)).map Exchange.request =
        s.exchanges.map Exchange.request ++ [] := by
    -- an exchange keeps its request when it moves on
    intro i x stage hx
    rw [List.append_nil]
    exact Tasks.map_set Exchange.request hx rfl
  cases e with
  | accept request =>
    obtain rfl := h
    simp [Event.accepted, Exchange.start]
  | lookup i now result =>
    obtain ⟨x, _, _, hx, -, -, -, rfl⟩ := h
    exact hto _ hx
  | route i pick routed =>
    obtain ⟨x, hx, -, -, rfl⟩ := h
    exact hto _ hx
  | finish i outcome =>
    obtain ⟨x, _, hx, -, rfl⟩ := h
    cases outcome <;> exact hto _ hx
  | prepare q clock =>
    obtain ⟨_, _, _, _, _, rfl⟩ := h
    exact (List.append_nil _).symm
  | commit q key entry victim =>
    obtain ⟨_, _, _, _, _, _, _, _, _, rfl⟩ := h
    exact (List.append_nil _).symm
  | probe c =>
    obtain ⟨_, _, _, _, _, _, _, rfl⟩ := h
    exact (List.append_nil _).symm
  | verdict c ref reply isHealthy now =>
    obtain ⟨_, _, _, _, _, _, rfl⟩ := h
    exact (List.append_nil _).symm

/-- The state holds the requests of the trace. -/
theorem requests_of_run {p : Platform} {s₀ s : State} {tr : List Event} (hquiet : s₀.Quiet)
    (hrun : Run (Event.Step p) s₀ tr s) : s.exchanges.map Exchange.request = requests tr := by
  refine hrun.invariant_trace (fun tr s => s.exchanges.map Exchange.request = requests tr)
    (by simp [hquiet.1, requests]) fun tr s e s' _ ih hstep => ?_
  rw [requests_snoc, ← ih, requests_of_step hstep]

/-- A fetch is one of a request of the trace. -/
theorem fetched_lt {p : Platform} {s₀ s : State} {tr : List Event} (hquiet : s₀.Quiet)
    (hrun : Run (Event.Step p) s₀ tr s) :
    ∀ x ∈ tr.filterMap Event.fetched, x.1 < (requests tr).length := by
  intro x hx
  obtain ⟨e, he, hfetched⟩ := List.mem_filterMap.mp hx
  obtain ⟨pre, post, rfl⟩ := List.append_of_mem he
  obtain ⟨t, t', hpre, hstep, -⟩ := hrun.step_at
  cases e with
  | finish i outcome =>
    cases outcome with
    | replied response =>
      obtain rfl := Option.some.inj hfetched
      -- the exchange had started, so its request is among those before the fetch
      obtain ⟨y, d, hy, -⟩ := hstep
      obtain ⟨hlt, -⟩ := List.getElem?_eq_some_iff.mp hy
      rw [← List.length_map (f := Exchange.request), requests_of_run hquiet hpre] at hlt
      simp only [requests, List.filterMap_append, List.length_append] at hlt ⊢
      omega
    | _ => simp [Event.fetched] at hfetched
  | _ => simp [Event.fetched] at hfetched

/-- A step spawns the put that it gives a response to. -/
theorem putArguments_of_step {p : Platform} {s s' : State} {e : Event} (h : e.Step p s s')
    (hcache : s.cache.isSome = true) :
    s'.puts.map PutTask.arguments = s.puts.map PutTask.arguments ++
      (e.fetched.bind (putOf (s.exchanges.map Exchange.request))).toList := by
  -- a put keeps its arguments when it moves on
  have hto : ∀ {q : Nat} {t : PutTask} (stage : PutStage), s.puts[q]? = some t →
      (s.puts.set q { t with stage := stage }).map PutTask.arguments =
        s.puts.map PutTask.arguments ++ [] := by
    intro q t stage ht
    rw [List.append_nil]
    exact Tasks.map_set PutTask.arguments ht rfl
  cases e with
  | accept request =>
    obtain rfl := h
    exact (List.append_nil _).symm
  | lookup i now result =>
    obtain ⟨_, _, _, _, _, _, _, rfl⟩ := h
    exact (List.append_nil _).symm
  | route i pick routed =>
    obtain ⟨_, _, _, _, rfl⟩ := h
    exact (List.append_nil _).symm
  | finish i outcome =>
    obtain ⟨x, _, hx, -, rfl⟩ := h
    cases outcome with
    | replied response =>
      have hrequest : (s.exchanges.map Exchange.request)[i]? = some x.request := by simp [hx]
      rw [List.map_append, Event.fetched, Option.bind_some, putOf, hrequest, Option.bind_some,
        spawnedPuts, hcache]
      -- without a key nothing is spawned, and nothing is an argument
      cases cacheKey true x.request with
      | none => rfl
      | some key => rfl
    | bodyFailed => exact (List.append_nil _).symm
    | sendFailed => exact (List.append_nil _).symm
    | readFailed => exact (List.append_nil _).symm
  | prepare q clock =>
    obtain ⟨t, _, ht, -, -, rfl⟩ := h
    exact hto _ ht
  | commit q key entry victim =>
    obtain ⟨t, _, _, ht, -, -, -, -, -, rfl⟩ := h
    exact hto _ ht
  | probe c =>
    obtain ⟨_, _, _, _, _, _, _, rfl⟩ := h
    exact (List.append_nil _).symm
  | verdict c ref reply isHealthy now =>
    obtain ⟨_, _, _, _, _, _, rfl⟩ := h
    exact (List.append_nil _).symm

/-- A cache is neither lost nor added. -/
theorem cache_isSome_of_step {p : Platform} {s s' : State} {e : Event} (h : e.Step p s s') :
    s'.cache.isSome = s.cache.isSome := by
  rcases cache_of_step h with ⟨heq, -⟩ | ⟨_, _, _, _, _, _, -, -, hcache, heq⟩ |
    ⟨_, _, _, _, _, _, -, hcache, heq, -⟩
  · rw [heq]
  · rw [heq, hcache, Option.isSome_some, Option.isSome_some]
  · rw [heq, hcache, Option.isSome_some, Option.isSome_some]

/-- No run adds a cache or takes it away. -/
theorem cache_isSome_of_run {p : Platform} {s₀ s : State} {tr : List Event}
    (hrun : Run (Event.Step p) s₀ tr s) : s.cache.isSome = s₀.cache.isSome :=
  hrun.invariant (fun s => s.cache.isSome = s₀.cache.isSome) rfl
    fun _ _ _ h hstep => (cache_isSome_of_step hstep).trans h

/-- A step adds the put that it spawns. -/
theorem putArguments_snoc {tr : List Event}
    (h : ∀ x ∈ tr.filterMap Event.fetched, x.1 < (requests tr).length) (e : Event) :
    putArguments (tr ++ [e]) =
      putArguments tr ++ (e.fetched.bind (putOf (requests tr))).toList := by
  -- a request that comes in later is none of those that have a response already
  have hold : (tr.filterMap Event.fetched).filterMap (putOf (requests (tr ++ [e]))) =
      putArguments tr := by
    refine List.filterMap_congr fun x hx => ?_
    rw [putOf, requests_snoc, List.getElem?_append_left (h x hx), putOf]
  rw [putArguments, List.filterMap_append, List.filterMap_append, hold]
  cases he : e.fetched with
  | none => simp [he]
  | some x =>
    have haccepted : e.accepted = none := by
      cases e with
      | accept request => simp [Event.fetched] at he
      | _ => rfl
    rw [requests_snoc, haccepted, List.filterMap_cons, he]
    cases hput : putOf (requests tr) x <;> simp [hput]

/-- The state holds the puts of the trace. -/
theorem putArguments_of_run {p : Platform} {s₀ s : State} {tr : List Event} (hquiet : s₀.Quiet)
    (hcache : s₀.cache.isSome = true) (hrun : Run (Event.Step p) s₀ tr s) :
    s.puts.map PutTask.arguments = putArguments tr := by
  refine hrun.invariant_trace
    (fun tr s => s.puts.map PutTask.arguments = putArguments tr)
    (by simp [hquiet.2, putArguments]) fun tr s e s' hpre ih hstep => ?_
  rw [putArguments_snoc (fetched_lt hquiet hpre), ← ih, ← requests_of_run hquiet hpre]
  exact putArguments_of_step hstep ((cache_isSome_of_run hpre).trans hcache)

/-! ### The calls of a trace -/

/-- The step is one of the cache. -/
def Event.usesCache : Event → Bool
  | .lookup _ _ _ | .prepare _ _ | .commit _ _ _ _ => true
  | _ => false

/-- The calls that take effect in a trace, in this order: a lookup at its only step, a put that is
    refused or panics where it reads its response, and every other put where it inserts its
    entry. -/
inductive Calls (p : Platform) (defaultTtl : Duration) : List Event → List CacheEvent → Prop
  | nil : Calls p defaultTtl [] []
  | lookup {tr : List Event} {calls : List CacheEvent} {i : Nat} {now : Instant}
      {result : Option Response} {request : Request} {key : Str} :
      Calls p defaultTtl tr calls → (requests tr)[i]? = some request →
      cacheKey true request = some key →
      Calls p defaultTtl (tr ++ [.lookup i now result])
        (calls ++ [.get key request.headers now result])
  | dropped {tr : List Event} {calls : List CacheEvent} {q : Nat} {clock : Clock} {key : Str}
      {response : Response} {outcome : PutOutcome} :
      Calls p defaultTtl tr calls → (putArguments tr)[q]? = some (key, response) →
      outcome = .refused ∨ outcome = .panicked →
      Calls p defaultTtl (tr ++ [.prepare q clock])
        (calls ++ [.put key response clock outcome])
  | prepared {tr : List Event} {calls : List CacheEvent} {q : Nat} {clock : Clock} {key : Str}
      {response : Response} {entry : CacheEntry} :
      Calls p defaultTtl tr calls → (putArguments tr)[q]? = some (key, response) →
      preparePut p defaultTtl response clock = .ready entry →
      Calls p defaultTtl (tr ++ [.prepare q clock]) calls
  | committed {tr : List Event} {calls : List CacheEvent} {q : Nat} {clock : Clock} {key : Str}
      {response : Response} {entry : CacheEntry} {victim : Option Str} :
      Calls p defaultTtl tr calls → (putArguments tr)[q]? = some (key, response) →
      .prepare q clock ∈ tr →
      Calls p defaultTtl (tr ++ [.commit q key entry victim])
        (calls ++ [.put key response clock (.stored entry victim)])
  | other {tr : List Event} {calls : List CacheEvent} {e : Event} :
      Calls p defaultTtl tr calls → e.usesCache = false → Calls p defaultTtl (tr ++ [e]) calls

/-- The put has made the entry of its response, under this default lifetime. -/
def MadeReady (p : Platform) (defaultTtl : Duration) (tr : List Event) (q : Nat)
    (response : Response) (entry : CacheEntry) : Prop :=
  ∃ clock, .prepare q clock ∈ tr ∧ preparePut p defaultTtl response clock = .ready entry

/-- An entry that has been made has been so in every longer run. -/
theorem MadeReady.snoc {p : Platform} {defaultTtl : Duration} {tr : List Event} {q : Nat}
    {response : Response} {entry : CacheEntry} (h : MadeReady p defaultTtl tr q response entry)
    (e : Event) : MadeReady p defaultTtl (tr ++ [e]) q response entry := by
  obtain ⟨clock, hmem, hready⟩ := h
  exact ⟨clock, List.mem_append_left _ hmem, hready⟩

/-- What is known of the cache after the calls. -/
structure Sequential (p : Platform) (c₀ : ResponseCache) (tr : List Event) (s : State)
    (c : ResponseCache) (calls : List CacheEvent) : Prop where
  cache : s.cache = some c
  run : Run (CacheEvent.Step p) c₀ calls c
  calls : Calls p c₀.defaultTtl tr calls
  ready : ∀ (q : Nat) t entry, s.puts[q]? = some t → t.stage = .ready entry →
    MadeReady p c₀.defaultTtl tr q t.response entry
  written : ∀ q key entry victim, .commit q key entry victim ∈ tr →
    ∃ t, s.puts[q]? = some t ∧ t.key = key ∧ MadeReady p c₀.defaultTtl tr q t.response entry

/-- The default lifetime stays. -/
theorem Sequential.defaultTtl {p : Platform} {c₀ c : ResponseCache} {tr : List Event} {s : State}
    {calls : List CacheEvent} (h : Sequential p c₀ tr s c calls) : c.defaultTtl = c₀.defaultTtl :=
  (config_of_run h.run).2

/-- A put is one of the trace. -/
theorem arguments_of_put {p : Platform} {s₀ s : State} {tr : List Event} (hquiet : s₀.Quiet)
    (hcache : s₀.cache.isSome = true) (hrun : Run (Event.Step p) s₀ tr s) {q : Nat} {t : PutTask}
    (ht : s.puts[q]? = some t) : (putArguments tr)[q]? = some (t.key, t.response) := by
  rw [← putArguments_of_run hquiet hcache hrun, List.getElem?_map, ht]
  rfl

/-- A put that is ready after a step was ready before it, or the step has made its entry. -/
theorem Sequential.ready_step {p : Platform} {c₀ c : ResponseCache} {tr : List Event}
    {s s' : State} {calls : List CacheEvent} (h : Sequential p c₀ tr s c calls) {e : Event}
    (hstep : e.Step p s s') (q : Nat) (t : PutTask) (entry : CacheEntry)
    (ht : s'.puts[q]? = some t) (hstage : t.stage = .ready entry) :
    MadeReady p c₀.defaultTtl (tr ++ [e]) q t.response entry := by
  rcases puts_of_step hstep with heq | ⟨i, x, response, rfl, -, heq⟩ |
    ⟨r, u, cache, clock, rfl, hu, -, hcache, heq⟩ | ⟨r, u, _, _, _, rfl, -, -, -, heq⟩
  · exact (h.ready q t entry (heq ▸ ht) hstage).snoc e
  · rw [heq] at ht
    rcases Tasks.of_append ht with hold | ⟨-, hnew⟩
    · exact (h.ready q t entry hold hstage).snoc _
    · -- a new put has no entry yet
      obtain ⟨-, _, -, rfl⟩ := of_spawnedPuts hnew
      simp at hstage
  · rw [heq] at ht
    rcases Tasks.of_set ht with ⟨rfl, rfl⟩ | ⟨-, hold⟩
    · obtain rfl : c = cache := Option.some.inj (h.cache.symm.trans hcache)
      refine ⟨clock, by simp, ?_⟩
      cases hprepared : preparePut p c.defaultTtl u.response clock with
      | ready made =>
        simp only [hprepared, PutStage.ofPreparation, PutStage.ready.injEq] at hstage
        rw [← h.defaultTtl, hprepared, hstage]
      | refused => simp [hprepared, PutStage.ofPreparation] at hstage
      | panicked => simp [hprepared, PutStage.ofPreparation] at hstage
    · exact (h.ready q t entry hold hstage).snoc _
  · rw [heq] at ht
    rcases Tasks.of_set ht with ⟨-, rfl⟩ | ⟨-, hold⟩
    · simp at hstage
    · exact (h.ready q t entry hold hstage).snoc _

/-- An insertion stays one of the entry that its put has made. -/
theorem Sequential.written_step {p : Platform} {c₀ c : ResponseCache} {tr : List Event}
    {s s' : State} {calls : List CacheEvent} (h : Sequential p c₀ tr s c calls) {e : Event}
    (hstep : e.Step p s s') (q : Nat) (key : Str) (entry : CacheEntry) (victim : Option Str)
    (hmem : .commit q key entry victim ∈ tr ++ [e]) :
    ∃ t, s'.puts[q]? = some t ∧ t.key = key ∧
      MadeReady p c₀.defaultTtl (tr ++ [e]) q t.response entry := by
  -- a put that has made its entry is still there after the step, with the same key
  have hfound : ∀ t, s.puts[q]? = some t → t.key = key →
      MadeReady p c₀.defaultTtl tr q t.response entry → ∃ t, s'.puts[q]? = some t ∧
        t.key = key ∧ MadeReady p c₀.defaultTtl (tr ++ [e]) q t.response entry := by
    intro t ht hkey hmade
    obtain ⟨t', ht', horigin⟩ := put_of_step hstep ht
    obtain ⟨-, hrest⟩ := Prod.mk.inj horigin
    obtain ⟨hsame, hresponse⟩ := Prod.mk.inj hrest
    exact ⟨t', ht', hsame.trans hkey, hresponse ▸ hmade.snoc e⟩
  rcases List.mem_append.mp hmem with hold | hnew
  · obtain ⟨t, ht, hkey, hmade⟩ := h.written q key entry victim hold
    exact hfound t ht hkey hmade
  · obtain rfl := List.mem_singleton.mp hnew
    obtain ⟨t, _, _, ht, hkey, hstage, -⟩ := id hstep
    exact hfound t ht hkey (h.ready q t entry ht hstage)

/-- **One step of the server is one call of its cache, or none.** -/
theorem Sequential.step {p : Platform} {s₀ : State} {c₀ c : ResponseCache} {tr : List Event}
    {s s' : State} {calls : List CacheEvent} (hquiet : s₀.Quiet) (hc₀ : s₀.cache = some c₀)
    (hrun : Run (Event.Step p) s₀ tr s) (h : Sequential p c₀ tr s c calls) {e : Event}
    (hstep : e.Step p s s') :
    ∃ c' calls', Sequential p c₀ (tr ++ [e]) s' c' calls' := by
  have hready := h.ready_step hstep
  have hwritten := h.written_step hstep
  have hsome : s₀.cache.isSome = true := by rw [hc₀, Option.isSome_some]
  -- a step that is none of the cache leaves it as it is
  have hother : e.usesCache = false → s'.cache = s.cache →
      ∃ c' calls', Sequential p c₀ (tr ++ [e]) s' c' calls' := fun hkind hsame =>
    ⟨c, calls, hsame.trans h.cache, h.run, h.calls.other hkind, hready, hwritten⟩
  cases e with
  | lookup i now result =>
    obtain ⟨x, key, cache, hx, hstage, hcache, rfl, rfl⟩ := hstep
    obtain rfl : c = cache := Option.some.inj (h.cache.symm.trans hcache)
    have hrequest : (requests tr)[i]? = some x.request := by
      rw [← requests_of_run hquiet hrun, List.getElem?_map, hx]
      rfl
    exact ⟨_, _, rfl, h.run.snoc (CacheEvent.step_get p c key x.request.headers now),
      h.calls.lookup hrequest (keyedLookups_of_run hquiet hrun i x key hx hstage), hready, hwritten⟩
  | prepare q clock =>
    obtain ⟨t, cache, ht, -, hcache, hs'⟩ := hstep
    have hsame : s'.cache = some c := by rw [hs', h.cache]
    have harguments := arguments_of_put hquiet hsome hrun ht
    -- a put that is refused or panics ends here, and any other one where it inserts
    by_cases hprepared : ∃ entry, preparePut p c.defaultTtl t.response clock = .ready entry
    · obtain ⟨entry, hprepared⟩ := hprepared
      exact ⟨c, calls, hsame, h.run,
        h.calls.prepared harguments (h.defaultTtl ▸ hprepared), hready, hwritten⟩
    · obtain ⟨outcome, hdropped, hput⟩ :=
        CacheEvent.step_put_of_not_ready (not_exists.mp hprepared) t.key
      exact ⟨c, _, hsame, h.run.snoc hput, h.calls.dropped harguments hdropped, hready, hwritten⟩
  | commit q key entry victim =>
    obtain ⟨t, cache, iter, ht, rfl, hstage, hcache, hiter, rfl, rfl⟩ := hstep
    obtain rfl : c = cache := Option.some.inj (h.cache.symm.trans hcache)
    -- the call takes effect now, with the entry that was made before
    obtain ⟨clock, hmem, hprepared⟩ := h.ready q t entry ht hstage
    rw [← h.defaultTtl] at hprepared
    exact ⟨_, _, rfl, h.run.snoc (CacheEvent.step_put_of_ready hiter hprepared t.key),
      h.calls.committed (arguments_of_put hquiet hsome hrun ht) hmem, hready, hwritten⟩
  | accept request =>
    obtain rfl := hstep
    exact hother rfl rfl
  | route i pick routed =>
    obtain ⟨_, _, _, _, rfl⟩ := hstep
    exact hother rfl rfl
  | finish i outcome =>
    obtain ⟨_, _, _, _, rfl⟩ := hstep
    cases outcome <;> exact hother rfl rfl
  | probe k =>
    obtain ⟨_, _, _, _, _, _, _, rfl⟩ := hstep
    exact hother rfl rfl
  | verdict k ref reply isHealthy now =>
    obtain ⟨_, _, _, _, _, _, rfl⟩ := hstep
    exact hother rfl rfl

/-- **The cache of every state that is reached is that of a sequence of calls.** -/
theorem sequential_of_run {p : Platform} {s₀ s : State} {tr : List Event} {c₀ : ResponseCache}
    (hquiet : s₀.Quiet) (hc₀ : s₀.cache = some c₀) (hrun : Run (Event.Step p) s₀ tr s) :
    ∃ c calls, Sequential p c₀ tr s c calls := by
  refine hrun.invariant_trace (fun tr s => ∃ c calls, Sequential p c₀ tr s c calls)
    ⟨c₀, [], hc₀, Run.nil c₀, Calls.nil, by simp [hquiet.2], by simp⟩ ?_
  rintro tr s e s' hpre ⟨c, calls, h⟩ hstep
  exact h.step hquiet hc₀ hpre hstep

variable {File Cert Key Acceptor : Type}

/-- The cache that a server is configured with, when it starts. -/
theorem initial_cache (lib : TlsLibrary File Cert Key Acceptor) (config : Config)
    {serverConfig : ServerConfig} {cacheConfig : CacheConfig}
    (hcache : serverConfig.cache = some cacheConfig) :
    (State.initial (Server.new lib config serverConfig)).cache =
      some (ResponseCache.new cacheConfig.maxSize
        (Duration.fromSecs cacheConfig.defaultTtlSeconds)) := by
  simp [State.initial, Server.new, hcache]

/-- **The server's cache is a cache.**  In every run, however the exchanges and the puts are
    interleaved, the cache is the one that its calls leave behind when they are made one after the
    other, each as a whole and at one of its own steps; the lookups get the same answers, and the
    puts the same outcomes. -/
theorem server_cache_sequential (lib : TlsLibrary File Cert Key Acceptor) (p : Platform)
    (config : Config) (serverConfig : ServerConfig) (cacheConfig : CacheConfig)
    (hcache : serverConfig.cache = some cacheConfig) (tr : List Event) (s : State)
    (hrun : Run (Event.Step p) (State.initial (Server.new lib config serverConfig)) tr s) :
    ∃ c calls, s.cache = some c ∧
      Run (CacheEvent.Step p) (ResponseCache.new cacheConfig.maxSize
        (Duration.fromSecs cacheConfig.defaultTtlSeconds)) calls c ∧
      Calls p (Duration.fromSecs cacheConfig.defaultTtlSeconds) tr calls := by
  obtain ⟨c, calls, h⟩ := sequential_of_run (State.quiet_initial _)
    (initial_cache lib config hcache) hrun
  exact ⟨c, calls, h.cache, h.run, h.calls⟩

/-- The two puts of the race, inserted against the order in which they were spawned. -/
theorem exists_run_crossed :
    ∃ m, Run (Event.Step Platform.ascii) (State.initial (Server.new noFiles openConfig raceServer))
      (raceTrace ++ [raceCommit 1 newPage] ++ [raceCommit 0 oldPage]) m := by
  obtain ⟨m, hrun, hputs, c, hc, hempty, hsize⟩ := exists_run_race
  obtain ⟨m₁, m₂, hstep₁, hstep₂, -, -⟩ := exists_run_order Nat.one_ne_zero
    (by rw [hputs]; rfl) (by rw [hputs]; rfl) hc hempty hsize
  exact ⟨m₂, (hrun.snoc hstep₁).snoc hstep₂⟩

/-- The two puts of the race, one after the other. -/
theorem server_cache_sequential_crossed :
    ∃ c calls, Run (CacheEvent.Step Platform.ascii)
        (ResponseCache.new 2 (Duration.fromSecs 1)) calls c ∧
      Calls Platform.ascii (Duration.fromSecs 1)
        (raceTrace ++ [raceCommit 1 newPage] ++ [raceCommit 0 oldPage]) calls := by
  obtain ⟨m, hrun⟩ := exists_run_crossed
  obtain ⟨c, calls, -, hcalls⟩ := server_cache_sequential noFiles Platform.ascii openConfig
    raceServer ⟨2, 1⟩ rfl _ m hrun
  exact ⟨c, calls, hcalls⟩

/-! ### The counters -/

namespace CacheEvent

/-- The lookup is answered. -/
@[simp] def isHit : CacheEvent → Bool
  | .get _ _ _ (some _) => true
  | _ => false

/-- The lookup is not answered. -/
@[simp] def isMiss : CacheEvent → Bool
  | .get _ _ _ none => true
  | _ => false

/-- The put takes an entry out. -/
@[simp] def evicts : CacheEvent → Bool
  | .put _ _ _ (.stored _ (some _)) => true
  | _ => false

end CacheEvent

namespace Event

/-- The exchange is answered from the cache. -/
@[simp] def isHit : Event → Bool
  | .lookup _ _ (some _) => true
  | _ => false

/-- The exchange goes on to the router. -/
@[simp] def isMiss : Event → Bool
  | .lookup _ _ none => true
  | _ => false

/-- The put takes an entry out. -/
@[simp] def evicts : Event → Bool
  | .commit _ _ _ (some _) => true
  | _ => false

end Event

/-- A lookup counts its hit or its miss. -/
theorem get_snd_eq {c c' : ResponseCache} {key : Str} {headers : HeaderMap} {now : Instant}
    {result : Option Response} (h : c.get key headers now = (result, c')) :
    c' = if result.isSome then c.recordHit else c.recordMiss := by
  simp only [ResponseCache.get] at h
  split at h
  · split at h
    · obtain ⟨rfl, rfl⟩ := Prod.mk.inj h
      rfl
    · obtain ⟨rfl, rfl⟩ := Prod.mk.inj h
      rfl
  · obtain ⟨rfl, rfl⟩ := Prod.mk.inj h
    rfl

/-- The counters of a cache agree with the calls made so far. -/
structure Counted (maxSize : Nat) (calls : List CacheEvent) (c : ResponseCache) : Prop where
  limit : c.maxSize = maxSize
  hits : c.metrics.hits = calls.countP CacheEvent.isHit % 2 ^ 64
  misses : c.metrics.misses = calls.countP CacheEvent.isMiss % 2 ^ 64
  evictions : c.metrics.evictions = calls.countP CacheEvent.evicts % 2 ^ 64
  size : c.metrics.size = c.len
  len_le : c.len ≤ max maxSize 1

/-- A call keeps the count. -/
theorem Counted.step {p : Platform} {maxSize : Nat} {calls : List CacheEvent}
    {c c' : ResponseCache} {e : CacheEvent} (h : Counted maxSize calls c) (hstep : e.Step p c c') :
    Counted maxSize (calls ++ [e]) c' := by
  cases e with
  | get key headers now result =>
    obtain rfl := get_snd_eq hstep
    refine ⟨?_, ?_, ?_, ?_, ?_, ?_⟩
    · cases result <;> exact h.limit
    · cases result with
      | none => simpa [recordMiss] using h.hits
      | some response => simp [recordHit, h.hits, fetchAddOne]
    · cases result with
      | none => simp [recordMiss, h.misses, fetchAddOne]
      | some response => simpa [recordHit] using h.misses
    · cases result <;> simpa [recordHit, recordMiss] using h.evictions
    · cases result <;> exact h.size
    · cases result <;> exact h.len_le
  | put key response clock outcome =>
    obtain ⟨iter, hiter, hput⟩ := hstep
    rcases put_cases hiter hput with ⟨rfl, -, rfl⟩ | ⟨rfl, -, rfl⟩ | ⟨entry, victim, rfl, -, hins⟩
    · exact ⟨h.limit, by simpa using h.hits, by simpa using h.misses, by simpa using h.evictions,
        h.size, h.len_le⟩
    · exact ⟨h.limit, by simpa using h.hits, by simpa using h.misses, by simpa using h.evictions,
        h.size, h.len_le⟩
    · -- an insertion counts its victim, and the number of entries
      have hmetrics := hins.metrics
      have hlen := hins.len_le (h.limit ▸ h.len_le)
      rw [h.limit] at hlen
      refine ⟨hins.maxSize.trans h.limit, ?_, ?_, ?_, by rw [hmetrics], hlen⟩
      · simpa [hmetrics] using h.hits
      · simpa [hmetrics] using h.misses
      · cases victim with
        | none => simpa [hmetrics] using h.evictions
        | some v => simp [hmetrics, h.evictions, fetchAddOne]

/-- The counters count the calls of every run. -/
theorem counted_of_run {p : Platform} {maxSize : Nat} {defaultTtl : Duration}
    {calls : List CacheEvent} {c : ResponseCache}
    (h : Run (CacheEvent.Step p) (ResponseCache.new maxSize defaultTtl) calls c) :
    Counted maxSize calls c := by
  refine h.invariant_trace (Counted maxSize) ⟨rfl, rfl, rfl, rfl, rfl, Nat.zero_le _⟩ ?_
  exact fun _ _ _ _ _ hcounted hstep => hcounted.step hstep

/-- The calls are counted by the events of the trace. -/
theorem Calls.counts {p : Platform} {defaultTtl : Duration} {tr : List Event}
    {calls : List CacheEvent} (h : Calls p defaultTtl tr calls) :
    calls.countP CacheEvent.isHit = tr.countP Event.isHit ∧
      calls.countP CacheEvent.isMiss = tr.countP Event.isMiss ∧
      calls.countP CacheEvent.evicts = tr.countP Event.evicts := by
  induction h with
  | nil => exact ⟨rfl, rfl, rfl⟩
  | @lookup tr calls i now result request key _ _ _ ih =>
    cases result with
    | none => simp [ih]
    | some response => simp [ih]
  | dropped _ _ hdropped ih =>
    rcases hdropped with rfl | rfl
    · simp [ih]
    · simp [ih]
  | prepared _ _ _ ih => simp [ih]
  | @committed tr calls q clock key response entry victim _ _ _ ih =>
    cases victim with
    | none => simp [ih]
    | some v => simp [ih]
  | @other tr calls e _ hkind ih =>
    cases e with
    | lookup i now result => simp [Event.usesCache] at hkind
    | prepare q clock => simp [Event.usesCache] at hkind
    | commit q key entry victim => simp [Event.usesCache] at hkind
    | _ => simp [ih]

/-- The exchange has its lookup before it. -/
def Exchange.looking (x : Exchange) : Bool :=
  match x.stage with
  | .lookup _ => true
  | _ => false

/-- The request has a cache key. -/
def Request.keyed (request : Request) : Bool := (cacheKey true request).isSome

/-- A new exchange looks up exactly if it has a key. -/
theorem looking_start (request : Request) :
    (Exchange.start true request).looking = request.keyed := by
  unfold Exchange.looking Exchange.start Request.keyed
  cases cacheKey true request with
  | none => rfl
  | some key => rfl

/-- An exchange that goes on does not look up again. -/
theorem looking_set {exchanges : List Exchange} {i : Nat} {x : Exchange}
    (hx : exchanges[i]? = some x) (stage : Stage) (hstage : (x.to stage).looking = false) :
    x.looking.toNat + (exchanges.set i (x.to stage)).countP Exchange.looking =
      exchanges.countP Exchange.looking := by
  obtain ⟨hi, rfl⟩ := List.getElem?_eq_some_iff.mp hx
  rw [List.countP_set hi, hstage]
  cases hl : exchanges[i].looking with
  | false => simp
  | true =>
    -- the exchange itself was one of those that look up
    have hpos := List.countP_pos_iff.mpr ⟨_, List.getElem_mem hi, hl⟩
    simp only [if_true, Bool.false_eq_true, if_false, Bool.toNat_true]
    omega

/-- A step with a lookup ends the wait of one exchange for it; a request with a key begins one. -/
theorem looking_of_step {p : Platform} {s s' : State} {e : Event} (h : e.Step p s s')
    (hcache : s.cache.isSome = true) :
    e.isHit.toNat + e.isMiss.toNat + s'.exchanges.countP Exchange.looking =
      s.exchanges.countP Exchange.looking + e.accepted.toList.countP Request.keyed := by
  cases e with
  | accept request =>
    obtain rfl := h
    simp [hcache, looking_start, Event.accepted]
  | lookup i now result =>
    obtain ⟨x, key, _, hx, hstage, -, -, rfl⟩ := h
    -- the exchange was waiting for its lookup
    have hwas : x.looking.toNat = 1 := by rw [Exchange.looking, hstage]; rfl
    cases result with
    | none => simpa [hwas, Event.accepted] using looking_set hx .route rfl
    | some response =>
      simpa [hwas, Event.accepted] using looking_set hx (.answered response) rfl
  | route i pick routed =>
    obtain ⟨x, hx, hstage, -, rfl⟩ := h
    have hwas : x.looking.toNat = 0 := by rw [Exchange.looking, hstage]; rfl
    cases routed with
    | none => simpa [hwas, Event.accepted] using looking_set hx (.answered notFound) rfl
    | some d => simpa [hwas, Event.accepted] using looking_set hx (.forwarding d) rfl
  | finish i outcome =>
    obtain ⟨x, d, hx, hstage, rfl⟩ := h
    have hwas : x.looking.toNat = 0 := by rw [Exchange.looking, hstage]; rfl
    have hset (response : Response) := looking_set hx (.answered response) rfl
    cases outcome with
    | replied response =>
      simpa [hwas, Event.accepted] using hset (relayedResponse response)
    | _ => simpa [hwas, Event.accepted] using hset badGateway
  | prepare q clock =>
    obtain ⟨_, _, _, _, _, rfl⟩ := h
    exact Nat.zero_add _
  | commit q key entry victim =>
    obtain ⟨_, _, _, _, _, _, _, _, _, rfl⟩ := h
    simp [Event.accepted]
  | probe c =>
    obtain ⟨_, _, _, _, _, _, _, rfl⟩ := h
    exact Nat.zero_add _
  | verdict c ref reply isHealthy now =>
    obtain ⟨_, _, _, _, _, _, rfl⟩ := h
    exact Nat.zero_add _

/-- Every request with a key is looked up once, unless its lookup is still before it. -/
theorem lookups_of_run {p : Platform} {s₀ s : State} {tr : List Event} (hquiet : s₀.Quiet)
    (hcache : s₀.cache.isSome = true) (hrun : Run (Event.Step p) s₀ tr s) :
    tr.countP Event.isHit + tr.countP Event.isMiss + s.exchanges.countP Exchange.looking =
      (requests tr).countP Request.keyed := by
  refine hrun.invariant_trace (fun tr s => tr.countP Event.isHit + tr.countP Event.isMiss +
    s.exchanges.countP Exchange.looking = (requests tr).countP Request.keyed)
    (by simp [hquiet.1, requests]) fun tr s e s' hpre ih hstep => ?_
  have hone := looking_of_step hstep ((cache_isSome_of_run hpre).trans hcache)
  -- a step adds its own lookup or request to the counts
  have hsingle : ∀ b : Bool, (if b = true then 1 else 0) = b.toNat := by decide
  rw [requests_snoc, List.countP_append, List.countP_append, List.countP_append,
    List.countP_singleton, List.countP_singleton, hsingle, hsingle]
  omega

/-- **The counters of a running server.**  In every run, however its tasks are interleaved: the
    cache holds at most `max_size` entries, or one; its size counter is their number; the other
    counters count the answers from the cache, the requests that it did not answer and the
    evictions, as `u64`s can; and every GET or HEAD request is counted once, as a hit or as a miss,
    unless its lookup is still before it. -/
theorem server_metrics_of_run (lib : TlsLibrary File Cert Key Acceptor) (p : Platform)
    (config : Config) (serverConfig : ServerConfig) (cacheConfig : CacheConfig)
    (hcache : serverConfig.cache = some cacheConfig) (tr : List Event) (s : State)
    (hrun : Run (Event.Step p) (State.initial (Server.new lib config serverConfig)) tr s) :
    ∃ c, s.cache = some c ∧ c.len ≤ max cacheConfig.maxSize 1 ∧
      c.metrics = ⟨tr.countP Event.isHit % 2 ^ 64, tr.countP Event.isMiss % 2 ^ 64,
        tr.countP Event.evicts % 2 ^ 64, c.len⟩ ∧
      tr.countP Event.isHit + tr.countP Event.isMiss + s.exchanges.countP Exchange.looking =
        (requests tr).countP Request.keyed := by
  have hquiet := State.quiet_initial (Server.new lib config serverConfig)
  have hinitial := initial_cache lib config hcache
  obtain ⟨c, calls, h⟩ := sequential_of_run hquiet hinitial hrun
  have hcounted := counted_of_run h.run
  obtain ⟨hhits, hmisses, hevicts⟩ := h.calls.counts
  refine ⟨c, h.cache, hcounted.len_le, ?_,
    lookups_of_run hquiet (by rw [hinitial, Option.isSome_some]) hrun⟩
  rw [← hhits, ← hmisses, ← hevicts, ← hcounted.hits, ← hcounted.misses, ← hcounted.evictions,
    ← hcounted.size]

/-- Two lookups have missed, and nothing has been evicted. -/
theorem server_metrics_of_run_crossed :
    ∃ (s : State) (c : ResponseCache), s.cache = some c ∧ c.len ≤ 2 ∧ c.metrics = ⟨0, 2, 0, c.len⟩ ∧
      s.exchanges.countP Exchange.looking = 0 := by
  obtain ⟨m, hrun⟩ := exists_run_crossed
  obtain ⟨c, hc, hlen, hmetrics, hcount⟩ := server_metrics_of_run noFiles Platform.ascii openConfig
    raceServer ⟨2, 1⟩ rfl _ m hrun
  have hkeyed : (requests (raceTrace ++ [raceCommit 1 newPage] ++ [raceCommit 0 oldPage])).countP
      Request.keyed = 2 := by decide
  refine ⟨m, c, hc, hlen, hmetrics, ?_⟩
  rw [hkeyed] at hcount
  exact Nat.add_left_cancel (n := 2) hcount

end Sret
