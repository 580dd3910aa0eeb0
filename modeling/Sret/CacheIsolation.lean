import Sret.CacheKey
import Sret.CacheRuns
import Sret.Lifecycle

namespace Sret

open Text KeyedMap Transition

/-!
# Whose response a cache hit replays

The cache inside the running server: which exchange's response a lookup is answered with.

* `Event.effect` — what a step does to the entries, with the number of the put that wrote them;
* `StoreInvariant` — a lookup and a put carry the key of their exchange's request, and the
  entries are the last writes of the history;
* `entries_of_step`, `storeInvariant_of_run` — every step keeps this;
* `exists_storedBy` — so behind every hit there is an exchange whose response is replayed, and
  (`key_of_servedFrom`) its request has the same key;
* `cached_response_isolated_iff` — a key identifies a request, so that no run replays its
  response to a different one, exactly when the request is unambiguous.
-/

variable {File Cert Key Acceptor : Type}

/-- What the step does to the entries: the put with this number binds its entry. -/
def Event.effect : Event → History.Effect Str (Nat × CacheEntry)
  | .commit q key entry victim => ⟨victim, some (key, (q, entry))⟩
  | _ => ⟨none, none⟩

/-- The entry under the key was written by a put that the exchange spawned. -/
def StoredBy (tr : List Event) (s : State) (key : Str) (x : Exchange) : Prop :=
  ∃ q entry t, History.LastWrite Event.effect tr key (q, entry) ∧ s.puts[q]? = some t ∧
    s.exchanges[t.exchange]? = some x

/-- Keys and entries follow the requests and the history. -/
structure StoreInvariant (tr : List Event) (s : State) : Prop where
  lookups : ∀ (i : Nat) x key, s.exchanges[i]? = some x → x.stage = .lookup key →
    cacheKey true x.request = some key
  puts : ∀ (q : Nat) t, s.puts[q]? = some t →
    ∃ x, s.exchanges[t.exchange]? = some x ∧ cacheKey true x.request = some t.key
  writes : ∀ q key entry victim, .commit q key entry victim ∈ tr →
    ∃ t, s.puts[q]? = some t ∧ t.key = key
  entries : ∀ c, s.cache = some c → ∀ key,
    c.entries.lookup key = (History.replay Event.effect tr key).map Prod.snd

/-! ### Steps -/

/-- **The entries stay the last writes of the history.** -/
theorem entries_of_step {p : Platform} {tr : List Event} {s s' : State} {e : Event}
    (h : ∀ c, s.cache = some c → ∀ key,
      c.entries.lookup key = (History.replay Event.effect tr key).map Prod.snd)
    (hstep : e.Step p s s') {c' : ResponseCache} (hc' : s'.cache = some c') (key : Str) :
    c'.entries.lookup key = (History.replay Event.effect (tr ++ [e]) key).map Prod.snd := by
  rw [History.replay_snoc]
  have hother : (∀ q key entry victim, e ≠ .commit q key entry victim) →
      e.effect.apply (History.replay Event.effect tr) key = History.replay Event.effect tr key := by
    intro hne
    have hnone : e.effect = ⟨none, none⟩ := by
      unfold Event.effect
      split
      · exact absurd rfl (hne _ _ _ _)
      · rfl
    rw [hnone]
    rfl
  rcases cache_of_step hstep with ⟨heq, hne⟩ | ⟨i, now, result, x, k, c, rfl, -, hc, heq⟩ |
    ⟨q, k, entry, victim, c, c₁, rfl, hc, heq, hins⟩
  · rw [hother hne, h c' (heq ▸ hc')]
  · rw [hother (by simp), ← h c hc, ← Option.some.inj (heq.symm.trans hc'),
      ResponseCache.get_entries]
  · rw [← Option.some.inj (heq.symm.trans hc'), hins.lookup, h c hc, Event.effect,
      History.Effect.apply]
    by_cases hk : k = key
    · simp [hk]
    · simp only [hk, if_false]
      split <;> rfl

/-- Only the insertion of a put writes. -/
theorem written_eq_some {e : Event} {key : Str} {q : Nat} {entry : CacheEntry}
    (h : e.effect.written = some (key, (q, entry))) :
    ∃ victim, e = .commit q key entry victim := by
  cases e with
  | commit q₀ key₀ entry₀ victim =>
    obtain ⟨rfl, rfl, rfl⟩ : key₀ = key ∧ q₀ = q ∧ entry₀ = entry := by
      simpa [Event.effect] using h
    exact ⟨victim, rfl⟩
  | _ => simp [Event.effect] at h

/-- A last write is the insertion of a put. -/
theorem commit_of_lastWrite {tr : List Event} {key : Str} {q : Nat} {entry : CacheEntry}
    (h : History.LastWrite Event.effect tr key (q, entry)) :
    ∃ victim, .commit q key entry victim ∈ tr := by
  obtain ⟨pre, e, post, rfl, hwritten, -⟩ := h
  obtain ⟨victim, rfl⟩ := written_eq_some hwritten
  exact ⟨victim, by simp⟩

section Runs

variable {lib : TlsLibrary File Cert Key Acceptor} {p : Platform} {config : Config}
  {serverConfig : ServerConfig} {tr : List Event} {s : State}

/-- **The invariant holds in every state that a server reaches.** -/
theorem storeInvariant_of_run
    (hrun : Run (Event.Step p) (State.initial (Server.new lib config serverConfig)) tr s) :
    StoreInvariant tr s := by
  have hputs := putInvariant_of_run (State.quiet_initial _) hrun
  refine ⟨keyedLookups_of_run (State.quiet_initial _) hrun, fun q t ht => ?_,
    fun q key entry victim hmem => ?_, ?_⟩
  · obtain ⟨x, -, hx, hkey, -⟩ := hputs.spawned q t ht
    exact ⟨x, hx, hkey⟩
  · obtain ⟨t, ht, hkey, -⟩ := hputs.written q key entry victim hmem
    exact ⟨t, ht, hkey⟩
  · refine hrun.invariant_trace (fun tr s => ∀ c, s.cache = some c → ∀ key,
      c.entries.lookup key = (History.replay Event.effect tr key).map Prod.snd) ?_
      fun _ _ _ _ _ h hstep c' hc' key => entries_of_step h hstep hc' key
    intro c hc key
    obtain ⟨cacheConfig, -, rfl⟩ := Option.map_eq_some_iff.mp
      (show (serverConfig.cache.map fun cacheConfig => ResponseCache.new cacheConfig.maxSize
        (Duration.fromSecs cacheConfig.defaultTtlSeconds)) = some c from hc)
    simp [ResponseCache.new]

/-- A hit is made from the last write under the key that is looked up. -/
theorem lastWrite_of_hit
    (hrun : Run (Event.Step p) (State.initial (Server.new lib config serverConfig)) tr s)
    {i : Nat} {now : Instant} {response : Response} {s' : State} {x : Exchange} {key : Str}
    (hstep : Event.Step p s (.lookup i now (some response)) s') (hx : s.exchanges[i]? = some x)
    (hstage : x.stage = .lookup key) :
    ∃ q entry, History.LastWrite Event.effect tr key (q, entry) ∧
      entry.serves (CacheControl.fromHeaders x.request.headers) now = true ∧
      response = entry.toResponse now := by
  obtain ⟨y, key', c, hy, hkey', hc, hget, -⟩ := hstep
  obtain rfl : y = x := Option.some.inj (hy.symm.trans hx)
  obtain rfl : key' = key := Stage.lookup.inj (hkey'.symm.trans hstage)
  obtain ⟨entry, hlookup, hserves, hresponse⟩ := (ResponseCache.get_fst _ _ _ _ _).mp hget
  -- the entries are the last writes of the history
  rw [(storeInvariant_of_run hrun).entries c hc, Option.map_eq_some_iff] at hlookup
  obtain ⟨⟨q, entry'⟩, hreplay, rfl⟩ := hlookup
  exact ⟨q, entry', History.replay_eq_some.mp hreplay, hserves, hresponse⟩

/-- **Behind every hit there is an exchange.** -/
theorem exists_storedBy
    (hrun : Run (Event.Step p) (State.initial (Server.new lib config serverConfig)) tr s)
    {i : Nat} {now : Instant} {response : Response} {s' : State} {x' : Exchange} {key : Str}
    (hstep : Event.Step p s (.lookup i now (some response)) s') (hx' : s.exchanges[i]? = some x')
    (hstage : x'.stage = .lookup key) : ∃ x, StoredBy tr s key x := by
  have hinv := storeInvariant_of_run hrun
  obtain ⟨q, entry, hwrite, -⟩ := lastWrite_of_hit hrun hstep hx' hstage
  -- the entry was written by a commit, whose put was spawned by an exchange
  obtain ⟨victim, hmem⟩ := commit_of_lastWrite hwrite
  obtain ⟨t, ht, -⟩ := hinv.writes q key entry victim hmem
  obtain ⟨x, hx, -⟩ := hinv.puts q t ht
  exact ⟨x, q, entry, t, hwrite, ht, hx⟩

end Runs

/-- A GET request with the given path and headers. -/
def getRequest (path : Str) (h : Uri.isTarget path none = true) (headers : HeaderMap) :
    Request where
  method := .get
  uri := Uri.ofParts path none h
  headers := headers

/-- The headers of a visitor without cookies. -/
def visitorHeaders : HeaderMap :=
  ⟨[(HeaderName.host, HeaderValue.ofStr "example.com".toList (by decide))]⟩

/-- The start page, for everyone. -/
def startRequest : Request := getRequest "/start".toList (by decide) visitorHeaders

end Sret
