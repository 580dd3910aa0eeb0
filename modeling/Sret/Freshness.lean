import Sret.Replays

namespace Sret

open Text KeyedMap Transition

/-!
# Which of two responses replaces the other

Concurrent misses of one key: each exchange fetches its response, spawns a put, and the puts get the
write lock in any order.

* `fetchTime` — the time of a fetch, which is its place in the trace;
* `HeldSince` — the entry held for a key was made of a response fetched at this time;
* `FetchOrder`, `fetchOrder_of_run` — puts are spawned in the order of their fetches;
* `Overtakes` — a put inserts while an older put of its key is still under way;
* `held_fetchTime_le` — without that the fetch time of the entry held for a key does not go back;
  `stale_response_revived` — with it, it does.
-/

variable {File Cert Key Acceptor : Type}

/-! ### Fetches -/

/-- The request of the exchange ends with a response: it has been fetched. -/
def Event.fetches (i : Nat) : Event → Bool
  | .finish j (.replied _) => j == i
  | _ => false

/-- The time at which the response of the exchange was fetched. -/
def fetchTime (tr : List Event) (i : Nat) : Option Nat := tr.findIdx? (Event.fetches i)

/-- The entry held for the key was made of a response that was fetched at this time. -/
def HeldSince (tr : List Event) (s : State) (key : Str) (time : Nat) : Prop :=
  ∃ q entry t, History.LastWrite Event.effect tr key (q, entry) ∧ s.puts[q]? = some t ∧
    fetchTime tr t.exchange = some time

theorem fetchTime_append_of_some {tr : List Event} {i time : Nat}
    (h : fetchTime tr i = some time) (rest : List Event) :
    fetchTime (tr ++ rest) i = some time := by
  unfold fetchTime at *
  rw [List.findIdx?_append, h, Option.some_or]

/-- A fetch is in the past. -/
theorem fetchTime_lt {tr : List Event} {i time : Nat} (h : fetchTime tr i = some time) :
    time < tr.length :=
  (List.findIdx?_eq_some_iff_findIdx_eq.mp h).1

/-- The time of a fetch that is the first of its exchange. -/
theorem fetchTime_snoc {tr : List Event} {i : Nat} (hnone : ∀ e ∈ tr, e.fetches i = false)
    (response : Response) :
    fetchTime (tr ++ [.finish i (.replied response)]) i = some tr.length := by
  unfold fetchTime
  rw [List.findIdx?_append, List.findIdx?_eq_none_iff.mpr hnone]
  simp [Event.fetches]

theorem Event.ends_of_fetches {e : Event} {i : Nat} (h : e.fetches i = true) : e.Ends i := by
  unfold Event.fetches at h
  split at h
  · exact beq_iff_eq.mp h
  · simp at h

/-- The puts of the state are in the order in which their responses were fetched. -/
structure FetchOrder (tr : List Event) (s : State) : Prop where
  fetched : ∀ (q : Nat) t, s.puts[q]? = some t → ∃ time, fetchTime tr t.exchange = some time
  ordered : ∀ (q q' : Nat) t t' time time', s.puts[q]? = some t → s.puts[q']? = some t' → q < q' →
    fetchTime tr t.exchange = some time → fetchTime tr t'.exchange = some time' → time < time'

/-- A put after a step was there before, or has just been fetched. -/
theorem fetched_of_step {p : Platform} {s₀ s s' : State} {tr : List Event}
    (hrun : Run (Event.Step p) s₀ tr s) {e : Event} (hstep : e.Step p s s') {q : Nat} {t : PutTask}
    (ht : s'.puts[q]? = some t) :
    (∃ t', s.puts[q]? = some t' ∧ t'.exchange = t.exchange) ∨
      (q = s.puts.length ∧ fetchTime (tr ++ [e]) t.exchange = some tr.length) := by
  rcases put_cases_of_step hstep ht with hsame | ⟨x, response, rfl, hx, -, -, -, hq⟩ |
    ⟨t', _, _, -, ht', -, rfl⟩ | ⟨t', _, _, _, -, ht', -, -, rfl⟩
  · exact Or.inl ⟨t, hsame, rfl⟩
  · refine Or.inr ⟨hq, fetchTime_snoc (fun e he => ?_) response⟩
    -- an exchange that has been answered gets no second response
    by_contra hfetches
    have hanswered := answered_of_mem hrun he
      (Event.ends_of_fetches ((Bool.not_eq_false _).mp hfetches))
    exact (Event.Ends.answered (show Event.Ends t.exchange (.finish t.exchange (.replied response))
      from rfl) hstep).1 hanswered
  · exact Or.inl ⟨t', ht', rfl⟩
  · exact Or.inl ⟨t', ht', rfl⟩

theorem FetchOrder.step {p : Platform} {s₀ s s' : State} {tr : List Event}
    (hrun : Run (Event.Step p) s₀ tr s) (h : FetchOrder tr s) {e : Event}
    (hstep : e.Step p s s') : FetchOrder (tr ++ [e]) s' := by
  constructor
  · intro q t ht
    rcases fetched_of_step hrun hstep ht with ⟨t', ht', hexchange⟩ | ⟨-, htime⟩
    · obtain ⟨time, htime⟩ := h.fetched q t' ht'
      exact ⟨time, hexchange ▸ fetchTime_append_of_some htime _⟩
    · exact ⟨_, htime⟩
  · intro q q' t t' time time' ht ht' hlt htime htime'
    rcases fetched_of_step hrun hstep ht with ⟨u, hu, hexchange⟩ | ⟨hq, -⟩
    · obtain ⟨a, ha⟩ := h.fetched q u hu
      obtain rfl : a = time := Option.some.inj
        ((fetchTime_append_of_some ha [e]).symm.trans (hexchange ▸ htime))
      rcases fetched_of_step hrun hstep ht' with ⟨u', hu', hexchange'⟩ | ⟨-, hnew⟩
      · obtain ⟨b, hb⟩ := h.fetched q' u' hu'
        obtain rfl : b = time' := Option.some.inj
          ((fetchTime_append_of_some hb [e]).symm.trans (hexchange' ▸ htime'))
        exact h.ordered q q' u u' a b hu hu' hlt ha hb
      · -- the newest put has just been fetched
        rw [← Option.some.inj (hnew.symm.trans htime')]
        exact fetchTime_lt ha
    · -- puts are spawned one at a time
      rcases fetched_of_step hrun hstep ht' with ⟨u', hu', -⟩ | ⟨hq', -⟩
      · obtain ⟨hlen, -⟩ := List.getElem?_eq_some_iff.mp hu'
        omega
      · omega

theorem fetchOrder_of_run {p : Platform} {s₀ s : State} {tr : List Event} (hquiet : s₀.Quiet)
    (hrun : Run (Event.Step p) s₀ tr s) : FetchOrder tr s := by
  refine hrun.invariant_trace FetchOrder ⟨?_, ?_⟩ fun _ _ _ _ hr h hstep => h.step hr hstep
  · simp [hquiet.2]
  · simp [hquiet.2]

/-! ### Overtaking -/

/-- A put inserts under the key while an older put of the key is still under way. -/
def Overtakes (p : Platform) (s₀ : State) (tr : List Event) (s : State) (key : Str) : Prop :=
  ∃ pre post q entry victim m q' t', tr = pre ++ .commit q key entry victim :: post ∧
    Run (Event.Step p) s₀ pre m ∧ Run (Event.Step p) m (.commit q key entry victim :: post) s ∧
    q' < q ∧ m.puts[q']? = some t' ∧ t'.key = key ∧ t'.stage ≠ .finished

/-- Two cuts of a list: what one cut has after it, the other has before it or after it. -/
theorem mem_of_two_cuts {α : Type*} {a b : α} {pre post pre' post' : List α}
    (h : pre ++ a :: post = pre' ++ b :: post') : b ∈ a :: post ∨ a ∈ post' := by
  rcases List.append_eq_append_iff.mp h with ⟨c, rfl, hc⟩ | ⟨c, rfl, hc⟩
  · exact Or.inl (hc ▸ by simp)
  · cases c with
    | nil => exact Or.inl (by rw [List.nil_append] at hc; simp [← hc])
    | cons x c =>
      obtain ⟨-, rfl⟩ := List.cons.inj hc
      exact Or.inr (by simp)

/-- A put that replaces a put spawned after it was under way when that one inserted. -/
theorem overtakes_of_lastWrites {p : Platform} {s₀ m s : State} {xs ys : List Event}
    (hquiet : s₀.Quiet) (hrun : Run (Event.Step p) s₀ xs m) (hrest : Run (Event.Step p) m ys s)
    {key : Str} {q q' : Nat} {entry entry' : CacheEntry}
    (hq : History.LastWrite Event.effect xs key (q, entry))
    (hq' : History.LastWrite Event.effect (xs ++ ys) key (q', entry')) (hlt : q' < q) :
    Overtakes p s₀ xs m key := by
  obtain ⟨victim, hmem⟩ := commit_of_lastWrite hq
  obtain ⟨pre, post, rfl⟩ := List.append_of_mem hmem
  obtain ⟨m₀, hpre, hpost⟩ := hrun.split
  -- at that moment the older put had been spawned
  obtain ⟨t', ht'⟩ : ∃ t', m₀.puts[q']? = some t' := by
    obtain ⟨u, u', hu, ⟨t, _, _, ht, -⟩, -⟩ :=
      (show Run (Event.Step p) m₀ ([] ++ .commit q key entry victim :: post) m from hpost).step_at
    obtain rfl := hu.eq_of_nil
    obtain ⟨hlen, -⟩ := List.getElem?_eq_some_iff.mp ht
    exact ⟨_, List.getElem?_eq_getElem (hlt.trans hlen)⟩
  obtain ⟨victim', hmem'⟩ := commit_of_lastWrite hq'
  refine ⟨pre, post, q, entry, victim, m₀, q', t', rfl, hpre, hpost, hlt, ht', ?_, fun hdone => ?_⟩
  · -- it carries the key under which it inserts
    obtain ⟨t, ht, hkey, -⟩ :=
      (putInvariant_of_run hquiet (hrun.append hrest)).written q' key entry' victim' hmem'
    obtain ⟨u, hu, horigin⟩ := putTask_of_run (hpost.append hrest) ht'
    obtain rfl : u = t := Option.some.inj (hu.symm.trans ht)
    obtain ⟨-, hsame⟩ := Prod.mk.inj horigin
    exact (Prod.mk.inj hsame).1.symm.trans hkey
  · -- were it done, its insertion would lie before the one that it replaces
    have hnone := (not_commit_of_settled (hpost.append hrest) ⟨t', ht', hdone⟩).2
    obtain ⟨pre', e, post', htr, hwritten, hafter⟩ := hq'
    obtain ⟨victim₁, rfl⟩ : ∃ victim₁, e = .commit q' key entry' victim₁ := written_eq_some hwritten
    have hcut : pre ++ .commit q key entry victim :: (post ++ ys) =
        pre' ++ .commit q' key entry' victim₁ :: post' := by
      rw [← htr, List.append_assoc, List.cons_append]
    rcases mem_of_two_cuts hcut with hlater | hearlier
    · exact hnone key entry' victim₁ (by simpa using hlater)
    · exact hafter _ hearlier (Or.inr ⟨(q, entry), rfl⟩)

/-- **The fetch time of the entry held for a key.**  At two points of a run, the later one is not
    smaller, unless a put of the key had inserted while an older put of the key, whose response had
    been fetched earlier, was still under way. -/
theorem held_fetchTime_le (lib : TlsLibrary File Cert Key Acceptor) (p : Platform)
    (config : Config) (serverConfig : ServerConfig) (xs ys : List Event) (m s : State)
    (hrun : Run (Event.Step p) (State.initial (Server.new lib config serverConfig)) xs m)
    (hrest : Run (Event.Step p) m ys s) (key : Str)
    (hno : ¬ Overtakes p (State.initial (Server.new lib config serverConfig)) xs m key)
    (a b : Nat) (ha : HeldSince xs m key a) (hb : HeldSince (xs ++ ys) s key b) : a ≤ b := by
  have hquiet := State.quiet_initial (Server.new lib config serverConfig)
  obtain ⟨q, entry, t, hwrite, ht, htime⟩ := ha
  obtain ⟨q', entry', t', hwrite', ht', htime'⟩ := hb
  obtain ⟨u, hu, horigin⟩ := putTask_of_run hrest ht
  have hutime : fetchTime (xs ++ ys) u.exchange = some a := by
    rw [(Prod.mk.inj horigin).1]
    exact fetchTime_append_of_some htime ys
  by_contra hlt
  refine hno (overtakes_of_lastWrites hquiet hrun hrest hwrite hwrite' ?_)
  -- the puts are in the order of the fetches
  by_contra hle
  rcases Nat.lt_or_eq_of_le (Nat.le_of_not_lt hle) with hqq | rfl
  · have := (fetchOrder_of_run hquiet (hrun.append hrest)).ordered q q' u t' a b hu ht' hqq hutime
      htime'
    omega
  · obtain rfl : u = t' := Option.some.inj (hu.symm.trans ht')
    have := Option.some.inj (hutime.symm.trans htime')
    omega

/-! ### Two misses of one key -/

/-- The server with room for two responses. -/
def raceServer : ServerConfig := { openServer with cache := some ⟨2, 1⟩ }

/-- The target of every request. -/
def raceRouted : Routed :=
  ⟨"backend".toList, ⟨0, Target.new ⟨"127.0.0.1".toList, 3000, none, none⟩⟩, some "/".toList⟩

/-- The page before a change … -/
def oldPage : Response := ⟨200, HeaderMap.empty, [49]⟩

/-- … and after it. -/
def newPage : Response := ⟨200, HeaderMap.empty, [50]⟩

/-- The entry of a page that is put at time zero. -/
def pageEntry (page : Response) : CacheEntry :=
  ⟨page.body, page.status, page.headers, Duration.fromSecs 1, 0, none, none, 0⟩

/-- The put of a page when it has made its entry. -/
def racePut (i : Nat) (page : Response) : PutTask :=
  ⟨i, requestKey startRequest, page, .ready (pageEntry page)⟩

/-- Its insertion, which evicts nothing. -/
def raceCommit (q : Nat) (page : Response) : Event :=
  .commit q (requestKey startRequest) (pageEntry page) none

/-- Two requests miss, both are forwarded, and both puts have made their entries. -/
def raceTrace : List Event :=
  [.accept startRequest, .accept startRequest, .lookup 0 0 none, .lookup 1 0 none,
    .route 0 0 (some raceRouted), .route 1 0 (some raceRouted), .finish 0 (.replied oldPage),
    .finish 1 (.replied newPage), .prepare 0 ⟨0, 0⟩, .prepare 1 ⟨0, 0⟩]

/-- The state in which both puts wait for the lock. -/
theorem exists_run_race :
    ∃ m, Run (Event.Step Platform.ascii) (State.initial (Server.new noFiles openConfig raceServer))
      raceTrace m ∧
      m.puts = [racePut 0 oldPage, racePut 1 newPage] ∧
      ∃ c, m.cache = some c ∧ c.entries = ∅ ∧ c.maxSize = 2 := by
  have h₁ := Run.snoc (Run.nil _) (show Event.Step Platform.ascii
    (State.initial (Server.new noFiles openConfig raceServer)) (.accept startRequest) _ from rfl)
  have h₂ := h₁.snoc (show Event.Step Platform.ascii _ (.accept startRequest) _ from rfl)
  have h₃ := h₂.snoc (show Event.Step Platform.ascii _ (.lookup 0 0 none) _ from
    ⟨_, _, _, rfl, rfl, rfl, rfl, rfl⟩)
  have h₄ := h₃.snoc (show Event.Step Platform.ascii _ (.lookup 1 0 none) _ from
    ⟨_, _, _, rfl, rfl, rfl, rfl, rfl⟩)
  have h₅ := h₄.snoc (show Event.Step Platform.ascii _ (.route 0 0 (some raceRouted)) _ from
    ⟨_, rfl, rfl, by decide, rfl⟩)
  have h₆ := h₅.snoc (show Event.Step Platform.ascii _ (.route 1 0 (some raceRouted)) _ from
    ⟨_, rfl, rfl, by decide, rfl⟩)
  have h₇ := h₆.snoc (show Event.Step Platform.ascii _ (.finish 0 (.replied oldPage)) _ from
    ⟨_, raceRouted, rfl, rfl, rfl⟩)
  have h₈ := h₇.snoc (show Event.Step Platform.ascii _ (.finish 1 (.replied newPage)) _ from
    ⟨_, raceRouted, rfl, rfl, rfl⟩)
  have h₉ := h₈.snoc (show Event.Step Platform.ascii _ (.prepare 0 ⟨0, 0⟩) _ from
    ⟨_, _, rfl, rfl, rfl, rfl⟩)
  have h₁₀ := h₉.snoc (show Event.Step Platform.ascii _ (.prepare 1 ⟨0, 0⟩) _ from
    ⟨_, _, rfl, rfl, rfl, rfl⟩)
  exact ⟨_, h₁₀, rfl, _, rfl, rfl, rfl⟩

/-- A put that has made its entry can insert it into a cache with room. -/
theorem exists_step_commit {p : Platform} {m : State} {q : Nat} {t : PutTask} {entry : CacheEntry}
    {c : ResponseCache} (ht : m.puts[q]? = some t) (hstage : t.stage = .ready entry)
    (hc : m.cache = some c) (hroom : c.len < c.maxSize) :
    ∃ m' c', Event.Step p m (.commit q t.key entry none) m' ∧ m'.cache = some c' ∧
      c'.maxSize = c.maxSize ∧ c'.entries = c.entries.insert t.key entry ∧
      m'.puts = m.puts.set q { t with stage := .finished } := by
  obtain ⟨iter, hiter⟩ := exists_enumerates c.entries
  have hins := ResponseCache.insertEntry_insertion hiter t.key entry
  have hnone : (c.insertEntry iter t.key entry).1 = none := by
    rw [ResponseCache.insertEntry, if_neg (Nat.not_le.mpr hroom)]
  have hentries := hins.entries
  rw [hnone] at hentries
  exact ⟨_, _, ⟨t, c, iter, ht, rfl, hstage, hc, hiter, hnone, rfl⟩, rfl, hins.maxSize, hentries,
    rfl⟩

/-- The two puts of the race insert, one after the other. -/
theorem exists_run_order {m : State} {c : ResponseCache} {q q' i i' : Nat} {page page' : Response}
    (hne : q ≠ q') (ht : m.puts[q]? = some (racePut i page))
    (ht' : m.puts[q']? = some (racePut i' page')) (hc : m.cache = some c) (hempty : c.entries = ∅)
    (hsize : c.maxSize = 2) :
    ∃ m₁ m₂, Event.Step Platform.ascii m (raceCommit q page) m₁ ∧
      Event.Step Platform.ascii m₁ (raceCommit q' page') m₂ ∧
      m₁.puts[q]? = some { racePut i page with stage := .finished } ∧
      m₂.puts[q']? = some { racePut i' page' with stage := .finished } := by
  have hlen : c.len = 0 := by rw [ResponseCache.len, hempty, size_empty]
  obtain ⟨m₁, c₁, hstep, hc₁, hsize₁, hentries₁, hputs₁⟩ :=
    exists_step_commit (p := Platform.ascii) ht rfl hc (by omega)
  have ht₁ : m₁.puts[q']? = some (racePut i' page') := by
    rw [hputs₁, List.getElem?_set_ne hne, ht']
  have hlen₁ : c₁.len ≤ 1 := by
    have hle := size_insert_le c.entries (requestKey startRequest) (pageEntry page)
    rw [hempty, size_empty] at hle
    rwa [ResponseCache.len, hentries₁, hempty]
  obtain ⟨m₂, c₂, hstep₂, -, -, -, hputs₂⟩ :=
    exists_step_commit (p := Platform.ascii) ht₁ rfl hc₁ (by omega)
  obtain ⟨hq, -⟩ := List.getElem?_eq_some_iff.mp ht
  obtain ⟨hq', -⟩ := List.getElem?_eq_some_iff.mp ht₁
  exact ⟨m₁, m₂, hstep, hstep₂, by rw [hputs₁, List.getElem?_set_self hq],
    by rw [hputs₂, List.getElem?_set_self hq']⟩

/-- The insertion of a put that comes last holds its key. -/
theorem heldSince_of_commit (tr : List Event) {m : State} {q : Nat} {key : Str}
    {entry : CacheEntry} {victim : Option Str} {t : PutTask} {time : Nat}
    (ht : m.puts[q]? = some t) (htime : fetchTime tr t.exchange = some time) :
    HeldSince (tr ++ [.commit q key entry victim]) m key time :=
  ⟨q, entry, t, ⟨tr, _, [], rfl, rfl, by simp⟩, ht, fetchTime_append_of_some htime _⟩

/-- The puts insert in the order in which they were spawned. -/
theorem held_fetchTime_le_ordered :
    ∃ m₁ m₂, Run (Event.Step Platform.ascii)
        (State.initial (Server.new noFiles openConfig raceServer))
        (raceTrace ++ [raceCommit 0 oldPage]) m₁ ∧
      Run (Event.Step Platform.ascii) m₁ [raceCommit 1 newPage] m₂ ∧
      HeldSince (raceTrace ++ [raceCommit 0 oldPage]) m₁ (requestKey startRequest) 6 ∧
      HeldSince (raceTrace ++ [raceCommit 0 oldPage] ++ [raceCommit 1 newPage]) m₂
        (requestKey startRequest) 7 ∧ 6 ≤ 7 := by
  obtain ⟨m, hrun, hputs, c, hc, hempty, hsize⟩ := exists_run_race
  obtain ⟨m₁, m₂, hstep₁, hstep₂, ht₁, ht₂⟩ := exists_run_order Nat.zero_ne_one
    (by rw [hputs]; rfl) (by rw [hputs]; rfl) hc hempty hsize
  have hfirst : HeldSince (raceTrace ++ [raceCommit 0 oldPage]) m₁ (requestKey startRequest) 6 :=
    heldSince_of_commit raceTrace ht₁ rfl
  have hsecond : HeldSince (raceTrace ++ [raceCommit 0 oldPage] ++ [raceCommit 1 newPage]) m₂
      (requestKey startRequest) 7 := heldSince_of_commit _ ht₂ rfl
  refine ⟨m₁, m₂, hrun.snoc hstep₁, Run.single hstep₂, hfirst, hsecond,
    held_fetchTime_le noFiles Platform.ascii openConfig raceServer _ _ m₁ m₂ (hrun.snoc hstep₁)
      (Run.single hstep₂) _ ?_ 6 7 hfirst hsecond⟩
  -- the only put that has inserted is the oldest
  rintro ⟨pre, post, q, entry, victim, -, q', -, htr, -, -, hlt, -⟩
  have hmem : .commit q (requestKey startRequest) entry victim ∈
      raceTrace ++ [raceCommit 0 oldPage] := htr ▸ List.mem_append_right _ List.mem_cons_self
  simp only [raceTrace, raceCommit, List.cons_append, List.nil_append, List.mem_cons,
    List.not_mem_nil, or_false, reduceCtorEq, false_or, Event.commit.injEq] at hmem
  omega

/-- The older page replaces the newer one, and is served for another lifetime. -/
theorem stale_response_revived :
    ¬ ∀ (lib : TlsLibrary Unit Unit Unit Unit) (p : Platform) (config : Config)
      (serverConfig : ServerConfig) (xs ys : List Event) (m s : State) (key : Str) (a b : Nat),
      Run (Event.Step p) (State.initial (Server.new lib config serverConfig)) xs m →
      Run (Event.Step p) m ys s → (∀ e ∈ ys, e.effect.dropped ≠ some key) →
      HeldSince xs m key a → HeldSince (xs ++ ys) s key b → a ≤ b := by
  intro h
  obtain ⟨m, hrun, hputs, c, hc, hempty, hsize⟩ := exists_run_race
  obtain ⟨m₁, m₂, hstep₁, hstep₂, ht₁, ht₂⟩ := exists_run_order Nat.one_ne_zero
    (by rw [hputs]; rfl) (by rw [hputs]; rfl) hc hempty hsize
  have hfirst : HeldSince (raceTrace ++ [raceCommit 1 newPage]) m₁ (requestKey startRequest) 7 :=
    heldSince_of_commit raceTrace ht₁ rfl
  have hsecond : HeldSince (raceTrace ++ [raceCommit 1 newPage] ++ [raceCommit 0 oldPage]) m₂
      (requestKey startRequest) 6 := heldSince_of_commit _ ht₂ rfl
  have hle := h noFiles _ _ _ _ _ m₁ m₂ _ 7 6 (hrun.snoc hstep₁) (Run.single hstep₂)
    (by simp [raceCommit, Event.effect]) hfirst hsecond
  omega

end Sret
