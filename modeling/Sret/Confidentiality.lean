import Sret.Replays
import Sret.Storability

namespace Sret

open Text KeyedMap Transition

/-!
# Requests and responses that ask not to be shared

Three kinds of responses that a shared cache should keep to itself, and what the code looks at
instead.

* `no_store_request_iff` — the response to a request with `no-store`;
* `private_response_iff` — a response that sets a cookie or is marked `private`;
* `partial_response_iff` — a 206 response, which fits the Range of its own request only.

In all three cases nothing protects the response but the method, the tests of `is_cacheable` and
the extremes of max-age.
-/

variable {File Cert Key Acceptor : Type}

/-- The header by which a response sets a cookie. -/
def HeaderName.setCookie : HeaderName := "set-cookie".toList

/-- The header by which a request asks for a part. -/
def HeaderName.range : HeaderName := "range".toList

/-! ### The same request, without anything that is not in its key -/

/-- The request with the header lines that its key is made from, and no others. -/
def Request.bare (request : Request) : Request :=
  { request with
    headers := ⟨request.headers.lines.filter fun l => keyHeaders.contains l.1⟩ }

theorem getAll_bare (request : Request) (name : HeaderName) :
    request.bare.headers.getAll name =
      if name ∈ keyHeaders then request.headers.getAll name else [] := by
  simp only [Request.bare, HeaderMap.getAll, List.filter_filter]
  by_cases hname : name ∈ keyHeaders
  · rw [if_pos hname]
    refine congrArg (List.map Prod.snd) (List.filter_congr fun l _ => ?_)
    by_cases hl : l.1 = name
    · rw [hl, List.contains_iff_mem.mpr hname, Bool.and_true]
    · simp only [hl, decide_false, Bool.false_and]
  · rw [if_neg hname, List.map_eq_nil_iff, List.filter_eq_nil_iff]
    intro l _ hl
    rw [Bool.and_eq_true, decide_eq_true_eq, List.contains_iff_mem] at hl
    exact hname (hl.1 ▸ hl.2)

theorem requestKey_bare (request : Request) : requestKey request.bare = requestKey request := by
  have hget : ∀ name, name ∈ keyHeaders →
      request.bare.headers.get name = request.headers.get name := by
    intro name hname
    rw [HeaderMap.get, HeaderMap.get, getAll_bare, if_pos hname]
  simp only [requestKey, generateCacheKey, hget HeaderName.host (by decide),
    hget HeaderName.cookie (by decide), hget HeaderName.authorization (by decide)]
  rfl

theorem fromHeaders_bare (request : Request) :
    CacheControl.fromHeaders request.bare.headers = CacheControl.silent := by
  have hnone : request.bare.headers.get HeaderName.cacheControl = none := by
    rw [HeaderMap.get, getAll_bare, if_neg (by decide)]
    rfl
  rw [CacheControl.fromHeaders, hnone]
  rfl

/-- A response that may be fresh is served to the bare request, in a run of some server. -/
theorem exists_run_replaying_bare (lib : TlsLibrary File Cert Key Acceptor) {request : Request}
    {response : Response} (h : ¬ NeverFresh request response) :
    ∃ tr s hit x, Run (Event.Step Platform.ascii)
        (State.initial (Server.new lib openConfig openServer)) tr s ∧ ClockUpTo tr 0 ∧
      Replays Platform.ascii tr s 0 hit x request response ∧ x.request = request.bare := by
  have hmethod : isCacheableMethod request.bare.method = true :=
    cacheable_of_not_keptOut fun hkept => h (Or.inl hkept)
  rw [initial_open lib]
  exact exists_run_replaying h hmethod (requestKey_bare request) (fromHeaders_bare request)

/-! ### no-store in the request -/

/-- A replayed response has been stored. -/
theorem Replays.storedFor {p : Platform} {tr : List Event} {s : State} {now : Instant}
    {hit : Response} {x : Exchange} {request : Request} {response : Response}
    (h : Replays p tr s now hit x request response) : StoredFor tr s request response := by
  obtain ⟨i, s', key, q, entry, -, -, -, hwrite, hput⟩ := h
  obtain ⟨victim, hmem⟩ := commit_of_lastWrite hwrite
  exact ⟨q, key, entry, victim, hmem, hput⟩

/-- **When a `no-store` request leaves nothing behind.**  In every run of every server the response
    that is obtained for the request is not inserted, and not served to a later request, exactly
    when it is one that is kept out of the cache anyway. -/
theorem no_store_request_iff (lib : TlsLibrary File Cert Key Acceptor) (request : Request)
    (response : Response) :
    (Carries request.headers "no-store".toList →
      ∀ (p : Platform) (config : Config) (serverConfig : ServerConfig) (tr : List Event)
        (s : State),
        Run (Event.Step p) (State.initial (Server.new lib config serverConfig)) tr s →
        ¬ StoredFor tr s request response ∧
          ∀ now hit x, ¬ Replays p tr s now hit x request response) ↔
      (Carries request.headers "no-store".toList → KeptOut request response) := by
  refine imp_congr_right fun _ => ⟨fun h => ?_, fun h p config serverConfig tr s hrun => ?_⟩
  · by_contra hkept
    obtain ⟨tr, s, hrun, hstored⟩ := exists_run_storing hkept
    rw [← initial_open lib] at hrun
    exact (h _ _ _ tr s hrun).1 hstored
  · have hnot := not_storedFor (State.quiet_initial _) hrun h
    exact ⟨hnot, fun now hit x hreplay => hnot hreplay.storedFor⟩

/-- A page without header lines. -/
def plainPage : Response := ⟨200, HeaderMap.empty, [104, 105]⟩

/-- A request for a page that must not be stored. -/
def secretRequest : Request :=
  getRequest "/account".toList (by decide)
    ⟨[(HeaderName.cacheControl, HeaderValue.ofStr "no-store".toList (by decide))]⟩

/-- The page is stored all the same. -/
theorem no_store_request_stored :
    ¬ ∀ (lib : TlsLibrary Unit Unit Unit Unit) (p : Platform) (config : Config)
      (serverConfig : ServerConfig) (tr : List Event) (s : State) (request : Request)
      (response : Response),
      Run (Event.Step p) (State.initial (Server.new lib config serverConfig)) tr s →
      Carries request.headers "no-store".toList → ¬ StoredFor tr s request response := by
  intro h
  have hkept : ¬ KeptOut secretRequest plainPage := fun hkept =>
    not_neverFresh (by decide) (by decide) (by decide) (Or.inl hkept)
  have hcarries : Carries secretRequest.headers "no-store".toList :=
    ⟨HeaderValue.ofStr "no-store".toList (by decide), by decide,
      "no-store".toList.map (fun c => UInt8.ofNat c.toNat), by decide, by decide⟩
  obtain ⟨tr, s, hrun, hstored⟩ := exists_run_storing hkept
  rw [← initial_open noFiles] at hrun
  exact h noFiles _ _ _ tr s secretRequest plainPage hrun hcarries hstored

/-! ### Responses for one client -/

/-- The response sets a cookie, or is marked `private`. -/
def ForOneClient (response : Response) : Prop :=
  response.headers.getAll HeaderName.setCookie ≠ [] ∨
    Carries response.headers "private".toList

/-- **When a response for one client is not replayed.**  No hit of any run replays the response,
    with its Set-Cookie lines, exactly when it is one that is never fresh in the cache. -/
theorem private_response_iff (lib : TlsLibrary File Cert Key Acceptor) (request : Request)
    (response : Response) :
    (ForOneClient response →
      ∀ (p : Platform) (config : Config) (serverConfig : ServerConfig) (tr : List Event) (s : State)
        (now : Instant) (hit : Response) (x : Exchange),
        Run (Event.Step p) (State.initial (Server.new lib config serverConfig)) tr s →
        ClockUpTo tr now → ¬ Replays p tr s now hit x request response) ↔
      (ForOneClient response → NeverFresh request response) := by
  refine imp_congr_right fun _ =>
    ⟨fun h => ?_, fun h p config serverConfig tr s now hit x hrun hclock => ?_⟩
  · by_contra hfresh
    obtain ⟨tr, s, hit, x, hrun, hclock, hreplay, -⟩ := exists_run_replaying_bare lib hfresh
    exact h _ _ _ tr s 0 hit x hrun hclock hreplay
  · exact not_replays hrun hclock h

/-- The header lines of a visitor with the given browser. -/
def browserHeaders (browser : Str) (h : browser.all isVisibleChar = true) : HeaderMap :=
  ⟨[("user-agent".toList, HeaderValue.ofStr browser h)]⟩

/-- The first visit of one client … -/
def firstVisit : Request :=
  getRequest "/login".toList (by decide) (browserHeaders "firefox".toList (by decide))

/-- … and of another one. -/
def otherVisit : Request :=
  getRequest "/login".toList (by decide) (browserHeaders "chrome".toList (by decide))

/-- The page that starts a session. -/
def loginPage : Response :=
  ⟨200, ⟨[(HeaderName.setCookie, HeaderValue.ofStr "session=7".toList (by decide))]⟩, []⟩

/-- The second client gets the session of the first one. -/
theorem session_cookie_replayed :
    ¬ ∀ (lib : TlsLibrary Unit Unit Unit Unit) (p : Platform) (config : Config)
      (serverConfig : ServerConfig) (tr : List Event) (s : State) (now : Instant) (hit : Response)
      (x : Exchange) (request : Request) (response : Response),
      Run (Event.Step p) (State.initial (Server.new lib config serverConfig)) tr s →
      ClockUpTo tr now → Replays p tr s now hit x request response →
      x.request.headers ≠ request.headers →
      ∀ v ∈ response.headers.getAll HeaderName.setCookie,
        v ∉ hit.headers.getAll HeaderName.setCookie := by
  intro h
  have hfresh : ¬ NeverFresh firstVisit loginPage :=
    not_neverFresh (by decide) (by decide) (by decide)
  have hkey : requestKey otherVisit = requestKey firstVisit := by decide
  obtain ⟨tr, s, hit, x, hrun, hclock, hreplay, hx⟩ :=
    exists_run_replaying hfresh (by decide) hkey (by decide)
  rw [← initial_open noFiles] at hrun
  refine h noFiles _ _ _ tr s 0 hit x firstVisit loginPage hrun hclock hreplay ?_
    (HeaderValue.ofStr "session=7".toList (by decide)) (by decide) ?_
  · rw [hx]
    decide
  · -- the hit has all header lines of the response
    have hline := (hreplay.copies hrun).2.2 (HeaderName.setCookie,
      HeaderValue.ofStr "session=7".toList (by decide)) (by decide)
    exact List.mem_map.mpr ⟨_, List.mem_filter.mpr ⟨hline, by decide⟩, rfl⟩

/-! ### Partial responses -/

/-- The response is partial content for a request with a Range. -/
def Partial (request : Request) (response : Response) : Prop :=
  response.status = 206 ∧ request.headers.getAll HeaderName.range ≠ []

/-- **When a partial response stays with its range.**  Every hit that replays the response goes to
    a request with the same Range lines, in every run, exactly when no hit ever replays it. -/
theorem partial_response_iff (lib : TlsLibrary File Cert Key Acceptor) (request : Request)
    (response : Response) :
    (Partial request response →
      ∀ (p : Platform) (config : Config) (serverConfig : ServerConfig) (tr : List Event) (s : State)
        (now : Instant) (hit : Response) (x : Exchange),
        Run (Event.Step p) (State.initial (Server.new lib config serverConfig)) tr s →
        ClockUpTo tr now → Replays p tr s now hit x request response →
        x.request.headers.getAll HeaderName.range = request.headers.getAll HeaderName.range) ↔
      (Partial request response → NeverFresh request response) := by
  refine imp_congr_right fun hpartial =>
    ⟨fun h => ?_, fun h p config serverConfig tr s now hit x hrun hclock hreplay => ?_⟩
  · by_contra hfresh
    obtain ⟨tr, s, hit, x, hrun, hclock, hreplay, hx⟩ := exists_run_replaying_bare lib hfresh
    have hsame := h _ _ _ tr s 0 hit x hrun hclock hreplay
    -- the request that got it has no Range at all
    rw [hx, getAll_bare, if_neg (by decide)] at hsame
    exact hpartial.2 hsame.symm
  · exact absurd hreplay (not_replays hrun hclock h)

/-- A request for the start of a file … -/
def rangedRequest : Request :=
  getRequest "/video".toList (by decide)
    ⟨[(HeaderName.range, HeaderValue.ofStr "bytes=0-0".toList (by decide))]⟩

/-- … and for all of it. -/
def wholeRequest : Request := getRequest "/video".toList (by decide) HeaderMap.empty

/-- The first byte of the file. -/
def firstByte : Response := ⟨206, HeaderMap.empty, [70]⟩

/-- The request for the whole file is answered with its first byte. -/
theorem partial_response_replayed :
    ¬ ∀ (lib : TlsLibrary Unit Unit Unit Unit) (p : Platform) (config : Config)
      (serverConfig : ServerConfig) (tr : List Event) (s : State) (now : Instant) (hit : Response)
      (x : Exchange) (request : Request) (response : Response),
      Run (Event.Step p) (State.initial (Server.new lib config serverConfig)) tr s →
      ClockUpTo tr now → Replays p tr s now hit x request response → Partial request response →
      x.request.headers.getAll HeaderName.range =
        request.headers.getAll HeaderName.range := by
  intro h
  have hfresh : ¬ NeverFresh rangedRequest firstByte :=
    not_neverFresh (by decide) (by decide) (by decide)
  have hkey : requestKey wholeRequest = requestKey rangedRequest := by decide
  obtain ⟨tr, s, hit, x, hrun, hclock, hreplay, hx⟩ :=
    exists_run_replaying hfresh (by decide) hkey (by decide)
  rw [← initial_open noFiles] at hrun
  have hsame := h noFiles _ _ _ tr s 0 hit x rangedRequest firstByte hrun hclock hreplay
    ⟨rfl, by decide⟩
  rw [hx] at hsame
  exact absurd hsame (by decide)

end Sret
