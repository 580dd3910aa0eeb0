import Sret.Foundation.Url
import Sret.Proxy

namespace Sret

open Text

/-!
# Where a routed request goes

The URL that `handle_request` puts together, read the way a client reads it (`Url.parse`).

* `targetUrl_eq_write` — the URL is the target's authority, the rest of the path and the query,
  one after the other, with nothing in between;
* `endsAtSegment_iff` — the rest of the path starts with `/`, or is empty, exactly when the
  matched prefix ends at the end of a path segment;
* `routed_url_intact_iff` — so the request goes to the target's host and port, with the rest of
  the path and its own query, exactly when the matched prefix ends there.
-/

/-- A plain host name or IP literal. -/
def PlainHost (host : Str) : Prop := ∀ c ∈ host, c ≠ '/' ∧ c ≠ '?' ∧ c ≠ '#' ∧ c ≠ '@'

/-- The test that a host is plain. -/
theorem plainHost_of_all {host : Str}
    (h : host.all (fun c => c != '/' && c != '?' && c != '#' && c != '@') = true) :
    PlainHost host := by
  intro c hc
  have hall := List.all_eq_true.mp h c hc
  simp only [Bool.and_eq_true, bne_iff_ne] at hall
  obtain ⟨⟨⟨h₁, h₂⟩, h₃⟩, h₄⟩ := hall
  exact ⟨h₁, h₂, h₃, h₄⟩

/-- The matched prefix, if there is one, is the whole path or ends where a segment ends. -/
def EndsAtSegment (matchedPrefix : Option Str) (path : Str) : Prop :=
  ∀ pre, matchedPrefix = some pre → path = pre ∨ pre ++ ['/'] <+: path

/-- The authority of a target. -/
def authorityOf (target : Target) : Str := target.host ++ ":".toList ++ decimal target.port

/-- The URL is its parts, one after the other. -/
theorem targetUrl_eq_write (target : Target) (path : Str) (query : Option Str) :
    targetUrl target path query = Url.write (authorityOf target) path query := by
  have hquery : (query.map fun q => "?".toList ++ q).getD [] = Url.queryText query := by
    cases query with
    | none => rfl
    | some q => exact congrArg (· ++ q) (show "?".toList = ['?'] by decide)
  unfold targetUrl Url.write Url.scheme authorityOf
  generalize "http://".toList = scheme
  generalize ":".toList = colon
  simp only [hquery, List.append_assoc]

/-- No digit ends an authority. -/
theorem endsAuthority_decimal {n : Nat} {c : Char} (h : c ∈ decimal n) :
    Url.endsAuthority c = false := by
  have hd := Nat.isDigit_of_mem_toDigits (by decide) (by decide) h
  have hne : ∀ d, Char.isDigit d = false → (c == d) = false := by
    intro d hd'
    rw [beq_eq_false_iff_ne]
    rintro rfl
    simp [hd] at hd'
  rw [Url.endsAuthority, hne '/' (by decide), hne '?' (by decide), hne '#' (by decide)]
  rfl

/-- Nothing in the authority of a target with a plain host ends an authority. -/
theorem endsAuthority_authorityOf {target : Target} (h : PlainHost target.host) :
    ∀ c ∈ authorityOf target, Url.endsAuthority c = false := by
  intro c hc
  rw [authorityOf, List.mem_append, List.mem_append] at hc
  rcases hc with (hc | hc) | hc
  · obtain ⟨h₁, h₂, h₃, -⟩ := h c hc
    simp [Url.endsAuthority, h₁, h₂, h₃]
  · obtain rfl : c = ':' := by simpa using hc
    rfl
  · exact endsAuthority_decimal hc

/-- What is left of a path behind a prefix. -/
theorem targetPath_of_append {pre path rest : Str} (h : path = pre ++ rest) :
    targetPath (some pre) path = rest := by
  rw [targetPath, stripPrefix_eq_some.mpr h, Option.getD_some]

/-- The path that is sent on is the end of the request path. -/
theorem targetPath_suffix (matchedPrefix : Option Str) (path : Str) :
    targetPath matchedPrefix path <:+ path := by
  cases matchedPrefix with
  | none => exact List.suffix_refl path
  | some pre =>
    cases h : stripPrefix path pre with
    | none =>
      rw [targetPath, h]
      exact List.suffix_refl path
    | some rest =>
      rw [targetPath_of_append (stripPrefix_eq_some.mp h), stripPrefix_eq_some.mp h]
      exact List.suffix_append pre rest

/-- What is left of a path is empty or starts with `/` exactly when the prefix ends at the end
    of a segment. -/
theorem endsAtSegment_iff {matchedPrefix : Option Str} {path : Str}
    (hrooted : path.head? = some '/') (hstart : ∀ pre, matchedPrefix = some pre → pre <+: path) :
    EndsAtSegment matchedPrefix path ↔
      targetPath matchedPrefix path = [] ∨ (targetPath matchedPrefix path).head? = some '/' := by
  cases matchedPrefix with
  | none => simp [EndsAtSegment, targetPath, hrooted]
  | some pre =>
    obtain ⟨rest, rfl⟩ := hstart pre rfl
    rw [targetPath_of_append rfl]
    simp only [EndsAtSegment, Option.some.injEq, forall_eq', List.append_right_eq_self,
      List.prefix_append_right_inj]
    refine or_congr Iff.rfl ?_
    cases rest with
    | nil => simp
    | cons c rest => simp [List.cons_prefix_cons, eq_comm]

/-- What is left of a path is what follows the matched prefix. -/
theorem targetPath_eq_drop {matchedPrefix : Option Str} {path : Str}
    (h : ∀ pre, matchedPrefix = some pre → pre <+: path) :
    targetPath matchedPrefix path = path.drop (matchedPrefix.getD []).length := by
  cases matchedPrefix with
  | none => rfl
  | some pre =>
    obtain ⟨rest, rfl⟩ := h pre rfl
    rw [targetPath_of_append rfl, Option.getD_some, List.drop_left]

/-- **Where a routed request goes.**  For every router and request that `route_request` resolves
    to a target on a plain host, the target URL has the target's authority, the path behind the
    matched prefix and the request's query exactly when the matched prefix, if there is one, is
    the whole path or ends where a path segment ends. -/
theorem routed_url_intact_iff (p : Platform) (r r' : Router) (req : Request) (pick : Nat)
    (d : Routed)
    (hroute : r.routeRequest p (requestHost req) req.uri.path pick = (some d, r'))
    (hhost : PlainHost d.target.host) :
    Url.parse (routedUrl d req) = some
        { authority := authorityOf d.target
          path := req.uri.path.drop (d.matchedPrefix.getD []).length
          query := req.uri.query } ↔
      EndsAtSegment d.matchedPrefix req.uri.path := by
  obtain ⟨route, -, -, -, hmatch, -⟩ := Router.resolves_of_routeRequest hroute
  have hstart : ∀ pre, d.matchedPrefix = some pre → pre <+: req.uri.path := by
    intro pre hpre
    rw [hpre] at hmatch
    exact Router.prefix_of_matches hmatch
  have hclosed : ∀ c ∈ targetPath d.matchedPrefix req.uri.path, Url.endsPath c = false := by
    intro c hc
    obtain ⟨hq, hf⟩ := req.uri.path_closed c ((targetPath_suffix _ _).subset hc)
    simp [Url.endsPath, hq, hf]
  -- with legal parts the round trip of the URL depends on the head of the path only
  rw [routedUrl, targetUrl_eq_write, ← targetPath_eq_drop hstart,
    Url.parse_write_iff (endsAuthority_authorityOf hhost) hclosed req.uri.query_closed,
    endsAtSegment_iff req.uri.path_rooted hstart]

/-- A server whose one route strips `/api`. -/
def apiRouter : Router :=
  Router.new
    { servers := []
      upstreams := [⟨"api".toList, [⟨"127.0.0.1".toList, 3000, none, none⟩], none, none⟩] }
    { id := "main".toList
      bindAddress := "0.0.0.0".toList
      port := 80
      routes := [⟨none, some ["/api".toList], "api".toList⟩]
      tls := none
      cache := none }

/-- What the route gives: the one target, and the prefix. -/
def apiTarget : Routed :=
  ⟨"api".toList, ⟨0, Target.new ⟨"127.0.0.1".toList, 3000, none, none⟩⟩, some "/api".toList⟩

/-- A request below `/api`. -/
def usersRequest : Request where
  method := .get
  uri := Uri.ofParts "/api/users".toList (some "page=1".toList) (by decide)
  headers := HeaderMap.empty

/-- A request whose path goes on where the prefix ends. -/
def strayRequest : Request where
  method := .get
  uri := Uri.ofParts "/api@evil.example/".toList none (by decide)
  headers := HeaderMap.empty

/-- The prefix is stripped at the end of a segment. -/
theorem routed_url_intact_iff_users :
    Url.parse (routedUrl apiTarget usersRequest) =
      some ⟨"127.0.0.1:3000".toList, "/users".toList, some "page=1".toList⟩ :=
  (routed_url_intact_iff Platform.ascii apiRouter _ usersRequest 0 apiTarget
    (Prod.ext (by decide) rfl) (plainHost_of_all (by decide))).mpr
    (by
      intro pre hpre
      obtain rfl := Option.some.inj hpre
      exact Or.inr (by decide))

/-- A client picks the host that its request is sent to. -/
theorem stray_request_leaves_target :
    ¬ ∀ (p : Platform) (r r' : Router) (req : Request) (pick : Nat) (d : Routed),
      r.routeRequest p (requestHost req) req.uri.path pick = (some d, r') →
      PlainHost d.target.host →
      Url.parse (routedUrl d req) = some
        { authority := authorityOf d.target
          path := req.uri.path.drop (d.matchedPrefix.getD []).length
          query := req.uri.query } := by
  intro h
  have hread := h Platform.ascii apiRouter _ strayRequest 0 apiTarget (Prod.ext (by decide) rfl)
    (plainHost_of_all (by decide))
  have hevil : Url.parse (routedUrl apiTarget strayRequest) =
      some ⟨"127.0.0.1:3000@evil.example".toList, "/".toList, none⟩ := by decide
  rw [hevil] at hread
  exact absurd (congrArg Url.Parts.authority (Option.some.inj hread)) (by decide)

end Sret
