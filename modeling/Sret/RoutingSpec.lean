import Sret.Proxy

namespace Sret

open Text Router

/-!
# The routing specification

What routing is for, stated without its loop, and the loop against it.

* `Route.Matches` — the route names the host among its domains, or a prefix of the path;
  `matchesRouteWithPrefix_isSome` — the code's match with its nested options finds just that;
* `Yields` — the route matches, and its upstream exists and selects a target;
* `RoutedBy` — the answer that a route gives, and all that it changes;
* `routing_spec` — a request is routed when some route yields, by the first one that does, and
  nothing changes when none does.
-/

/-! ### When a route matches -/

/-- The host up to its first colon is one of the domains, ignoring case. -/
def Route.MatchesHost (p : Platform) (route : Route) (host : Option Str) : Prop :=
  ∃ h, host = some h ∧
    ∃ domain ∈ route.domains, p.toLowercase domain = p.toLowercase (before (· == ':') h)

/-- The route matches by its domains or by its paths. -/
def Route.Matches (p : Platform) (route : Route) (host : Option Str) (path : Str) : Prop :=
  route.MatchesHost p host ∨ ∃ routePath ∈ route.paths, routePath <+: path

/-- The test is that for a domain which names the host. -/
theorem domainMatches_iff (p : Platform) (route : Route) (host : Option Str) :
    domainMatches p route host = true ↔ route.MatchesHost p host := by
  unfold domainMatches Route.MatchesHost
  by_cases hempty : route.domains = []
  · simp [hempty]
  · rw [if_neg (by simpa using hempty)]
    cases host with
    | none => simp
    | some h =>
      simp only [headD_splitOn, List.any_eq_true, beq_iff_eq, Option.some.injEq, exists_eq_left']

/-- The first configured path that is a prefix exists when some configured path is one. -/
theorem find?_startsWith_isSome (paths : List Str) (path : Str) :
    (paths.find? (startsWith path)).isSome = true ↔ ∃ routePath ∈ paths, routePath <+: path := by
  simp only [List.find?_isSome, startsWith_iff]

/-- **The code's match is the specified one.** -/
theorem matchesRouteWithPrefix_isSome (p : Platform) (route : Route) (host : Option Str)
    (path : Str) :
    (matchesRouteWithPrefix p route host path).isSome = true ↔ route.Matches p host path := by
  rw [Route.Matches, ← domainMatches_iff, ← find?_startsWith_isSome]
  simp only [matchesRouteWithPrefix, findSome?_eq_find?]
  cases hd : domainMatches p route host with
  | true =>
    by_cases hp : route.paths = []
    · simp [hp]
    · simp [hp]
  | false =>
    by_cases hp : route.paths = []
    · simp [hp]
    · -- without a domain the paths decide
      have hne : route.paths.isEmpty = false := by simpa using hp
      cases route.paths.find? (startsWith path) with
      | none => simp [hne]
      | some routePath => simp [hne]

/-- A route that matches does so with the first of its paths that the request path starts with. -/
theorem matchesRouteWithPrefix_of_matches {p : Platform} {route : Route} {host : Option Str}
    {path : Str} (h : route.Matches p host path) :
    matchesRouteWithPrefix p route host path = some (route.paths.find? (startsWith path)) := by
  obtain ⟨matchedPrefix, hm⟩ :=
    Option.isSome_iff_exists.mp ((matchesRouteWithPrefix_isSome p route host path).mpr h)
  rw [hm, matchedPrefix_eq hm]

/-! ### When a route yields a target -/

/-- The route matches, and its upstream exists and selects a target. -/
def Yields (p : Platform) (r : Router) (host : Option Str) (path : Str) (pick : Nat)
    (route : Route) : Prop :=
  route.Matches p host path ∧ ∃ u, r.getUpstream route.upstreamId = some u ∧
    (u.selectTarget pick).1.isSome = true

/-- The route is the one at this place, it yields, and none before it does. -/
structure FirstYielding (p : Platform) (r : Router) (host : Option Str) (path : Str) (pick : Nat)
    (i : Nat) (route : Route) : Prop where
  place : r.routes[i]? = some route
  yields : Yields p r host path pick route
  first : ∀ j < i, ∀ earlier, r.routes[j]? = some earlier → ¬ Yields p r host path pick earlier

/-- The answer of the route, and the router afterwards: the target that the upstream selected, the
    first path that is a prefix, which `handle_request` takes off the path, and one more on the
    counter of this upstream, if its strategy uses it. -/
structure RoutedBy (r : Router) (path : Str) (pick : Nat) (route : Route) (d : Routed)
    (r' : Router) : Prop where
  upstreamId : d.upstreamId = route.upstreamId
  selected : ∃ u, r.getUpstream route.upstreamId = some u ∧
    (u.selectTarget pick).1 = some d.arc ∧
    r'.getUpstream route.upstreamId = some
      (if u.usesCounter = true then
        { u with roundRobinCounter := (u.roundRobinCounter + 1) % usizeSize }
      else u)
  matchedPrefix : d.matchedPrefix = route.paths.find? (startsWith path)
  stripped : ∀ pre, d.matchedPrefix = some pre →
    ∃ rest, stripPrefix path pre = some rest ∧ targetPath d.matchedPrefix path = rest ∧
      pre ++ rest = path
  whole : d.matchedPrefix = none → targetPath d.matchedPrefix path = path
  others : ∀ id, id ≠ route.upstreamId → r'.getUpstream id = r.getUpstream id
  routes : r'.routes = r.routes

/-! ### The loop -/

variable {p : Platform} {host : Option Str} {path : Str} {pick : Nat} {r : Router}

/-- A route that yields nothing is passed over. -/
theorem routeFrom_of_not_yields {route : Route} (h : ¬ Yields p r host path pick route)
    (rest : List Route) :
    routeFrom p host path pick (route :: rest) r = routeFrom p host path pick rest r := by
  refine routeFrom_skip (fun matchedPrefix u hm hu => ?_) rest
  have hmatches : route.Matches p host path :=
    (matchesRouteWithPrefix_isSome p route host path).mp (by simp [hm])
  by_contra hs
  exact h ⟨hmatches, u, hu, Option.isSome_iff_ne_none.mpr hs⟩

/-- A route that yields is taken. -/
theorem routeFrom_of_yields {route : Route} (h : Yields p r host path pick route)
    (rest : List Route) : ∃ u a, r.getUpstream route.upstreamId = some u ∧
      (u.selectTarget pick).1 = some a ∧
      routeFrom p host path pick (route :: rest) r =
        (some ⟨route.upstreamId, a, route.paths.find? (startsWith path)⟩,
          r.setUpstream route.upstreamId (u.selectTarget pick).2) := by
  obtain ⟨hmatches, u, hu, hsome⟩ := h
  obtain ⟨a, hs⟩ := Option.isSome_iff_exists.mp hsome
  exact ⟨u, a, hu, hs, routeFrom_take (matchesRouteWithPrefix_of_matches hmatches) hu hs rest⟩

/-- The loop runs to its end exactly when no route yields. -/
theorem routeFrom_eq_none_iff (routes : List Route) :
    (routeFrom p host path pick routes r).1 = none ↔
      ∀ route ∈ routes, ¬ Yields p r host path pick route := by
  induction routes with
  | nil => simp [routeFrom]
  | cons route rest ih =>
    rw [List.forall_mem_cons]
    -- the loop ends at the first route if that yields, and goes on if not
    by_cases hyields : Yields p r host path pick route
    · obtain ⟨u, a, -, -, heq⟩ := routeFrom_of_yields hyields rest
      simp [heq, hyields]
    · rw [routeFrom_of_not_yields hyields, ih]
      exact (and_iff_right hyields).symm

/-- **The loop stops at the first route that yields.** -/
theorem routeFrom_of_first {i : Nat} {routes : List Route} {route : Route}
    (hplace : routes[i]? = some route) (hyields : Yields p r host path pick route)
    (hfirst : ∀ j < i, ∀ earlier, routes[j]? = some earlier →
      ¬ Yields p r host path pick earlier) :
    ∃ u a, r.getUpstream route.upstreamId = some u ∧ (u.selectTarget pick).1 = some a ∧
      routeFrom p host path pick routes r =
        (some ⟨route.upstreamId, a, route.paths.find? (startsWith path)⟩,
          r.setUpstream route.upstreamId (u.selectTarget pick).2) := by
  induction routes generalizing i with
  | nil => simp at hplace
  | cons head rest ih =>
    cases i with
    | zero =>
      obtain rfl : head = route := by simpa using hplace
      exact routeFrom_of_yields hyields rest
    | succ i =>
      -- the head comes before the route, so it yields nothing
      rw [routeFrom_of_not_yields (hfirst 0 (Nat.succ_pos i) head rfl)]
      refine ih (by simpa using hplace) fun j hj earlier hearlier => ?_
      exact hfirst (j + 1) (Nat.succ_lt_succ hj) earlier (by simpa using hearlier)

/-- What is left of a path when one of its prefixes is taken off. -/
theorem targetPath_of_find? {paths : List Str} {pre : Str}
    (h : paths.find? (startsWith path) = some pre) :
    ∃ rest, stripPrefix path pre = some rest ∧ targetPath (some pre) path = rest ∧
      pre ++ rest = path := by
  obtain ⟨rest, hrest⟩ := startsWith_iff.mp (List.find?_some h)
  have hstrip : stripPrefix path pre = some rest := stripPrefix_eq_some.mpr hrest.symm
  refine ⟨rest, hstrip, ?_, hrest⟩
  rw [targetPath, hstrip]
  rfl

/-- The first route that yields answers the request. -/
theorem routedBy_of_firstYielding {i : Nat} {route : Route}
    (h : FirstYielding p r host path pick i route) :
    ∃ d r', r.routeRequest p host path pick = (some d, r') ∧ RoutedBy r path pick route d r' := by
  obtain ⟨u, a, hu, hs, heq⟩ := routeFrom_of_first h.place h.yields h.first
  have hne : u.candidates ≠ [] := List.ne_nil_of_mem (Upstream.selectTarget_mem_candidates hs)
  refine ⟨_, _, heq, rfl, ⟨u, hu, hs, ?_⟩, rfl, fun pre hpre => ?_, fun hnone => ?_,
    fun id hid => getUpstream_setUpstream_of_ne hid r _, rfl⟩
  · -- the upstream had a candidate, so a counting strategy has counted
    rw [getUpstream_setUpstream_self, Upstream.selectTarget_snd]
    simp [hne, Upstream.bumpCounter]
  · rw [hpre]
    exact targetPath_of_find? hpre
  · rw [hnone]
    rfl

/-! ### The specification -/

/-- **Routing.**  For every router, whatever its upstreams and their health and counters are, every
    host and every path: the request is routed exactly when some route yields a target; it is then
    routed by the first such route, and all that changes is the counter of that route's upstream;
    a request that is not routed changes nothing. -/
theorem routing_spec (p : Platform) (r : Router) (host : Option Str) (path : Str) (pick : Nat) :
    ((r.routeRequest p host path pick).1.isSome = true ↔
        ∃ route ∈ r.routes, Yields p r host path pick route) ∧
      (∀ i route, FirstYielding p r host path pick i route →
        ∃ d r', r.routeRequest p host path pick = (some d, r') ∧
          RoutedBy r path pick route d r') ∧
      ((r.routeRequest p host path pick).1 = none → (r.routeRequest p host path pick).2 = r) := by
  refine ⟨?_, fun i route h => routedBy_of_firstYielding h,
    fun hnone => eq_of_routeRequest_none (Prod.ext hnone rfl)⟩
  -- the loop finds a route unless none yields
  rw [Option.isSome_iff_ne_none, routeRequest, Ne, routeFrom_eq_none_iff]
  simp only [not_forall, not_not, exists_prop]

end Sret
