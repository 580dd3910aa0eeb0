import Sret.Foundation.KeyedMap
import Sret.Upstream

namespace Sret

open Text KeyedMap

/-!
# Routing

The router of a server: its upstreams by id and its routes in order.

* `matchesRouteWithPrefix` — how one route matches a request, and the path prefix that it
  matched (`matchedPrefix_eq`: the first configured path that the request path starts with);
* `routeRequest` — the first matching route whose upstream yields a target;
* `routeRequest_cases` — what a call does: it fails and changes nothing, or it returns the
  target that one upstream selected, and only that upstream has changed.
-/

/-- A route, with no domains or no paths where none are configured. -/
structure Route where
  domains : List Str
  paths : List Str
  upstreamId : Str

/-- The routes in order, and the upstreams by their ids. -/
structure Router where
  upstreams : Map Str Upstream
  routes : List Route

/-- Which target of which upstream an `Arc<Target>` is. -/
structure TargetRef where
  upstreamId : Str
  index : Nat
deriving DecidableEq

/-- What `route_request` returns: the target, with the id of its upstream to tell it apart, and
    the matched prefix. -/
structure Routed where
  upstreamId : Str
  arc : TargetArc
  matchedPrefix : Option Str
deriving DecidableEq

/-- The target of the answer. -/
def Routed.target (d : Routed) : Target := d.arc.target

/-- Which target it is. -/
def Routed.ref (d : Routed) : TargetRef := ⟨d.upstreamId, d.arc.index⟩

namespace Router

/-- `Router::new`. -/
def new (config : Config) (server : ServerConfig) : Router where
  upstreams := collect (config.upstreams.map fun u => (u.id, Upstream.new u))
  routes := server.routes.map fun r =>
    { domains := r.domains.getD [], paths := r.paths.getD [], upstreamId := r.upstream }

/-- `Router::get_upstream`. -/
def getUpstream (r : Router) (upstreamId : Str) : Option Upstream := r.upstreams.lookup upstreamId

/-- The router after a write to the atomics of one upstream. -/
def setUpstream (r : Router) (upstreamId : Str) (u : Upstream) : Router :=
  { r with upstreams := r.upstreams.insert upstreamId u }

/-- The target behind a reference. -/
def getTarget (r : Router) (ref : TargetRef) : Option Target :=
  (r.getUpstream ref.upstreamId).bind fun u => u.targets[ref.index]?

/-- The router after a write to the atomics of one target. -/
def modifyTarget (r : Router) (ref : TargetRef) (f : Target → Target) : Router :=
  match r.getUpstream ref.upstreamId with
  | some u => r.setUpstream ref.upstreamId { u with targets := u.targets.modify ref.index f }
  | none => r

/-- The domain part of `matches_route_with_prefix`. -/
def domainMatches (p : Platform) (route : Route) (host : Option Str) : Bool :=
  if route.domains.isEmpty then false
  else match host with
    | none => false
    | some h =>
      let hostDomain := p.toLowercase ((h.splitOn ':').headD h)
      route.domains.any fun domain => p.toLowercase domain == hostDomain

/-- `Router::matches_route_with_prefix`. -/
def matchesRouteWithPrefix (p : Platform) (route : Route) (host : Option Str) (path : Str) :
    Option (Option Str) :=
  let domainMatches := domainMatches p route host
  let pathMatch : Option (Option Str) :=
    if route.paths.isEmpty then
      if domainMatches then some none else none
    else
      route.paths.findSome? fun routePath =>
        if startsWith path routePath then some (some routePath) else none
  -- the domain and the paths are alternatives, also for a route that has both
  let isMatch := domainMatches || pathMatch.isSome
  if isMatch then pathMatch.or (some none) else none

/-- The loop of `route_request` over the routes that are left. -/
def routeFrom (p : Platform) (host : Option Str) (path : Str) (pick : Nat) :
    List Route → Router → Option Routed × Router
  | [], r => (none, r)
  | route :: rest, r =>
    match matchesRouteWithPrefix p route host path with
    | none => routeFrom p host path pick rest r
    | some matchedPrefix =>
      match r.getUpstream route.upstreamId with
      | none => routeFrom p host path pick rest r
      | some upstream =>
        match upstream.selectTarget pick with
        | (some target, upstream') =>
          (some ⟨route.upstreamId, target, matchedPrefix⟩, r.setUpstream route.upstreamId upstream')
        | (none, upstream') =>
          -- no target to be had: the next route that matches is tried
          routeFrom p host path pick rest (r.setUpstream route.upstreamId upstream')

/-- `Router::route_request`. -/
def routeRequest (p : Platform) (r : Router) (host : Option Str) (path : Str) (pick : Nat) :
    Option Routed × Router :=
  routeFrom p host path pick r.routes r

/-- Every upstream of a new router is built from the configuration. -/
theorem getUpstream_new {config : Config} {server : ServerConfig} {id : Str} {u : Upstream}
    (h : (new config server).getUpstream id = some u) :
    ∃ uc ∈ config.upstreams, uc.id = id ∧ u = Upstream.new uc := by
  obtain ⟨uc, hmem, heq⟩ := List.mem_map.mp (mem_of_lookup_collect h)
  exact ⟨uc, hmem, (Prod.mk.inj heq).1, (Prod.mk.inj heq).2.symm⟩

/-! ### The matched prefix -/

theorem findSome?_eq_find? {α : Type*} (f : α → Bool) (l : List α) :
    (l.findSome? fun a => if f a then some (some a) else none) = (l.find? f).map some := by
  induction l with
  | nil => rfl
  | cons a l ih =>
    by_cases h : f a = true <;> simp [h, ih]

/-- A route that matches reports the first of its paths that the request path starts with. -/
theorem matchedPrefix_eq {p : Platform} {route : Route} {host : Option Str} {path : Str}
    {matchedPrefix : Option Str}
    (h : matchesRouteWithPrefix p route host path = some matchedPrefix) :
    matchedPrefix = route.paths.find? (startsWith path) := by
  simp only [matchesRouteWithPrefix, findSome?_eq_find?] at h
  by_cases hp : route.paths = []
  · -- without paths the route matches by its domain, and reports no prefix
    cases hd : domainMatches p route host with
    | true => simpa [hd, hp, eq_comm] using h
    | false => simp [hd, hp] at h
  · have hne : route.paths.isEmpty = false := by simpa using hp
    cases hf : route.paths.find? (startsWith path) with
    | none =>
      -- no path fits: a route that matches by its domain reports no prefix either
      cases hd : domainMatches p route host with
      | true => simpa [hd, hne, hf, eq_comm] using h
      | false => simp [hd, hne, hf] at h
    | some routePath => simpa [hne, hf, eq_comm] using h

/-- A matched prefix is a prefix of the path. -/
theorem prefix_of_matches {p : Platform} {route : Route} {host : Option Str} {path pre : Str}
    (h : matchesRouteWithPrefix p route host path = some (some pre)) : pre <+: path :=
  startsWith_iff.mp (List.find?_some (matchedPrefix_eq h).symm)

/-! ### What a call does -/

/-- No route changes. -/
@[simp] theorem setUpstream_routes (r : Router) (id : Str) (u : Upstream) :
    (r.setUpstream id u).routes = r.routes := rfl

/-- The new upstream is found. -/
@[simp] theorem getUpstream_setUpstream_self (r : Router) (id : Str) (u : Upstream) :
    (r.setUpstream id u).getUpstream id = some u := by
  simp [getUpstream, setUpstream]

/-- The others are found as before. -/
theorem getUpstream_setUpstream_of_ne {id id' : Str} (h : id' ≠ id) (r : Router) (u : Upstream) :
    (r.setUpstream id u).getUpstream id' = r.getUpstream id' := by
  simp [getUpstream, setUpstream, Finmap.lookup_insert_of_ne _ h]

/-- Putting an upstream where it is changes nothing. -/
theorem setUpstream_eq_self {r : Router} {id : Str} {u : Upstream}
    (h : r.getUpstream id = some u) : r.setUpstream id u = r := by
  simp [setUpstream, insert_eq_self (show r.upstreams.lookup id = some u from h)]

/-- `d` is what the route, matching the request, and its upstream's selection give. -/
def Resolves (p : Platform) (r : Router) (host : Option Str) (path : Str) (pick : Nat)
    (d : Routed) (r' : Router) : Prop :=
  ∃ route ∈ r.routes, ∃ u a,
    matchesRouteWithPrefix p route host path = some d.matchedPrefix ∧
    r.getUpstream route.upstreamId = some u ∧ (u.selectTarget pick).1 = some a ∧
    d.upstreamId = route.upstreamId ∧ d.arc = a ∧
    r' = r.setUpstream route.upstreamId (u.selectTarget pick).2

/-- What a pass over the routes comes to: nothing, with the router unchanged, or what one of the
    routes, matching the request, and its upstream's selection give. -/
def PassResult (p : Platform) (r : Router) (host : Option Str) (path : Str) (pick : Nat)
    (routes : List Route) (result : Option Routed × Router) : Prop :=
  result = (none, r) ∨
    ∃ d r', result = (some d, r') ∧ ∃ route ∈ routes, ∃ u a,
      matchesRouteWithPrefix p route host path = some d.matchedPrefix ∧
      r.getUpstream route.upstreamId = some u ∧ (u.selectTarget pick).1 = some a ∧
      d.upstreamId = route.upstreamId ∧ d.arc = a ∧
      r' = r.setUpstream route.upstreamId (u.selectTarget pick).2

/-- A route that is passed over adds nothing. -/
theorem PassResult.cons {p : Platform} {r : Router} {host : Option Str} {path : Str} {pick : Nat}
    {rest : List Route} {result : Option Routed × Router}
    (h : PassResult p r host path pick rest result) (route : Route) :
    PassResult p r host path pick (route :: rest) result := by
  rcases h with h | ⟨d, r', h, route', hmem, hrest⟩
  · exact Or.inl h
  · exact Or.inr ⟨d, r', h, route', List.mem_cons_of_mem _ hmem, hrest⟩

/-- A route that does not match, or whose upstream is missing or yields nothing, is skipped. -/
theorem routeFrom_skip {p : Platform} {host : Option Str} {path : Str} {pick : Nat} {route : Route}
    {r : Router}
    (h : ∀ matchedPrefix u, matchesRouteWithPrefix p route host path = some matchedPrefix →
      r.getUpstream route.upstreamId = some u → (u.selectTarget pick).1 = none)
    (rest : List Route) :
    routeFrom p host path pick (route :: rest) r = routeFrom p host path pick rest r := by
  cases hm : matchesRouteWithPrefix p route host path with
  | none => simp only [routeFrom, hm]
  | some matchedPrefix =>
    cases hu : r.getUpstream route.upstreamId with
    | none => simp only [routeFrom, hm, hu]
    | some u =>
      have hs := h matchedPrefix u hm hu
      have hpair : u.selectTarget pick = (none, u) :=
        Prod.ext hs (Upstream.selectTarget_snd_of_none hs)
      simp only [routeFrom, hm, hu, hpair, setUpstream_eq_self hu]

/-- A route whose upstream yields a target ends the loop. -/
theorem routeFrom_take {p : Platform} {host : Option Str} {path : Str} {pick : Nat} {route : Route}
    {r : Router} {matchedPrefix : Option Str} {u : Upstream} {a : TargetArc}
    (hm : matchesRouteWithPrefix p route host path = some matchedPrefix)
    (hu : r.getUpstream route.upstreamId = some u) (hs : (u.selectTarget pick).1 = some a)
    (rest : List Route) :
    routeFrom p host path pick (route :: rest) r =
      (some ⟨route.upstreamId, a, matchedPrefix⟩,
        r.setUpstream route.upstreamId (u.selectTarget pick).2) := by
  have hpair : u.selectTarget pick = (some a, (u.selectTarget pick).2) := Prod.ext hs rfl
  simp only [routeFrom, hm, hu]
  rw [hpair]

/-- What the loop does from any point on: skipped routes change nothing. -/
theorem routeFrom_cases (p : Platform) (host : Option Str) (path : Str) (pick : Nat)
    (r : Router) (routes : List Route) :
    PassResult p r host path pick routes (routeFrom p host path pick routes r) := by
  induction routes with
  | nil => exact Or.inl rfl
  | cons route rest ih =>
    by_cases hyields : ∃ matchedPrefix u a,
        matchesRouteWithPrefix p route host path = some matchedPrefix ∧
        r.getUpstream route.upstreamId = some u ∧ (u.selectTarget pick).1 = some a
    · obtain ⟨matchedPrefix, u, a, hm, hu, hs⟩ := hyields
      exact Or.inr ⟨⟨route.upstreamId, a, matchedPrefix⟩, _, routeFrom_take hm hu hs rest, route,
        by simp, u, a, hm, hu, hs, rfl, rfl, rfl⟩
    · -- the route leaves the router to the rest of the loop unchanged
      rw [routeFrom_skip fun matchedPrefix u hm hu => by
        by_contra hs
        obtain ⟨a, hs⟩ := Option.ne_none_iff_exists'.mp hs
        exact hyields ⟨matchedPrefix, u, a, hm, hu, hs⟩]
      exact ih.cons route

/-- **What a call of `route_request` does.** -/
theorem routeRequest_cases (p : Platform) (r : Router) (host : Option Str) (path : Str)
    (pick : Nat) :
    r.routeRequest p host path pick = (none, r) ∨
      ∃ d r', r.routeRequest p host path pick = (some d, r') ∧
        Resolves p r host path pick d r' := by
  rcases routeFrom_cases p host path pick r r.routes with h | ⟨d, r', h, hres⟩
  · exact Or.inl h
  · exact Or.inr ⟨d, r', h, hres⟩

/-- A call that returns a target resolved it. -/
theorem resolves_of_routeRequest {p : Platform} {r r' : Router} {host : Option Str} {path : Str}
    {pick : Nat} {d : Routed} (h : r.routeRequest p host path pick = (some d, r')) :
    Resolves p r host path pick d r' := by
  rcases r.routeRequest_cases p host path pick with h' | ⟨d', r'', h', hres⟩
  · simp [h'] at h
  · rw [h'] at h
    obtain ⟨rfl, rfl⟩ : d' = d ∧ r'' = r' := by simpa using h
    exact hres

/-- A call that returns nothing changes nothing. -/
theorem eq_of_routeRequest_none {p : Platform} {r r' : Router} {host : Option Str} {path : Str}
    {pick : Nat} (h : r.routeRequest p host path pick = (none, r')) : r' = r := by
  rcases r.routeRequest_cases p host path pick with h' | ⟨d', r'', h', -⟩
  · rw [h'] at h
    exact (Prod.mk.inj h).2.symm
  · simp [h'] at h

/-! ### What a call changes -/

/-- **The frame of a call.**  An upstream that did not answer the call is untouched; the one
    that did has advanced its counter if its strategy counts, and is otherwise untouched too. -/
theorem getUpstream_of_routeRequest {p : Platform} {r r' : Router} {host : Option Str}
    {path : Str} {pick : Nat} {res : Option Routed}
    (h : r.routeRequest p host path pick = (res, r')) {id : Str} {u : Upstream}
    (hu : r.getUpstream id = some u) :
    r'.getUpstream id =
      some (if res.map Routed.upstreamId = some id ∧ u.usesCounter = true
        then u.bumpCounter else u) := by
  cases res with
  | none => simp [eq_of_routeRequest_none h, hu]
  | some d =>
    obtain ⟨route, -, w, a, -, hw, hs, hid, -, rfl⟩ := resolves_of_routeRequest h
    by_cases hd : id = route.upstreamId
    · -- the upstream that answered had a candidate, so a counting strategy has counted
      subst hd
      obtain rfl : u = w := Option.some.inj (hu.symm.trans hw)
      have hne : u.candidates ≠ [] :=
        List.ne_nil_of_mem (Upstream.selectTarget_mem_candidates hs)
      simp [Upstream.selectTarget_snd, hid, hne]
    · rw [getUpstream_setUpstream_of_ne hd, hu, if_neg]
      rintro ⟨h', -⟩
      exact hd (by simpa [hid] using h'.symm)

/-- A call changes no target. -/
theorem targets_of_routeRequest {p : Platform} {r r' : Router} {host : Option Str}
    {path : Str} {pick : Nat} {res : Option Routed}
    (h : r.routeRequest p host path pick = (res, r')) {id : Str} {u : Upstream}
    (hu : r.getUpstream id = some u) :
    ∃ u', r'.getUpstream id = some u' ∧ u'.targets = u.targets ∧ u'.strategy = u.strategy := by
  refine ⟨_, getUpstream_of_routeRequest h hu, ?_⟩
  split <;> simp

/-! ### Single targets -/

/-- A call leaves every target as it is. -/
theorem getTarget_of_routeRequest {p : Platform} {r r' : Router} {host : Option Str}
    {path : Str} {pick : Nat} {res : Option Routed}
    (h : r.routeRequest p host path pick = (res, r')) (ref : TargetRef) :
    r'.getTarget ref = r.getTarget ref := by
  cases hu : r.getUpstream ref.upstreamId with
  | some u =>
    obtain ⟨u', hu', htargets, -⟩ := targets_of_routeRequest h hu
    simp [getTarget, hu, hu', htargets]
  | none =>
    have hu' : r'.getUpstream ref.upstreamId = none := by
      cases res with
      | none => rw [eq_of_routeRequest_none h, hu]
      | some d =>
        obtain ⟨route, -, w, a, -, hw, -, -, -, rfl⟩ := resolves_of_routeRequest h
        rw [getUpstream_setUpstream_of_ne _ r, hu]
        intro hid
        rw [hid, hw] at hu
        simp at hu
    simp [getTarget, hu, hu']

/-- The answer of a call is a target of the router, and one that its upstream may select. -/
theorem getTarget_of_routed {p : Platform} {r r' : Router} {host : Option Str} {path : Str}
    {pick : Nat} {d : Routed} (h : r.routeRequest p host path pick = (some d, r')) :
    ∃ u, r.getUpstream d.upstreamId = some u ∧ (u.selectTarget pick).1 = some d.arc ∧
      r.getTarget d.ref = some d.target := by
  obtain ⟨route, -, u, a, -, hu, hs, hid, rfl, -⟩ := resolves_of_routeRequest h
  rw [← hid] at hu
  refine ⟨u, hu, hs, ?_⟩
  have hmem := Upstream.candidates_subset_healthy (Upstream.selectTarget_mem_candidates hs)
  simp [getTarget, Routed.ref, Routed.target, hu, (Upstream.mem_healthyTargets.mp hmem).1]

/-- A write to a target is read back, and changes no other target. -/
theorem getTarget_modifyTarget (r : Router) (ref ref' : TargetRef) (f : Target → Target) :
    (r.modifyTarget ref f).getTarget ref' =
      if ref = ref' then (r.getTarget ref').map f else r.getTarget ref' := by
  unfold modifyTarget
  cases hu : r.getUpstream ref.upstreamId with
  | none =>
    by_cases href : ref = ref'
    · subst href
      simp [getTarget, hu]
    · rw [if_neg href]
  | some u =>
    by_cases hid : ref'.upstreamId = ref.upstreamId
    · -- the same upstream: the position decides
      simp only [getTarget, hid, getUpstream_setUpstream_self, hu, Option.bind_some,
        List.getElem?_modify]
      by_cases hidx : ref.index = ref'.index
      · have href : ref = ref' := by
          cases ref
          cases ref'
          simp_all
        simp [href]
      · have href : ref ≠ ref' := fun h => hidx (congrArg TargetRef.index h)
        simp [hidx, href]
    · have href : ref ≠ ref' := fun h => hid (congrArg TargetRef.upstreamId h).symm
      simp [getTarget, getUpstream_setUpstream_of_ne hid, href]

end Router

end Sret
