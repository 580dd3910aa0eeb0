import Sret.Config

namespace Sret

open Text

/-!
# Loading the configuration

`Config::from_file` reads the file, parses it and validates what it holds, and the first thing that
goes wrong is reported.  The file system and the YAML parser are parameters.

* `Config.fromFile` — the function;
* `Config.Fault`, `Loader.Fault` — what there is to report about a configuration and about a file,
  said without the order in which the code looks for it;
* `Config.validate_eq_error`, `Config.fromFile_eq_error`, `Config.fromFile_eq_ok` — the reports are
  exactly those, and what is loaded is exactly what has none.
-/

/-- What `Config::from_file` relies on: `read_to_string` and `serde_yml::from_str`, each with the
    text of its error. -/
structure Loader where
  readToString : Str → Except Str Str
  fromStr : Str → Except Str Config

/-- `Config::from_file`. -/
def Config.fromFile (loader : Loader) (path : Str) : Except Str Config := do
  let content ← loader.readToString path
  let config ← loader.fromStr content
  config.validate
  return config

namespace Config

/-! ### Faults -/

/-- The id is the first that occurs a second time. -/
def FirstRepeated (ids : List Str) (id : Str) : Prop :=
  ∃ pre post, ids = pre ++ id :: post ∧ pre.Nodup ∧ id ∈ pre

/-- The route is the first that names no upstream. -/
def FirstDangling (config : Config) (route : RouteConfig) : Prop :=
  ∃ pre post, config.servers.flatMap ServerConfig.routes = pre ++ route :: post ∧
    (∀ r ∈ pre, r.upstream ∈ config.upstreams.map UpstreamConfig.id) ∧
    route.upstream ∉ config.upstreams.map UpstreamConfig.id

/-- What there is to report about a configuration.  A server id is compared only if all routes
    resolve, and an upstream id only if the server ids are distinct as well. -/
inductive Fault (config : Config) : Str → Prop
  | route {route : RouteConfig} (h : config.FirstDangling route) :
      Fault config ("Route references non-existent upstream: ".toList ++ route.upstream)
  | serverId {id : Str} (hroutes : config.RoutesResolve)
      (h : FirstRepeated (config.servers.map ServerConfig.id) id) :
      Fault config ("Duplicate server ID: ".toList ++ id)
  | upstreamId {id : Str} (hroutes : config.RoutesResolve)
      (hservers : (config.servers.map ServerConfig.id).Nodup)
      (h : FirstRepeated (config.upstreams.map UpstreamConfig.id) id) :
      Fault config ("Duplicate upstream ID: ".toList ++ id)

/-- The loop over the ids finds the first that it meets again, after ids without a repetition. -/
theorem firstDuplicate_eq_some {seen ids : List Str} {id : Str} :
    firstDuplicate seen ids = some id ↔
      ∃ pre post, ids = pre ++ id :: post ∧ firstDuplicate seen pre = none ∧
        (id ∈ pre ∨ id ∈ seen) := by
  induction ids generalizing seen with
  | nil => simp [firstDuplicate]
  | cons x rest ih =>
    rw [firstDuplicate]
    by_cases hx : x ∈ seen
    · rw [if_pos hx]
      constructor
      · intro h
        obtain rfl := Option.some.inj h
        exact ⟨[], rest, rfl, rfl, Or.inr hx⟩
      · -- an id that has been seen cannot stand before the repeated one
        rintro ⟨pre, post, hids, hnone, -⟩
        cases pre with
        | nil => exact congrArg some (List.cons.inj hids).1
        | cons y pre =>
          obtain ⟨rfl, -⟩ := List.cons.inj hids
          simp [firstDuplicate, hx] at hnone
    · rw [if_neg hx, ih]
      constructor
      · rintro ⟨pre, post, rfl, hnone, hid⟩
        refine ⟨x :: pre, post, rfl, ?_, ?_⟩
        · rwa [firstDuplicate, if_neg hx]
        · rwa [List.mem_cons, or_assoc, or_left_comm, ← List.mem_cons]
      · rintro ⟨pre, post, hids, hnone, hid⟩
        cases pre with
        | nil =>
          -- the first id is new, so it is not the repeated one
          obtain ⟨rfl, -⟩ := List.cons.inj hids
          exact absurd (hid.resolve_left List.not_mem_nil) hx
        | cons y pre =>
          obtain ⟨rfl, rfl⟩ := List.cons.inj hids
          refine ⟨pre, post, rfl, ?_, ?_⟩
          · rwa [firstDuplicate, if_neg hx] at hnone
          · rw [List.mem_cons, or_assoc] at hid
            rwa [List.mem_cons, or_left_comm]

/-- The search finds the first id that repeats an earlier one. -/
theorem firstDuplicate_nil_eq_some {ids : List Str} {id : Str} :
    firstDuplicate [] ids = some id ↔ FirstRepeated ids id := by
  simp [firstDuplicate_eq_some, firstDuplicate_eq_none, FirstRepeated]

/-- It finds none exactly if the ids are distinct. -/
theorem firstDuplicate_nil_eq_none {ids : List Str} :
    firstDuplicate [] ids = none ↔ ids.Nodup := by
  simp [firstDuplicate_eq_none]

/-- The loop over the routes. -/
theorem find_dangling_eq_some {config : Config} {route : RouteConfig} :
    (config.servers.flatMap ServerConfig.routes).find?
        (fun r => r.upstream ∉ config.upstreams.map UpstreamConfig.id) = some route ↔
      config.FirstDangling route := by
  rw [List.find?_eq_some_iff_append]
  simp only [FirstDangling, decide_eq_true_eq, Bool.not_eq_true', decide_eq_false_iff_not, not_not]
  constructor
  · rintro ⟨hroute, pre, post, hsplit, hpre⟩
    exact ⟨pre, post, hsplit, hpre, hroute⟩
  · rintro ⟨pre, post, hsplit, hpre, hroute⟩
    exact ⟨hroute, pre, post, hsplit, hpre⟩

/-- No route is found dangling exactly if all resolve. -/
theorem find_dangling_eq_none {config : Config} :
    (config.servers.flatMap ServerConfig.routes).find?
        (fun r => r.upstream ∉ config.upstreams.map UpstreamConfig.id) = none ↔
      config.RoutesResolve := by
  rw [List.find?_eq_none]
  simp only [List.mem_flatMap, decide_eq_true_eq, not_not]
  exact ⟨fun h s hs r hr => h r ⟨s, hs, hr⟩, fun h r ⟨s, hs, hr⟩ => h s hs r hr⟩

/-- A fault is reported. -/
theorem Fault.validate_eq {config : Config} {text : Str} (h : config.Fault text) :
    config.validate = .error text := by
  cases h with
  | route h =>
    simp only [validate, find_dangling_eq_some.mpr h]
  | serverId hroutes h =>
    simp only [validate, find_dangling_eq_none.mpr hroutes, firstDuplicate_nil_eq_some.mpr h]
  | upstreamId hroutes hservers h =>
    simp only [validate, find_dangling_eq_none.mpr hroutes,
      firstDuplicate_nil_eq_none.mpr hservers, firstDuplicate_nil_eq_some.mpr h]

/-- What is reported is a fault. -/
theorem Fault.of_validate {config : Config} {text : Str} (h : config.validate = .error text) :
    config.Fault text := by
  simp only [validate] at h
  -- the routes first, then the ids of the servers, then those of the upstreams
  split at h
  · rename_i route hroute
    obtain rfl := Except.error.inj h
    exact .route (find_dangling_eq_some.mp hroute)
  · rename_i hroute
    have hroutes := find_dangling_eq_none.mp hroute
    split at h
    · rename_i id hserver
      obtain rfl := Except.error.inj h
      exact .serverId hroutes (firstDuplicate_nil_eq_some.mp hserver)
    · rename_i hserver
      have hservers := firstDuplicate_nil_eq_none.mp hserver
      split at h
      · rename_i id hupstream
        obtain rfl := Except.error.inj h
        exact .upstreamId hroutes hservers (firstDuplicate_nil_eq_some.mp hupstream)
      · cases h

/-- **What validation reports.** -/
theorem validate_eq_error {config : Config} {text : Str} :
    config.validate = .error text ↔ config.Fault text :=
  ⟨Fault.of_validate, Fault.validate_eq⟩

end Config

/-! ### Files -/

/-- The file holds the configuration. -/
def Loader.Holds (loader : Loader) (path : Str) (config : Config) : Prop :=
  ∃ content, loader.readToString path = .ok content ∧ loader.fromStr content = .ok config

/-- What there is to report about a file. -/
inductive Loader.Fault (loader : Loader) (path : Str) : Str → Prop
  | read {text : Str} (h : loader.readToString path = .error text) : Fault loader path text
  | parse {content text : Str} (hread : loader.readToString path = .ok content)
      (h : loader.fromStr content = .error text) : Fault loader path text
  | config {config : Config} {text : Str} (hholds : loader.Holds path config)
      (h : config.Fault text) : Fault loader path text

namespace Config

variable {loader : Loader} {path : Str}

/-- A file that cannot be read is reported as such. -/
theorem fromFile_of_unread {text : Str} (h : loader.readToString path = .error text) :
    fromFile loader path = .error text := by
  unfold fromFile
  rw [h]
  rfl

/-- So is one that cannot be parsed. -/
theorem fromFile_of_unparsed {content text : Str} (hread : loader.readToString path = .ok content)
    (h : loader.fromStr content = .error text) : fromFile loader path = .error text := by
  unfold fromFile
  rw [hread]
  show (loader.fromStr content >>= _) = _
  rw [h]
  rfl

/-- A file that is read and parsed is loaded if its configuration is valid. -/
theorem fromFile_of_holds {config : Config} (h : loader.Holds path config) :
    fromFile loader path = config.validate.map fun _ => config := by
  obtain ⟨content, hread, hparse⟩ := h
  unfold fromFile
  -- reading, parsing and validating, one after the other
  rw [hread]
  show (loader.fromStr content >>= _) = _
  rw [hparse]
  show (config.validate >>= _) = _
  cases config.validate <;> rfl

/-- A file cannot be read, cannot be parsed, or holds a configuration. -/
theorem fromFile_cases (loader : Loader) (path : Str) :
    (∃ text, fromFile loader path = .error text ∧ loader.Fault path text) ∨
      ∃ config, loader.Holds path config := by
  cases hread : loader.readToString path with
  | error text => exact Or.inl ⟨text, fromFile_of_unread hread, .read hread⟩
  | ok content =>
    cases hparse : loader.fromStr content with
    | error text => exact Or.inl ⟨text, fromFile_of_unparsed hread hparse, .parse hread hparse⟩
    | ok config => exact Or.inr ⟨config, content, hread, hparse⟩

/-- **What is loaded.** -/
theorem fromFile_eq_ok {config : Config} :
    fromFile loader path = .ok config ↔
      loader.Holds path config ∧ config.RoutesResolve ∧ config.IdsDistinct := by
  have hvalid : config.validate = .ok () ↔ config.RoutesResolve ∧ config.IdsDistinct :=
    validate_eq_ok
  rw [← hvalid]
  constructor
  · intro h
    -- what was loaded had been read and parsed, and is valid
    rcases fromFile_cases loader path with ⟨text, herror, -⟩ | ⟨loaded, hholds⟩
    · simp [herror] at h
    · rw [fromFile_of_holds hholds] at h
      cases hloaded : loaded.validate with
      | error text => simp [hloaded, Except.map] at h
      | ok u =>
        obtain rfl : loaded = config := by simpa [hloaded, Except.map] using h
        exact ⟨hholds, hloaded⟩
  · rintro ⟨hholds, hvalid⟩
    rw [fromFile_of_holds hholds, hvalid]
    rfl

/-- **What is reported.** -/
theorem fromFile_eq_error {text : Str} :
    fromFile loader path = .error text ↔ loader.Fault path text := by
  constructor
  · intro h
    rcases fromFile_cases loader path with ⟨text', herror, hfault⟩ | ⟨config, hholds⟩
    · obtain rfl : text' = text := by simpa [herror] using h
      exact hfault
    · rw [fromFile_of_holds hholds] at h
      cases hconfig : config.validate with
      | ok u => simp [hconfig, Except.map] at h
      | error text' =>
        obtain rfl : text' = text := by simpa [hconfig, Except.map] using h
        exact .config hholds (validate_eq_error.mp hconfig)
  · intro h
    cases h with
    | read hread => exact fromFile_of_unread hread
    | parse hread hparse => exact fromFile_of_unparsed hread hparse
    | config hholds hfault =>
      rw [fromFile_of_holds hholds, validate_eq_error.mpr hfault]
      rfl

end Config

end Sret
