import Sret.Foundation.Text

namespace Url

open Text

/-!
# Reading a URL

How a client takes an `http` URL apart: the authority is the text after the scheme up to the
first `/`, `?` or `#`, the path goes on to the first `?` or `#`, and the query follows a `?`.

* `parse` — the reading; `write` — the text that a scheme, an authority, a path and a query make
  when they are put one after the other;
* `parse_write_iff` — the text reads back as these parts exactly when the path is empty or starts
  with `/`, so that nothing of it can pass for a part of the authority;
* `TargetChars`, `TargetChars.IsTarget` — the text of a path with its query over any sets of
  characters for the two, as implementations differ in what they let through.
-/

/-- The parts of an `http` URL. -/
structure Parts where
  authority : Str
  path : Str
  query : Option Str
deriving DecidableEq

/-- The scheme. -/
def scheme : Str := "http://".toList

/-- The characters that end an authority. -/
def endsAuthority (c : Char) : Bool := c == '/' || c == '?' || c == '#'

/-- The characters that end a path. -/
def endsPath (c : Char) : Bool := c == '?' || c == '#'

/-- The query that what follows the path starts with. -/
def readQuery : Str → Option Str
  | '?' :: rest => some (before (· == '#') rest)
  | _ => none

/-- The parts of the URL. -/
def parse (url : Str) : Option Parts :=
  (stripPrefix url scheme).map fun rest =>
    let afterAuthority := fromFirst endsAuthority rest
    { authority := before endsAuthority rest
      path := before endsPath afterAuthority
      query := readQuery (fromFirst endsPath afterAuthority) }

/-- The text of a query, with its `?`. -/
def queryText : Option Str → Str
  | some query => '?' :: query
  | none => []

/-- The parts put one after the other. -/
def write (authority path : Str) (query : Option Str) : Str :=
  scheme ++ authority ++ path ++ queryText query

/-! ### Reading the parts back -/

/-- The query text starts with a delimiter, if it starts at all. -/
theorem head_queryText {query : Option Str} {c : Char} (h : (queryText query).head? = some c) :
    c = '?' := by
  cases query with
  | none => simp [queryText] at h
  | some q => simpa [queryText, eq_comm] using h

theorem readQuery_queryText {query : Option Str} (h : ∀ q, query = some q → '#' ∉ q) :
    readQuery (queryText query) = query := by
  cases query with
  | none => rfl
  | some q =>
    have hq : ∀ c ∈ q, (c == '#') = false := by
      intro c hc
      rw [beq_eq_false_iff_ne]
      rintro rfl
      exact h q rfl hc
    have hall := before_append hq []
    rw [List.append_nil] at hall
    rw [queryText, readQuery, hall, before, List.takeWhile_nil, List.append_nil]

/-- A delimiter of authorities at the head of a path that has no delimiter of paths is a slash. -/
theorem head_of_endsAuthority {path : Str} (hpath : ∀ c ∈ path, endsPath c = false)
    (hhead : ∀ c, path.head? = some c → endsAuthority c = true) :
    path = [] ∨ path.head? = some '/' := by
  cases path with
  | nil => exact Or.inl rfl
  | cons c rest =>
    have hc := hhead c rfl
    have hc' := hpath c (by simp)
    simp only [endsAuthority, Bool.or_eq_true] at hc
    simp only [endsPath, Bool.or_eq_false_iff] at hc'
    rcases hc with (hc | hc) | hc
    · exact Or.inr (by rw [List.head?_cons, beq_iff_eq.mp hc])
    · rw [hc'.1] at hc
      simp at hc
    · rw [hc'.2] at hc
      simp at hc

/-- **Round trip.**  Parts that are put one after the other read back exactly when the path is
    empty or starts with `/`. -/
theorem parse_write_iff {authority path : Str} {query : Option Str}
    (hauthority : ∀ c ∈ authority, endsAuthority c = false)
    (hpath : ∀ c ∈ path, endsPath c = false) (hquery : ∀ q, query = some q → '#' ∉ q) :
    parse (write authority path query) = some ⟨authority, path, query⟩ ↔
      path = [] ∨ path.head? = some '/' := by
  have hstrip : stripPrefix (write authority path query) scheme =
      some (authority ++ (path ++ queryText query)) := by
    rw [write, List.append_assoc, List.append_assoc]
    exact stripPrefix_append _ _
  have hquestion : ∀ c, (queryText query).head? = some c → endsPath c = true := by
    intro c hc
    rw [head_queryText hc]
    rfl
  rw [parse, hstrip, Option.map_some, Option.some.injEq, Parts.mk.injEq, before_append hauthority,
    fromFirst_append hauthority, List.append_right_eq_self, before_eq_nil]
  constructor
  · rintro ⟨hhead, -⟩
    refine head_of_endsAuthority hpath fun c hc => hhead c ?_
    rw [List.head?_append, hc, Option.some_or]
  · intro hstart
    -- the reading of the authority stops at the slash, or at what follows an empty path
    have hhead : ∀ c, (path ++ queryText query).head? = some c → endsAuthority c = true := by
      intro c hc
      rcases hstart with rfl | hslash
      · rw [List.nil_append] at hc
        rw [head_queryText hc]
        rfl
      · rw [List.head?_append, hslash, Option.some_or] at hc
        rw [← Option.some.inj hc]
        rfl
    rw [fromFirst_of_head hhead, before_append hpath, fromFirst_append hpath,
      before_eq_nil.mpr hquestion, fromFirst_of_head hquestion, List.append_nil]
    exact ⟨hhead, rfl, readQuery_queryText hquery⟩

/-! ### Targets -/

/-- The characters that a path and a query may consist of.  Which ones they are is left open, but
    neither part holds a delimiter that would have ended it. -/
structure TargetChars where
  path : Char → Bool
  query : Char → Bool
  path_closed : ∀ c, path c = true → c ≠ '?' ∧ c ≠ '#'
  query_closed : query '#' = false

/-- A path of legal characters that starts with `/`, and its query, if there is one. -/
def TargetChars.IsTarget (chars : TargetChars) (s : Str) : Prop :=
  ∃ path query, s = path ++ queryText query ∧ path.head? = some '/' ∧
    (∀ c ∈ path, chars.path c = true) ∧ ∀ q, query = some q → ∀ c ∈ q, chars.query c = true

theorem TargetChars.IsTarget.head? {chars : TargetChars} {s : Str} (h : chars.IsTarget s) :
    s.head? = some '/' := by
  obtain ⟨path, query, rfl, hrooted, -⟩ := h
  rw [List.head?_append, hrooted, Option.some_or]

/-- Every beginning of a target is a target. -/
theorem TargetChars.IsTarget.of_append {chars : TargetChars} {s t : Str}
    (h : chars.IsTarget (s ++ t)) (hs : s.head? = some '/') : chars.IsTarget s := by
  obtain ⟨path, query, htext, hrooted, hpath, hquery⟩ := h
  rcases List.append_eq_append_iff.mp htext with ⟨rest, rfl, -⟩ | ⟨rest, rfl, hrest⟩
  · -- it ends inside the path
    exact ⟨s, none, by simp [queryText], hs, fun c hc => hpath c (List.mem_append_left _ hc),
      by simp⟩
  · cases rest with
    | nil => exact ⟨path, none, rfl, hrooted, hpath, by simp⟩
    | cons c rest =>
      -- it ends inside the query
      cases query with
      | none => simp [queryText] at hrest
      | some q =>
        obtain ⟨rfl, rfl⟩ : '?' = c ∧ q = rest ++ t := by simpa [queryText] using hrest
        refine ⟨path, some rest, rfl, hrooted, hpath, ?_⟩
        rintro q' hq' d hd
        obtain rfl := Option.some.inj hq'
        exact hquery _ rfl d (List.mem_append_left _ hd)

end Url
