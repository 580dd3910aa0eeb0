import Sret.Foundation.Text

namespace Sret

open Text

/-!
# HTTP messages

The parts of `hyper`'s and `http`'s data model that the proxy reads and writes:

* `HeaderValue` — a byte string of the bytes a field value may hold; `toStr` succeeds on visible
  ASCII only;
* `HeaderMap` — the field lines of a message, a name possibly on several lines; `get` reads the
  first line of a name, `append` adds a line;
* `Uri` — the path and query of a request target that starts with `/`, which cannot contain the
  delimiters that end them;
* `Method`, `StatusCode`, `Request`, `Response`.
-/

/-! ### Header values -/

/-- The bytes a field value may hold (`HeaderValue::from_bytes`). -/
def isHeaderByte (b : UInt8) : Bool := (32 ≤ b.toNat && b.toNat != 127) || b.toNat == 9

/-- The bytes that `HeaderValue::to_str` accepts. -/
def isVisibleByte (b : UInt8) : Bool := (32 ≤ b.toNat && b.toNat < 127) || b.toNat == 9

/-- The characters of the strings that `HeaderValue::to_str` returns. -/
def isVisibleChar (c : Char) : Bool := (32 ≤ c.toNat && c.toNat < 127) || c.toNat == 9

/-- A digit is visible. -/
theorem visible_of_digit {c : Char} (h : c.isDigit = true) : isVisibleChar c = true := by
  simp only [Char.isDigit, Bool.and_eq_true, decide_eq_true_eq] at h
  have hlo : 48 ≤ c.toNat := UInt32.le_iff_toNat_le.mp h.1
  have hhi : c.toNat ≤ 57 := UInt32.le_iff_toNat_le.mp h.2
  simp only [isVisibleChar, Bool.or_eq_true, Bool.and_eq_true, decide_eq_true_eq]
  exact Or.inl ⟨by omega, by omega⟩

/-- A field value. -/
structure HeaderValue where
  bytes : List UInt8
  legal : bytes.all isHeaderByte = true
deriving DecidableEq

namespace HeaderValue

/-- `HeaderValue::to_str`: the value as a string, when all its bytes are visible ASCII. -/
def toStr (v : HeaderValue) : Option Str :=
  if v.bytes.all isVisibleByte then some (v.bytes.map (fun b => Char.ofNat b.toNat)) else none

/-- A byte and its character have the same number. -/
theorem toNat_charOfByte {n : Nat} (h : n < 256) : (Char.ofNat n).toNat = n := by
  have hv : n.isValidChar := Or.inl (by omega)
  rw [Char.ofNat, dif_pos hv]
  rfl

/-- A visible character and its byte have the same number. -/
theorem byte_of_visible {c : Char} (h : isVisibleChar c = true) :
    (UInt8.ofNat c.toNat).toNat = c.toNat := by
  simp only [isVisibleChar, Bool.or_eq_true, Bool.and_eq_true, decide_eq_true_eq,
    beq_iff_eq] at h
  simp only [UInt8.toNat_ofNat']
  omega

/-- The field value that spells a visible ASCII string. -/
def ofStr (s : Str) (h : s.all isVisibleChar = true) : HeaderValue where
  bytes := s.map (fun c => UInt8.ofNat c.toNat)
  legal := by
    simp only [List.all_map, List.all_eq_true, Function.comp_apply]
    intro c hc
    -- a visible character is a legal byte
    have hv := List.all_eq_true.mp h c hc
    rw [isHeaderByte, byte_of_visible hv]
    simp only [isVisibleChar, Bool.or_eq_true, Bool.and_eq_true, decide_eq_true_eq,
      beq_iff_eq] at hv
    simp only [Bool.or_eq_true, Bool.and_eq_true, decide_eq_true_eq, bne_iff_ne, beq_iff_eq]
    omega

/-- `to_str` gives the spelled string back. -/
@[simp] theorem toStr_ofStr (s : Str) (h : s.all isVisibleChar = true) :
    (ofStr s h).toStr = some s := by
  have hbytes : (ofStr s h).bytes.all isVisibleByte = true := by
    simp only [ofStr, List.all_map, List.all_eq_true, Function.comp_apply]
    intro c hc
    rw [isVisibleByte, byte_of_visible (List.all_eq_true.mp h c hc)]
    exact List.all_eq_true.mp h c hc
  -- a visible character survives the way to its byte and back
  rw [toStr, if_pos hbytes, ofStr, List.map_map]
  congr 1
  conv_rhs => rw [← List.map_id s]
  refine List.map_congr_left fun c hc => ?_
  simp only [Function.comp_apply, byte_of_visible (List.all_eq_true.mp h c hc), id]
  exact Char.ofNat_toNat c

/-- What `to_str` returns is visible ASCII. -/
theorem visible_of_toStr {v : HeaderValue} {s : Str} (h : v.toStr = some s) :
    s.all isVisibleChar = true := by
  -- the value has been read only if all its bytes are visible
  by_cases hv : v.bytes.all isVisibleByte = true
  · rw [toStr, if_pos hv] at h
    obtain rfl := Option.some.inj h
    simp only [List.all_map, List.all_eq_true, Function.comp_apply]
    intro b hb
    have hb' := List.all_eq_true.mp hv b hb
    rw [isVisibleChar, toNat_charOfByte b.toNat_lt]
    exact hb'
  · simp [toStr, hv] at h

/-- A visible value is determined by its text. -/
theorem toStr_inj {v w : HeaderValue} {s : Str} (hv : v.toStr = some s) (hw : w.toStr = some s) :
    v = w := by
  -- the text spells the bytes
  have hbytes : ∀ {u : HeaderValue}, u.toStr = some s →
      u.bytes = s.map (fun c => UInt8.ofNat c.toNat) := by
    intro u hu
    unfold toStr at hu
    split at hu
    · rw [← Option.some.inj hu, List.map_map]
      conv_lhs => rw [← List.map_id u.bytes]
      refine List.map_congr_left fun b _ => ?_
      simp [toNat_charOfByte b.toNat_lt]
    · simp at hu
  obtain ⟨vb, hvl⟩ := v
  obtain ⟨wb, hwl⟩ := w
  obtain rfl : vb = wb := (hbytes hv).trans (hbytes hw).symm
  rfl

end HeaderValue

/-! ### Header maps -/

/-- A field name, in the lower-case form in which `http` keeps it. -/
abbrev HeaderName := Str

namespace HeaderName

/-- The host that a request is for. -/
def host : HeaderName := "host".toList

/-- The cookies of a request. -/
def cookie : HeaderName := "cookie".toList

/-- The credentials of a request. -/
def authorization : HeaderName := "authorization".toList

/-- The directives for caches. -/
def cacheControl : HeaderName := "cache-control".toList

/-- The date until which a response is fresh. -/
def expires : HeaderName := "expires".toList

/-- The validator of a response. -/
def etag : HeaderName := "etag".toList

/-- The date of a response. -/
def lastModified : HeaderName := "last-modified".toList

/-- The line that a hit adds. -/
def xCache : HeaderName := "x-cache".toList

/-- The line in which a hit says how old it is. -/
def xCacheAge : HeaderName := "x-cache-age".toList

end HeaderName

/-- The field lines of a message.  Those of one name are in order.  How the lines of different names
    stand to each other is not modelled: the list has them as they came, `http::HeaderMap` goes
    through them name by name. -/
structure HeaderMap where
  lines : List (HeaderName × HeaderValue)
deriving DecidableEq

namespace HeaderMap

/-- A message without field lines. -/
def empty : HeaderMap := ⟨[]⟩

/-- The values of a name, in order. -/
def getAll (h : HeaderMap) (name : HeaderName) : List HeaderValue :=
  (h.lines.filter (fun l => l.1 = name)).map Prod.snd

/-- `HeaderMap::get`: the first value of a name. -/
def get (h : HeaderMap) (name : HeaderName) : Option HeaderValue := (h.getAll name).head?

/-- `HeaderMap::append`: one more line. -/
def append (h : HeaderMap) (name : HeaderName) (v : HeaderValue) : HeaderMap :=
  ⟨h.lines ++ [(name, v)]⟩

/-- No line, no value. -/
@[simp] theorem getAll_empty (name : HeaderName) : empty.getAll name = [] := rfl

/-- A new line of another name changes nothing. -/
theorem getAll_append_of_ne {name name' : HeaderName} (hne : name ≠ name') (h : HeaderMap)
    (v : HeaderValue) : (h.append name v).getAll name' = h.getAll name' := by
  simp [getAll, append, hne]

end HeaderMap

/-! ### Request targets -/

/-- The path and query of a request target, as `hyper` delivers them: the path starts with `/`,
    and neither part contains a character that would have ended it.  Left out are the targets
    without such a path: the `*` of OPTIONS, and the host and port of CONNECT with an empty one. -/
structure Uri where
  path : Str
  query : Option Str
  path_rooted : path.head? = some '/'
  path_closed : ∀ c ∈ path, c ≠ '?' ∧ c ≠ '#'
  query_closed : ∀ q, query = some q → '#' ∉ q

/-- The test that a path and a query can be the parts of a target. -/
def Uri.isTarget (path : Str) (query : Option Str) : Bool :=
  path.head? == some '/' && path.all (fun c => c != '?' && c != '#') &&
    (query.getD []).all (fun c => c != '#')

/-- The target with the given path and query, when they pass the test. -/
def Uri.ofParts (path : Str) (query : Option Str) (h : Uri.isTarget path query = true) : Uri where
  path := path
  query := query
  path_rooted := by
    simp only [isTarget, Bool.and_eq_true, beq_iff_eq] at h
    exact h.1.1
  path_closed := by
    simp only [isTarget, Bool.and_eq_true, List.all_eq_true, bne_iff_ne] at h
    exact h.1.2
  query_closed := by
    simp only [isTarget, Bool.and_eq_true, List.all_eq_true, bne_iff_ne] at h
    rintro q rfl hmem
    exact h.2 '#' hmem rfl

/-- The target `/`. -/
def Uri.root : Uri := Uri.ofParts ['/'] none (by decide)

/-! ### Methods, status codes, messages -/

/-- `http::Method`. -/
inductive Method
  | options | get | post | put | delete | head | trace | connect | patch
  | extension (name : Str)
deriving DecidableEq

/-- `Method::as_str`. -/
def Method.asStr : Method → Str
  | .options => "OPTIONS".toList
  | .get => "GET".toList
  | .post => "POST".toList
  | .put => "PUT".toList
  | .delete => "DELETE".toList
  | .head => "HEAD".toList
  | .trace => "TRACE".toList
  | .connect => "CONNECT".toList
  | .patch => "PATCH".toList
  | .extension name => name

/-- A status code, as its number. -/
abbrev StatusCode := Nat

/-- A request whose body has not been read yet. -/
structure Request where
  method : Method
  uri : Uri
  headers : HeaderMap

/-- A response with its whole body. -/
structure Response where
  status : StatusCode
  headers : HeaderMap
  body : List UInt8
deriving DecidableEq

end Sret
