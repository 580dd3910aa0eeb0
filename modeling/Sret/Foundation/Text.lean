import Mathlib.Data.List.DropRight
import Mathlib.Data.Nat.Digits.Defs

namespace Text

/-!
# Text as lists of characters

A string is the list of its characters, and the string functions of Rust's standard library
that this development needs are functions on that list:

* `startsWith`, `stripPrefix`, `trim`, `decimal`, `parseUnsigned` — the library functions
  `str::starts_with`, `str::strip_prefix`, `str::trim`, the `Display` form of an unsigned
  integer and `str::parse` at an unsigned type;
* `before` — the text up to the first character that satisfies a predicate.

Splitting at a character is `List.splitOn`, whose first piece is the text `before` it
(`headD_splitOn`).
-/

/-- A string, as the list of its characters. -/
abbrev Str := List Char

/-- `str::starts_with` with a string pattern. -/
def startsWith (s p : Str) : Bool := p.isPrefixOf s

/-- `str::strip_prefix` with a string pattern. -/
def stripPrefix (s p : Str) : Option Str :=
  if startsWith s p then some (s.drop p.length) else none

/-- The test is that for a prefix. -/
theorem startsWith_iff {s p : Str} : startsWith s p = true ↔ p <+: s := by
  simp [startsWith]

/-- Stripping a prefix leaves what follows it. -/
theorem stripPrefix_append (p t : Str) : stripPrefix (p ++ t) p = some t := by
  simp [stripPrefix, startsWith]

/-- What is left is what follows the prefix. -/
theorem stripPrefix_eq_some {s p t : Str} : stripPrefix s p = some t ↔ s = p ++ t := by
  constructor
  · intro h
    by_cases hp : startsWith s p = true
    · obtain ⟨r, rfl⟩ := startsWith_iff.mp hp
      rw [stripPrefix_append] at h
      rw [Option.some.inj h]
    · simp [stripPrefix, hp] at h
  · rintro rfl
    exact stripPrefix_append p t

/-- The characters with Unicode property `White_Space`, as in `char::is_whitespace`. -/
def isWhitespace (c : Char) : Bool :=
  (9 ≤ c.toNat && c.toNat ≤ 13) || c.toNat == 0x20 || c.toNat == 0x85 || c.toNat == 0xA0 ||
    c.toNat == 0x1680 || (0x2000 ≤ c.toNat && c.toNat ≤ 0x200A) || c.toNat == 0x2028 ||
    c.toNat == 0x2029 || c.toNat == 0x202F || c.toNat == 0x205F || c.toNat == 0x3000

/-- `str::trim`. -/
def trim (s : Str) : Str := (s.dropWhile isWhitespace).rdropWhile isWhitespace

/-- The `Display` form of an unsigned integer. -/
def decimal (n : Nat) : Str := Nat.toDigits 10 n

/-- The value of a string of ASCII digits. -/
def digitsValue (s : Str) : Nat := s.foldl (fun n c => 10 * n + (c.toNat - '0'.toNat)) 0

/-- `str::parse` at an unsigned integer type with values below `bound`: an optional `+`, then
    at least one digit and nothing but digits. -/
def parseUnsigned (bound : Nat) (s : Str) : Option Nat :=
  let digits := match s with
    | '+' :: rest => rest
    | _ => s
  if digits ≠ [] ∧ digits.all Char.isDigit ∧ digitsValue digits < bound then
    some (digitsValue digits)
  else none

/-- The text before the first character that satisfies `stop`. -/
def before (stop : Char → Bool) (s : Str) : Str := s.takeWhile (fun c => !stop c)

/-- The text from the first character that satisfies `stop` on. -/
def fromFirst (stop : Char → Bool) (s : Str) : Str := s.dropWhile (fun c => !stop c)

/-! ### Reading up to a delimiter -/

/-- Text without a delimiter is passed over. -/
theorem before_append {stop : Char → Bool} {s : Str} (h : ∀ c ∈ s, stop c = false) (t : Str) :
    before stop (s ++ t) = s ++ before stop t := by
  rw [before, List.takeWhile_append_of_pos (by simpa using h), before]

/-- The search goes on behind a part without a stop. -/
theorem fromFirst_append {stop : Char → Bool} {s : Str} (h : ∀ c ∈ s, stop c = false) (t : Str) :
    fromFirst stop (s ++ t) = fromFirst stop t := by
  rw [fromFirst, List.dropWhile_append_of_pos (by simpa using h), fromFirst]

/-- Nothing comes before a delimiter at the head. -/
theorem before_eq_nil {stop : Char → Bool} {s : Str} :
    before stop s = [] ↔ ∀ c, s.head? = some c → stop c = true := by
  cases s with
  | nil => simp [before]
  | cons c rest => cases h : stop c <;> simp [before, h]

/-- A text that begins with a stop is left as it is. -/
theorem fromFirst_of_head {stop : Char → Bool} {s : Str}
    (h : ∀ c, s.head? = some c → stop c = true) : fromFirst stop s = s := by
  cases s with
  | nil => rfl
  | cons c rest => simp [fromFirst, h c rfl]

/-- The first piece of a text that is split at a character is the text before it. -/
theorem headD_splitOn (c : Char) (s t : Str) : (s.splitOn c).headD t = before (· == c) s := by
  induction s with
  | nil => rfl
  | cons x s ih =>
    rw [List.splitOn_cons_eq_if_modifyHead, before]
    cases hx : x == c with
    | true => simp [hx]
    | false =>
      obtain ⟨piece, pieces, hs⟩ := List.exists_cons_of_ne_nil (List.splitOn_ne_nil c s)
      rw [hs] at ih ⊢
      simp only [List.headD_cons] at ih
      simp [hx, ih, before]

end Text
