import Sret.Foundation.Text

namespace Sret

open Text

/-!
# The platform under the proxy

What the program takes from outside its own source:

* `Duration`, `Instant`, `SystemTime` — Rust's time types, in nanoseconds.  `Instant + Duration`
  panics when the seconds of the sum leave the signed 64-bit range; `Instant::checkedAdd` tells
  when;
* `Clock` — the readings that the clocks give to one call;
* `Platform` — Unicode lower-casing, whose tables come with the toolchain, and the HTTP date
  parser of the `httpdate` crate.  The results hold for every platform.
-/

/-- A span of time in nanoseconds. -/
abbrev Duration := Nat

/-- A reading of the monotonic clock, in nanoseconds since its origin. -/
abbrev Instant := Nat

/-- A reading of the wall clock, in nanoseconds since the Unix epoch. -/
abbrev SystemTime := Nat

/-- Nanoseconds in a second. -/
def nanosPerSec : Nat := 1000000000

/-- `Duration::from_secs`. -/
def Duration.fromSecs (secs : Nat) : Duration := secs * nanosPerSec

/-- `Duration::as_secs`: whole seconds. -/
def Duration.asSecs (d : Duration) : Nat := d / nanosPerSec

/-- `Instant::checked_add`, the sum that `Instant + Duration` panics without. -/
def Instant.checkedAdd (t : Instant) (d : Duration) : Option Instant :=
  if (t + d) / nanosPerSec < 2 ^ 63 then some (t + d) else none

/-- `Instant::duration_since`, zero when the other instant is later. -/
def Instant.durationSince (t earlier : Instant) : Duration := t - earlier

/-- A sum that is in range is the sum. -/
theorem Instant.checkedAdd_eq_some {t : Instant} {d : Duration} {u : Instant}
    (h : Instant.checkedAdd t d = some u) : u = t + d := by
  unfold Instant.checkedAdd at h
  split at h
  · exact (Option.some.inj h).symm
  · simp at h

/-- The seconds that an `Instant` can hold. -/
def Instant.InRange (t : Instant) : Prop := t / nanosPerSec < 2 ^ 63

/-- In range there is a sum. -/
theorem Instant.checkedAdd_of_inRange {t : Instant} {d : Duration} (h : Instant.InRange (t + d)) :
    Instant.checkedAdd t d = some (t + d) := if_pos h

/-- There is none exactly if it would be out of range. -/
theorem Instant.checkedAdd_eq_none {t : Instant} {d : Duration} :
    Instant.checkedAdd t d = none ↔ ¬ Instant.InRange (t + d) := by
  constructor
  · intro hnone h
    rw [Instant.checkedAdd_of_inRange h] at hnone
    simp at hnone
  · intro h
    exact if_neg h

/-- Adding whole seconds. -/
theorem Instant.inRange_add_fromSecs {t : Instant} {secs : Nat} :
    Instant.InRange (t + Duration.fromSecs secs) ↔ Duration.asSecs t + secs < 2 ^ 63 := by
  rw [Instant.InRange, Duration.fromSecs, Duration.asSecs,
    Nat.add_mul_div_right _ _ (show 0 < nanosPerSec by decide)]

/-- The clock readings of one call. -/
structure Clock where
  instant : Instant
  system : SystemTime
deriving DecidableEq

/-- The parts of the platform that the program's answers depend on. -/
structure Platform where
  /-- `str::to_lowercase`. -/
  toLowercase : Str → Str
  /-- On ASCII, `to_lowercase` maps the letters one by one. -/
  toLowercase_ascii : ∀ s : Str, (∀ c ∈ s, c.toNat < 128) → toLowercase s = s.map Char.toLower
  /-- `httpdate::parse_http_date`. -/
  parseHttpDate : Str → Option SystemTime

/-- A platform that knows the ASCII letters only and no dates. -/
def Platform.ascii : Platform where
  toLowercase s := s.map Char.toLower
  toLowercase_ascii _ _ := rfl
  parseHttpDate _ := none

end Sret
