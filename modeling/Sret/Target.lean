import Mathlib.Algebra.Order.Field.Rat
import Mathlib.Order.WithBot
import Sret.Config
import Sret.Platform

namespace Sret

open Text

/-!
# Targets

One backend of an upstream.  The source keeps the health flag, the connection count and the
time of the last check in atomics that every holder of the `Arc<Target>` shares; here they are
fields, and the function that writes them returns the changed target.  Nothing in the program calls
the functions that change the connection count, so a count is only read.
-/

/-- The number of values of `usize`. -/
def usizeSize : Nat := 2 ^ 64

/-- A target: what is configured, and what the checks have found. -/
structure Target where
  id : Str
  host : Str
  port : Nat
  weight : Nat
  healthCheckPath : Option Str
  healthy : Bool
  activeConnections : Nat
  lastHealthCheck : Option Instant
deriving DecidableEq

namespace Target

/-- `Target::new`: healthy, without connections, never checked. -/
def new (config : TargetConfig) : Target where
  id := config.host ++ ":".toList ++ decimal config.port
  host := config.host
  port := config.port
  weight := config.getWeight
  healthCheckPath := config.healthCheckPath
  healthy := true
  activeConnections := 0
  lastHealthCheck := none

/-- `Target::is_healthy`. -/
def isHealthy (t : Target) : Bool := t.healthy

/-- `Target::set_healthy`, which also notes the time. -/
def setHealthy (t : Target) (healthy : Bool) (now : Instant) : Target :=
  { t with healthy := healthy, lastHealthCheck := some now }

/-- `Target::effective_weight`. -/
def effectiveWeight (t : Target) : Nat := if t.isHealthy then t.weight else 0

/-- `Target::connection_score`, as an exact rational; `⊤` is the source's `f64::INFINITY`. -/
def connectionScore (t : Target) : WithTop ℚ :=
  if t.isHealthy then ((t.activeConnections / max (t.weight : ℚ) 1 : ℚ) : WithTop ℚ) else ⊤

/-- A healthy target has its full weight. -/
theorem effectiveWeight_of_healthy {t : Target} (h : t.isHealthy = true) :
    t.effectiveWeight = t.weight := by
  simp [effectiveWeight, h]

/-- A target without connections has the lowest score there is. -/
theorem connectionScore_of_idle {t : Target} (h : t.isHealthy = true)
    (h0 : t.activeConnections = 0) : t.connectionScore = 0 := by
  simp [connectionScore, h, h0]

end Target

end Sret
