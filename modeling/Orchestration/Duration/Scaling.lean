import Orchestration.Duration
import Orchestration.Binary64.Basic

/-!
# Durations times floating point numbers

A duration is scaled in floating point seconds: the seconds and the fraction are rounded on their
own, then their sum, then the product. The product goes back to nanoseconds exactly, and there is no
result unless it is a number of seconds from zero up to the longest duration.
-/

namespace Orchestration

namespace Duration

/-- The duration in seconds; each of the two conversions and the sum round. -/
def toSeconds (d : Duration) : Binary64 :=
  match Binary64.ofRatio false d.seconds 1, Binary64.ofRatio false d.fraction nanosPerSecond with
  | .finite _ whole, .finite _ part => .roundedUnits false (whole.units + part.units) 1
  | _, _ => .nan

/-- The duration of so many seconds, to the nearest nanosecond, the even one of two. -/
def ofSeconds? : Binary64 → Option Duration
  | .finite negative m =>
    if negative ∧ m.units ≠ 0 then none
    else ofNanos? (roundHalfEven (m.units * nanosPerSecond) unitsPerOne)
  | _ => none

def scale? (d : Duration) (factor : Binary64) : Option Duration :=
  ofSeconds? (factor.times d.toSeconds)

end Duration

end Orchestration
