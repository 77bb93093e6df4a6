import Orchestration.Duration.Scaling
import Orchestration.Binary64.Decimal

/-!
# Waiting between attempts

After a failed attempt the next one waits, either always for the same time, or for a time that is
multiplied with each failure and capped.
-/

namespace Orchestration

inductive Backoff where
  | fixed (delay : Duration)
  | exponential (base : Duration) (factor : Binary64) (cap : Duration)
deriving DecidableEq

namespace Backoff

def none : Backoff := fixed .zero

def standard : Backoff := fixed (.ofMillis 100)

def maxExponent : Nat := 2_147_483_647

/-- The base times a finite factor, but not above the cap. The product is compared with the cap
before it becomes a duration, so that it is one. -/
def capped? (base : Duration) (scale : Binary64) (cap : Duration) : Option Duration :=
  if !scale.isFinite then some cap
  else if scale.atMost .zero then some .zero
  else if cap.toSeconds.atMost (base.toSeconds.times scale) then some cap
  else (base.scale? scale).map (·.shorter cap)

/-- The wait after so many failed attempts, provided that the scaled base is a duration. -/
def delay? : Backoff → Nat → Option Duration
  | _, 0 => some .zero
  | fixed delay, _ + 1 => some delay
  | exponential base factor cap, n + 1 => capped? base (factor.pow (min n maxExponent)) cap

def delay (b : Backoff) (failures : Nat) : Duration := (b.delay? failures).getD .zero

def description : Backoff → String
  | fixed delay => "Fixed(" ++ delay.text ++ ")"
  | exponential base factor cap =>
    "Exponential \x7b base: " ++ base.text ++ ", factor: " ++ factor.displayText ++
      ", max: " ++ cap.text ++ " \x7d"

end Backoff

end Orchestration
