import Orchestration.Policy.Fallback
import Orchestration.Policy.Retry
import Orchestration.Policy.Timeout

/-!
# Policy sets

A set holds at most one policy of each kind. They are layered in a fixed order: every attempt has
its own time limit, attempts run out before the stand-in is tried, and the stand-in runs once,
without limit and without further attempts.
-/

namespace Orchestration

/-- At most one policy of each kind. -/
structure PolicySet (ι ω : Kind) where
  retry : Option RetryPolicy
  timeout : Option Duration
  fallback : Option (Agent ι ω)

namespace PolicySet

variable {ι ω : Kind}

def empty : PolicySet ι ω := ⟨none, none, none⟩

def isEmpty (p : PolicySet ι ω) : Bool := p.retry.isNone && p.timeout.isNone && p.fallback.isNone

private def described {α : Type} (text : α → String) : Option α → String
  | none => "None"
  | some a => "Some(" ++ text a ++ ")"

/-- The set's description; the stand-in is shown by its name. -/
def description (p : PolicySet ι ω) : String :=
  "PolicySet \x7b retry: " ++ described RetryPolicy.description p.retry ++
    ", timeout: " ++ described Duration.text p.timeout ++
    ", fallback: " ++ described (fun a => Text.quoted a.name) p.fallback ++ " \x7d"

end PolicySet

/-- The agent under a set of policies: the time limit innermost, the stand-in outermost. -/
def Agent.withPolicies {ι ω : Kind} (a : Agent ι ω) (p : PolicySet ι ω) : Agent ι ω :=
  let a := p.timeout.elim a a.timingOut
  let a := p.retry.elim a a.retrying
  p.fallback.elim a a.orElse

end Orchestration
