import Orchestration.Agent
import Orchestration.Policy.Backoff

/-!
# Further attempts

A retrying agent works on a copy of its input. When an attempt fails recoverably, attempts are left
and the context is not cancelled, it waits and tries again, on another copy.
-/

namespace Orchestration

structure RetryPolicy where
  maxAttempts : UInt32
  backoff : Backoff
deriving DecidableEq

namespace RetryPolicy

def atLeastOne (maxAttempts : UInt32) (backoff : Backoff) : RetryPolicy :=
  ⟨if maxAttempts = 0 then 1 else maxAttempts, backoff⟩

def fixed (maxAttempts : UInt32) (delay : Duration) : RetryPolicy :=
  atLeastOne maxAttempts (.fixed delay)

def single : RetryPolicy := atLeastOne 1 .none

def standard : RetryPolicy := atLeastOne 3 .standard

/-- The attempts after the first one; a policy of none has one attempt all the same. -/
def furtherAttempts (p : RetryPolicy) : Nat := p.maxAttempts.toNat - 1

def description (p : RetryPolicy) : String :=
  "RetryPolicy \x7b max_attempts: " ++ toString p.maxAttempts.toNat ++ ", backoff: " ++
    p.backoff.description ++ " \x7d"

end RetryPolicy

namespace Agent

variable {ι ω : Kind}

/-- One attempt, and on failure up to `left` further ones, after `failures` attempts that failed. -/
def attempts (a : Agent ι ω) (backoff : Backoff) (input : Datum ι) (c : Context) :
    (left failures : Nat) → Call (Datum ω)
  | left, failures => withCopy input failures fun copy => (a.execute copy c).andThen fun
    | .failure f =>
      if f.recoverable then
        match left with
        | 0 => .finish (.failure f)
        | left + 1 => .act (.inspect c) fun cancelled =>
          if cancelled then .finish (.failure f)
          else .sleep (backoff.delay (failures + 1)).waitMillis
            (a.attempts backoff input c left (failures + 1))
      else .finish (.failure f)
    | ending => .finish ending

def retrying (a : Agent ι ω) (p : RetryPolicy) : Agent ι ω where
  id := .retrying a.id
  name := a.name
  start input c := a.attempts p.backoff input c p.furtherAttempts 0

end Agent

end Orchestration
