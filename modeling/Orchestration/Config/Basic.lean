import Orchestration.Policy.Set

/-!
# Configuration

A configuration limits the concurrency of runs and gives agents policies. Every part of it may be
absent. Merging prefers the newer parts.
-/

namespace Orchestration

structure RunnerConfig where
  maxConcurrency : Option UInt64
deriving DecidableEq

structure RetryConfig where
  maxAttempts : UInt32
  backoffMillis : UInt64
  multiplier : Option Binary64
  maxBackoffMillis : Option UInt64
deriving DecidableEq

structure PolicyConfig where
  retry : Option RetryConfig
  timeoutMillis : Option UInt64
deriving DecidableEq

structure Config where
  runner : RunnerConfig
  policies : PolicyConfig
deriving DecidableEq

/-- The cap of growing waits where none is configured. -/
def RetryConfig.standardCap : Duration := .ofMillis 10000

/-- The retry policy that the section describes: with a multiplier the wait grows, without one it
stays the same. -/
def RetryConfig.policy (c : RetryConfig) : RetryPolicy :=
  let base := Duration.ofMillis c.backoffMillis
  .atLeastOne c.maxAttempts <| match c.multiplier with
    | some factor => .exponential base factor ((c.maxBackoffMillis.map .ofMillis).getD standardCap)
    | none => .fixed base

namespace PolicyConfig

def timeout (c : PolicyConfig) : Option Duration := c.timeoutMillis.map .ofMillis

/-- The policies for an agent, with a stand-in for it if there is one. -/
def policySet {ι ω : Kind} (c : PolicyConfig) (fallback : Option (Agent ι ω)) : PolicySet ι ω :=
  ⟨c.retry.map RetryConfig.policy, c.timeout, fallback⟩

end PolicyConfig

namespace Config

def default : Config := ⟨⟨none⟩, ⟨none, none⟩⟩

instance : Inhabited Config := ⟨default⟩

def merge (older newer : Config) : Config where
  runner := ⟨newer.runner.maxConcurrency <|> older.runner.maxConcurrency⟩
  policies := ⟨newer.policies.retry <|> older.policies.retry,
    newer.policies.timeoutMillis <|> older.policies.timeoutMillis⟩

def maxConcurrency (c : Config) : Option Nat := c.runner.maxConcurrency.map (·.toNat)

end Config

/-- Equality of retry sections, with multipliers compared as numbers. -/
def RetryConfig.equals (a b : RetryConfig) : Bool :=
  a.maxAttempts = b.maxAttempts && a.backoffMillis = b.backoffMillis &&
    (match a.multiplier, b.multiplier with
      | some x, some y => x.equals y
      | none, none => true
      | _, _ => false) &&
    a.maxBackoffMillis = b.maxBackoffMillis

/-- Equality of configurations, with multipliers compared as numbers. -/
def Config.equals (a b : Config) : Bool :=
  a.runner = b.runner && a.policies.timeoutMillis = b.policies.timeoutMillis &&
    match a.policies.retry, b.policies.retry with
      | some x, some y => x.equals y
      | none, none => true
      | _, _ => false

end Orchestration
