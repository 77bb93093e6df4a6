import Orchestration.Config.Basic
import Orchestration.Toml.Document
import Orchestration.Toml.Printer

/-!
# Configurations as TOML

A configuration is read from the sections `runner`, `policies` and `policies.retry`. What else a
document holds is ignored. A section may also be given as an array of its parts in order. What is
written reads back, except that numbers above the largest integer of the format cannot be written.
-/

namespace Orchestration.Config

/-! ## Reading -/

/-- The parts of a section, by name or in order. -/
inductive Parts where
  | named (entries : List (String × Toml.Value))
  | listed (items : List Toml.Value)

namespace Parts

/-- A date is a section that says nothing. -/
def ofValue? : Toml.Value → Option Parts
  | .table _ entries => some (named entries)
  | .array items => some (listed items)
  | .tables elements => some (listed (elements.map (.table .header)))
  | .moment => some (named [])
  | _ => none

/-- The part with a name, which comes so many parts after the first one. -/
def get? (p : Parts) (index : Nat) (name : String) : Option Toml.Value :=
  match p with
  | named entries => entries.lookup name
  | listed items => items[index]?

def required? {α : Type} (p : Parts) (index : Nat) (name : String) (read : Toml.Value → Option α) :
    Option α :=
  (p.get? index name).bind read

/-- A part that may be absent, but not malformed. -/
def optional? {α : Type} (p : Parts) (index : Nat) (name : String) (read : Toml.Value → Option α) :
    Option (Option α) :=
  match p.get? index name with
  | none => some none
  | some v => (read v).map some

end Parts

def natBelow? (bound : Nat) : Toml.Value → Option Nat
  | .integer n => if 0 ≤ n ∧ n < bound then some n.toNat else none
  | _ => none

def word64? (v : Toml.Value) : Option UInt64 := (natBelow? UInt64.size v).map UInt64.ofNat

def word32? (v : Toml.Value) : Option UInt32 := (natBelow? UInt32.size v).map UInt32.ofNat

/-- A number; an integer stands for the float nearest to it. -/
def number? : Toml.Value → Option Binary64
  | .float x => some x
  | .integer n => some (.ofRatio (n < 0) n.natAbs 1)
  | _ => none

def runner? (v : Toml.Value) : Option RunnerConfig := do
  let parts ← Parts.ofValue? v
  return ⟨← parts.optional? 0 "max_concurrency" word64?⟩

def retry? (v : Toml.Value) : Option RetryConfig := do
  let parts ← Parts.ofValue? v
  return {
    maxAttempts := ← parts.required? 0 "max_attempts" word32?
    backoffMillis := ← parts.required? 1 "backoff_ms" word64?
    multiplier := ← parts.optional? 2 "backoff_multiplier" number?
    maxBackoffMillis := ← parts.optional? 3 "max_backoff_ms" word64? }

def policies? (v : Toml.Value) : Option PolicyConfig := do
  let parts ← Parts.ofValue? v
  return ⟨← parts.optional? 0 "retry" retry?, ← parts.optional? 1 "timeout_ms" word64?⟩

def ofToml? (document : String) : Option Config := do
  let t ← Toml.parse document
  let root := Parts.named t.entries
  return {
    runner := (← root.optional? 0 "runner" runner?).getD default.runner
    policies := (← root.optional? 1 "policies" policies?).getD default.policies }

/-! ## Writing -/

def written (n : Option UInt64) : Option Toml.Scalar := n.map fun n => .integer n.toNat

def runnerSection (c : RunnerConfig) : Toml.Section :=
  ⟨"runner", [("max_concurrency", written c.maxConcurrency)]⟩

def policiesSection (c : PolicyConfig) : Toml.Section :=
  ⟨"policies", [("timeout_ms", written c.timeoutMillis)]⟩

def retrySection (c : RetryConfig) : Toml.Section :=
  ⟨"policies.retry", [
    ("max_attempts", some (.integer c.maxAttempts.toNat)),
    ("backoff_ms", some (.integer c.backoffMillis.toNat)),
    ("backoff_multiplier", c.multiplier.map .float),
    ("max_backoff_ms", written c.maxBackoffMillis)]⟩

/-- The sections of a configuration. That of the policies is left out when it would only introduce
the one below it. -/
def sections (c : Config) : List Toml.Section :=
  match c.policies.retry with
  | none => [runnerSection c.runner, policiesSection c.policies]
  | some r =>
    if c.policies.timeoutMillis.isNone then [runnerSection c.runner, retrySection r]
    else [runnerSection c.runner, policiesSection c.policies, retrySection r]

/-- The document that describes a configuration, if its numbers can be written. -/
def toToml? (c : Config) : Option String := Toml.render? c.sections

end Orchestration.Config
