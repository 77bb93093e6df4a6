import Orchestration.Config.Basic
import Orchestration.Run.Basic
import Orchestration.Text.Uppercase

/-!
# The demonstration pipeline

A processor tidies up a text and a summarizer counts its words and characters. The processor can be
made to fail a number of times; its stand-in hands the text on as it is.
-/

namespace Orchestration.Demo

def nodeNames : List String := ["processor", "summarizer"]

def tidy (text : String) : String := Text.upper (" ".intercalate (Text.words text))

def summary (text : String) : String :=
  toString (Text.words text).length ++ " word(s), " ++ toString text.length ++ " char(s): " ++ text

/-- Fails in its first calls, then tidies. -/
def processor (flaky : UInt32) : Agent .text .text :=
  .ofFunction 0 "processor" fun call input =>
    if call < flaky.toNat then .failure (.ofAgent "processor" "simulated transient failure")
    else .value (.ofText (tidy input.toText))

def processorFallback : Agent .text .text :=
  .ofFunction 1 "processor-fallback" fun _ input => .value input

def summarizer : Agent .text .text :=
  .ofFunction 2 "summarizer" fun _ input => .value (.ofText (summary input.toText))

def draft (config : Config) (flaky : UInt32) : Draft where
  nodes := [
    ⟨"processor", .text, .text,
      (processor flaky).withPolicies (config.policies.policySet (some processorFallback))⟩,
    ⟨"summarizer", .text, .text, summarizer.withPolicies (config.policies.policySet none)⟩]
  edges := [.between "processor" "summarizer"]

def pipeline (config : Config) (flaky : UInt32) : Except PlanFault Plan :=
  (draft config flaky).build

def execution (plan : Plan) (config : Config) (input : String) (c : Context) : Execution :=
  .requested ⟨plan, .ofList [("processor", .text input)], config.maxConcurrency, c⟩

/-- More milliseconds than all attempts of the pipeline and the waits between them can take. -/
def patience : Nat := UInt64.size * UInt64.size

def run (config : Config) (flaky : UInt32) (input : String) (occasion : Option Occasion) :
    Report RunResult :=
  match pipeline config flaky with
  | .error f => ⟨some (.error f.failure), 0, false⟩
  | .ok plan =>
    let work := [(execution plan config input, occasion)]
    (Timeline.together patience work .initial).1.headD ⟨none, 0, false⟩

/-- Two nodes that wait for each other. -/
def cyclicPlan : Except PlanFault Plan :=
  let echo := Agent.ofFunction 0 "echo" fun _ (input : Datum .text) => .value input
  Draft.build {
    nodes := [⟨"a", .text, .text, echo⟩, ⟨"b", .text, .text, echo⟩]
    edges := [.between "a" "b", .between "b" "a"] }

end Orchestration.Demo
