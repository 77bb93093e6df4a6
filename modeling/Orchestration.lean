import Orchestration.Duration
import Orchestration.Duration.Scaling
import Orchestration.Binary64.Basic
import Orchestration.Binary64.Decimal
import Orchestration.Call
import Orchestration.Text.Uppercase
import Orchestration.Text.Quoted
import Orchestration.Policy.Set
import Orchestration.Script
import Orchestration.Run.Basic
import Orchestration.Demo
import Orchestration.Toml.Document
import Orchestration.Config.File
import Orchestration.Main
import Orchestration.Proofs.Plan.Order
import Orchestration.Proofs.Plan.Validation
import Orchestration.Proofs.Plan.Forest
import Orchestration.Proofs.Plan.Views
import Orchestration.Proofs.Call.Settling
import Orchestration.Proofs.Run.Accounts
import Orchestration.Proofs.Run.Completion
import Orchestration.Proofs.Run.Failing
import Orchestration.Proofs.Run.Interruption
import Orchestration.Proofs.Run.StartOrder
import Orchestration.Proofs.Run.Scope
import Orchestration.Proofs.Policy.Law
import Orchestration.Proofs.Run.Faults
import Orchestration.Proofs.Policy.Transparency
import Orchestration.Proofs.Policy.Origins
import Orchestration.Proofs.Policy.Attempts
import Orchestration.Proofs.Policy.Deadlines
import Orchestration.Proofs.Policy.Budget
import Orchestration.Proofs.Run.Attribution
import Orchestration.Proofs.Run.Makespan
import Orchestration.Proofs.Config.RoundTrip
import Orchestration.Proofs.Config.Growth
import Orchestration.Proofs.Plan.Statistics
import Orchestration.Proofs.Text.Splitting
import Orchestration.Proofs.CommandLine.Initialisation
import Orchestration.Proofs.Run.Relay
import Orchestration.Proofs.Demo.Pipeline
import Orchestration.Proofs.CommandLine.Resilience
