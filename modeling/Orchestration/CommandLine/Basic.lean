import Orchestration.CommandLine.Arguments
import Orchestration.Config.File
import Orchestration.Demo

/-!
# Commands

A command runs on a tree of files and leaves another one, together with what it prints and its exit
code: zero for success, one for a failure, two for arguments that make no sense. The configuration
is loaded before any command starts.
-/

namespace Orchestration.CommandLine

structure Environment where
  workingDirectory : Place
  /-- The directory for configurations, if there is one. -/
  configHome : Option String

structure Writing where
  path : String
  content : String

structure Outcome where
  code : UInt32
  output : String
  errors : String
  files : FileTree
  /-- What it wrote, if it wrote anything. -/
  written : Option Writing
  /-- How long it waited, in milliseconds. -/
  elapsed : Nat

namespace Outcome

def success (files : FileTree) (output : String) : Outcome := ⟨0, output, "", files, none, 0⟩

def failure (files : FileTree) (message : String) : Outcome :=
  ⟨1, "", "Error: " ++ message ++ "\n", files, none, 0⟩

end Outcome

def version : String := "0.2.0"

def usage (c : Command) : String :=
  "Usage: " ++ c.fullName.replace "-config-" " config " ++
    (if c.below.isEmpty then " [OPTIONS]\n" else " [OPTIONS] [COMMAND]\n")

/-- The path of the configuration file: the one that was given, or the usual one. -/
def configPath? (env : Environment) (r : Reading) : Option String :=
  r.configPath <|> env.configHome.map Config.usualPath

/-- The configuration under which a command runs. A file that was named has to load. -/
def effectiveConfig (env : Environment) (files : FileTree) (r : Reading) :
    Except ConfigFault Config :=
  match r.configPath with
  | some path => Config.load files env.workingDirectory path
  | none => .ok (Config.loadUsual files env.workingDirectory (env.configHome.map Config.usualPath))

def outputLine (name text : String) : String :=
  String.ofList (List.replicate (10 - name.length) ' ') ++ name ++ " " ++ text ++ "\n"

def outputText (outputs : NodeValues) : String :=
  String.join <| Demo.nodeNames.map fun name =>
    match outputs.get? name with
    | some (.text s) => outputLine name s
    | _ => ""

def demo (config : Config) (files : FileTree) (r : Reading) : Outcome :=
  let report := Demo.run config r.flaky r.input none
  let outcome : Outcome := match report.result with
    | some (.ok outputs) => .success files (outputText outputs)
    | some (.error f) => .failure files f.message
    | none => .failure files "the pipeline did not end"
  { outcome with elapsed := report.elapsed }

def validateDemo (files : FileTree) : Outcome :=
  match Demo.cyclicPlan with
  | .ok _ => .failure files "cyclic plan was accepted"
  | .error f => .success files ("rejected: " ++ f.failure.userMessage ++ "\n")

def showConfig (config : Config) (files : FileTree) : Outcome :=
  match config.text with
  | .ok text => .success files text
  | .error f => .failure files f.message

def noConfigHome : String := "No config directory available"

def showPath (env : Environment) (files : FileTree) (r : Reading) : Outcome :=
  .success files ((configPath? env r).getD noConfigHome ++ "\n")

/-- Writes the default configuration, but not over a file unless forced to. -/
def initConfig (env : Environment) (files : FileTree) (r : Reading) : Outcome :=
  match configPath? env r with
  | none => .failure files noConfigHome
  | some path =>
    if files.occupied env.workingDirectory path ∧ ¬ r.force then
      .failure files (path ++ " already exists (use --force to overwrite)")
    else
      match Config.default.saving files env.workingDirectory path, Config.default.text with
      | (.ok (), files), .ok content =>
        { Outcome.success files ("Wrote default configuration to " ++ path ++ "\n") with
          written := some ⟨path, content⟩ }
      | (.error f, files), _ | (_, files), .error f => .failure files f.message

def carryOut (env : Environment) (config : Config) (files : FileTree) (r : Reading) : Outcome :=
  match r.command with
  | .demo => demo config files r
  | .validateDemo => validateDemo files
  | .config | .configShow => showConfig config files
  | .configPath => showPath env files r
  | .configInit => initConfig env files r
  | .program => ⟨2, "", usage .program, files, none, 0⟩

def run (env : Environment) (files : FileTree) (arguments : List String) : Outcome :=
  match Request.ofArguments arguments with
  | .misuse => ⟨2, "", usage .program, files, none, 0⟩
  | .version c => .success files (c.fullName ++ " " ++ version ++ "\n")
  | .help c => .success files (usage c)
  | .run r =>
    match effectiveConfig env files r with
    | .error _ => .failure files "Failed to load configuration"
    | .ok config => carryOut env config files r

end Orchestration.CommandLine
