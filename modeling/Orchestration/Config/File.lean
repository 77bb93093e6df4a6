import Orchestration.Config.Toml
import Orchestration.FileTree

/-!
# Configuration files

A configuration file is read as a whole and either describes a configuration or does not load. The
file at the usual place is optional: whatever is wrong with it, the default configuration takes its
place.
-/

namespace Orchestration

inductive ConfigFault where
  | unreadable (path : String) (cause : FileFault)
  | malformed (path : String)
  | tooLarge
  | unwritable (cause : FileFault)
deriving DecidableEq

namespace ConfigFault

def message : ConfigFault → String
  | unreadable path _ => "Failed to read config file " ++ path
  | malformed path => "Failed to parse config file " ++ path
  | tooLarge => "out-of-range value for u64 type"
  | unwritable cause => cause.message

/-- The file fault behind it, if there is one. -/
def cause? : ConfigFault → Option FileFault
  | unreadable _ cause | unwritable cause => some cause
  | malformed _ | tooLarge => none

end ConfigFault

namespace Config

def load (files : FileTree) (workingDirectory : Place) (path : String) :
    Except ConfigFault Config :=
  match files.read workingDirectory path with
  | .error cause => .error (.unreadable path cause)
  | .ok document =>
    match ofToml? document with
    | some c => .ok c
    | none => .error (.malformed path)

def usualPath (configHome : String) : String :=
  FileTree.below configHome "agentplan/config.toml"

/-- The configuration in the file at the usual place if it loads, otherwise the default. -/
def loadUsual (files : FileTree) (workingDirectory : Place) (path : Option String) : Config :=
  match path with
  | none => default
  | some path =>
    match load files workingDirectory path with
    | .ok c => c
    | .error _ => default

def text (c : Config) : Except ConfigFault String :=
  match c.toToml? with
  | some document => .ok document
  | none => .error .tooLarge

/-- Writes the configuration to a file and makes the directories above it. -/
def saving (c : Config) (files : FileTree) (workingDirectory : Place) (path : String) :
    Except ConfigFault Unit × FileTree :=
  match c.text with
  | .error f => (.error f, files)
  | .ok document =>
    match files.saving workingDirectory path document with
    | (.error cause, files) => (.error (.unwritable cause), files)
    | (.ok (), files) => (.ok (), files)

/-- The files with the configuration written to one of them, if that goes well. -/
def save (c : Config) (files : FileTree) (workingDirectory : Place) (path : String) :
    Except ConfigFault FileTree :=
  match c.saving files workingDirectory path with
  | (.error f, _) => .error f
  | (.ok (), files) => .ok files

end Config

end Orchestration
