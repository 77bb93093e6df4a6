import Orchestration.CommandLine.Basic

/-!
# The program

The commands decide on values; here those values come from the file system and go back to it.
-/

namespace Orchestration.CommandLine

/-- What stands at a path whose parent is a directory, if anything does. -/
def lookAt (path : String) : IO (Option FileEntry) := do
  try
    let bytes ← IO.FS.readBinFile path
    return some (match String.fromUTF8? bytes with
      | some text => .text text
      | none => .bytes)
  catch
    | .noFileOrDirectory .. => return none
    | .permissionDenied .. => return some .locked
    | _ => return some .directory

/-- Adds what stands on the way of some names, as far as there is anything. -/
def lookAlong (t : FileTree) : Place → List String → IO FileTree
  | _, [] => return t
  | here, name :: rest =>
    if name = "." then lookAlong t here rest
    else if name = ".." then lookAlong t here.dropLast rest
    else do
      let there := here ++ [name]
      match ← lookAt ("/" ++ "/".intercalate there) with
      | none => return t
      | some entry => lookAlong (t.put there entry) there rest

/-- The part of the file system that a command can see: what stands on the way of one path. -/
def visibleFiles (workingDirectory : Place) (path : Option String) : IO FileTree :=
  match path with
  | none => return .empty
  | some path =>
    lookAlong .empty [] (FileTree.start workingDirectory path ++ FileTree.names path)

def configHome? : IO (Option String) := do
  let usual := (← IO.getEnv "HOME").map (FileTree.below · ".config")
  match ← IO.getEnv "XDG_CONFIG_HOME" with
  | some directory => return if directory.startsWith "/" then some directory else usual
  | none => return usual

def Writing.carryOut (w : Writing) : IO Unit := do
  let directory := "/".intercalate (w.path.splitOn "/").dropLast
  unless directory.isEmpty do IO.FS.createDirAll directory
  IO.FS.writeFile w.path w.content

/-- Waits for so many milliseconds, a minute at a time. -/
def wait (millis : Nat) : IO Unit := do
  for _ in List.range (millis / 60000) do
    IO.sleep 60000
  IO.sleep (UInt32.ofNat (millis % 60000))

end Orchestration.CommandLine

open Orchestration CommandLine in
/-- Runs the program on its arguments and answers with its exit code. -/
def main (arguments : List String) : IO UInt32 := do
  let workingDirectory := FileTree.names (toString (← IO.currentDir))
  let env : Environment := ⟨workingDirectory, ← configHome?⟩
  let path := match Request.ofArguments arguments with
    | .run r => configPath? env r
    | _ => none
  let outcome := run env (← visibleFiles workingDirectory path) arguments
  wait outcome.elapsed
  if let some w := outcome.written then w.carryOut
  IO.print outcome.output
  IO.eprint outcome.errors
  return outcome.code
