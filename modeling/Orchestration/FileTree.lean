import Orchestration.Entries

/-!
# File trees

Files and directories by their place below the root. A path is followed name by name from a working
directory; only its last name may be missing. Nothing can be put below a file.
-/

namespace Orchestration

/-- Why a file operation fails. -/
inductive FileFault where
  | notFound
  | denied
  | occupied
  | notDirectory
  | isDirectory
  | notText
deriving DecidableEq

namespace FileFault

def message : FileFault → String
  | notFound => "No such file or directory (os error 2)"
  | denied => "Permission denied (os error 13)"
  | occupied => "File exists (os error 17)"
  | notDirectory => "Not a directory (os error 20)"
  | isDirectory => "Is a directory (os error 21)"
  | notText => "stream did not contain valid UTF-8"

def kind : FileFault → String
  | notFound => "NotFound"
  | denied => "PermissionDenied"
  | occupied => "AlreadyExists"
  | notDirectory => "NotADirectory"
  | isDirectory => "IsADirectory"
  | notText => "InvalidData"

end FileFault

inductive FileEntry where
  | text (content : String)
  /-- A file whose bytes are no text. -/
  | bytes
  /-- A file that may be neither read nor written. -/
  | locked
  | directory
deriving DecidableEq

/-- The names from the root down to a place. -/
abbrev Place := List String

/-- What stands where. The root itself is a directory. -/
structure FileTree where
  entries : Entries Place FileEntry

namespace FileTree

def empty : FileTree := ⟨[]⟩

def at? (t : FileTree) (p : Place) : Option FileEntry :=
  if p.isEmpty then some .directory else t.entries.lookup p

def put (t : FileTree) (p : Place) (e : FileEntry) : FileTree := ⟨t.entries.set p e⟩

theorem at?_put (t : FileTree) (p q : Place) (e : FileEntry) (h : q ≠ []) :
    (t.put p e).at? q = if q = p then some e else t.at? q := by
  simp [put, at?, Entries.lookup_set, h]

def steps (path : String) : List String := (path.splitOn "/").filter (· ≠ "")

def endsInSlash (path : String) : Bool := path.toList.getLast? = some '/'

/-- The names of a path; a slash at the end stands for the directory itself. -/
def names (path : String) : List String :=
  if endsInSlash path then steps path ++ ["."] else steps path

/-- The names of the directory in which a path ends. A slash or a point at its end is ignored. -/
def parents (path : String) : List String := ((steps path).filter (· ≠ ".")).dropLast

/-- A path that goes on below a directory. -/
def below (directory path : String) : String :=
  if directory = "" ∨ endsInSlash directory then directory ++ path else directory ++ "/" ++ path

/-- Follows names from a place; all but the last must lead to a directory. -/
def follow (t : FileTree) : Place → List String → Except FileFault Place
  | here, [] => .ok here
  | here, name :: rest =>
    match t.at? here with
    | none => .error .notFound
    | some .directory =>
      if name = "." then t.follow here rest
      else if name = ".." then t.follow here.dropLast rest
      else t.follow (here ++ [name]) rest
    | some _ => .error .notDirectory

def start (workingDirectory : Place) (path : String) : Place :=
  if path.startsWith "/" then [] else workingDirectory

def locate (t : FileTree) (workingDirectory : Place) (path : String) : Except FileFault Place :=
  if path = "" then .error .notFound else t.follow (start workingDirectory path) (names path)

def occupied (t : FileTree) (workingDirectory : Place) (path : String) : Bool :=
  match t.locate workingDirectory path with
  | .ok p => (t.at? p).isSome
  | .error _ => false

def read (t : FileTree) (workingDirectory : Place) (path : String) : Except FileFault String := do
  match t.at? (← t.locate workingDirectory path) with
  | none => .error .notFound
  | some (.text content) => .ok content
  | some .bytes => .error .notText
  | some .locked => .error .denied
  | some .directory => .error .isDirectory

/-- Writes a text to a file, new or not. A path with a slash at its end is not that of a file. -/
def write (t : FileTree) (workingDirectory : Place) (path content : String) :
    Except FileFault FileTree :=
  if path = "" then .error .notFound
  else do
    let p ← t.follow (start workingDirectory path) (steps path)
    if endsInSlash path then .error .isDirectory
    else match t.at? p with
      | some .directory => .error .isDirectory
      | some .locked => .error .denied
      | _ => .ok (t.put p (.text content))

/-- Makes the directories on the way of some names that are missing. Those made before a name that
cannot be a directory stay. -/
def makeDirectories (t : FileTree) : Place → List String → Except FileFault Unit × FileTree
  | _, [] => (.ok (), t)
  | here, name :: rest =>
    if name = "." then t.makeDirectories here rest
    else if name = ".." then t.makeDirectories here.dropLast rest
    else
      let there := here ++ [name]
      match t.at? there with
      | none => (t.put there .directory).makeDirectories there rest
      | some .directory => t.makeDirectories there rest
      | some _ => (.error (if rest.isEmpty then .occupied else .notDirectory), t)

/-- Writes a text to a file and makes the directories above it, which stay also if the file cannot
be written. -/
def saving (t : FileTree) (workingDirectory : Place) (path content : String) :
    Except FileFault Unit × FileTree :=
  match t.makeDirectories (start workingDirectory path) (parents path) with
  | (.error f, t) => (.error f, t)
  | (.ok (), t) =>
    match t.write workingDirectory path content with
    | .error f => (.error f, t)
    | .ok t => (.ok (), t)

/-- The tree with a text written to a file, if that goes well. -/
def save (t : FileTree) (workingDirectory : Place) (path content : String) :
    Except FileFault FileTree :=
  match t.saving workingDirectory path content with
  | (.error f, _) => .error f
  | (.ok (), t) => .ok t

end FileTree

end Orchestration
