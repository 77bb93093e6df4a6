import Orchestration.Text.Digits

/-!
# Arguments of the command line

Commands form a tree, and each takes some options. Arguments are read from left to right. An option
may be given once per command; those for the configuration file and for more logging are understood
by every command, and the innermost command that is given one decides. Asking for the version or for
help ends the reading.
-/

namespace Orchestration.CommandLine

inductive Command where
  | program
  | demo
  | validateDemo
  | config
  | configShow
  | configPath
  | configInit
deriving DecidableEq

inductive Opt where
  | config
  | verbose
  | input
  | flaky
  | force
  | help
  | version
deriving DecidableEq

namespace Opt

def all : List Opt := [config, verbose, input, flaky, force, help, version]

def long : Opt → String
  | config => "config"
  | verbose => "verbose"
  | input => "input"
  | flaky => "flaky"
  | force => "force"
  | help => "help"
  | version => "version"

def short? : Opt → Option Char
  | config => some 'c'
  | verbose => some 'v'
  | input => some 'i'
  | flaky => none
  | force => some 'f'
  | help => some 'h'
  | version => some 'V'

def takesValue : Opt → Bool
  | config | input | flaky => true
  | verbose | force | help | version => false

end Opt

namespace Command

def below : Command → List (String × Command)
  | program => [("demo", demo), ("validate-demo", validateDemo), ("config", config)]
  | config => [("show", configShow), ("path", configPath), ("init", configInit)]
  | demo | validateDemo | configShow | configPath | configInit => []

def takes : Command → Opt → Bool
  | _, .config | _, .verbose | _, .help | _, .version => true
  | demo, .input | demo, .flaky => true
  | configInit, .force => true
  | _, _ => false

def fullName : Command → String
  | program => "agentplan"
  | demo => "agentplan-demo"
  | validateDemo => "agentplan-validate-demo"
  | config => "agentplan-config"
  | configShow => "agentplan-config-show"
  | configPath => "agentplan-config-path"
  | configInit => "agentplan-config-init"

end Command

structure Reading where
  command : Command
  /-- The options that the command was given. -/
  given : List Opt
  configPath : Option String
  input : String
  flaky : UInt32
  force : Bool

inductive Request where
  | run (r : Reading)
  | version (c : Command)
  | help (c : Command)
  | misuse

namespace Reading

/-- Nothing was said: the demonstration works on a greeting and does not fail. -/
def initial : Reading := ⟨.program, [], none, "hello world", 0, false⟩

/-- A count of 32 bits in decimal digits, with or without a sign. -/
def count? (text : String) : Option UInt32 :=
  let (negative, digits) := match text.toList with
    | '-' :: digits => (true, digits)
    | '+' :: digits => (false, digits)
    | digits => (false, digits)
  let n := Text.ofDigits 10 digits
  if digits.isEmpty ∨ !digits.all Char.isDigit ∨ (negative ∧ n ≠ 0) ∨ UInt32.size ≤ n then none
  else some (UInt32.ofNat n)

def take? (r : Reading) (o : Opt) (value : String) : Option Reading :=
  if o ∈ r.given then none
  else
    let r := { r with given := o :: r.given }
    match o with
    | .config => if value = "" then none else some { r with configPath := some value }
    | .input => some { r with input := value }
    | .flaky => (count? value).map fun flaky => { r with flaky }
    | .force => some { r with force := true }
    | .verbose | .help | .version => some r

def named? (r : Reading) (isName : Opt → Bool) : Option Opt :=
  Opt.all.find? fun o => isName o && r.command.takes o

def enter? (r : Reading) (name : String) : Option Reading :=
  (r.command.below.lookup name).map fun command => { r with command, given := [] }

/-- A command that only groups others is not enough, unless it has a usual one. -/
def finish (r : Reading) : Request :=
  match r.command with
  | .program => .misuse
  | _ => .run r

/-- Whether an argument cannot be a value because it looks like an option. -/
def looksLikeOption (argument : String) : Bool := argument.startsWith "-" && argument ≠ "-"

def flag (r : Reading) (o : Opt) : Request ⊕ Reading :=
  match o with
  | .version => .inl (.version r.command)
  | .help => .inl (.help r.command)
  | o => match r.take? o "" with
    | some r => .inr r
    | none => .inl .misuse

/-- Reads short options that share a dash. The last one may take a value, attached or, if it is
returned, still to come. -/
def cluster (r : Reading) : List Char → Request ⊕ (Reading × Option Opt)
  | [] => .inr (r, none)
  | c :: rest =>
    match r.named? (·.short? = some c) with
    | none => .inl .misuse
    | some o =>
      if o.takesValue then
        match rest with
        | [] => .inr (r, some o)
        | _ =>
          let value := match rest with
            | '=' :: value => value
            | value => value
          match r.take? o (String.ofList value) with
          | some r => .inr (r, none)
          | none => .inl .misuse
      else match r.flag o with
        | .inl request => .inl request
        | .inr r => r.cluster rest

def longOption (r : Reading) (name : String) (value : Option String) :
    Request ⊕ (Reading × Option Opt) :=
  match r.named? (·.long = name), value with
  | none, _ => .inl .misuse
  | some o, none =>
    if o.takesValue then .inr (r, some o)
    else match r.flag o with
      | .inl request => .inl request
      | .inr r => .inr (r, none)
  | some o, some value =>
    if o.takesValue then
      match r.take? o value with
      | some r => .inr (r, none)
      | none => .inl .misuse
    else .inl .misuse

def splitLong (argument : String) : String × Option String :=
  let (name, rest) := (argument.toList.drop 2).span (· ≠ '=')
  (String.ofList name, rest.tail?.map String.ofList)

/-- Reads the remaining arguments; an option may still wait for its value. -/
def arguments (r : Reading) : (waiting : Option Opt) → List String → Request
  | some _, [] => .misuse
  | none, [] => r.finish
  | some o, value :: rest =>
    if looksLikeOption value then .misuse
    else match r.take? o value with
      | some r => r.arguments none rest
      | none => .misuse
  | none, argument :: rest =>
    if argument = "--" then
      if rest.isEmpty then r.finish else .misuse
    else if looksLikeOption argument then
      let read := if argument.startsWith "--" then
          let (name, value) := splitLong argument
          r.longOption name value
        else r.cluster (argument.toList.drop 1)
      match read with
      | .inl request => request
      | .inr (r, waiting) => r.arguments waiting rest
    else if argument = "help" ∧ ¬ r.command.below.isEmpty then helpOn r rest
    else match r.enter? argument with
      | some r => r.arguments none rest
      | none => .misuse
where
  /-- Help on the command that some names lead to. -/
  helpOn (r : Reading) : List String → Request
    | [] => .help r.command
    | name :: rest => match r.enter? name with
      | some r => helpOn r rest
      | none => .misuse

end Reading

def Request.ofArguments (arguments : List String) : Request :=
  Reading.initial.arguments none arguments

end Orchestration.CommandLine
