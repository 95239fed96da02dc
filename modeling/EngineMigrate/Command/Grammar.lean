import EngineMigrate.Server.Release

/-!
Reading a command line against a grammar: options anywhere on their level, subcommands, positional
arguments, and variables of the environment in place of options.  The value of an option counts when
the next option or argument is reached, or the level ends.
-/
namespace EngineMigrate.CommandLine

inductive ValueKind where
  | text
  | path
  | number
  | capability
deriving DecidableEq, Repr

structure OptionSpec where
  name : String
  /-- A flag takes no value. -/
  value : Option ValueKind
  /-- The variable that stands in for the option. -/
  variableName : Option String
  /-- Options that it cannot be given with. -/
  excludes : List String
deriving DecidableEq, Repr

namespace OptionSpec

def taking (name : String) (kind : ValueKind) : OptionSpec := ⟨name, some kind, none, []⟩

def flag (name : String) : OptionSpec := ⟨name, none, none, []⟩

end OptionSpec

inductive CommandSpec where
  | mk (name : String) (options : List OptionSpec) (arguments : List String)
    (subcommands : List CommandSpec)

namespace CommandSpec

def name : CommandSpec → String
  | .mk n _ _ _ => n

def options : CommandSpec → List OptionSpec
  | .mk _ os _ _ => os

def arguments : CommandSpec → List String
  | .mk _ _ as _ => as

def subcommands : CommandSpec → List CommandSpec
  | .mk _ _ _ cs => cs

def find? (c : CommandSpec) (name : String) : Option CommandSpec :=
  c.subcommands.find? fun s => s.name == name

end CommandSpec

/-- Ways in which a command line is not carried out. -/
inductive UsageFault where
  | help
  | version
  | helpForMissing
  | missingSubcommand
  | invalidSubcommand
  | unknownArgument
  | invalidValue
  | valueValidation
  | conflict
  | missingArgument
  | tooManyValues
deriving DecidableEq, Repr

namespace UsageFault

def message : UsageFault → String
  | .help => "usage: engine-migrate [OPTIONS] (migrate | seed | metadata) COMMAND"
  | .version => "engine-migrate 0.1.0"
  | .helpForMissing | .missingSubcommand => "a command is missing"
  | .invalidSubcommand => "there is no such command"
  | .unknownArgument => "an argument is not known"
  | .invalidValue => "an option has no value, or an empty one"
  | .valueValidation => "the value of an option cannot be read"
  | .conflict => "options cannot be given together"
  | .missingArgument => "an argument is missing"
  | .tooManyValues => "an option takes no value"

def isAnswer (f : UsageFault) : Bool := f == .help || f == .version

end UsageFault

/-- Where a value comes from, the weaker source first. -/
inductive Origin where
  | environment
  | commandLine
deriving DecidableEq, Repr

/-- The value of an option or argument; flags have the empty one. -/
structure Given where
  name : String
  origin : Origin
  value : String
deriving DecidableEq, Repr

/-- What was given on the level of one command. -/
structure Level where
  command : String
  given : List Given
deriving DecidableEq, Repr

def Level.find? (l : Level) (name : String) : Option Given := l.given.find? fun g => g.name == name

def ValueKind.check (value : String) : ValueKind → Except UsageFault Unit
  | .text => .ok ()
  | .path => if value.isEmpty then .error .invalidValue else .ok ()
  | .number =>
    if (Text.unsigned? Text.wordLimit value.toList).isSome then .ok () else .error .valueValidation
  | .capability => if (Capability.parse? value).isSome then .ok () else .error .valueValidation

/-- An option or argument whose value is still being gathered. -/
structure Pending where
  name : String
  kind : ValueKind
  value : Option String
deriving DecidableEq, Repr

/-- Reading one level. -/
structure State where
  given : List Given
  pending : Option Pending
  /-- The count of positional arguments so far. -/
  position : Nat
  /-- Only positional arguments follow. -/
  trailing : Bool
deriving DecidableEq, Repr

namespace State

def start : State := ⟨[], none, 0, false⟩

def isGiven (s : State) (name : String) : Bool := s.given.any fun g => g.name == name

def give (s : State) (name : String) (kind : ValueKind) (origin : Origin) (value : String) :
    Except UsageFault State := do
  if s.isGiven name then throw .conflict
  kind.check value
  return { s with given := s.given ++ [⟨name, origin, value⟩] }

def settle (s : State) : Except UsageFault State :=
  match s.pending with
  | none => .ok s
  | some p => match p.value with
    | none => .error .invalidValue
    | some v => { s with pending := none }.give p.name p.kind .commandLine v

def awaitsValue (s : State) : Bool := s.pending.any fun p => p.value.isNone

/-- Takes the values of variables for options that are not given. -/
def addVariables (s : State) (options : List OptionSpec) (environment : List (String × String)) :
    Except UsageFault State :=
  options.foldlM (fun s o =>
    match o.variableName.bind fun v => environment.find? fun e => e.1 == v with
    | some (_, value) =>
      if s.isGiven o.name then .ok s
      else s.give o.name (o.value.getD .text) .environment value
    | none => .ok s) s

end State

/-- The name and attached value of a word that starts with two dashes. -/
def splitLong (cs : List Char) : String × Option String :=
  (String.ofList (cs.takeWhile (· != '=')),
    match cs.dropWhile (· != '=') with
    | _ :: value => some (String.ofList value)
    | [] => none)

/-- Follows names of commands to the one that help is wanted for. -/
def describe (c : CommandSpec) : List String → UsageFault
  | [] => .help
  | name :: rest =>
    match c.find? name with
    | some sub => describe sub rest
    | none =>
      if name = "help" && !c.subcommands.isEmpty then
        if rest.isEmpty then .help else .invalidSubcommand
      else .invalidSubcommand

/-- The fault of a word that no positional argument is left for. -/
def strayWord (c : CommandSpec) (trailing : Bool) (word : String) : UsageFault :=
  if c.subcommands.isEmpty then .unknownArgument
  else if trailing && ((c.find? word).isSome || word = "help") then .unknownArgument
  else .invalidSubcommand

/-- What every level knows besides its own grammar. -/
structure Setting where
  /-- Options that belong to every level. -/
  globals : List OptionSpec
  environment : List (String × String)

/-- Ends a level: settles its options, then looks for what is missing or excluded. -/
def finish (setting : Setting) (c : CommandSpec) (s : State) (hasSubcommand : Bool) :
    Except UsageFault Level := do
  let s ← s.settle
  let options := c.options ++ setting.globals
  let s ← s.addVariables options setting.environment
  if !hasSubcommand && !c.subcommands.isEmpty then
    throw (if s.given.isEmpty then .helpForMissing else .missingSubcommand)
  if options.any fun o => s.isGiven o.name && o.excludes.any s.isGiven then throw .conflict
  if c.arguments.any fun a => !s.isGiven a then throw .missingArgument
  return ⟨c.name, s.given⟩

def readLong (setting : Setting) (c : CommandSpec) (top : Bool) (s : State) (cs : List Char) :
    Except UsageFault State :=
  let (name, attached) := splitLong cs
  if name = "help" || (top && name = "version") then
    if attached.isSome then .error .tooManyValues
    else do
      let _ ← s.settle
      throw (if name = "help" then .help else .version)
  else match (c.options ++ setting.globals).find? fun o => o.name == name with
    | none => .error .unknownArgument
    | some o => match o.value, attached with
      | none, some _ => .error .tooManyValues
      | none, none => do (← s.settle).give o.name .text .commandLine ""
      | some kind, some v => do (← s.settle).give o.name kind .commandLine v
      | some kind, none => do return { (← s.settle) with pending := some ⟨o.name, kind, none⟩ }

/-- A cluster of short options; only those for help and version exist. -/
def readShort (top : Bool) (s : State) (c : Char) : Except UsageFault State :=
  if c = 'h' || (top && c = 'V') then do
    let _ ← s.settle
    throw (if c = 'h' then .help else .version)
  else .error .unknownArgument

def readArgument (c : CommandSpec) (s : State) (word : String) : Except UsageFault State :=
  match c.arguments[s.position]? with
  | some a => do
    let s ← s.settle
    return { s with pending := some ⟨a, .text, some word⟩, position := s.position + 1 }
  | none => .error (strayWord c s.trailing word)

/-- Reads the words of a level and of the levels below it, from the top one down. -/
def readLevel (setting : Setting) (c : CommandSpec) (top : Bool) (s : State) :
    List String → Except UsageFault (List Level)
  | [] => do return [← finish setting c s false]
  | word :: rest =>
    if s.trailing then do readLevel setting c top (← readArgument c s word) rest
    else if s.awaitsValue && !(word.toList.head? == some '-' && word ≠ "-") then
      readLevel setting c top
        { s with pending := s.pending.map fun p => { p with value := some word } } rest
    else match c.find? word with
      | some sub => do
        let below ← readLevel setting sub false .start rest
        return (← finish setting c s true) :: below
      | none =>
        if word = "help" && !c.subcommands.isEmpty then .error (describe c rest)
        else match word.toList with
          | ['-', '-'] => readLevel setting c top { s with trailing := true } rest
          | '-' :: '-' :: cs => do readLevel setting c top (← readLong setting c top s cs) rest
          | '-' :: x :: _ => do readLevel setting c top (← readShort top s x) rest
          | _ => do readLevel setting c top (← readArgument c s word) rest

/-- The value of a global option: the stronger origin wins, of equal ones the deeper level. -/
def globalValue (name : String) (levels : List Level) : Option String :=
  let stronger (above below : Given) : Given :=
    if above.origin = .commandLine && below.origin = .environment then above else below
  ((levels.filterMap fun l => l.find? name).foldl (fun acc g =>
    some (match acc with
      | some above => stronger above g
      | none => g)) none).map Given.value

end EngineMigrate.CommandLine
