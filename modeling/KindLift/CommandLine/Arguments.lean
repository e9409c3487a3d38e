/-! The flags and paths of a command line. Flags may stand anywhere among the
paths; two hyphens alone end the flags. -/
namespace KindLift

inductive Flag where
  | verbose
  | config
  | rule
  | dryRun
  | diff
  | json
  | help
  | version
deriving DecidableEq, Repr

namespace Flag

def long : Flag → String
  | verbose => "verbose"
  | config => "config"
  | rule => "rule"
  | dryRun => "dry-run"
  | diff => "diff"
  | json => "json"
  | help => "help"
  | version => "version"

def short? : Flag → Option Char
  | verbose => some 'v'
  | config => some 'c'
  | rule => some 'r'
  | help => some 'h'
  | version => some 'V'
  | _ => none

def takesValue : Flag → Bool
  | config | rule => true
  | _ => false

end Flag

/-- Why a command line is refused. -/
inductive UsageError where
  | noCommand
  | unknownCommand (name : String)
  | unknownFlag (name : String)
  | missingValue (flag : Flag)
  | unexpectedValue (flag : Flag)
  | emptyPath
  | repeated (flag : Flag)
deriving DecidableEq, Repr

def UsageError.message : UsageError → String
  | noCommand => "a command is required"
  | unknownCommand name => "unrecognized command '" ++ name ++ "'"
  | unknownFlag name => "unexpected argument '" ++ name ++ "'"
  | missingValue flag => "a value is required for '--" ++ flag.long ++ "'"
  | unexpectedValue flag => "unexpected value for '--" ++ flag.long ++ "'"
  | emptyPath => "a path must not be empty"
  | repeated flag => "'--" ++ flag.long ++ "' cannot be used multiple times"

/-- Why reading a command line stops before its end. -/
inductive Interrupt where
  | usage (error : UsageError)
  | help
  | version
deriving DecidableEq, Repr

/-- What has been given: flags without values, and the values of the others. -/
structure Arguments where
  flags : List Flag
  config : Option String
  rules : List String
  paths : List String
deriving DecidableEq, Repr

namespace Arguments

def empty : Arguments := ⟨[], none, [], []⟩

/-- Adds a flag without a value. Help and version are answered at once. -/
def addFlag (arguments : Arguments) (flag : Flag) : Except Interrupt Arguments :=
  if flag = .help then .error .help
  else if flag = .version then .error .version
  else if arguments.flags.contains flag then .error (.usage (.repeated flag))
  else .ok { arguments with flags := arguments.flags ++ [flag] }

/-- Adds a flag with its value. Only rules may be given several times. -/
def addValue (arguments : Arguments) (flag : Flag) (value : String) : Except Interrupt Arguments :=
  if flag = .rule then .ok { arguments with rules := arguments.rules ++ [value] }
  else if value.isEmpty then .error (.usage .emptyPath)
  else if arguments.config.isSome then .error (.usage (.repeated flag))
  else .ok { arguments with config := some value }

def addPath (arguments : Arguments) (path : String) : Except Interrupt Arguments :=
  if path.isEmpty then .error (.usage .emptyPath)
  else .ok { arguments with paths := arguments.paths ++ [path] }

/-- Reads letters after a single hyphen. A letter that takes a value takes the
rest of them, with or without an equals sign; if none are left, the flag waits for
the next argument. -/
def readShort (known : List Flag) (arguments : Arguments) :
    List Char → Except Interrupt (Arguments × Option Flag)
  | [] => .ok (arguments, none)
  | c :: rest =>
    match known.find? fun flag => flag.short? = some c with
    | none => .error (.usage (.unknownFlag ("-" ++ c.toString)))
    | some flag =>
      if flag.takesValue then
        match rest with
        | [] => .ok (arguments, some flag)
        | '=' :: value => do return (← arguments.addValue flag (String.ofList value), none)
        | value => do return (← arguments.addValue flag (String.ofList value), none)
      else do readShort known (← arguments.addFlag flag) rest

/-- Reads a word after two hyphens, with or without a value after an equals sign. -/
def readLong (known : List Flag) (arguments : Arguments) (word : List Char) :
    Except Interrupt (Arguments × Option Flag) :=
  let name := String.ofList (word.takeWhile (· ≠ '='))
  match known.find? fun flag => flag.long = name, word.dropWhile (· ≠ '=') with
  | none, _ => .error (.usage (.unknownFlag ("--" ++ name)))
  | some flag, [] =>
    if flag.takesValue then .ok (arguments, some flag)
    else do return (← arguments.addFlag flag, none)
  | some flag, _ :: value =>
    if flag.takesValue then do return (← arguments.addValue flag (String.ofList value), none)
    else .error (.usage (.unexpectedValue flag))

/-- Reads one argument that begins with a hyphen. -/
def readFlag (known : List Flag) (arguments : Arguments) (argument : List Char) :
    Except Interrupt (Arguments × Option Flag) :=
  match argument with
  | '-' :: '-' :: word => readLong known arguments word
  | _ :: letters => readShort known arguments letters
  | [] => .ok (arguments, none)

/-- A single hyphen alone is a path. -/
def isFlag (argument : String) : Bool := argument.startsWith "-" && argument ≠ "-"

/-- Reads all arguments. `waiting` is the flag whose value comes next. -/
def read (known : List Flag) (arguments : Arguments) (waiting : Option Flag) :
    List String → Except Interrupt Arguments
  | [] =>
    match waiting with
    | some flag => .error (.usage (.missingValue flag))
    | none => .ok arguments
  | argument :: rest =>
    match waiting with
    | some flag =>
      if isFlag argument then .error (.usage (.missingValue flag))
      else do read known (← arguments.addValue flag argument) none rest
    | none =>
      if argument = "--" then rest.foldlM addPath arguments
      else if isFlag argument then do
        let (next, waiting) ← readFlag known arguments argument.toList
        read known next waiting rest
      else do read known (← arguments.addPath argument) none rest

end Arguments
end KindLift
