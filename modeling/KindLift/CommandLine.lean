import KindLift.CommandLine.Arguments
import KindLift.Report.Json
import KindLift.Run

/-! The commands: run the rules, check that a run would change nothing, and print
the order of processing. -/
namespace KindLift

inductive Action where
  | run
  | check
  | order
deriving DecidableEq, Repr

namespace Action

def ofName? : String → Option Action
  | "run" => some run
  | "check" => some check
  | "order" => some order
  | _ => none

/-- The flags a command knows. -/
def flags : Action → List Flag
  | run => [.verbose, .help, .config, .rule, .dryRun, .diff, .json]
  | check => [.verbose, .help, .config, .rule, .diff, .json]
  | order => [.verbose, .help, .config]

end Action

structure Command where
  action : Action
  arguments : Arguments
deriving DecidableEq, Repr

namespace Command

/-- Help may be asked for by name, for all commands or one. -/
def readHelp : List String → Interrupt
  | [] => .help
  | name :: rest =>
    if name = "help" || (Action.ofName? name).isSome then
      match rest with
      | [] => .help
      | extra :: _ => .usage (.unknownCommand extra)
    else .usage (.unknownCommand name)

/-- Reads the flags in front of the command, then the command's own arguments. -/
def read (arguments : Arguments) : List String → Except Interrupt Command
  | [] => .error (.usage .noCommand)
  | argument :: rest =>
    if argument = "--" then .error (.usage .noCommand)
    else if Arguments.isFlag argument then do
      let (next, _) ← Arguments.readFlag [.verbose, .help, .version] arguments argument.toList
      read next rest
    else if argument = "help" then .error (readHelp rest)
    else match Action.ofName? argument with
      | some action => do return ⟨action, ← Arguments.read action.flags .empty none rest⟩
      | none => .error (.usage (.unknownCommand argument))

def parse (arguments : List String) : Except Interrupt Command := read .empty arguments

/-- The working directory is searched when no path is given. -/
def roots (command : Command) : List String :=
  if command.arguments.paths.isEmpty then ["."] else command.arguments.paths

def has (command : Command) (flag : Flag) : Bool := command.arguments.flags.contains flag

/-- The settings of the file in effect, with the rules of the command line. -/
def settings (command : Command) (tree : FileTree) : Except RunError Settings := do
  return (← Settings.discover tree command.arguments.config).withRules command.arguments.rules

end Command

/-- What a command ends in when nothing stops it: its exit code and what it prints. -/
structure Answer where
  exitCode : Nat
  output : String

namespace Answer

/-- The printed report: as JSON, or as text with the differences in front if they
are asked for. -/
def printReport (command : Command) (report : Report) : String :=
  if command.has .json then report.renderJson ++ "\n"
  else (if command.has .diff then report.diffs else "") ++ report.render ++ "\n"

/-- The report of the rules on the sources. -/
def reportOf (command : Command) (dryRun : Bool) : Run.Session FileTree Report := do
  let settings := (← command.settings (← get)).withDryRun dryRun
  let run ← Run.prepare settings (.standard settings.conventions)
  run.treeSession command.roots

/-- Applies the rules to the sources. Whether anything is written is up to the flag alone. -/
def ofRun (command : Command) : Run.Session FileTree Answer := do
  let report ← reportOf command (command.has .dryRun)
  return ⟨report.exitCode, printReport command report⟩

/-- Writes nothing, and fails also if a unit would change. -/
def ofCheck (command : Command) : Run.Session FileTree Answer := do
  let report ← reportOf command true
  return ⟨if report.changed.isEmpty && report.isSuccess then 0 else 1, printReport command report⟩

/-- Prints one path a line. -/
def ofOrder (command : Command) : Run.Session FileTree Answer := do
  let settings ← command.settings (← get)
  let run ← Run.prepare settings (.standard settings.conventions)
  let paths ← run.order (← get) command.roots
  return ⟨0, String.join (paths.map (· ++ "\n"))⟩

def ofCommand (command : Command) : Run.Session FileTree Answer :=
  match command.action with
  | .run => ofRun command
  | .check => ofCheck command
  | .order => ofOrder command

end Answer

/-- What a command leaves: its exit code, what it prints, why it failed, and the
files. -/
structure Execution where
  exitCode : Nat
  output : String
  complaint : Option String
  tree : FileTree

/-- What is left when a command has ended. An error prints nothing; the files are as they
were up to then. -/
def Execution.ofOutcome : Except RunError Answer × FileTree → Execution
  | (.ok answer, after) => ⟨answer.exitCode, answer.output, none, after⟩
  | (.error error, after) => ⟨error.exitCode, "", some error.message, after⟩

namespace CommandLine

def versionText : String := "hkfix 0.1.0\n"

def helpText : String :=
  "Usage: hkfix [-v] run [-c FILE] [-r NAME]... [--dry-run] [--diff] [--json] [PATH]...\n" ++
  "       hkfix [-v] check [-c FILE] [-r NAME]... [--diff] [--json] [PATH]...\n" ++
  "       hkfix [-v] order [-c FILE] [PATH]...\n"

/-- Executes a command line. -/
def execute (arguments : List String) (tree : FileTree) : Execution :=
  match Command.parse arguments with
  | .error .help => ⟨0, helpText, none, tree⟩
  | .error .version => ⟨0, versionText, none, tree⟩
  | .error (.usage error) => ⟨2, "", some error.message, tree⟩
  | .ok command => .ofOutcome ((Answer.ofCommand command).run.run tree)

end CommandLine
end KindLift
