import KindLift.Diff.Unified
import KindLift.FileTree.Discovery
import KindLift.Program.Order
import KindLift.Report
import KindLift.Rule.Registry
import KindLift.Settings

/-! Runs over the units of a program. All units are read and edited before the first
one is written back, so that a run leaves no trace when it ends in an error before
that. A text that cannot be written ends the run where it is; those in front of it
stay written. -/
namespace KindLift

/-- Why a run ends without a report. -/
inductive RunError where
  | access (path : String) (fault : FileFault)
  | walk (error : WalkError)
  | badSettings
  | unknownRule (error : UnknownRule)
  | cycle (cycle : DependencyCycle)
  | aborted (error : RuleError)
deriving DecidableEq

namespace RunError

/-- A unit cannot be read. -/
@[match_pattern] abbrev unreadable (path : String) (fault : FileFault) : RunError := .access path fault

/-- A unit cannot be written back. -/
@[match_pattern] abbrev unwritable (path : String) (fault : FileFault) : RunError := .access path fault

def message : RunError → String
  | access path fault => "i/o error on " ++ path ++ ": " ++ fault.message
  | walk error => "discovery failed: " ++ error.message
  | badSettings => "configuration error"
  | unknownRule error => "configuration error: " ++ error.message
  | .cycle found => found.message
  | aborted error => "run aborted: " ++ error.message

/-- Wrong settings are told apart from runs that go wrong. -/
def exitCode : RunError → Nat
  | badSettings | unknownRule _ => 2
  | _ => 1

end RunError

/-- A file of the run, with its text unless it is too large. -/
structure SourceFile where
  path : String
  text : Except Problem String

namespace SourceFile

def header (file : SourceFile) : Header :=
  match file.text with
  | .ok text => .ofText text
  | .error _ => .empty

/-- Reads a file of at most `limit` bytes. -/
def load {σ : Type} [Storage σ] (limit : Nat) (storage : σ) (path : String) :
    Except RunError SourceFile :=
  match Storage.read storage path with
  | .error fault => .error (.unreadable path fault)
  | .ok text =>
    if limit < text.utf8ByteSize then .ok ⟨path, .error (.tooLarge text.utf8ByteSize limit)⟩
    else .ok ⟨path, .ok text⟩

end SourceFile

/-- The settings of a run and the rules they select. -/
structure Run where
  settings : Settings
  rules : List Rule

namespace Run

/-- Selects the rules the settings name. -/
def prepare (settings : Settings) (registry : Registry) : Except RunError Run :=
  match registry.select settings.rules with
  | .ok rules => .ok ⟨settings, rules⟩
  | .error error => .error (.unknownRule error)

/-- A unit after some of the rules. -/
structure Progress where
  unit : SourceUnit
  applied : List String
  edits : Nat

/-- Applies one rule, and reads the unit anew if the rule has changed it. -/
def applyRule (index : Index) (progress : Progress) (rule : Rule) :
    Except RuleError Progress := do
  let unit := progress.unit
  let set ← rule.editSet unit
  if set.edits.isEmpty then return progress
  match set.apply unit.text with
  | .error error => throw (.overlapping unit.id error)
  | .ok text => return {
      unit := SourceUnit.load index unit.id text
      applied := progress.applied ++ [rule.name]
      edits := progress.edits + set.edits.length }

/-- What became of a file, and its new text if it has changed. -/
structure Processed where
  file : SourceFile
  outcome : Outcome
  newText : Option String

/-- The index with the unit registered, if that makes no duplicate. -/
def registerIfNew (index : Index) (unit : SourceUnit) : Index :=
  match unit.register index with
  | .ok next => next
  | .error _ => index

/-- What becomes of a unit that a rule refuses. -/
def refusal (error : RuleError) : Outcome :=
  if error.isSkip then .skipped (.rule error) else .failed (.rule error)

/-- Runs all rules over a unit and registers what is left of it. A unit that a
rule refuses is registered as it was. Whether the rules have left the same text is
seen from the texts themselves, for which their digests may stand. -/
def processText (rules : List Rule) (index : Index) (file : SourceFile) (text : String) :
    Except RunError (Processed × Index) :=
  let unit := SourceUnit.load index file.path text
  match rules.foldlM (applyRule index) ⟨unit, [], 0⟩ with
  | .error error =>
    if error.isFatal then .error (.aborted error)
    else .ok (⟨file, refusal error, none⟩, registerIfNew index unit)
  | .ok progress =>
    match progress.unit.register index with
    | .error error => .ok (⟨file, .failed (.duplicate error), none⟩, index)
    | .ok next =>
      if progress.unit.text = text then .ok (⟨file, .unchanged, none⟩, next)
      else .ok (⟨file, .changed progress.applied progress.edits, some progress.unit.text⟩, next)

/-- Processes one file. -/
def process (rules : List Rule) (index : Index) (file : SourceFile) :
    Except RunError (Processed × Index) :=
  match file.text with
  | .error problem => .ok (⟨file, .skipped problem, none⟩, index)
  | .ok text => processText rules index file text

/-- Processes files one after the other, each against the index the ones before
it have left. -/
def processAll (rules : List Rule) : Index → List SourceFile → Except RunError (List Processed)
  | _, [] => .ok []
  | index, file :: files => do
    let (processed, next) ← process rules index file
    return processed :: (← processAll rules next files)

/-- The files in the order of processing. -/
def leafFirst (files : List SourceFile) : Except RunError (List SourceFile) :=
  match (DependencyGraph.build (files.map fun file => (file.path, file.header))).leafFirst with
  | .ok order => .ok (order.filterMap fun position => files[position]?)
  | .error cycle => .error (.cycle cycle)

/-- What the report says of a processed file. -/
def Processed.report (processed : Processed) : UnitReport :=
  { unit := processed.file.path
    outcome := processed.outcome
    diff := match processed.newText, processed.file.text with
      | some new, .ok old => some (Diff.unified processed.file.path old new)
      | _, _ => none }

/-- The path and text of a file that has to be written. -/
def Processed.pending? (processed : Processed) : Option (String × String) :=
  processed.newText.map fun text => (processed.file.path, text)

/-- Reads the files and brings them into order. -/
def loadAll {σ : Type} [Storage σ] (run : Run) (storage : σ) (paths : List String) :
    Except RunError (List SourceFile) := do
  leafFirst (← paths.mapM (SourceFile.load run.settings.maxFileSize storage))

/-- What is done with a storage until it is done or fails. -/
abbrev Session (σ : Type) := ExceptT RunError (StateM σ)

/-- Writes texts back one after the other, and counts them. The first that cannot be
written is the last that is tried. -/
def persist {σ : Type} [Storage σ] : List (String × String) → Session σ Nat
  | [] => return 0
  | file :: rest => do
    match Storage.write (← get) file.1 file.2 with
    | .error fault => throw (.unwritable file.1 fault)
    | .ok after =>
      set after
      return (← persist rest) + 1

/-- Runs over the given files. Nothing is written in a dry run. -/
def session {σ : Type} [Storage σ] (run : Run) (paths : List String) : Session σ Report := do
  let files ← run.loadAll (← get) paths
  let processed ← processAll run.rules .empty files
  let units := processed.map Processed.report
  if run.settings.dryRun then return ⟨units, true, 0⟩
  else return ⟨units, false, ← persist (processed.filterMap Processed.pending?)⟩

/-- The report of a run over the given files, and the storage it leaves. -/
def files {σ : Type} [Storage σ] (run : Run) (storage : σ) (paths : List String) :
    Except RunError (Report × σ) :=
  match (run.session paths).run.run storage with
  | (.ok report, after) => .ok (report, after)
  | (.error error, _) => .error error

/-- The source files below the roots. -/
def discover (run : Run) (tree : FileTree) (roots : List String) : Except RunError (List String) :=
  match tree.discover run.settings.extensions roots with
  | .ok paths => .ok paths
  | .error error => .error (.walk error)

/-- The source files below the roots in the order of processing. -/
def order (run : Run) (tree : FileTree) (roots : List String) : Except RunError (List String) := do
  return (← run.loadAll tree (← run.discover tree roots)).map SourceFile.path

/-- Runs over the source files below the roots. -/
def treeSession (run : Run) (roots : List String) : Session FileTree Report := do
  run.session (← run.discover (← get) roots)

/-- The report of a run over the source files below the roots, and the tree it leaves. -/
def tree (run : Run) (tree : FileTree) (roots : List String) : Except RunError (Report × FileTree) :=
  match (run.treeSession roots).run.run tree with
  | (.ok report, after) => .ok (report, after)
  | (.error error, _) => .error error

end Run

namespace Settings

/-- Where settings are looked for when no file is named. -/
def fileName : String := "hkfix.toml"

def readFile (tree : FileTree) (path : String) : Except RunError Settings :=
  match tree.read path with
  | .error fault => .error (.unreadable path fault)
  | .ok text =>
    match parse? text with
    | some settings => .ok settings
    | none => .error .badSettings

/-- The settings of the named file; without a name, those of the usual file if it
exists. -/
def discover (tree : FileTree) (path : Option String) : Except RunError Settings :=
  match path with
  | some path => readFile tree path
  | none =>
    match tree.resolve fileName with
    | .ok _ => readFile tree fileName
    | .error _ => .ok .default

end Settings
end KindLift
