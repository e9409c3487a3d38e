import KindLift.Service.Conventions
import KindLift.Toml.Document

/-! The settings of a run, and how a configuration file gives them. Every entry
of the file may be left out. -/
namespace KindLift

structure Settings where
  conventions : Conventions
  extensions : List String
  rules : List String
  maxFileSize : Nat
  readConcurrency : Nat
  dryRun : Bool
deriving DecidableEq, Repr

namespace Settings

def default : Settings :=
  { conventions := .default
    extensions := ["scala"]
    rules := ["add-instances", "adapt-references"]
    maxFileSize := 10 * 1024 * 1024
    readConcurrency := 32
    dryRun := false }

/-- The settings with other rules; no names leave the rules as they are. -/
def withRules (settings : Settings) (rules : List String) : Settings :=
  if rules.isEmpty then settings else { settings with rules := rules }

def withDryRun (settings : Settings) (dryRun : Bool) : Settings :=
  { settings with dryRun := dryRun }

end Settings

namespace Toml

def Value.string? : Value → Option String
  | .string text => some text
  | _ => none

def Value.boolean? : Value → Option Bool
  | .boolean truth => some truth
  | _ => none

/-- A size: an integer that is not negative. -/
def Value.size? : Value → Option Nat
  | .integer number => if 0 ≤ number then some number.toNat else none
  | _ => none

def Value.strings? : Value → Option (List String)
  | .array _ items => items.mapM Value.string?
  | _ => none

def Value.name? : Value → Option DottedName
  | .string text => (DottedName.parse text).toOption
  | _ => none

/-- The values of a group of fields, in the order of the fields. A group is
written as a table, or as an array with the values in that order, of which the
last may be left out and more are ignored. A date counts as a table without any of
the fields. A closed group has no other keys. -/
def Value.fields? (isClosed : Bool) (keys : List String) : Value → Option (List (Option Value))
  | .table _ entries =>
    if isClosed && entries.any (fun entry => !keys.contains entry.1) then none
    else some (keys.map (Entries.find? entries))
  | .array _ items => some (keys.mapIdx fun i _ => items[i]?)
  | .datetime => if isClosed then none else some (keys.map fun _ => none)
  | _ => none

/-- The value of a field, or the default where the field is left out. -/
def field (read : Value → Option α) (default : α) : Option Value → Option α
  | some value => read value
  | none => some default

def libraryNames? (value : Value) : Option LibraryNames := do
  match ← value.fields? false ["reader_t", "functor_k", "natural_transformation"] with
  | [readerT, functorK, arrow] =>
    return ⟨← field Value.name? LibraryNames.default.readerT readerT,
      ← field Value.name? LibraryNames.default.functorK functorK,
      ← field Value.name? LibraryNames.default.arrow arrow⟩
  | _ => none

def conventions? (value : Value) : Option Conventions := do
  match ← value.fields? false ["marker_interface", "async_type", "effect_param", "imports"] with
  | [marker, asyncType, effectParam, imports] =>
    return ⟨← field Value.string? Conventions.default.markerInterface marker,
      ← field Value.string? Conventions.default.asyncType asyncType,
      ← field Value.string? Conventions.default.effectParam effectParam,
      ← field libraryNames? .default imports⟩
  | _ => none

/-- The settings with those of the group about the run itself. -/
def runSettings? (settings : Settings) (value : Value) : Option Settings := do
  match ← value.fields? true
      ["extensions", "rules", "max_file_size", "read_concurrency", "dry_run"] with
  | [extensions, rules, maxFileSize, readConcurrency, dryRun] =>
    return { settings with
      extensions := ← field Value.strings? settings.extensions extensions
      rules := ← field Value.strings? settings.rules rules
      maxFileSize := ← field Value.size? settings.maxFileSize maxFileSize
      readConcurrency := ← field Value.size? settings.readConcurrency readConcurrency
      dryRun := ← field Value.boolean? settings.dryRun dryRun }
  | _ => none

end Toml

/-- The settings a configuration file gives. -/
def Settings.parse? (text : String) : Option Settings := do
  let entries ← Toml.parse text
  match ← Toml.Value.fields? true ["engine", "driver"] (.table .header entries) with
  | [conventions, run] =>
    let conventions ← Toml.field Toml.conventions? .default conventions
    let settings := { Settings.default with conventions := conventions }
    Toml.field (Toml.runSettings? settings) settings run
  | _ => none

end KindLift
