import KindLift.Service.Match

/-! What a run reports of each unit, and the text of the report. -/
namespace KindLift

/-- Why a unit is left as it is. -/
inductive Problem where
  | tooLarge (size limit : Nat)
  | rule (error : RuleError)
  | duplicate (error : DuplicateSymbol)
deriving DecidableEq

def Problem.reason : Problem → String
  | tooLarge size limit =>
    "file too large: " ++ toString size ++ " bytes (max: " ++ toString limit ++ ")"
  | rule error => error.message
  | duplicate error => error.message

/-- What became of a unit. -/
inductive Outcome where
  | changed (rules : List String) (edits : Nat)
  | unchanged
  | skipped (problem : Problem)
  | failed (problem : Problem)
deriving DecidableEq

namespace Outcome

def label : Outcome → String
  | changed _ _ => "changed"
  | unchanged => "unchanged"
  | skipped _ => "skipped"
  | failed _ => "failed"

def isChanged : Outcome → Bool
  | changed _ _ => true
  | _ => false

def isProblem : Outcome → Bool
  | skipped _ | failed _ => true
  | _ => false

end Outcome

/-- A unit, what became of it, and the difference if it has changed. -/
structure UnitReport where
  unit : UnitId
  outcome : Outcome
  diff : Option String
deriving DecidableEq

/-- One line for each unit that is not left alone. -/
def UnitReport.render (report : UnitReport) : String :=
  match report.outcome with
  | .changed rules edits =>
    "changed   " ++ report.unit ++ " (" ++ toString edits ++ " edits: " ++
      String.intercalate ", " rules ++ ")\n"
  | .unchanged => ""
  | .skipped problem => "skipped   " ++ report.unit ++ ": " ++ problem.reason ++ "\n"
  | .failed problem => "failed    " ++ report.unit ++ ": " ++ problem.reason ++ "\n"

/-- Units in the order of processing, and how many files were written. -/
structure Report where
  units : List UnitReport
  dryRun : Bool
  written : Nat
deriving DecidableEq

namespace Report

def count (report : Report) (label : String) : Nat :=
  report.units.countP fun unit => unit.outcome.label = label

def changed (report : Report) : List UnitReport :=
  report.units.filter fun unit => unit.outcome.isChanged

def problems (report : Report) : List UnitReport :=
  report.units.filter fun unit => unit.outcome.isProblem

/-- No unit was skipped or failed. -/
def isSuccess (report : Report) : Bool := report.problems.isEmpty

def exitCode (report : Report) : Nat := if report.isSuccess then 0 else 1

/-- The differences of all changed units. -/
def diffs (report : Report) : String := String.join (report.units.filterMap UnitReport.diff)

def summary (report : Report) : String :=
  toString report.units.length ++ " units: " ++ toString (report.count "changed") ++ " changed, " ++
    toString (report.count "unchanged") ++ " unchanged, " ++
    toString (report.count "skipped") ++ " skipped, " ++
    toString (report.count "failed") ++ " failed" ++ if report.dryRun then " (dry run)" else ""

def render (report : Report) : String :=
  String.join (report.units.map UnitReport.render) ++ report.summary

end Report
end KindLift
