import KindLift.Report

/-! The report as an indented JSON text. -/
namespace KindLift

namespace Report

inductive Json where
  | text (text : String)
  | number (number : Nat)
  | truth (truth : Bool)
  | list (items : List Json)
  | object (fields : List (String × Json))

namespace Json

def hexDigit (n : Nat) : Char := if n < 10 then Char.ofNat (48 + n) else Char.ofNat (87 + n)

/-- A character inside of a string. -/
def escape (c : Char) : String :=
  match c with
  | '"' => "\\\""
  | '\\' => "\\\\"
  | '\x08' => "\\b"
  | '\x0c' => "\\f"
  | '\n' => "\\n"
  | '\r' => "\\r"
  | '\t' => "\\t"
  | _ =>
    if c.toNat < 32 then
      "\\u00" ++ String.ofList [hexDigit (c.toNat / 16), hexDigit (c.toNat % 16)]
    else c.toString

def quote (text : String) : String := "\"" ++ String.join (text.toList.map escape) ++ "\""

def margin (depth : Nat) : String := String.ofList (List.replicate (2 * depth) ' ')

/-- Items on lines of their own between two brackets; no items take one line. -/
def enclose (left right : String) (depth : Nat) : List String → String
  | [] => left ++ right
  | items =>
    left ++ "\n" ++
      String.intercalate ",\n" (items.map fun item => margin (depth + 1) ++ item) ++
      "\n" ++ margin depth ++ right

mutual

/-- A value whose last line is indented by `depth` levels. -/
def render (depth : Nat) : Json → String
  | .text found => quote found
  | .number found => toString found
  | .truth found => if found then "true" else "false"
  | .list items => enclose "[" "]" depth (renderItems (depth + 1) items)
  | .object fields => enclose "\x7b" "\x7d" depth (renderFields (depth + 1) fields)

def renderItems (depth : Nat) : List Json → List String
  | [] => []
  | item :: items => item.render depth :: renderItems depth items

def renderFields (depth : Nat) : List (String × Json) → List String
  | [] => []
  | (key, value) :: fields => (quote key ++ ": " ++ value.render depth) :: renderFields depth fields

end

end Json

end Report

open Report (Json)

def Outcome.toFields : Outcome → List (String × Json)
  | .changed rules edits => [("rules", .list (rules.map .text)), ("edits", .number edits)]
  | .unchanged => []
  | .skipped problem | .failed problem => [("reason", .text problem.reason)]

def UnitReport.toJson (report : UnitReport) : Json :=
  .object ([("unit", .text report.unit), ("path", .text report.unit),
    ("outcome", .text report.outcome.label)] ++ report.outcome.toFields ++
    match report.diff with
    | some diff => [("diff", .text diff)]
    | none => [])

def Report.toJson (report : Report) : Json :=
  .object [("units", .list (report.units.map UnitReport.toJson)),
    ("dry_run", .truth report.dryRun), ("written", .number report.written)]

def Report.renderJson (report : Report) : String := report.toJson.render 0

end KindLift
