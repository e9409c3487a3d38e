import KindLift.Service.Match

/-! Rules: named functions from a unit to the edits of its text. -/
namespace KindLift

structure Rule where
  name : String
  isIdempotent : Bool
  editSet : SourceUnit → Except RuleError EditSet

namespace Rule

/-- The edits as a set over the unit's text, which must not conflict. -/
def validated (rule : String) (unit : SourceUnit) (edits : List Edit) : Except RuleError EditSet :=
  let set := EditSet.onText rule unit.text edits
  match set.validate with
  | .ok () => .ok set
  | .error error => .error (.overlapping unit.id error)

/-- The rule that makes the same edits to every unit, whether they fit or not. -/
def constant (name : String) (edits : List Edit) : Rule :=
  ⟨name, false, fun unit => .ok (EditSet.onText name unit.text edits)⟩

end Rule
end KindLift
