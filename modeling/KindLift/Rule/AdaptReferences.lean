import KindLift.Rule
import KindLift.Service.Relocation

/-! The rule that qualifies references to relocated services, so that they mean
the nested interface again. -/
namespace KindLift.AdaptReferences

def ruleName : String := "adapt-references"

/-- Puts the service's name and a point in front of the reference. -/
def qualify (found : RelocatedRef) : Edit :=
  .insertion found.reference.span.start (found.target.name ++ ".")

def editSet (unit : SourceUnit) : Except RuleError EditSet := do
  Rule.validated ruleName unit ((← RelocatedRef.findAll unit).map qualify)

def rule : Rule := ⟨ruleName, false, editSet⟩

end KindLift.AdaptReferences
