import KindLift.Rule.AdaptReferences
import KindLift.Rule.AddInstances
import KindLift.Table

/-! The registry of rules, in the order in which they run. -/
namespace KindLift

structure Registry where
  rules : Table String Rule

/-- A rule that was asked for is not registered. -/
structure UnknownRule where
  name : String
  known : List String
deriving DecidableEq, Repr

def UnknownRule.message (error : UnknownRule) : String :=
  "unknown rule `" ++ error.name ++ "` (known: " ++ String.intercalate ", " error.known ++ ")"

namespace Registry

def empty : Registry := ⟨.empty⟩

/-- Adds a rule at the end, or in the place of the rule of its name. -/
def register (registry : Registry) (rule : Rule) : Registry :=
  ⟨registry.rules.insert rule.name rule⟩

/-- The two rules of the migration. -/
def standard (conventions : Conventions) : Registry :=
  (empty.register (AddInstances.rule conventions)).register AdaptReferences.rule

def names (registry : Registry) : List String := registry.rules.keys

def contains (registry : Registry) (name : String) : Bool := registry.rules.contains name

def get? (registry : Registry) (name : String) : Option Rule := registry.rules.get? name

def remove (registry : Registry) (name : String) : Registry := ⟨registry.rules.erase name⟩

/-- The rules of the given names in the registry's order; no names mean all. -/
def select (registry : Registry) (names : List String) : Except UnknownRule (List Rule) :=
  match names.find? fun name => !registry.contains name with
  | some unknown => .error ⟨unknown, registry.names⟩
  | none => .ok ((registry.rules.entries.filter fun entry =>
      names.isEmpty || names.contains entry.1).map Prod.snd)

end Registry
end KindLift
