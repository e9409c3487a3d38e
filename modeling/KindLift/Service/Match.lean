import KindLift.Edit
import KindLift.Service.Conventions
import KindLift.SourceUnit

/-! Finding the services of a unit. A legacy service is an interface over the
asynchronous type that extends the marker; a modern service is an interface over
a type constructor. Both have abstract methods only, all of which return the
parameter applied to something. -/
namespace KindLift

/-- Why a rule makes no edits to a unit. -/
inductive RuleError where
  | unavailable (unit : UnitId) (cause : Unresolved)
  | ambiguous (unit : UnitId) (name : String) (candidates : List String)
  | overlapping (unit : UnitId) (error : EditError)
  | brokenSpan (unit : UnitId)
deriving DecidableEq

namespace RuleError

def unit : RuleError → UnitId
  | unavailable unit _ | ambiguous unit _ _ | overlapping unit _ | brokenSpan unit => unit

def message : RuleError → String
  | unavailable unit cause => "semantic information unavailable for " ++ unit ++ ": " ++ cause.reason
  | ambiguous unit name candidates =>
    "ambiguous match for `" ++ name ++ "` in " ++ unit ++ ": " ++ String.intercalate ", " candidates
  | overlapping unit error => "overlapping edits in " ++ unit ++ ": " ++ error.message
  | brokenSpan unit => "a span does not address the text of " ++ unit

/-- The whole run ends. -/
def isFatal : RuleError → Bool
  | overlapping _ _ | brokenSpan _ => true
  | _ => false

/-- The unit is skipped rather than failed. -/
def isSkip : RuleError → Bool
  | unavailable _ _ => true
  | _ => false

end RuleError

namespace SourceUnit

/-- The scope of a unit, which a rule needs before it looks at anything else. -/
def scopeOf (unit : SourceUnit) : Except RuleError Scope :=
  match unit.scope with
  | .ok scope => .ok scope
  | .error cause => .error (.unavailable unit.id cause)

/-- Interfaces with their index among the declarations. -/
def interfaces (unit : SourceUnit) : List (Nat × Interface) :=
  unit.outline.decls.zipIdx.filterMap fun (decl, index) =>
    decl.interface?.map fun interface => (index, interface)

/-- Objects with their index among the declarations. -/
def holders (unit : SourceUnit) : List (Nat × Holder) :=
  unit.outline.decls.zipIdx.filterMap fun (decl, index) =>
    decl.holder?.map fun holder => (index, holder)

/-- A declaration as a message names it. -/
def describe (unit : SourceUnit) (keyword name : String) (offset : Nat) : String :=
  keyword ++ " " ++ name ++ " at " ++ (Position.ofOffset unit.text.toList offset).render

/-- The object beside an interface: the one of its name. -/
def companion (unit : SourceUnit) (interface : Interface) :
    Except RuleError (Option (Nat × Holder)) := do
  let _ ← unit.scopeOf
  match unit.holders.filter fun (_, holder) => holder.name = interface.name with
  | [] => return none
  | [only] => return some only
  | many => throw (.ambiguous unit.id interface.name
      (many.map fun (_, holder) => unit.describe "object" holder.name holder.span.start))

/-- The interface of a name, if it is the only one. -/
def uniqueInterface (unit : SourceUnit) (name : String) :
    Except RuleError (Option (Nat × Interface)) := do
  let _ ← unit.scopeOf
  match unit.interfaces.filter fun (_, interface) => interface.name = name with
  | [] => return none
  | [only] => return some only
  | many => throw (.ambiguous unit.id name
      (many.map fun (_, interface) => unit.describe "trait" interface.name interface.span.start))

/-- The interfaces of a shape. -/
def interfacesWith (unit : SourceUnit) (shape : Interface → Bool) :
    Except RuleError (List (Nat × Interface)) := do
  let _ ← unit.scopeOf
  return unit.interfaces.filter fun (_, interface) => shape interface

end SourceUnit

namespace Interface

/-- Abstract methods only, at least one, all returning `head` applied. -/
def isServiceBody (interface : Interface) (head : String) : Bool :=
  !interface.methods.isEmpty && !interface.hasConcreteMembers &&
    interface.methods.all fun method => method.returnsApplied head

/-- A service over a type constructor. -/
def isModernService (interface : Interface) : Bool :=
  match interface.singleTypeParam? with
  | some param => param.kind = .higherKinded && interface.isServiceBody param.name
  | none => false

/-- A marked service over the asynchronous type. -/
def isLegacyService (conventions : Conventions) (interface : Interface) : Bool :=
  match interface.singleTypeParam? with
  | some param =>
    param.kind = .proper && param.name = conventions.asyncType &&
      interface.extendsNamed conventions.markerName && interface.isServiceBody conventions.asyncType
  | none => false

end Interface

inductive Shape where
  | legacy
  | modern
deriving DecidableEq, Repr

/-- Legacy services come first. -/
def Shape.rank : Shape → Nat
  | .legacy => 0
  | .modern => 1

/-- A service of a unit and the object beside it, each with its index. -/
structure Service where
  shape : Shape
  index : Nat
  interface : Interface
  holder : Option (Nat × Holder)
deriving DecidableEq, Repr

namespace Service

/-- A legacy service whose object nests a trait of its name already is in doubt. -/
def checkNested (unit : SourceUnit) (interface : Interface) (holder : Option (Nat × Holder)) :
    Except RuleError Unit :=
  match holder with
  | none => .ok ()
  | some (_, holder) =>
    match holder.nestedInterface? interface.name with
    | none => .ok ()
    | some nested => .error (.ambiguous unit.id interface.name
        [unit.describe "trait" interface.name interface.span.start,
         unit.describe "trait" nested.name nested.span.start])

/-- The service at an interface of the given shape. -/
def identify (unit : SourceUnit) (shape : Shape) (found : Nat × Interface) :
    Except RuleError Service := do
  let _ ← unit.uniqueInterface found.2.name
  let holder ← unit.companion found.2
  if shape = .legacy then checkNested unit found.2 holder
  return ⟨shape, found.1, found.2, holder⟩

/-- The services at all interfaces that pass the test of a shape. -/
def findShape (unit : SourceUnit) (shape : Shape) (test : Interface → Bool) :
    Except RuleError (List Service) := do
  (← unit.interfacesWith test).mapM (identify unit shape)

/-- The services of a unit, legacy ones first. -/
def findAll (unit : SourceUnit) (conventions : Conventions) : Except RuleError (List Service) := do
  let legacy ← findShape unit .legacy (·.isLegacyService conventions)
  let modern ← findShape unit .modern Interface.isModernService
  return legacy ++ modern

end Service
end KindLift
