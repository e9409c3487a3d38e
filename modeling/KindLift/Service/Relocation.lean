import KindLift.Service.Match

/-! References to relocated services. A service has been relocated when its name
stands for an interface without parameters and for an object that nests the
higher-kinded interface of the same name. -/
namespace KindLift

/-- A relocated service: its package and its name. -/
structure Relocated where
  package : DottedName
  name : String
deriving DecidableEq, Repr

namespace Relocated

def holderPath (target : Relocated) : DottedName := target.package.child target.name

def nestedPath (target : Relocated) : DottedName := target.holderPath.child target.name

/-- The symbols of one name say that it has been relocated. -/
def isRelocated (symbols : List Symbol) (name : String) : Bool :=
  (symbols.any fun symbol => symbol.kind = .interface && symbol.typeParams.isEmpty) &&
    symbols.any fun symbol => symbol.kind = .holder &&
      (symbol.member? name .interface).any Symbol.isHigherKindedInterface

/-- The relocated service a name of another unit means, if it means one. -/
def resolve (unit : SourceUnit) (name : String) : Except RuleError (Option Relocated) := do
  let scope ← unit.scopeOf
  let candidates := (scope.candidates name).filter fun symbol => symbol.simpleName = name
  let packages := ((candidates.map Symbol.parent).mergeSort fun a b => (compare a b).isLE).eraseReps
  let relocated := packages.filter fun package =>
    isRelocated (candidates.filter fun symbol => symbol.parent = package) name
  match relocated with
  | [] => return none
  | [package] => return some ⟨package, name⟩
  | many => throw (.ambiguous unit.id name (many.map DottedName.render))

/-- Some object of the unit nests a higher-kinded interface of the name. -/
def isNested (outline : Outline) (name : String) : Bool :=
  (outline.decls.filterMap Decl.holder?).any fun holder =>
    match holder.nestedInterface? name with
    | some nested => nested.typeParams.map TypeParam.kind = [.higherKinded]
    | none => false

/-- The unit's own interfaces that have been relocated. -/
def localAliases (outline : Outline) : List Interface :=
  (outline.decls.filterMap Decl.interface?).filter fun interface =>
    interface.typeParams.isEmpty && isNested outline interface.name

/-- The span of the last alias of a name. -/
def aliasSpan? (outline : Outline) (name : String) : Option Span :=
  ((localAliases outline).reverse.find? fun interface => interface.name = name).map Interface.span

/-- What a single reference refers to. Inside the object of its own name it means
the nested interface, and inside the alias it is the alias's own business. -/
def ofReference (unit : SourceUnit) (scope : Scope) (reference : TypeRef) :
    Except RuleError (Option Relocated) :=
  if reference.enclosingHolder = some reference.name then .ok none
  else if scope.isLocal reference.name then
    match aliasSpan? unit.outline reference.name with
    | some span =>
      if span.contains reference.span.start then .ok none
      else .ok (some ⟨scope.package, reference.name⟩)
    | none => .ok none
  else resolve unit reference.name

end Relocated

/-- A reference to a relocated service, by its index among the unit's references. -/
structure RelocatedRef where
  index : Nat
  reference : TypeRef
  target : Relocated
deriving DecidableEq, Repr

namespace RelocatedRef

/-- References are taken after services. -/
def rank : Nat := 2

/-- The references of a unit that mean relocated services, in source order. -/
def findAll (unit : SourceUnit) : Except RuleError (List RelocatedRef) := do
  let scope ← unit.scopeOf
  let found ← unit.outline.typeRefs.zipIdx.mapM fun (reference, index) => do
    let target ← Relocated.ofReference unit scope reference
    return target.map fun target => RelocatedRef.mk index reference target
  return found.filterMap id

end RelocatedRef
end KindLift
