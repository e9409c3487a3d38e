import KindLift.Decl.Outline
import KindLift.SortedSet
import KindLift.Symbol.Index

/-! Source units: a text with its outline and the meaning of the names it refers
to. Names are resolved against the index of the program as it is at that time. -/
namespace KindLift

/-- How a name came into scope. -/
inductive Origin where
  | explicitImport
  | wildcardImport
  | package
deriving DecidableEq, Repr

structure Binding where
  origin : Origin
  candidates : List Symbol

/-- The names of a unit: what it declares itself, and what its references to
other names may mean. -/
structure Scope where
  package : DottedName
  locals : List String
  bindings : Table String Binding

namespace Scope

def isLocal (scope : Scope) (name : String) : Bool := scope.locals.contains name

def candidates (scope : Scope) (name : String) : List Symbol :=
  match scope.bindings.get? name with
  | some binding => binding.candidates
  | none => []

end Scope

/-- Why a unit has no scope. -/
inductive Unresolved where
  | unparsed (error : ParseError)
  | missingImport (name : DottedName)
deriving DecidableEq, Repr

def Unresolved.reason : Unresolved → String
  | .unparsed error => "parse error at " ++ error.message
  | .missingImport name => "cannot resolve import " ++ name.render

namespace Scope

/-- The symbols of a path: those of that very name, or else the members of that
name in the object one level up. -/
def lookupPath (index : Index) (path : DottedName) : List Symbol :=
  match index.lookup path with
  | [] =>
    match path.parent?, path.last? with
    | some parent, some last =>
      ((index.lookupIn parent .term).filter fun symbol => symbol.kind = .holder).flatMap fun holder =>
        holder.members.filter fun member => member.simpleName = last
    | _, _ => []
  | found => found

/-- The members that named selectors make visible as `name`. -/
def explicitTargets (imports : List Import) (name : String) : List DottedName :=
  imports.flatMap fun clause => clause.selectors.filterMap fun
    | .named member rename =>
      let visible := rename.getD member
      if visible = name && visible ≠ "_" then some (clause.path.child member) else none
    | .wildcard => none

/-- The clause hides `name` from its own wildcard. -/
def hides (clause : Import) (name : String) : Bool :=
  clause.selectors.contains (.named name (some "_"))

/-- The members that wildcards make visible as `name`. -/
def wildcardTargets (imports : List Import) (name : String) : List DottedName :=
  (imports.filter fun clause => clause.isWildcard && !hides clause name).map fun clause =>
    clause.path.child name

/-- The meaning of a name: explicit imports come before wildcard imports, and
those before the other units of the package. -/
def bind? (index : Index) (unit : UnitId) (package : DottedName) (imports : List Import)
    (name : String) : Option Binding :=
  match (explicitTargets imports name).flatMap (lookupPath index) with
  | [] =>
    match (wildcardTargets imports name).flatMap (lookupPath index) with
    | [] =>
      match (index.lookup (package.child name)).filter fun symbol => symbol.unit ≠ unit with
      | [] => none
      | found => some ⟨.package, found⟩
    | found => some ⟨.wildcardImport, found⟩
  | found => some ⟨.explicitImport, found⟩

/-- An import target that should be in the program but is not: its parent is a
package of the program, and it is neither a package nor a symbol. -/
def isMissing (index : Index) (target : DottedName) : Bool :=
  !index.hasPackage target &&
    match target.parent? with
    | some parent => index.hasPackage parent && (lookupPath index target).isEmpty
    | none => false

/-- Binds a reference unless it is bound already or means a local name. -/
def bindRef (index : Index) (unit : UnitId) (package : DottedName) (imports : List Import)
    (locals : List String) (bindings : Table String Binding) (name : String) :
    Table String Binding :=
  if locals.contains name || bindings.contains name then bindings
  else match bind? index unit package imports name with
    | some binding => bindings.insert name binding
    | none => bindings

/-- The scope of a unit. -/
def resolve (index : Index) (unit : UnitId) (outline : Outline) : Except Unresolved Scope :=
  match (outline.imports.flatMap Import.targets).find? (isMissing index) with
  | some target => .error (.missingImport target)
  | none =>
    let package := outline.packageName
    let locals := outline.decls.filterMap Decl.name?
    .ok ⟨package, locals, (outline.typeRefs.map TypeRef.name).foldl
      (bindRef index unit package outline.imports locals) .empty⟩

end Scope

structure SourceUnit where
  id : UnitId
  text : String
  outline : Outline
  scope : Except Unresolved Scope

namespace SourceUnit

/-- The extensions of files that may hold a unit. -/
def extensions : List String := ["scala", "sc"]

/-- Reads a unit and resolves its names. A text that does not parse has an empty
outline. -/
def load (index : Index) (id : UnitId) (text : String) : SourceUnit :=
  match Outline.parse text.toList with
  | .ok outline => ⟨id, text, outline, Scope.resolve index id outline⟩
  | .error error => ⟨id, text, .empty, .error (.unparsed error)⟩

def packageName (unit : SourceUnit) : DottedName := unit.outline.packageName

/-- The interface as a symbol under the given parent. -/
def interfaceSymbol (unit : UnitId) (parent : DottedName) (interface : Interface) : Symbol :=
  .mk (parent.child interface.name) .interface unit (interface.typeParams.map TypeParam.kind) []

/-- What a member of an object is as a symbol; values are not exported, and
interfaces are exported with their type parameters instead. -/
def memberSymbolKind? : MemberKind → Option SymbolKind
  | .object => some .holder
  | .classLike => some .classLike
  | .typeAlias => some .typeAlias
  | _ => none

/-- The object as a symbol with its nested interfaces, then its other members. -/
def holderSymbol (unit : UnitId) (package : DottedName) (holder : Holder) : Symbol :=
  let name := package.child holder.name
  .mk name .holder unit []
    (holder.nested.map (interfaceSymbol unit name) ++
      holder.members.filterMap fun member => (memberSymbolKind? member.kind).map fun kind =>
        .mk (name.child member.name) kind unit [] [])

/-- The symbol of a top-level declaration, if it has one. -/
def declSymbol? (unit : UnitId) (package : DottedName) : Decl → Option Symbol
  | .interface i => some (interfaceSymbol unit package i)
  | .holder h => some (holderSymbol unit package h)
  | .other o =>
    match o.name, o.symbolKind with
    | some name, some kind => some (.mk (package.child name) kind unit [] [])
    | _, _ => none

/-- The symbols a unit offers to its program. -/
def exportedSymbols (unit : SourceUnit) : List Symbol :=
  unit.outline.decls.filterMap (declSymbol? unit.id unit.packageName)

/-- Registers the exported symbols. -/
def register (index : Index) (unit : SourceUnit) : Except DuplicateSymbol Index :=
  index.register unit.id unit.packageName unit.exportedSymbols

end SourceUnit

/-- What the order of processing depends on: package, imports, and the names a
unit declares and refers to. -/
structure Header where
  package : Option PackageClause
  imports : List Import
  declared : List String
  referenced : List String
  error : Option ParseError
deriving DecidableEq, Repr

namespace Header

def empty : Header := ⟨none, [], [], [], none⟩

def packageName (header : Header) : DottedName :=
  match header.package with
  | some clause => clause.name
  | none => .root

def targets (header : Header) : List DottedName := header.imports.flatMap Import.targets

/-- The header of a text. A text that does not parse as a whole still has the
clauses it begins with. -/
def ofText (text : String) : Header :=
  match Outline.parse text.toList with
  | .ok outline =>
    { package := outline.package
      imports := outline.imports
      declared := sortedSet (outline.decls.filterMap Decl.name?)
      referenced := sortedSet (outline.typeRefs.map TypeRef.name)
      error := none }
  | .error _ =>
    match Outline.parsePreamble text.toList with
    | .ok preamble => { empty with package := preamble.package, imports := preamble.imports }
    | .error error => { empty with error := some error }

end Header
end KindLift
