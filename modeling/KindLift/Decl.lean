import KindLift.Symbol
import KindLift.Token

/-! Declarations of a source unit. Interfaces, their abstract methods and the
objects beside them are read in full; everything else is kept as an opaque
declaration with its name. -/
namespace KindLift

structure PackageClause where
  name : DottedName
  span : Span
deriving DecidableEq, Repr

/-- One thing an import clause selects. -/
inductive Selector where
  | named (name : String) (rename : Option String)
  | wildcard
deriving DecidableEq, Repr

structure Import where
  path : DottedName
  selectors : List Selector
  span : Span
deriving DecidableEq, Repr

namespace Import

/-- The selector makes `name` visible under that very name. -/
def selects (name : String) : Selector → Bool
  | .wildcard => true
  | .named member rename => member = name && rename.all (· = name)

/-- The clause makes the named declaration visible under its own name. -/
def imports (clause : Import) (name : DottedName) : Bool :=
  match name.parent?, name.last? with
  | some parent, some last => parent = clause.path && clause.selectors.any (selects last)
  | _, _ => false

/-- The names the clause refers to: a member for a named selector, the whole
path for a wildcard. -/
def targets (clause : Import) : List DottedName :=
  clause.selectors.map fun
    | .wildcard => clause.path
    | .named name _ => clause.path.child name

def isWildcard (clause : Import) : Bool := clause.selectors.contains .wildcard

end Import

structure TypeParam where
  name : String
  kind : ParamKind
  span : Span
deriving DecidableEq, Repr

structure Parent where
  name : DottedName
  typeArgs : Option String
  span : Span
deriving DecidableEq, Repr

structure Param where
  name : String
  type : String
deriving DecidableEq, Repr

/-- The parameter takes any number of arguments. -/
def Param.isRepeated (param : Param) : Bool :=
  (Text.trimEnd param.type.toList).getLast? = some '*'

structure ParamList where
  isImplicit : Bool
  isUsing : Bool
  params : List Param
  span : Span
deriving DecidableEq, Repr

/-- The result type of a method. When it is a name applied to one bracket group,
`head` is the name and `arg` the text inside the brackets. -/
structure ResultType where
  text : String
  span : Span
  head : String
  headSpan : Span
  arg : Option String
deriving DecidableEq, Repr

structure Method where
  name : String
  span : Span
  typeParams : List TypeParam
  typeParamsText : Option String
  params : List ParamList
  result : Option ResultType
deriving DecidableEq, Repr

/-- The method returns `head` applied to something. -/
def Method.returnsApplied (method : Method) (head : String) : Bool :=
  method.result.any fun result => result.head = head && result.arg.isSome

/-- The offsets of the braces of a body. -/
structure Body where
  openBrace : Nat
  closeBrace : Nat
deriving DecidableEq, Repr

namespace Body

def span (body : Body) : Span := ⟨body.openBrace, body.closeBrace + 1⟩

/-- The characters between the braces. -/
def inner? (body : Body) (source : List Char) : Option (List Char) :=
  Text.slice? source (body.openBrace + 1) body.closeBrace

end Body

/-- A trait: its abstract methods, and whether it has any other members. -/
structure Interface where
  name : String
  nameSpan : Span
  span : Span
  typeParams : List TypeParam
  typeParamsSpan : Option Span
  parents : List Parent
  methods : List Method
  hasConcreteMembers : Bool
  body : Option Body
deriving DecidableEq, Repr

namespace Interface

def singleTypeParam? (interface : Interface) : Option TypeParam :=
  match interface.typeParams with
  | [param] => some param
  | _ => none

/-- Some parent has the given last segment. -/
def extendsNamed (interface : Interface) (name : String) : Bool :=
  interface.parents.any fun parent => parent.name.last? = some name

def isGeneric (interface : Interface) : Bool := !interface.typeParams.isEmpty

end Interface

inductive MemberKind where
  | method
  | val
  | var
  | typeAlias
  | interface
  | object
  | classLike
deriving DecidableEq, Repr

structure Member where
  name : String
  kind : MemberKind
  isImplicit : Bool
  span : Span
deriving DecidableEq, Repr

/-- An object, with its members in order and the traits nested in it. -/
structure Holder where
  name : String
  nameSpan : Span
  span : Span
  members : List Member
  nested : List Interface
  body : Option Body
deriving DecidableEq, Repr

namespace Holder

def hasMember (holder : Holder) (name : String) : Bool :=
  holder.members.any fun member => member.name = name

def nestedInterface? (holder : Holder) (name : String) : Option Interface :=
  holder.nested.find? fun interface => interface.name = name

end Holder

/-- Any other top-level declaration. -/
structure OpaqueDecl where
  keyword : String
  name : Option String
  symbolKind : Option SymbolKind
  span : Span
deriving DecidableEq, Repr

inductive Decl where
  | interface (interface : Interface)
  | holder (holder : Holder)
  | other (decl : OpaqueDecl)
deriving DecidableEq, Repr

namespace Decl

def name? : Decl → Option String
  | interface i => some i.name
  | holder h => some h.name
  | other o => o.name

def span : Decl → Span
  | interface i => i.span
  | holder h => h.span
  | other o => o.span

def interface? : Decl → Option Interface
  | interface i => some i
  | _ => none

def holder? : Decl → Option Holder
  | holder h => some h
  | _ => none

end Decl

/-- A use of a name with type arguments. -/
structure TypeRef where
  name : String
  span : Span
  enclosingHolder : Option String
deriving DecidableEq, Repr

/-- What a source text declares and refers to, before any name is resolved. -/
structure Outline where
  package : Option PackageClause
  imports : List Import
  decls : List Decl
  typeRefs : List TypeRef
deriving DecidableEq, Repr

namespace Outline

def empty : Outline := ⟨none, [], [], []⟩

def packageName (outline : Outline) : DottedName :=
  match outline.package with
  | some clause => clause.name
  | none => .root

end Outline
end KindLift
