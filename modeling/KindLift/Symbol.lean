import KindLift.DottedName

/-! Symbols are what a unit offers to the other units of its program: a name, what
it names, and the members that can be reached through it. -/
namespace KindLift

/-- Units are identified by their path or any other text that stays the same
across edits. -/
abbrev UnitId := String

inductive Namespace where
  | type
  | term
deriving DecidableEq, Repr

inductive SymbolKind where
  | interface
  | holder
  | classLike
  | typeAlias
  | value
deriving DecidableEq, Repr

/-- Types and terms may share a name. -/
def SymbolKind.inhabits : SymbolKind → Namespace
  | .interface | .classLike | .typeAlias => .type
  | .holder | .value => .term

/-- A type parameter ranges over types or over type constructors. -/
inductive ParamKind where
  | proper
  | higherKinded
deriving DecidableEq, Repr

inductive Symbol where
  | mk (name : DottedName) (kind : SymbolKind) (unit : UnitId) (typeParams : List ParamKind)
      (members : List Symbol)

namespace Symbol

def name : Symbol → DottedName
  | mk name _ _ _ _ => name

def kind : Symbol → SymbolKind
  | mk _ kind _ _ _ => kind

def unit : Symbol → UnitId
  | mk _ _ unit _ _ => unit

def typeParams : Symbol → List ParamKind
  | mk _ _ _ typeParams _ => typeParams

def members : Symbol → List Symbol
  | mk _ _ _ _ members => members

def simpleName (symbol : Symbol) : String := symbol.name.last?.getD ""

def parent (symbol : Symbol) : DottedName := symbol.name.parent?.getD .root

/-- An interface over a single type constructor. -/
def isHigherKindedInterface (symbol : Symbol) : Bool :=
  symbol.kind = .interface && symbol.typeParams = [.higherKinded]

/-- The first member of the given name and kind. -/
def member? (symbol : Symbol) (name : String) (kind : SymbolKind) : Option Symbol :=
  symbol.members.find? fun member => member.kind = kind && member.simpleName = name

end Symbol
end KindLift
