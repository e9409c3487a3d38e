import KindLift.Symbol
import KindLift.Table

/-! The index of a program: all symbols by qualified name, what each unit has
registered, and how many units each package has. -/
namespace KindLift

/-- What a unit registered last: its package and the keys of its symbols. -/
structure Registration where
  package : DottedName
  keys : List String
deriving DecidableEq, Repr

structure Index where
  entries : Table String (List Symbol)
  units : Table UnitId Registration
  packages : Table DottedName Nat

/-- A symbol cannot be registered twice in one namespace by different units. -/
structure DuplicateSymbol where
  name : DottedName
  space : Namespace
  existing : UnitId
deriving DecidableEq, Repr

def Namespace.label : Namespace → String
  | .type => "Type"
  | .term => "Term"

def DuplicateSymbol.message (error : DuplicateSymbol) : String :=
  "duplicate symbol " ++ error.name.render ++ " (" ++ error.space.label ++
    "), already declared in " ++ error.existing

namespace Index

def empty : Index := ⟨.empty, .empty, .empty⟩

/-- Symbols are filed under their segments with slashes between them. -/
def key (name : DottedName) : String := name.join "/"

/-- All symbols of a name, in the order in which they were registered. -/
def lookup (index : Index) (name : DottedName) : List Symbol :=
  (index.entries.get? (key name)).getD []

def lookupIn (index : Index) (name : DottedName) (space : Namespace) : List Symbol :=
  (index.lookup name).filter fun symbol => symbol.kind.inhabits = space

def hasPackage (index : Index) (package : DottedName) : Bool := index.packages.contains package

def size (index : Index) : Nat := index.entries.values.flatten.length

/-- A symbol of another unit that takes the place of `symbol`. -/
def rival? (index : Index) (unit : UnitId) (symbol : Symbol) : Option Symbol :=
  (index.lookup symbol.name).find? fun other =>
    other.unit ≠ unit && other.kind.inhabits = symbol.kind.inhabits

/-- The first symbol that another unit has already registered. -/
def duplicate? (index : Index) (unit : UnitId) (symbols : List Symbol) : Option DuplicateSymbol :=
  symbols.findSome? fun symbol =>
    (index.rival? unit symbol).map fun other => ⟨symbol.name, symbol.kind.inhabits, other.unit⟩

/-- Removes a unit's symbols from one entry; an entry is never left empty. -/
def dropFrom (unit : UnitId) (entries : Table String (List Symbol)) (key : String) :
    Table String (List Symbol) :=
  match entries.get? key with
  | none => entries
  | some symbols =>
    match symbols.filter fun symbol => symbol.unit ≠ unit with
    | [] => entries.erase key
    | kept => entries.insert key kept

/-- One unit fewer in a package; a package without units is forgotten. -/
def leavePackage (packages : Table DottedName Nat) (package : DottedName) : Table DottedName Nat :=
  match packages.get? package with
  | none => packages
  | some count => if count ≤ 1 then packages.erase package else packages.insert package (count - 1)

/-- Forgets what a unit has registered. -/
def withdraw (index : Index) (unit : UnitId) : Index :=
  match index.units.get? unit with
  | none => index
  | some registration =>
    { entries := registration.keys.foldl (dropFrom unit) index.entries
      units := index.units.erase unit
      packages := leavePackage index.packages registration.package }

/-- Files a symbol after those already under its key. -/
def file (entries : Table String (List Symbol)) (symbol : Symbol) : Table String (List Symbol) :=
  entries.insert (key symbol.name) ((entries.get? (key symbol.name)).getD [] ++ [symbol])

/-- Adds a key unless it is there. -/
def addKey (keys : List String) (key : String) : List String :=
  if keys.contains key then keys else keys ++ [key]

/-- Registers a unit that has no registration. -/
def enroll (index : Index) (unit : UnitId) (package : DottedName) (symbols : List Symbol) : Index :=
  { entries := symbols.foldl file index.entries
    units := index.units.insert unit
      ⟨package, (symbols.map fun symbol => key symbol.name).foldl addKey []⟩
    packages := index.packages.insert package ((index.packages.get? package).getD 0 + 1) }

/-- Registers a unit's symbols in place of those it had before. Nothing changes
when one of them is a duplicate. -/
def register (index : Index) (unit : UnitId) (package : DottedName) (symbols : List Symbol) :
    Except DuplicateSymbol Index :=
  match index.duplicate? unit symbols with
  | some duplicate => .error duplicate
  | none => .ok ((index.withdraw unit).enroll unit package symbols)

/-- Registers a unit in place and answers with the number of its symbols. An index
that refuses the unit stays as it is. -/
def enter (index : Index) (unit : UnitId) (package : DottedName) (symbols : List Symbol) :
    Except DuplicateSymbol Nat × Index :=
  match index.register unit package symbols with
  | .ok next => (.ok symbols.length, next)
  | .error duplicate => (.error duplicate, index)

end Index
end KindLift
