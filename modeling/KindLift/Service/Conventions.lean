import KindLift.DottedName

/-! The names a code base uses for its services and for what is generated. -/
namespace KindLift

/-- Where the generated code finds what it refers to. -/
structure LibraryNames where
  readerT : DottedName
  functorK : DottedName
  arrow : DottedName
deriving DecidableEq, Repr

namespace LibraryNames

def default : LibraryNames :=
  ⟨⟨["cats", "data", "ReaderT"]⟩, ⟨["cats", "tagless", "FunctorK"]⟩, ⟨["cats", "~>"]⟩⟩

/-- In the order in which they are imported. -/
def all (names : LibraryNames) : List DottedName := [names.readerT, names.functorK, names.arrow]

def readerTName (names : LibraryNames) : String := names.readerT.last?.getD "ReaderT"

def functorKName (names : LibraryNames) : String := names.functorK.last?.getD "FunctorK"

def arrowName (names : LibraryNames) : String := names.arrow.last?.getD "~>"

end LibraryNames

/-- The parent that marks a legacy service, the type its methods return, the type
parameter of a migrated service, and the library names. -/
structure Conventions where
  markerInterface : String
  asyncType : String
  effectParam : String
  imports : LibraryNames
deriving DecidableEq, Repr

namespace Conventions

def default : Conventions := ⟨"ThriftService", "Future", "F", .default⟩

/-- The marker's simple name: what follows its last point. -/
def markerName (conventions : Conventions) : String :=
  String.ofList ((Text.splitOn '.' conventions.markerInterface.toList).getLast?.getD [])

end Conventions
end KindLift
