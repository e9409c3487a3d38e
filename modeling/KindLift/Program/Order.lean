import KindLift.Program.Graph
import KindLift.SourceUnit

/-! The order in which the units of a program are processed: a unit comes after
the units it depends on. It depends on all units of the packages it imports from,
and on the units of its own package that declare the names it refers to, as far
as that closes no cycle. -/
namespace KindLift

/-- The units of a program, and the edges from dependency to dependent. -/
structure DependencyGraph where
  ids : List UnitId
  graph : Graph
deriving DecidableEq, Repr

/-- Units that depend on each other across packages. -/
structure DependencyCycle where
  units : List UnitId
deriving DecidableEq, Repr

def DependencyCycle.message (cycle : DependencyCycle) : String :=
  "dependency cycle between units: " ++ String.intercalate ", " cycle.units

namespace DependencyGraph

/-- The longest package of the program that a name lies in, other than the root. -/
def longestPackage? (packages : List DottedName) (name : DottedName) : Option DottedName :=
  ((List.range name.segments.length).reverse.map fun count =>
    DottedName.mk (name.segments.take (count + 1))).find? (packages.contains ·)

/-- The positions of the units of a package. -/
def unitsOf (packages : List DottedName) (package : DottedName) : List Nat :=
  packages.zipIdx.filterMap fun (own, node) => if own = package then some node else none

/-- The packages other than its own that a unit imports from. -/
def importedPackages (packages : List DottedName) (header : Header) : List DottedName :=
  (header.targets.filterMap (longestPackage? packages)).filter fun package =>
    package ≠ header.packageName

/-- Edges to one unit from every unit of the packages it imports from. -/
def addImports (packages : List DottedName) (graph : Graph) (unit : Header × Nat) : Graph :=
  (importedPackages packages unit.1).foldl (fun graph package =>
    (unitsOf packages package).foldl (fun graph dependency =>
      graph.addEdge dependency unit.2) graph) graph

/-- The edge from a sibling, unless the sibling depends on the unit already. -/
def addSibling (node : Nat) (graph : Graph) (dependency : Nat) : Graph :=
  if graph.reaches node dependency then graph else graph.addEdge dependency node

/-- Edges to one unit from its siblings that declare what it refers to. -/
def addSiblings (headers : List Header) (packages : List DottedName) (graph : Graph)
    (unit : Header × Nat) : Graph :=
  let (header, node) := unit
  (header.referenced.filter fun name => !header.declared.contains name).foldl (fun graph name =>
    ((unitsOf packages header.packageName).filter fun dependency =>
      dependency ≠ node && (headers[dependency]?.any fun other => other.declared.contains name)).foldl
        (addSibling node) graph) graph

/-- The graph of a program. -/
def build (units : List (UnitId × Header)) : DependencyGraph :=
  let headers := units.map Prod.snd
  let packages := headers.map Header.packageName
  let imported := headers.zipIdx.foldl (addImports packages) ⟨units.length, []⟩
  ⟨units.map Prod.fst, headers.zipIdx.foldl (addSiblings headers packages) imported⟩

/-- The unit at a position. -/
def idAt (program : DependencyGraph) (node : Nat) : UnitId := program.ids.getD node ""

/-- The units a unit depends on directly, by position. -/
def dependencies (program : DependencyGraph) (node : Nat) : List UnitId :=
  ((program.graph.predecessors node).mergeSort).map program.idAt

/-- All positions, dependencies first. -/
def leafFirst (program : DependencyGraph) : Except DependencyCycle (List Nat) :=
  match program.graph.topologicalOrder with
  | .ok order => .ok order
  | .error node => .error ⟨sortedSet ((program.graph.component node).map program.idAt)⟩

end DependencyGraph
end KindLift
