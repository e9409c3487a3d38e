import KindLift.FileTree.Ignore

/-! Finding the source files below given roots. A root itself is always taken;
what lies below a directory is taken unless it is passed over on the way. -/
namespace KindLift

/-- Why the search for sources fails. -/
inductive WalkError where
  | unreachable (root : String) (fault : FileFault)
  | ignoreFiles (faults : List IgnoreFault)
deriving DecidableEq, Repr

def WalkError.message : WalkError → String
  | .unreachable root fault => root ++ ": IO error for operation on " ++ root ++ ": " ++ fault.message
  | .ignoreFiles faults => String.intercalate "\n" (faults.map IgnoreFault.message)

/-- The directories above a location, the outermost first. -/
def Location.above (location : Location) : List Location :=
  (List.range location.length).map fun count => location.take count

/-- The directories above the last root that was a directory. Each is read once, for
the root that comes first, and knows what lies below later roots by the name of
that root. -/
abbrev Readings := Table Location Location

/-- The directories above the next root; those that the last root has as well are
not read again. -/
def Readings.next (readings : Readings) (location : Location) : Readings :=
  .ofList (location.above.map fun directory =>
    (directory, (readings.get? directory).getD location))

/-- A directory to search: the path it was given by, where it lies, and the location
that the directories above it know it by. -/
structure Descent where
  root : String
  location : Location
  knownAs : Location

namespace Descent

/-- The path of an entry, given the names that lead to it from the root. -/
def path (descent : Descent) (names : List String) : String := names.foldl Path.join descent.root

/-- The views of an entry from the directories above it, the nearest first. -/
def views (descent : Descent) (names : List String) : List FileTree.View :=
  let inside := (Location.above names).reverse.map fun directory =>
    ⟨descent.location ++ directory, Path.seenFrom (descent.path directory) (descent.path names)⟩
  let outside := descent.location.above.reverse.map fun directory =>
    ⟨directory, String.intercalate "/" ((descent.knownAs ++ names).drop directory.length)⟩
  inside ++ outside

end Descent

namespace FileTree

/-- The path is that of a source file. -/
def isSource (extensions : List String) (path : String) : Bool :=
  match Path.extension? path with
  | some extension => extensions.contains extension
  | none => false

/-- The names lead to a file that is met on the way down. -/
def isMet (tree : FileTree) (descent : Descent) (names : List String) : Bool :=
  (List.range names.length).all fun depth =>
    let entry := names.take (depth + 1)
    !tree.passesOver (descent.views entry) (entry.getLast?.getD "") (entry.length < names.length)

/-- The paths of the files met below a directory. -/
def filesBelow (tree : FileTree) (descent : Descent) : List String :=
  let start := descent.location
  let below := tree.files.keys.filter fun file =>
    start.length < file.length && start.isPrefixOf file
  ((below.map fun file => file.drop start.length).filter (tree.isMet descent)).map descent.path

/-- The source files below a directory. -/
def sourcesBelow (tree : FileTree) (extensions : List String) (descent : Descent) :
    Except WalkError (List String) :=
  match descent.location.above.flatMap tree.ignoreFaults with
  | [] => .ok ((tree.filesBelow descent).filter (isSource extensions))
  | faults => .error (.ignoreFiles faults)

/-- The source files of all roots, one root after the other. A single hyphen is no
root. -/
def sourcesOf (tree : FileTree) (extensions : List String) :
    Readings → List String → Except WalkError (List String)
  | _, [] => .ok []
  | readings, root :: roots => do
    if Path.components root = [.name "-"] then tree.sourcesOf extensions readings roots
    else match tree.resolve root with
      | .error fault => throw (.unreachable root fault)
      | .ok location =>
        if tree.hasFile location then
          return [root].filter (isSource extensions) ++ (← tree.sourcesOf extensions .empty roots)
        else
          let readings := readings.next location
          let known := (readings.get? location.dropLast).getD location
          let found ← tree.sourcesBelow extensions ⟨root, location, known⟩
          return found ++ (← tree.sourcesOf extensions readings roots)

/-- The source files of all roots, sorted and each once. -/
def discover (tree : FileTree) (extensions : List String) (roots : List String) :
    Except WalkError (List String) := do
  return Path.sortedSet ((← tree.sourcesOf extensions .empty roots).map Path.withoutDot)

end FileTree
end KindLift
