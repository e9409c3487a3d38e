import KindLift.Text.Line

/-! Paths of files. Two paths are the same file name when their components agree:
repeated slashes and inner single dots do not count. -/
namespace KindLift

/-- A part of a path. A single dot counts only at the very front. -/
inductive Component where
  | root
  | here
  | up
  | name (text : String)
deriving DecidableEq, Repr

namespace Component

def rank : Component → Nat
  | root => 0
  | here => 1
  | up => 2
  | name _ => 3

instance : Ord Component where
  compare
    | name a, name b => compare a b
    | a, b => compare a.rank b.rank

/-- The component a part between slashes stands for. -/
def ofSegment? (segment : List Char) : Option Component :=
  if segment = [] || segment = ['.'] then none
  else if segment = ['.', '.'] then some up
  else some (name (String.ofList segment))

end Component

namespace Path

/-- What a path begins with before its named parts. -/
def start : List (List Char) → List Component
  | [] :: _ :: _ => [.root]
  | ['.'] :: _ => [.here]
  | _ => []

def components (path : String) : List Component :=
  let segments := Text.splitOn '/' path.toList
  start segments ++ segments.filterMap Component.ofSegment?

/-- Component by component, so that a directory comes before a longer name. -/
def compareComponents : List Component → List Component → Ordering
  | [], [] => .eq
  | [], _ :: _ => .lt
  | _ :: _, [] => .gt
  | a :: as, b :: bs => (compare a b).then (compareComponents as bs)

def order (a b : String) : Ordering := compareComponents (components a) (components b)

/-- The name a path ends in. -/
def fileName? (path : String) : Option String :=
  match (components path).getLast? with
  | some (.name text) => some text
  | _ => none

/-- What follows the last dot of a file's name, unless the name starts with it. -/
def extension? (path : String) : Option String := do
  let name ← fileName? path
  match (Text.splitOn '.' name.toList).reverse with
  | [_] | [_, []] | [] => none
  | last :: _ => some (String.ofList last)

/-- The path of an entry in a directory. -/
def join (directory name : String) : String :=
  if directory.isEmpty || directory.endsWith "/" then directory ++ name
  else directory ++ "/" ++ name

/-- Drops slashes and single dots from the front. -/
def dropDots : List (List Char) → List (List Char)
  | [] :: rest => dropDots rest
  | ['.'] :: rest => dropDots rest
  | segments => segments

/-- The path without a single dot at its front and what makes up to the next name;
other paths stay as they are written. -/
def withoutDot (path : String) : String :=
  match Text.splitOn '/' path.toList with
  | ['.'] :: rest =>
    let trimmed := (dropDots (dropDots rest).reverse).reverse
    String.intercalate "/" (trimmed.map String.ofList)
  | _ => path

/-- Drops one single dot with its slash from the front. -/
def dropHere : List Char → List Char
  | '.' :: '/' :: rest => rest
  | path => path

/-- The path of an entry as a directory above it sees it, both as they are written.
A single dot is dropped from the front of the directory once and from the front of
the entry twice; when this leaves them without a common beginning, the directory
sees the whole path. -/
def seenFrom (directory entry : String) : String :=
  let directory := dropHere directory.toList
  let entry := dropHere (dropHere entry.toList)
  let seen :=
    if components (String.ofList directory) = [.here] || !entry.contains '/' then entry
    else if directory.isPrefixOf entry then
      match entry.drop directory.length with
      | '/' :: rest => rest
      | rest => rest
    else entry
  String.ofList seen

/-- The sorted paths, each once; of two spellings the first in the list stays. -/
def sortedSet (paths : List String) : List String :=
  ((paths.mergeSort fun a b => (order a b).isLE)).eraseRepsBy fun a b => order a b = .eq

end Path
end KindLift
