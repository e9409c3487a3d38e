import KindLift.Storage

/-! The files of a system, seen from the working directory. A directory exists when a
file lies in it. -/
namespace KindLift

/-- What a file holds: text, or bytes that are not the UTF-8 form of a text. -/
inductive Content where
  | text (text : String)
  | raw (bytes : List UInt8)
deriving DecidableEq

namespace Content

def ofBytes (bytes : List UInt8) : Content :=
  match String.fromUTF8? ⟨bytes.toArray⟩ with
  | some decoded => .text decoded
  | none => .raw bytes

/-- The lines without their ends: a line feed, or a carriage return and a line
feed. What follows the last line feed is a line unless it is empty. -/
def cutLines {α : Type} [DecidableEq α] (feed carriageReturn : α) (items : List α) :
    List (List α) :=
  let pieces := Text.splitOn feed items
  let ended := pieces.dropLast.map fun line =>
    if line.getLast? = some carriageReturn then line.dropLast else line
  ended ++ pieces.getLast?.toList.filter fun line => !line.isEmpty

/-- The lines; one that is not text has no value. -/
def lines : Content → List (Option (List Char))
  | .text found => (cutLines '\n' '\r' found.toList).map some
  | .raw bytes =>
    (cutLines 10 13 bytes).map fun line => (String.fromUTF8? ⟨line.toArray⟩).map String.toList

/-- The lines in front of the first that is not text. -/
def textLines (content : Content) : List (List Char) :=
  (content.lines.takeWhile Option.isSome).filterMap id

/-- The first line, if there is one. -/
def firstLine (content : Content) : Except FileFault (Option (List Char)) :=
  match content.lines with
  | [] => .ok none
  | some line :: _ => .ok (some line)
  | none :: _ => .error .notText

end Content

/-- The names that lead from the top of the tree to a file or directory. -/
abbrev Location := List String

/-- The files, the working directory, and where the system refuses to replace a file,
with its reasons. -/
structure FileTree where
  files : Table Location Content
  home : Location := []
  refusals : Table Location String := .empty

namespace FileTree

def hasFile (tree : FileTree) (location : Location) : Bool := tree.files.contains location

def hasDirectory (tree : FileTree) (location : Location) : Bool :=
  location.isEmpty ||
    tree.files.keys.any fun file => location.length < file.length && location.isPrefixOf file

/-- Where one component leads from a location. Above the top of the tree there is
nothing but the top. -/
def advance (tree : FileTree) (location : Location) (component : Component) :
    Except FileFault Location :=
  if tree.hasFile location then .error .notDirectory
  else match component with
    | .root => .ok []
    | .here => .ok location
    | .up => .ok location.dropLast
    | .name text =>
      let next := location ++ [text]
      if tree.hasFile next || tree.hasDirectory next then .ok next else .error .noEntry

/-- The path ends like that of a directory. -/
def endsInSlash (path : String) : Bool := path.endsWith "/" || path.endsWith "/."

/-- The existing file or directory a path leads to from the working directory. -/
def resolve (tree : FileTree) (path : String) : Except FileFault Location := do
  if path.isEmpty then throw .noEntry
  let location ← (Path.components path).foldlM tree.advance tree.home
  if endsInSlash path && tree.hasFile location then throw .notDirectory
  return location

def read (tree : FileTree) (path : String) : Except FileFault String := do
  match tree.files.get? (← tree.resolve path) with
  | some (.text found) => return found
  | some (.raw _) => throw .notText
  | none => throw .isDirectory

/-- The tree with another text in an existing file. -/
def write (tree : FileTree) (path text : String) : Except FileFault FileTree := do
  let location ← tree.resolve path
  if !tree.hasFile location then throw .isDirectory
  match tree.refusals.get? location with
  | some reason => throw (.refused reason)
  | none => return { tree with files := tree.files.insert location (.text text) }

instance : Storage FileTree := ⟨read, write⟩

/-- A path without regard to what exists, as far as it stays in the tree. -/
def locationOf (path : String) : Location :=
  (Path.components path).foldl (fun location component =>
    match component with
    | .name text => location ++ [text]
    | .up => location.dropLast
    | _ => location) []

/-- The tree of the given files, with the working directory at its top. -/
def ofList (files : List (String × Content)) : FileTree where
  files := .ofList (files.map fun file => (locationOf file.1, file.2))

end FileTree
end KindLift
