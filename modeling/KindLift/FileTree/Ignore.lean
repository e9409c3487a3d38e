import KindLift.FileTree
import KindLift.FileTree.Glob

/-! Ignore files: lists of patterns for the entries of a directory and of all
directories below it. The last pattern that covers an entry decides; the file of
the nearest directory decides before those above it. -/
namespace KindLift

/-- One line of an ignore file. -/
structure IgnoreRule where
  glob : Glob
  isException : Bool
  forDirectories : Bool

/-- What is wrong with the ignore files of a directory: a line whose pattern is not
well formed, or a file that should lead to another one and cannot be read. -/
inductive IgnoreFault where
  | badPattern (file : Location) (line : Nat) (pattern : String)
  | unreadable (path : String) (fault : FileFault)
deriving DecidableEq, Repr

def IgnoreFault.message : IgnoreFault → String
  | badPattern file line pattern =>
    String.intercalate "/" file ++ ": line " ++ toString line ++
      ": error parsing glob '" ++ pattern ++ "'"
  | unreadable path fault => path ++ ": " ++ fault.message

namespace IgnoreRule

def endsWith (ending chars : List Char) : Bool := ending.isSuffixOf chars

/-- White space at the end does not count, unless it is one escaped blank. -/
def trimLine (line : List Char) : List Char :=
  if endsWith ['\\', ' '] line then line else Text.trimEnd line

/-- An exclamation mark in front makes an exception, a slash ties the pattern to
the directory; a backslash takes the meaning from an exclamation mark or a hash. -/
def readFront : List Char → Bool × Bool × List Char
  | '\\' :: '!' :: rest => (false, false, '!' :: rest)
  | '\\' :: '#' :: rest => (false, false, '#' :: rest)
  | '!' :: '/' :: rest => (true, true, rest)
  | '!' :: rest => (true, false, rest)
  | '/' :: rest => (false, true, rest)
  | line => (false, false, line)

/-- A slash at the end asks for a directory. -/
def readEnd (line : List Char) : Bool × List Char :=
  if endsWith ['\\', '/'] line then (true, line.dropLast.dropLast)
  else if endsWith ['/'] line then (true, line.dropLast)
  else (false, line)

/-- A pattern without a slash is looked for at every depth, and one that ends in
two stars covers what is below a directory but not the directory. -/
def widen (isTied : Bool) (line : List Char) : List Char :=
  let free := if !isTied && !line.contains '/' && line ≠ ['*', '*'] then '*' :: '*' :: '/' :: line
    else line
  if endsWith ['/', '*', '*'] free then free ++ ['/', '*'] else free

/-- The rule of a line; blank lines and comments have none. -/
def parse (line : List Char) : Except Unit (Option IgnoreRule) :=
  let trimmed := trimLine line
  if line.head? = some '#' || trimmed.isEmpty then .ok none
  else
    let (isException, isTied, rest) := readFront trimmed
    let (forDirectories, rest) := readEnd rest
    match Glob.parse? (widen isTied rest) with
    | some glob => .ok (some ⟨glob, isException, forDirectories⟩)
    | none => .error ()

end IgnoreRule

/-- What an ignore file says about an entry. -/
inductive Verdict where
  | ignored
  | kept
deriving DecidableEq, Repr

/-- The kinds of ignore files. -/
inductive IgnoreKind where
  | general
  | shared
  | personal
deriving DecidableEq, Repr

/-- The kinds in the order in which they decide. -/
def IgnoreKind.all : List IgnoreKind := [general, shared, personal]

namespace FileTree

/-- The text after `gitdir: `, by which a file called `.git` names a directory. -/
def linkTarget? (line : List Char) : Option String :=
  let mark := "gitdir: ".toList
  if mark.isPrefixOf line then some (String.ofList (line.drop mark.length)) else none

/-- The first line of the file at a path, if there is such a file. -/
def firstLineAt (tree : FileTree) (path : String) : Except FileFault (Option (List Char)) :=
  match tree.resolve path with
  | .error _ => .ok none
  | .ok location =>
    match tree.files.get? location with
    | some content => content.firstLine
    | none => .error .isDirectory

/-- The directory with the settings that all working copies have in common, named
in a file of the given directory. A name with a dot in front counts from there. -/
def commonDirectory (tree : FileTree) (directory : String) : Except FileFault (Option String) := do
  match ← tree.firstLineAt (Path.join directory "commondir") with
  | none => return none
  | some line =>
    let name := String.ofList line
    return some (if line.head? = some '.' then Path.join directory name else name)

/-- The file with the personal patterns for a directory. It lies below `.git`, or,
when that is a file, where this file leads to. -/
def personalFile (tree : FileTree) (directory : Location) : Except IgnoreFault (Option Location) :=
  match tree.files.get? (directory ++ [".git"]) with
  | none => .ok (some (directory ++ [".git", "info", "exclude"]))
  | some link =>
    match link.firstLine with
    | .error fault => .error (.unreadable (String.intercalate "/" (directory ++ [".git"])) fault)
    | .ok line =>
      match line.bind linkTarget? with
      | none => .ok none
      | some target =>
        match tree.commonDirectory target with
        | .error fault => .error (.unreadable (Path.join target "commondir") fault)
        | .ok none => .ok none
        | .ok (some common) => .ok (tree.resolve (Path.join common "info/exclude")).toOption

/-- Where the patterns of a kind for a directory are. -/
def ignoreFile (tree : FileTree) (directory : Location) :
    IgnoreKind → Except IgnoreFault (Option Location)
  | .general => .ok (some (directory ++ [".ignore"]))
  | .shared => .ok (some (directory ++ [".gitignore"]))
  | .personal => tree.personalFile directory

/-- Drops marks of the byte order in front of the first line. -/
def dropMarks : List (List Char) → List (List Char)
  | first :: rest => first.dropWhile (· = '\ufeff') :: rest
  | [] => []

/-- The lines of an ignore file. -/
def ignoreLines (tree : FileTree) (file : Location) : List (List Char) :=
  match tree.files.get? file with
  | some content => dropMarks content.textLines
  | none => []

/-- The rules of a kind for a directory, without what is not well formed. -/
def ignoreRules (tree : FileTree) (directory : Location) (kind : IgnoreKind) : List IgnoreRule :=
  match tree.ignoreFile directory kind with
  | .ok (some file) =>
    (tree.ignoreLines file).filterMap fun line => ((IgnoreRule.parse line).toOption).join
  | _ => []

/-- What is wrong with the ignore files of a directory. -/
def ignoreFaults (tree : FileTree) (directory : Location) : List IgnoreFault :=
  IgnoreKind.all.flatMap fun kind =>
    match tree.ignoreFile directory kind with
    | .error fault => [fault]
    | .ok none => []
    | .ok (some file) =>
      (tree.ignoreLines file).zipIdx.filterMap fun (line, index) =>
        match IgnoreRule.parse line with
        | .ok _ => none
        | .error () =>
          some (.badPattern file (index + 1) (String.ofList (IgnoreRule.trimLine line)))

/-- A directory with ignore files and the path by which they know an entry. -/
structure View where
  directory : Location
  path : String

/-- What the files of one kind in one directory say about an entry. -/
def verdictOf (tree : FileTree) (isDirectory : Bool) (kind : IgnoreKind) (view : View) :
    Option Verdict :=
  ((tree.ignoreRules view.directory kind).reverse.find? fun rule =>
      (isDirectory || !rule.forDirectories) && rule.glob.covers view.path).map fun rule =>
    if rule.isException then .kept else .ignored

/-- What the ignore files say about an entry, given the views of it from the
nearest directory on. -/
def verdict? (tree : FileTree) (views : List View) (isDirectory : Bool) : Option Verdict :=
  IgnoreKind.all.findSome? fun kind => views.findSome? (tree.verdictOf isDirectory kind)

/-- An entry is passed over when an ignore file says so, or when it is hidden and
no ignore file makes an exception. A hidden entry has a name with a dot in front. -/
def passesOver (tree : FileTree) (views : List View) (name : String) (isDirectory : Bool) : Bool :=
  name = ".git" ||
    match tree.verdict? views isDirectory with
    | some .ignored => true
    | some .kept => false
    | none => name.startsWith "."

end FileTree
end KindLift
