import KindLift.Text.Line

/-! Patterns for paths: a question mark and a star stand for bytes other than a
slash, two stars for any number of directories, brackets for one byte of a set,
braces for alternatives, and a backslash makes the next character plain. -/
namespace KindLift

/-- A part of a pattern. -/
inductive GlobPart where
  | literal (char : Char)
  | anyByte
  | anyBytes
  | leadingDirectories
  | innerDirectories
  | everythingBelow
  | oneOf (isNegated : Bool) (ranges : List (Char × Char))
  | alternatives (branches : List (List GlobPart))

abbrev Glob := List GlobPart

namespace Glob

/-- The part of a pattern that has been read: the branch being read, for each open
brace (the innermost first) the parts in front of it and its finished branches,
and the character before the rest. An opening bracket that is never closed makes
all later ones plain. -/
structure Draft where
  branch : Glob
  groups : List (Glob × List Glob)
  previous : Option Char
  bracketsArePlain : Bool

namespace Draft

def push (draft : Draft) (part : GlobPart) (previous : Char) : Draft :=
  { draft with branch := draft.branch ++ [part], previous := some previous }

/-- Puts a part in the place of the slash before two stars. Stars for directories
that stand there already stay. -/
def replaceLast (draft : Draft) (part : GlobPart) (previous : Char) : Draft :=
  match draft.branch.getLast? with
  | some .leadingDirectories | some .everythingBelow => { draft with previous := some previous }
  | _ => { draft with branch := draft.branch.dropLast ++ [part], previous := some previous }

def pushStars (draft : Draft) : Draft := (draft.push .anyBytes '*').push .anyBytes '*'

/-- The two stars may follow what stands before them. -/
def allowsDirectories (draft : Draft) : Bool :=
  draft.previous = some '/' ||
    (!draft.groups.isEmpty && (draft.previous = some ',' || draft.previous = some '\x7b'))

/-- Reads two stars, which stand for directories only as a whole component. -/
def readStars (draft : Draft) (rest : List Char) : Draft × List Char :=
  if draft.branch.isEmpty then
    match rest with
    | [] => (draft.push .leadingDirectories '*', [])
    | '/' :: more => (draft.push .leadingDirectories '/', more)
    | _ => (draft.pushStars, rest)
  else if !draft.allowsDirectories then (draft.pushStars, rest)
  else match rest with
    | [] => (draft.replaceLast .everythingBelow '*', [])
    | '/' :: more => (draft.replaceLast .innerDirectories '/', more)
    | c :: _ =>
      if !draft.groups.isEmpty && (c = ',' || c = '\x7d') then
        (draft.replaceLast .everythingBelow '*', rest)
      else (draft.pushStars, rest)

def openGroup (draft : Draft) : Draft :=
  { draft with branch := [], groups := (draft.branch, []) :: draft.groups, previous := some '\x7b' }

/-- A comma ends a branch inside of braces and is plain elsewhere. -/
def readComma (draft : Draft) : Draft :=
  match draft.groups with
  | [] => draft.push (.literal ',') ','
  | (before, branches) :: outer =>
    { draft with
      branch := [], groups := (before, branches ++ [draft.branch]) :: outer, previous := some ',' }

def closeGroup (draft : Draft) : Option Draft :=
  match draft.groups with
  | [] => none
  | (before, branches) :: outer =>
    some { draft with
      branch := before ++ [.alternatives (branches ++ [draft.branch])]
      groups := outer
      previous := some '\x7d' }

end Draft

/-- What becomes of an opening bracket. -/
inductive Bracket where
  | closed (ranges : List (Char × Char)) (rest : List Char)
  | unclosed
  | inverted

/-- Reads the members of a set up to its closing bracket. A closing bracket or a
hyphen right at the front, and a hyphen at the end, are members. -/
def readSet (isFirst isRange : Bool) (ranges : List (Char × Char)) : List Char → Bracket
  | [] => .unclosed
  | c :: rest =>
    if c = ']' && !isFirst then
      .closed (if isRange then ranges ++ [('-', '-')] else ranges) rest
    else if c = '-' && !isFirst && !isRange then readSet false true ranges rest
    else match isRange, ranges.getLast? with
      | true, some (low, _) =>
        if c < low then .inverted else readSet false false (ranges.dropLast ++ [(low, c)]) rest
      | _, _ => readSet false false (ranges ++ [(c, c)]) rest

/-- Reads a set after its opening bracket. -/
def readBracket (draft : Draft) (rest : List Char) : Option (Draft × List Char) :=
  let (isNegated, members) := match rest with
    | '!' :: more => (true, more)
    | '^' :: more => (true, more)
    | _ => (false, rest)
  match readSet true false [] members with
  | .closed ranges more => some (draft.push (.oneOf isNegated ranges) ']', more)
  | .unclosed => some ({ draft with bracketsArePlain := true }.push (.literal '[') '[', rest)
  | .inverted => none

/-- Reads the part that begins with a character. -/
def readPart (draft : Draft) (c : Char) (rest : List Char) : Option (Draft × List Char) :=
  match c, rest with
  | '?', _ => some (draft.push .anyByte '?', rest)
  | '*', '*' :: more => some (draft.readStars more)
  | '*', _ => some (draft.push .anyBytes '*', rest)
  | '[', _ =>
    if draft.bracketsArePlain then some (draft.push (.literal '[') '[', rest)
    else readBracket draft rest
  | '\x7b', _ => some (draft.openGroup, rest)
  | '\x7d', _ => draft.closeGroup.map fun next => (next, rest)
  | ',', _ => some (draft.readComma, rest)
  | '\\', plain :: more => some (draft.push (.literal plain) plain, more)
  | '\\', [] => none
  | _, _ => some (draft.push (.literal c) c, rest)

/-- Reads the parts of a pattern. A part never reads less than its first
character. -/
def readParts (draft : Draft) (chars : List Char) : Option Glob :=
  match chars with
  | [] => if draft.groups.isEmpty then some draft.branch else none
  | c :: rest =>
    match readPart draft c rest with
    | some (next, more) => if more.length ≤ rest.length then readParts next more else none
    | none => none
termination_by chars.length
decreasing_by
  rw [List.length_cons]
  omega

/-- The pattern a text stands for, if it is well formed. -/
def parse? (chars : List Char) : Option Glob := readParts ⟨[], [], none, false⟩ chars

end Glob

namespace GlobPart

def slash : UInt8 := 47

/-- The bytes of a range of characters in a set: those of the two ends, and all
between the last byte of the lower and the first of the upper end. -/
def rangeContains (byte : UInt8) (range : Char × Char) : Bool :=
  let low := range.1.toString.toUTF8.toList
  let high := range.2.toString.toUTF8.toList
  low.contains byte || high.contains byte ||
    (range.1 ≠ range.2 &&
      match low.getLast?, high.head? with
      | some first, some last => first ≤ byte && byte ≤ last
      | _, _ => false)

/-- What may be left over after a run of bytes other than a slash. -/
def restsInName : List UInt8 → List (List UInt8)
  | [] => [[]]
  | byte :: rest => (byte :: rest) :: if byte = slash then [] else restsInName rest

/-- What follows each slash. -/
def restsAfterSlash : List UInt8 → List (List UInt8)
  | [] => []
  | byte :: rest => if byte = slash then rest :: restsAfterSlash rest else restsAfterSlash rest

/-- What may be left over after any number of bytes. -/
def restsAnywhere : List UInt8 → List (List UInt8)
  | [] => [[]]
  | byte :: rest => (byte :: rest) :: restsAnywhere rest

mutual

/-- The part is nothing but empty alternatives. -/
def isVoid : GlobPart → Bool
  | .alternatives branches => areVoid branches
  | _ => false

def areVoidParts : Glob → Bool
  | [] => true
  | part :: parts => part.isVoid && areVoidParts parts

def areVoid : List Glob → Bool
  | [] => true
  | branch :: branches => areVoidParts branch && areVoid branches

end

mutual

/-- What may be left over of a path after a part of a pattern. -/
def rests : GlobPart → List UInt8 → List (List UInt8)
  | .literal char, bytes =>
    let own := char.toString.toUTF8.toList
    if own.isPrefixOf bytes then [bytes.drop own.length] else []
  | .anyByte, bytes =>
    match bytes with
    | byte :: rest => if byte = slash then [] else [rest]
    | [] => []
  | .anyBytes, bytes => restsInName bytes
  | .leadingDirectories, bytes => bytes :: restsAfterSlash bytes
  | .innerDirectories, bytes =>
    match bytes with
    | byte :: rest => if byte = slash then rest :: restsAfterSlash rest else []
    | [] => []
  | .everythingBelow, bytes =>
    match bytes with
    | byte :: rest => if byte = slash then restsAnywhere rest else []
    | [] => []
  | .oneOf isNegated ranges, bytes =>
    match bytes with
    | byte :: rest => if ranges.any (rangeContains byte) = isNegated then [] else [rest]
    | [] => []
  | .alternatives branches, bytes =>
    if areVoid branches then [bytes] else restsOfAny branches bytes

/-- What may be left over of each of several paths after all parts. -/
def restsOfAll : Glob → List (List UInt8) → List (List UInt8)
  | [], paths => paths
  | part :: parts, paths => restsOfAll parts (paths.flatMap fun path => part.rests path).eraseDups

/-- What may be left over after one of the branches; empty branches do not count. -/
def restsOfAny : List Glob → List UInt8 → List (List UInt8)
  | [], _ => []
  | branch :: branches, path =>
    (if areVoidParts branch then [] else restsOfAll branch [path]) ++ restsOfAny branches path

end

end GlobPart

/-- The pattern stands for the whole path. Leading directories alone stand for
every path. -/
def Glob.covers (glob : Glob) (path : String) : Bool :=
  match glob with
  | [.leadingDirectories] => true
  | _ => (GlobPart.restsOfAll glob [path.toUTF8.toList]).any List.isEmpty

end KindLift
