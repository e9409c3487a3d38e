import KindLift.Diff.Line
import KindLift.Diff.Tidy

/-! The unified format: changes with up to three lines of context around them. -/
namespace KindLift.Diff

/-- Old lines and the new lines in their place; they are equal when kept. -/
structure Chunk where
  isKept : Bool
  oldStart : Nat
  oldCount : Nat
  newStart : Nat
  newCount : Nat
deriving DecidableEq, Repr

/-- Runs joined to chunks: kept lines, or the deletions and insertions between
two runs of kept lines. -/
structure Pending where
  kept : Option Chunk
  deleted : Option Op
  inserted : Option Op

namespace Pending

def none : Pending := ⟨.none, .none, .none⟩

/-- The chunk of the changes collected so far. -/
def change (pending : Pending) : List Chunk :=
  match pending.deleted, pending.inserted with
  | some d, some i => [⟨false, d.oldStart, d.oldCount, i.newStart, i.newCount⟩]
  | some d, .none => [⟨false, d.oldStart, d.oldCount, d.newStart, 0⟩]
  | .none, some i => [⟨false, i.oldStart, 0, i.newStart, i.newCount⟩]
  | .none, .none => []

/-- The run with the lines of a later one, or the later one alone. -/
def extend (first : Option Op) (later : Op) : Option Op :=
  match first with
  | some op => some (op.absorb later)
  | .none => some later

end Pending

/-- Joins the runs of a script. -/
def chunksFrom (pending : Pending) : List Op → List Chunk
  | [] => pending.change ++ pending.kept.toList
  | op :: rest =>
    match op.tag with
    | .keep =>
      let kept := match pending.kept with
        | some chunk => { chunk with
            oldCount := chunk.oldCount + op.oldCount
            newCount := chunk.newCount + op.newCount }
        | none => ⟨true, op.oldStart, op.oldCount, op.newStart, op.newCount⟩
      pending.change ++ chunksFrom ⟨some kept, none, none⟩ rest
    | .delete =>
      pending.kept.toList ++ chunksFrom ⟨none, Pending.extend pending.deleted op, pending.inserted⟩ rest
    | .insert =>
      pending.kept.toList ++ chunksFrom ⟨none, pending.deleted, Pending.extend pending.inserted op⟩ rest

/-- How many lines of context a hunk has on either side. -/
def context : Nat := 3

/-- The last lines of a chunk of kept lines. -/
def Chunk.lastLines (chunk : Chunk) (count : Nat) : Chunk :=
  let skipped := chunk.oldCount - count
  ⟨chunk.isKept, chunk.oldStart + skipped, chunk.oldCount - skipped,
    chunk.newStart + skipped, chunk.newCount - skipped⟩

/-- The first lines of a chunk of kept lines. -/
def Chunk.firstLines (chunk : Chunk) (count : Nat) : Chunk :=
  { chunk with oldCount := min chunk.oldCount count, newCount := min chunk.newCount count }

def trimFirst : List Chunk → List Chunk
  | chunk :: rest => if chunk.isKept then chunk.lastLines context :: rest else chunk :: rest
  | [] => []

def trimLast : List Chunk → List Chunk
  | [] => []
  | [chunk] => if chunk.isKept then [chunk.firstLines context] else [chunk]
  | chunk :: rest => chunk :: trimLast rest

/-- The hunk that ends the list, unless it shows no change. -/
def lastHunk (hunk : List Chunk) : List (List Chunk) :=
  match hunk with
  | [] => []
  | [chunk] => if chunk.isKept then [] else [hunk]
  | _ => [hunk]

/-- Cuts the chunks into hunks where many lines are kept. -/
def hunksFrom (hunk : List Chunk) : List Chunk → List (List Chunk)
  | [] => lastHunk hunk
  | chunk :: rest =>
    if chunk.isKept && 2 * context < chunk.oldCount then
      (hunk ++ [chunk.firstLines context]) :: hunksFrom [chunk.lastLines context] rest
    else hunksFrom (hunk ++ [chunk]) rest

def hunks (chunks : List Chunk) : List (List Chunk) := hunksFrom [] (trimLast (trimFirst chunks))

/-- A range of lines as a hunk's header shows it. -/
def renderRange (start stop : Nat) : String :=
  let count := stop - start
  if count = 1 then toString (start + 1)
  else if count = 0 then toString start ++ ",0"
  else toString (start + 1) ++ "," ++ toString count

/-- Lines with a mark in front of each. -/
def renderLines (mark : Char) (lines : Lines) (start count : Nat) : List Char :=
  (lines.toList.drop start |>.take count).flatMap fun line =>
    mark :: line ++ if hasEnd line then [] else "\n\\ No newline at end of file\n".toList

def renderChunk (old new : Lines) (chunk : Chunk) : List Char :=
  if chunk.isKept then renderLines ' ' old chunk.oldStart chunk.oldCount
  else renderLines '-' old chunk.oldStart chunk.oldCount ++
    renderLines '+' new chunk.newStart chunk.newCount

def renderHunk (old new : Lines) (hunk : List Chunk) : String :=
  match hunk.head?, hunk.getLast? with
  | some first, some last =>
    "@@ -" ++ renderRange first.oldStart (last.oldStart + last.oldCount) ++ " +" ++
      renderRange first.newStart (last.newStart + last.newCount) ++ " @@\n" ++
      String.ofList (hunk.flatMap (renderChunk old new))
  | _, _ => ""

/-- The unified diff between two texts of the file at `path`; equal texts have an
empty one. -/
def unified (path old new : String) : String :=
  let oldLines := (splitLines old.toList).toArray
  let newLines := (splitLines new.toList).toArray
  let ops := tidy oldLines newLines (script oldLines newLines ⟨0, oldLines.size, 0, newLines.size⟩)
  match hunks (chunksFrom .none ops) with
  | [] => ""
  | found => "--- a/" ++ path ++ "\n+++ b/" ++ path ++ "\n" ++
      String.join (found.map (renderHunk oldLines newLines))

end KindLift.Diff
