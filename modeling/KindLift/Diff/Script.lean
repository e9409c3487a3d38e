/-! Shortest edit scripts between two sequences of lines, by searching from both
ends for the middle of a shortest path. -/
namespace KindLift.Diff

abbrev Lines := Array (List Char)

/-- What happens to a run of lines. -/
inductive Tag where
  | keep
  | delete
  | insert
deriving DecidableEq, Repr

/-- A run of old lines and the run of new lines at the same place. -/
structure Op where
  tag : Tag
  oldStart : Nat
  oldCount : Nat
  newStart : Nat
  newCount : Nat
deriving DecidableEq, Repr

namespace Op

def oldStop (op : Op) : Nat := op.oldStart + op.oldCount

def newStop (op : Op) : Nat := op.newStart + op.newCount

def isEmpty (op : Op) : Bool := op.oldCount = 0 && op.newCount = 0

end Op

/-- The number of equal lines, at most `count`, from two places on. -/
def commonPrefix (old new : Lines) (i j : Nat) : Nat → Nat
  | 0 => 0
  | count + 1 => if old[i]? = new[j]? then commonPrefix old new (i + 1) (j + 1) count + 1 else 0

/-- The number of equal lines, at most `count`, in front of two places. -/
def commonSuffix (old new : Lines) (i j : Nat) : Nat → Nat
  | 0 => 0
  | count + 1 =>
    if 0 < i && 0 < j && old[i - 1]? = new[j - 1]? then commonSuffix old new (i - 1) (j - 1) count + 1
    else 0

theorem commonPrefix_le (old new : Lines) (i j count : Nat) :
    commonPrefix old new i j count ≤ count := by
  induction count generalizing i j with
  | zero => simp [commonPrefix]
  | succ count ih =>
    have := ih (i + 1) (j + 1)
    unfold commonPrefix
    split <;> omega

theorem commonSuffix_le (old new : Lines) (i j count : Nat) :
    commonSuffix old new i j count ≤ count := by
  induction count generalizing i j with
  | zero => simp [commonSuffix]
  | succ count ih =>
    have := ih (i - 1) (j - 1)
    unfold commonSuffix
    split <;> omega

/-- A range of old lines and a range of new lines to be compared. -/
structure Box where
  oldStart : Nat
  oldStop : Nat
  newStart : Nat
  newStop : Nat
deriving DecidableEq, Repr

namespace Box

def oldCount (box : Box) : Nat := box.oldStop - box.oldStart

def newCount (box : Box) : Nat := box.newStop - box.newStart

def size (box : Box) : Nat := box.oldCount + box.newCount

def delta (box : Box) : Int := (box.oldCount : Int) - (box.newCount : Int)

end Box

/-- How far each diagonal has been followed. Diagonals count from `-offset`, and
one that has not been followed counts as zero. -/
structure Frontier where
  offset : Nat
  reach : Array Nat

namespace Frontier

def start (offset : Nat) : Frontier := ⟨offset, Array.replicate (2 * offset + 2) 0⟩

def get (frontier : Frontier) (diagonal : Int) : Nat :=
  frontier.reach.getD (diagonal + frontier.offset).toNat 0

def set (frontier : Frontier) (diagonal : Int) (reached : Nat) : Frontier :=
  { frontier with reach := frontier.reach.setIfInBounds (diagonal + frontier.offset).toNat reached }

/-- Where a path of `d` steps enters a diagonal: from the neighbour that has come
further. -/
def enter (frontier : Frontier) (d : Nat) (diagonal : Int) : Nat :=
  if diagonal = -d || (diagonal ≠ d && frontier.get (diagonal - 1) < frontier.get (diagonal + 1)) then
    frontier.get (diagonal + 1)
  else frontier.get (diagonal - 1) + 1

end Frontier

/-- The diagonals of `d` steps, from the highest down. -/
def diagonals (d : Nat) : List Int := (List.range (d + 1)).map fun (i : Nat) => (d : Int) - 2 * (i : Int)

/-- One round from the front; an exception is the point where both ends meet. -/
def forwardRound (old new : Lines) (box : Box) (d : Nat) (backward : Frontier) (forward : Frontier) :
    Except (Nat × Nat) Frontier :=
  (diagonals d).foldlM (fun forward k => do
    let x := forward.enter d k
    let y := (x : Int) - k
    let x' := if x < box.oldCount && 0 ≤ y && y < box.newCount then
        x + commonPrefix old new (box.oldStart + x) (box.newStart + y.toNat)
          (min (box.oldCount - x) (box.newCount - y.toNat))
      else x
    let forward := forward.set k x'
    if box.delta % 2 ≠ 0 && (k - box.delta).natAbs + 1 ≤ d &&
        box.oldCount ≤ x' + backward.get (-(k - box.delta)) then
      throw (box.oldStart + x, box.newStart + y.toNat)
    return forward) forward

/-- One round from the back. -/
def backwardRound (old new : Lines) (box : Box) (d : Nat) (forward : Frontier) (backward : Frontier) :
    Except (Nat × Nat) Frontier :=
  (diagonals d).foldlM (fun backward k => do
    let x := backward.enter d k
    let y := (x : Int) - k
    let advance := if x < box.oldCount && 0 ≤ y && y < box.newCount then
        commonSuffix old new (box.oldStop - x) (box.newStop - y.toNat)
          (min (box.oldCount - x) (box.newCount - y.toNat))
      else 0
    let backward := backward.set k (x + advance)
    if box.delta % 2 = 0 && (k - box.delta).natAbs ≤ d &&
        box.oldCount ≤ x + advance + forward.get (-(k - box.delta)) then
      throw (box.oldStart + (box.oldCount - (x + advance)),
        box.newStart + (box.newCount - (y.toNat + advance)))
    return backward) backward

/-- The first point where paths from both ends meet, trying at most `limit`
numbers of steps from `d` on. -/
def meet (old new : Lines) (box : Box) : Nat → Nat → Frontier → Frontier → Option (Nat × Nat)
  | 0, _, _, _ => none
  | limit + 1, d, forward, backward =>
    match forwardRound old new box d backward forward with
    | .error point => some point
    | .ok forward =>
      match backwardRound old new box d forward backward with
      | .error point => some point
      | .ok backward => meet old new box limit (d + 1) forward backward

/-- A point that a shortest path through the box passes. -/
def middle? (old new : Lines) (box : Box) : Option (Nat × Nat) :=
  let limit := (box.size + 1) / 2 + 1
  meet old new box limit 0 (Frontier.start (limit + 1)) (Frontier.start (limit + 1))

/-- A run of kept lines, if there are any. -/
def kept (oldStart newStart count : Nat) : List Op :=
  if count = 0 then [] else [⟨.keep, oldStart, count, newStart, count⟩]

/-- All old lines out, all new lines in. -/
def replaced (box : Box) : List Op :=
  (if box.oldCount = 0 then [] else [⟨.delete, box.oldStart, box.oldCount, box.newStart, 0⟩]) ++
    if box.newCount = 0 then [] else [⟨.insert, box.oldStop, 0, box.newStart, box.newCount⟩]

/-- The script of a box: common lines at both ends are kept, and what is between
them is cut at a middle point. -/
def script (old new : Lines) (box : Box) : List Op :=
  let head := commonPrefix old new box.oldStart box.newStart (min box.oldCount box.newCount)
  let front : Box := { box with oldStart := box.oldStart + head, newStart := box.newStart + head }
  let tail := commonSuffix old new front.oldStop front.newStop (min front.oldCount front.newCount)
  let inner : Box := { front with oldStop := front.oldStop - tail, newStop := front.newStop - tail }
  let between :=
    if inner.oldCount = 0 || inner.newCount = 0 then replaced inner
    else match middle? old new inner with
      | some (x, y) =>
        let left : Box := { inner with oldStop := x, newStop := y }
        let right : Box := { inner with oldStart := x, newStart := y }
        if _ : left.size < box.size ∧ right.size < box.size then
          script old new left ++ script old new right
        else replaced inner
      | none => replaced inner
  kept box.oldStart box.newStart head ++ between ++ kept inner.oldStop inner.newStop tail
termination_by box.size
decreasing_by
  · rename_i smaller
    exact smaller.1
  · rename_i smaller
    exact smaller.2

end KindLift.Diff
