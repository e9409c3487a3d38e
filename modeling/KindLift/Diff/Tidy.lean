import KindLift.Diff.Script

/-! Tidying a script: runs of deletions and insertions are slid along the kept
lines around them and joined with runs of their kind. A script is looked at
through one run, with the runs before it in reverse order. -/
namespace KindLift.Diff

structure Focus where
  before : List Op
  run : Op
  after : List Op

/-- The weight of the runs on one side, which bounds how far a run can move. -/
def weight (ops : List Op) : Nat :=
  ops.foldr (fun op total => op.oldCount + op.newCount + 1 + total) 0

/-- The run moved by some lines to the front. -/
def Op.earlier (op : Op) (count : Nat) : Op :=
  { op with oldStart := op.oldStart - count, newStart := op.newStart - count }

/-- The run moved by some lines to the back. -/
def Op.later (op : Op) (count : Nat) : Op :=
  { op with oldStart := op.oldStart + count, newStart := op.newStart + count }

/-- The run with some lines fewer at its end. -/
def Op.shorten (op : Op) (count : Nat) : Op :=
  { op with oldCount := op.oldCount - count, newCount := op.newCount - count }

/-- The run with some lines more at its end. -/
def Op.lengthen (op : Op) (count : Nat) : Op :=
  { op with oldCount := op.oldCount + count, newCount := op.newCount + count }

/-- The run with the lines of another run of its kind. -/
def Op.absorb (op other : Op) : Op :=
  { op with oldCount := op.oldCount + other.oldCount, newCount := op.newCount + other.newCount }

/-- Kept lines in front of the runs that follow: they join a run of kept lines. -/
def keepBefore (oldStart newStart count : Nat) : List Op → List Op
  | next :: rest =>
    if next.tag = .keep then (next.earlier count).lengthen count :: rest
    else ⟨.keep, oldStart, count, newStart, count⟩ :: next :: rest
  | [] => [⟨.keep, oldStart, count, newStart, count⟩]

/-- Kept lines behind the runs that come before. -/
def keepAfter (oldStart newStart count : Nat) : List Op → List Op
  | last :: rest =>
    if last.tag = .keep then last.lengthen count :: rest
    else ⟨.keep, oldStart, count, newStart, count⟩ :: last :: rest
  | [] => [⟨.keep, oldStart, count, newStart, count⟩]

/-- Moves a run to the front as far as it goes. -/
def slideUp (old new : Lines) (before : List Op) (run : Op) (after : List Op) : Focus :=
  match before with
  | [] => ⟨[], run, after⟩
  | last :: rest =>
    if last.tag = .keep then
      let count := commonSuffix old new last.oldStop run.newStop (min last.oldCount run.newCount)
      if count = 0 then
        if last.isEmpty then slideUp old new rest run after else ⟨last :: rest, run, after⟩
      else
        let after := keepBefore (last.oldStop - count) (run.newStop - count) count after
        let shorter := last.shorten count
        if shorter.isEmpty then slideUp old new rest (run.earlier count) after
        else slideUp old new (shorter :: rest) (run.earlier count) after
    else if last.tag = run.tag then slideUp old new rest (last.absorb run) after
    else slideUp old new rest run (last :: after)
termination_by weight before
decreasing_by
  · simp [weight]
  · simp [weight]
  · have bound := commonSuffix_le old new last.oldStop run.newStop (min last.oldCount run.newCount)
    simp only [weight, Op.shorten, List.foldr_cons]
    omega
  · simp [weight]
  · simp [weight]

/-- Moves a run to the back as far as it goes. -/
def slideDown (old new : Lines) (before : List Op) (run : Op) (after : List Op) : Focus :=
  match after with
  | [] => ⟨before, run, []⟩
  | next :: rest =>
    if next.tag = .keep then
      let count := commonPrefix old new next.oldStart run.newStart (min next.oldCount run.newCount)
      if count = 0 then
        if next.isEmpty then slideDown old new before run rest else ⟨before, run, next :: rest⟩
      else
        let before := keepAfter next.oldStart run.newStart count before
        let shorter := (next.later count).shorten count
        if shorter.isEmpty then slideDown old new before (run.later count) rest
        else slideDown old new before (run.later count) (shorter :: rest)
    else if next.tag = run.tag then slideDown old new before (run.absorb next) rest
    else slideDown old new (next :: before) run rest
termination_by weight after
decreasing_by
  · simp [weight]
  · simp [weight]
  · have bound := commonPrefix_le old new next.oldStart run.newStart (min next.oldCount run.newCount)
    simp only [weight, Op.shorten, Op.later, List.foldr_cons]
    omega
  · simp [weight]
  · simp [weight]

/-- Slides every run of one kind up, then down, from the front on. -/
def slideFrom (old new : Lines) (tag : Tag) : Nat → List Op → List Op → List Op
  | 0, before, after => before.reverse ++ after
  | _ + 1, before, [] => before.reverse
  | fuel + 1, before, run :: rest =>
    if run.tag = tag then
      let up := slideUp old new before run rest
      let down := slideDown old new up.before up.run up.after
      slideFrom old new tag fuel (down.run :: down.before) down.after
    else slideFrom old new tag fuel (run :: before) rest

def slideAll (old new : Lines) (tag : Tag) (ops : List Op) : List Op :=
  slideFrom old new tag ((weight ops + 1) * (weight ops + 1)) [] ops

/-- The tidied script: first deletions, then insertions. -/
def tidy (old new : Lines) (ops : List Op) : List Op :=
  slideAll old new .insert (slideAll old new .delete ops)

end KindLift.Diff
