import KindLift.Text.Line
import KindLift.Text.Quoted

/-! Dotted names address packages and the declarations inside them. The empty
name is the root package. -/
namespace KindLift

structure DottedName where
  segments : List String
deriving DecidableEq, Repr, Inhabited

/-- Why a text is not a dotted name. -/
inductive NameError where
  | emptySegment
  | blankInSegment (segment : String)
deriving DecidableEq, Repr

def NameError.message : NameError → String
  | .emptySegment => "name contains empty segment"
  | .blankInSegment segment => "invalid segment: " ++ Text.quoteText segment

namespace DottedName

def root : DottedName := ⟨[]⟩

def isRoot (name : DottedName) : Bool := name.segments.isEmpty

/-- The name one level up; the root has none. -/
def parent? (name : DottedName) : Option DottedName :=
  if name.segments = [] then none else some ⟨name.segments.dropLast⟩

def last? (name : DottedName) : Option String := name.segments.getLast?

/-- The name of a declaration inside this one. -/
def child (name : DottedName) (segment : String) : DottedName := ⟨name.segments ++ [segment]⟩

@[simp] theorem parent?_child (name : DottedName) (segment : String) : (name.child segment).parent? = some name := by
  simp [child, parent?]

@[simp] theorem last?_child (name : DottedName) (segment : String) : (name.child segment).last? = some segment := by
  simp [child, last?]

theorem child_inj {name : DottedName} {first second : String} : name.child first = name.child second ↔ first = second := by
  simp [child]

/-- The segments of `inner` follow those of `outer`. -/
def append (outer inner : DottedName) : DottedName := ⟨outer.segments ++ inner.segments⟩

/-- The name's segments begin those of `other`. -/
def isPrefixOf (name other : DottedName) : Bool := name.segments.isPrefixOf other.segments

/-- The segments with a separator between them. -/
def join (name : DottedName) (separator : String) : String :=
  String.intercalate separator name.segments

def render (name : DottedName) : String := name.join "."

/-- Reads one segment: it is not empty and holds no white space. -/
def checkSegment (segment : List Char) : Except NameError String :=
  if segment.isEmpty then .error .emptySegment
  else if segment.any Text.isWhiteSpace then .error (.blankInSegment (String.ofList segment))
  else .ok (String.ofList segment)

/-- Reads a dotted name; the empty text is the root, and the first bad segment
is the one reported. -/
def parse (text : String) : Except NameError DottedName :=
  if text.isEmpty then .ok root
  else (fun segments => ⟨segments⟩) <$> (Text.splitOn '.' text.toList).mapM checkSegment

/-- Segment by segment, each in the order of its bytes. -/
def compareSegments : List String → List String → Ordering
  | [], [] => .eq
  | [], _ :: _ => .lt
  | _ :: _, [] => .gt
  | a :: as, b :: bs => (compare a b).then (compareSegments as bs)

instance : Ord DottedName := ⟨fun a b => compareSegments a.segments b.segments⟩

end DottedName
end KindLift
