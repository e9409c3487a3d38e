/-! Lines of a text for comparison. A line keeps its end, which is a line feed, a
carriage return or both in that order. -/
namespace KindLift.Diff

/-- Puts a character in front of the first line. -/
def prepend (c : Char) : List (List Char) → List (List Char)
  | [] => [[c]]
  | line :: lines => (c :: line) :: lines

/-- The lines of a text; only the last may lack an end. -/
def splitLines : List Char → List (List Char)
  | [] => []
  | '\n' :: rest => ['\n'] :: splitLines rest
  | '\r' :: '\n' :: rest => ['\r', '\n'] :: splitLines rest
  | '\r' :: rest => ['\r'] :: splitLines rest
  | c :: rest => prepend c (splitLines rest)

/-- The line has an end. -/
def hasEnd (line : List Char) : Bool :=
  line.getLast? = some '\n' || line.getLast? = some '\r'

end KindLift.Diff
