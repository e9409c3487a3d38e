import KindLift.Text.CharClass

/-! Cutting texts at a separator and trimming blanks at their ends. -/
namespace KindLift.Text

/-- The pieces between the occurrences of `separator`; there is always one
piece more than there are separators. -/
def splitOn {α : Type} [DecidableEq α] (separator : α) : List α → List (List α)
  | [] => [[]]
  | c :: rest =>
    if c = separator then [] :: splitOn separator rest
    else match splitOn separator rest with
      | piece :: pieces => (c :: piece) :: pieces
      | [] => [[c]]

/-- The pieces with `separator` between them. -/
def joinWith (separator : Char) : List (List Char) → List Char
  | [] => []
  | [piece] => piece
  | piece :: pieces => piece ++ separator :: joinWith separator pieces

/-- The text without leading white space. -/
def trimStart (chars : List Char) : List Char := chars.dropWhile isWhiteSpace

/-- The text without trailing white space. -/
def trimEnd (chars : List Char) : List Char := (chars.reverse.dropWhile isWhiteSpace).reverse

/-- The text without white space at either end. -/
def trim (chars : List Char) : List Char := trimEnd (trimStart chars)

/-- A text is blank when it holds nothing but white space. -/
def isBlank (chars : List Char) : Bool := chars.all isWhiteSpace

/-- The text after the last line feed. -/
def lastLine (chars : List Char) : List Char :=
  (chars.reverse.takeWhile (· ≠ '\n')).reverse

@[simp] theorem lastLine_feed (chars : List Char) : lastLine (chars ++ ['\n']) = [] := by
  simp [lastLine]

theorem lastLine_snoc {c : Char} (other : c ≠ '\n') (chars : List Char) :
    lastLine (chars ++ [c]) = lastLine chars ++ [c] := by
  simp [lastLine, other]

end KindLift.Text
