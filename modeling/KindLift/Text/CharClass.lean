import KindLift.Text.Alphabetic
import KindLift.Text.Numeric

/-! Character classes of the Unicode standard. The ASCII part of each class is
decided directly, so that the tables are consulted for other characters only. -/
namespace KindLift.Text

/-- Membership of a code point in a list of inclusive ranges. -/
def inRanges (ranges : List (Nat × Nat)) (code : Nat) : Bool :=
  ranges.any fun range => range.1 ≤ code && code ≤ range.2

def isAscii (c : Char) : Bool := c.toNat < 0x80

/-- The property Alphabetic. -/
def isAlphabetic (c : Char) : Bool :=
  if isAscii c then c.isAlpha else inRanges alphabeticRanges c.toNat

/-- The general categories Nd, Nl and No. -/
def isNumeric (c : Char) : Bool :=
  if isAscii c then c.isDigit else inRanges numericRanges c.toNat

def isAlphanumeric (c : Char) : Bool := isAlphabetic c || isNumeric c

/-- The characters above ASCII with the property White_Space. -/
def whiteSpaceRanges : List (Nat × Nat) :=
  [(0x85, 0x85), (0xA0, 0xA0), (0x1680, 0x1680), (0x2000, 0x200A), (0x2028, 0x2029),
   (0x202F, 0x202F), (0x205F, 0x205F), (0x3000, 0x3000)]

/-- The property White_Space. -/
def isWhiteSpace (c : Char) : Bool :=
  if isAscii c then c = ' ' || (0x09 ≤ c.toNat && c.toNat ≤ 0x0D) else inRanges whiteSpaceRanges c.toNat

end KindLift.Text
