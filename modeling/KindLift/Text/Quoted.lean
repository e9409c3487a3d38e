import KindLift.Text.CharClass
import KindLift.Text.Unprintable

/-! Quoting for messages: a quoted text shows every character that has no
visible form by an escape, so that the reader of a message sees what is there. -/
namespace KindLift.Text

/-- A character without a visible form of its own. -/
def isUnprintable (c : Char) : Bool :=
  if isAscii c then c.toNat < 0x20 || c.toNat = 0x7F else inRanges unprintableRanges c.toNat

/-- One character inside quotes; `quote` is the character that ends the quotation. -/
def escapeChar (quote : Char) (c : Char) : String :=
  if c = '\x00' then "\\0"
  else if c = '\t' then "\\t"
  else if c = '\n' then "\\n"
  else if c = '\r' then "\\r"
  else if c = '\\' then "\\\\"
  else if c = quote then String.ofList ['\\', c]
  else if isUnprintable c then
    "\\u\x7b" ++ String.ofList (Nat.toDigits 16 c.toNat) ++ "\x7d"
  else String.ofList [c]

/-- A text in double quotes. -/
def quoteText (text : String) : String :=
  "\"" ++ String.join (text.toList.map (escapeChar '"')) ++ "\""

/-- A character in single quotes. -/
def quoteChar (c : Char) : String :=
  "'" ++ escapeChar '\'' c ++ "'"

end KindLift.Text
