import KindLift.Toml.Scalar

/-! Strings, in double quotes with escapes or in single quotes without, on one
line or in triple quotes on several. -/
namespace KindLift.Toml

def isBlank (c : Char) : Bool := c = ' ' || c = '\t'

/-- A character that may stand on a line. -/
def isLineChar (c : Char) : Bool := c = '\t' || (0x20 ≤ c.toNat && c.toNat ≠ 0x7F)

/-- The character with a code in hexadecimal digits. -/
def charOfHex? (hex : List Char) : Option Char :=
  if hex.all isHexDigit && (numeral 16 hex).isValidChar then some (Char.ofNat (numeral 16 hex)) else none

/-- The character of an escape of one letter. -/
def simpleEscape? : Char → Option Char
  | 'b' => some '\x08'
  | 't' => some '\t'
  | 'n' => some '\n'
  | 'f' => some '\x0c'
  | 'r' => some '\r'
  | '"' => some '"'
  | '\\' => some '\\'
  | _ => none

def addChar (c : Char) (found : Option (List Char × List Char)) : Option (List Char × List Char) :=
  found.map fun (text, rest) => (c :: text, rest)

/-- A string in double quotes, after the opening quote. -/
def readBasic : List Char → Option (List Char × List Char)
  | [] => none
  | '"' :: rest => some ([], rest)
  | '\\' :: 'u' :: a :: b :: c :: d :: rest =>
    (charOfHex? [a, b, c, d]).bind fun found => addChar found (readBasic rest)
  | '\\' :: 'U' :: a :: b :: c :: d :: e :: f :: g :: h :: rest =>
    (charOfHex? [a, b, c, d, e, f, g, h]).bind fun found => addChar found (readBasic rest)
  | '\\' :: c :: rest => (simpleEscape? c).bind fun found => addChar found (readBasic rest)
  | c :: rest => if isLineChar c && c ≠ '\\' then addChar c (readBasic rest) else none

/-- A string in single quotes, after the opening quote. -/
def readLiteral : List Char → Option (List Char × List Char)
  | [] => none
  | '\'' :: rest => some ([], rest)
  | c :: rest => if isLineChar c then addChar c (readLiteral rest) else none

/-- The quotes before the closing three of a run of quotes, at most two, and what
follows the closing ones. -/
def closeTripled (quote : Char) (rest : List Char) : List Char × List Char :=
  match rest with
  | a :: b :: tail =>
    if a = quote && b = quote then ([quote, quote], tail)
    else if a = quote then ([quote], b :: tail)
    else ([], rest)
  | [a] => if a = quote then ([quote], []) else ([], rest)
  | [] => ([], [])

/-- A string in three single quotes, after the opening ones. -/
def readTripledLiteral : List Char → Option (List Char × List Char)
  | [] => none
  | '\'' :: '\'' :: '\'' :: rest => some (closeTripled '\'' rest)
  | '\r' :: '\n' :: rest => addChar '\n' (readTripledLiteral rest)
  | c :: rest => if c = '\n' || isLineChar c then addChar c (readTripledLiteral rest) else none

/-- What a backslash at the end of a line does to the characters after it. -/
inductive LineJoin where
  | off
  | expectLineEnd
  | skipBlanks
deriving DecidableEq

/-- A string in three double quotes, after the opening ones. A backslash at the
end of a line removes the line end and all blanks up to the next character. -/
def readTripledBasic : LineJoin → List Char → Option (List Char × List Char)
  | _, [] => none
  | .expectLineEnd, c :: rest =>
    if isBlank c then readTripledBasic .expectLineEnd rest
    else match c, rest with
      | '\n', tail => readTripledBasic .skipBlanks tail
      | '\r', '\n' :: tail => readTripledBasic .skipBlanks tail
      | _, _ => none
  | join, c :: rest =>
    if join = .skipBlanks && (isBlank c || c = '\n') then readTripledBasic .skipBlanks rest
    else match c, rest with
      | '"', '"' :: '"' :: tail => some (closeTripled '"' tail)
      | '\r', '\n' :: tail =>
        if join = .skipBlanks then readTripledBasic .skipBlanks tail
        else addChar '\n' (readTripledBasic .off tail)
      | '\\', 'u' :: a :: b :: c :: d :: tail =>
        (charOfHex? [a, b, c, d]).bind fun found => addChar found (readTripledBasic .off tail)
      | '\\', 'U' :: a :: b :: c :: d :: e :: f :: g :: h :: tail =>
        (charOfHex? [a, b, c, d, e, f, g, h]).bind fun found =>
          addChar found (readTripledBasic .off tail)
      | '\\', next :: tail =>
        if isBlank next then readTripledBasic .expectLineEnd tail
        else if next = '\n' then readTripledBasic .skipBlanks tail
        else match next, tail with
          | '\r', '\n' :: more => readTripledBasic .skipBlanks more
          | _, more => (simpleEscape? next).bind fun found => addChar found (readTripledBasic .off more)
      | '\\', [] => none
      | _, tail =>
        if c = '\n' || isLineChar c then addChar c (readTripledBasic .off tail) else none

/-- A line end right after the opening quotes does not count. -/
def dropLineEnd : List Char → List Char
  | '\n' :: rest => rest
  | '\r' :: '\n' :: rest => rest
  | chars => chars

/-- Reads a string of any kind. -/
def readString (chars : List Char) : Option (String × List Char) :=
  let found := match chars with
    | '"' :: '"' :: '"' :: rest => readTripledBasic .off (dropLineEnd rest)
    | '\'' :: '\'' :: '\'' :: rest => readTripledLiteral (dropLineEnd rest)
    | '"' :: rest => readBasic rest
    | '\'' :: rest => readLiteral rest
    | _ => none
  found.map fun (text, rest) => (String.ofList text, rest)

end KindLift.Toml
