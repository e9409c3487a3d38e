import KindLift.Toml

/-! Numbers, truth values and dates, each written as one word. -/
namespace KindLift.Toml

/-- Digits of a base with single underscores between them, without the
underscores. -/
def digits (isDigit : Char → Bool) : List Char → Option (List Char)
  | [] => none
  | [c] => if isDigit c then some [c] else none
  | c :: '_' :: rest => if isDigit c then (digits isDigit rest).map (c :: ·) else none
  | c :: rest => if isDigit c then (digits isDigit rest).map (c :: ·) else none

def digitValue (c : Char) : Nat :=
  if c.isDigit then c.toNat - '0'.toNat
  else if 'a' ≤ c && c ≤ 'f' then c.toNat - 'a'.toNat + 10
  else if 'A' ≤ c && c ≤ 'F' then c.toNat - 'A'.toNat + 10
  else 0

def isHexDigit (c : Char) : Bool :=
  c.isDigit || ('a' ≤ c && c ≤ 'f') || ('A' ≤ c && c ≤ 'F')

def numeral (base : Nat) (chars : List Char) : Nat :=
  chars.foldl (fun value c => value * base + digitValue c) 0

/-- A sign and what follows it; no sign is plus. -/
def splitSign : List Char → Bool × List Char
  | '-' :: rest => (true, rest)
  | '+' :: rest => (false, rest)
  | chars => (false, chars)

/-- Decimal digits without a superfluous zero in front. -/
def decimal (chars : List Char) : Option (List Char) :=
  match digits Char.isDigit chars with
  | some ('0' :: _ :: _) => none
  | found => found

/-- Integers have 64 bits, one of them for the sign. -/
def inRange (number : Int) : Option Int :=
  if -9223372036854775808 ≤ number && number ≤ 9223372036854775807 then some number else none

/-- A decimal integer, or an unsigned one of base 16, 8 or 2. -/
def integer? (word : List Char) : Option Int :=
  match word with
  | '0' :: 'x' :: rest => (digits isHexDigit rest).bind fun ds => inRange (numeral 16 ds)
  | '0' :: 'o' :: rest =>
    (digits (fun c => '0' ≤ c && c ≤ '7') rest).bind fun ds => inRange (numeral 8 ds)
  | '0' :: 'b' :: rest =>
    (digits (fun c => c = '0' || c = '1') rest).bind fun ds => inRange (numeral 2 ds)
  | _ =>
    let (isNegative, rest) := splitSign word
    (decimal rest).bind fun ds =>
      inRange (if isNegative then -(numeral 10 ds : Int) else (numeral 10 ds : Int))

/-- The decimal number is larger than every double-precision number. -/
def exceedsDouble (mantissa : List Char) (exponent : Int) : Bool :=
  let significant := mantissa.dropWhile (· = '0')
  let magnitude := (significant.length : Int) + exponent
  if significant.isEmpty || magnitude < 308 then false
  else if 310 < magnitude then true
  else
    let limit := Nat.pow 2 1024 - Nat.pow 2 970
    if 0 ≤ exponent then limit ≤ numeral 10 significant * Nat.pow 10 exponent.toNat
    else limit * Nat.pow 10 (-exponent).toNat ≤ numeral 10 significant

/-- The exponent after its mark; zeros in front are allowed. -/
def exponent? (chars : List Char) : Option Int :=
  let (isNegative, rest) := splitSign chars
  (digits Char.isDigit rest).map fun ds =>
    if isNegative then -(numeral 10 ds : Int) else (numeral 10 ds : Int)

def isExponentMark (c : Char) : Bool := c = 'e' || c = 'E'

/-- A number with a fraction, an exponent or both, within the range of doubles,
or an infinity or a not-a-number. -/
def isFloat (word : List Char) : Bool :=
  let (isNegative, rest) := splitSign word
  if rest = "inf".toList || rest = "nan".toList then true
  else
    let whole := rest.takeWhile fun c => c ≠ '.' && !isExponentMark c
    let after := rest.dropWhile fun c => c ≠ '.' && !isExponentMark c
    match decimal whole, after with
    | some ds, '.' :: tail =>
      let fraction := tail.takeWhile fun c => !isExponentMark c
      match digits Char.isDigit fraction, tail.dropWhile (fun c => !isExponentMark c) with
      | some fs, [] => isNegative || !exceedsDouble (ds ++ fs) (-(fs.length : Int))
      | some fs, _ :: power =>
        match exponent? power with
        | some e => isNegative || !exceedsDouble (ds ++ fs) (e - fs.length)
        | none => false
      | none, _ => false
    | some ds, _ :: power =>
      match exponent? power with
      | some e => isNegative || !exceedsDouble ds e
      | none => false
    | _, _ => false

/-- A number of exactly as many digits as there are characters. -/
def plainNumber (chars : List Char) : Option Nat :=
  if !chars.isEmpty && chars.all Char.isDigit then some (numeral 10 chars) else none

def daysInMonth (year month : Nat) : Nat :=
  if month = 2 then
    if year % 4 = 0 && (year % 100 ≠ 0 || year % 400 = 0) then 29 else 28
  else if month = 4 || month = 6 || month = 9 || month = 11 then 30
  else 31

/-- A date of the calendar. -/
def isDate : List Char → Bool
  | [y₁, y₂, y₃, y₄, '-', m₁, m₂, '-', d₁, d₂] =>
    match plainNumber [y₁, y₂, y₃, y₄], plainNumber [m₁, m₂], plainNumber [d₁, d₂] with
    | some year, some month, some day =>
      1 ≤ month && month ≤ 12 && 1 ≤ day && day ≤ daysInMonth year month
    | _, _, _ => false
  | _ => false

def below (limit : Nat) (chars : List Char) : Bool :=
  match plainNumber chars with
  | some number => number < limit
  | none => false

/-- An offset from universal time. -/
def isOffset : List Char → Bool
  | ['Z'] | ['z'] => true
  | [sign, h₁, h₂, ':', m₁, m₂] =>
    (sign = '+' || sign = '-') && below 24 [h₁, h₂] && below 60 [m₁, m₂]
  | _ => false

/-- A time of the day; an offset may follow where a date stands in front. -/
def isTime (withOffset : Bool) : List Char → Bool
  | h₁ :: h₂ :: ':' :: m₁ :: m₂ :: ':' :: s₁ :: s₂ :: rest =>
    let (fractionOk, rest) := match rest with
      | '.' :: tail => (tail.head?.any Char.isDigit, tail.dropWhile Char.isDigit)
      | _ => (true, rest)
    below 24 [h₁, h₂] && below 60 [m₁, m₂] && below 61 [s₁, s₂] && fractionOk &&
      (rest.isEmpty || (withOffset && isOffset rest))
  | _ => false

/-- A date, a time, or both with a letter between them. -/
def isDatetime (word : List Char) : Bool :=
  isDate word || isTime false word ||
    (isDate (word.take 10) &&
      match word.drop 10 with
      | c :: time => (c = 'T' || c = 't') && isTime true time
      | [] => false)

/-- Characters a scalar word is made of. -/
def isWordChar (c : Char) : Bool :=
  c.isAlphanum || c = '+' || c = '-' || c = '_' || c = '.' || c = ':'

/-- The value of a word. -/
def scalar? (word : List Char) : Option Value :=
  if word = "true".toList then some (.boolean true)
  else if word = "false".toList then some (.boolean false)
  else match integer? word with
    | some number => some (.integer number)
    | none =>
      if isFloat word then some .float
      else if isDatetime word then some .datetime
      else none

/-- Reads a scalar. A date may be followed by a blank and a time. -/
def readScalar (chars : List Char) : Option (Value × List Char) := do
  let word := chars.takeWhile isWordChar
  let rest := chars.dropWhile isWordChar
  let value ← scalar? word
  match rest with
  | ' ' :: tail =>
    if isDate word && isTime true (tail.takeWhile isWordChar) then
      return (.datetime, tail.dropWhile isWordChar)
    else return (value, rest)
  | _ => return (value, rest)

end KindLift.Toml
