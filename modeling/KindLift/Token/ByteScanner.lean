import KindLift.Token.Lexer

/-! The scanner among the bytes of a text. It stands at an offset and is moved by hand:
over a character that it has seen, or by the width of a mark that it has found. The text
can be looked at from the beginning of a character only; anywhere else the scanner panics.
Its loops run until they are left, and strings and splices call one another. -/
namespace KindLift.ByteScanner
open Text Token

/-- Why the scanner ends before it has all tokens. -/
inductive Stop where
  | panicked
  | refused (error : ParseError)
deriving DecidableEq

/-- What is done over a text, at an offset. There is no result if it goes on forever; the
offset that has been reached outlasts an early end. -/
abbrev Scanner := ReaderT (List Char) (ExceptT Stop (StateT Nat Option))

/-- The text from the offset on. -/
def rest : Scanner (List Char) := do
  match dropBytes? (← get) (← read) with
  | some chars => return chars
  | none => throw .panicked

/-- The text up to the offset. -/
def passed : Scanner (List Char) := do
  match takeBytes? (← get) (← read) with
  | some chars => return chars
  | none => throw .panicked

/-- The text from another offset up to this one. -/
def textSince (start : Nat) : Scanner (List Char) := do
  match slice? (← read) start (← get) with
  | some chars => return chars
  | none => throw .panicked

def peek : Scanner (Option Char) := return (← rest).head?

def peekAt (index : Nat) : Scanner (Option Char) := return (← rest)[index]?

def startsWith (mark : List Char) : Scanner Bool := return mark.isPrefixOf (← rest)

def move (bytes : Nat) : Scanner Unit := modify (· + bytes)

/-- Moves over the next character. -/
def bump : Scanner (Option Char) := do
  match ← peek with
  | some c =>
    move c.utf8Size
    return some c
  | none => return none

def refuse {α : Type} (offset : Nat) (cause : ParseCause) : Scanner α := do
  throw (.refused (.locate (← read) offset cause))

/-- Moves over the mark that has to come here at the end of what began at `start`. -/
def closeWith (mark : Char) (start : Nat) (cause : ParseCause) : Scanner Unit := do
  if (← bump) ≠ some mark then refuse start cause

def eatWhile (p : Char → Bool) : Scanner Unit :=
  repeatM (fun _ => do
    if (← peek).any p then
      let _ ← bump
      return .inl ()
    else return .inr ()) ()

/-- Reads on in a block comment that began at `start`, inside of `depth` comments. -/
def closeComment (start depth : Nat) : Scanner Unit :=
  repeatM (fun depth => do
    if ← startsWith ['/', '*'] then
      move 2
      return .inl (depth + 1)
    else if ← startsWith ['*', '/'] then
      match depth with
      | 0 => throw .panicked
      | outer + 1 =>
        move 2
        if outer = 0 then return .inr ()
        else return .inl outer
    else
      match ← bump with
      | some _ => return .inl depth
      | none => refuse start .unterminatedComment) depth

def blockComment : Scanner Unit := do closeComment (← get) 0

/-- Moves over white space and comments. -/
def skipTrivia : Scanner Unit :=
  repeatM (fun _ => do
    eatWhile isWhiteSpace
    if ← startsWith ['/', '/'] then
      eatWhile (· ≠ '\n')
      return .inl ()
    else if ← startsWith ['/', '*'] then
      blockComment
      return .inl ()
    else return .inr ()) ()

section

variable (splice : Scanner Unit) (string : Bool → Scanner Unit)

/-- Reads on in a string of three quotes. More quotes may follow the closing ones. -/
def closeTripled (start : Nat) (interpolated : Bool) : Scanner Unit :=
  repeatM (fun _ => do
    if ← startsWith ['"', '"', '"'] then
      move 3
      eatWhile (· = '"')
      return .inr ()
    else if interpolated && (← startsWith ['$', '\x7b']) then
      splice
      return .inl ()
    else
      match ← bump with
      | some _ => return .inl ()
      | none => refuse start .unterminatedString) ()

/-- Reads on in a string of single quotes. -/
def closeQuoted (start : Nat) (interpolated : Bool) : Scanner Unit :=
  repeatM (fun _ => do
    match ← peek with
    | none => refuse start .unterminatedString
    | some '\n' => refuse start .unterminatedString
    | some '"' =>
      let _ ← bump
      return .inr ()
    | some '\\' =>
      let _ ← bump
      let _ ← bump
      return .inl ()
    | some c =>
      if c = '$' && interpolated && (← peekAt 1) = some '\x7b' then
        splice
        return .inl ()
      else
        let _ ← bump
        return .inl ()) ()

/-- Moves over a string, in which splices are code if it is interpolated. -/
def stringWith (interpolated : Bool) : Scanner Unit := do
  let start ← get
  if ← startsWith ['"', '"', '"'] then
    move 3
    closeTripled splice start interpolated
  else
    let _ ← bump
    closeQuoted splice start interpolated

/-- Reads on in a splice that began at `start`, up to the end of `depth` braces. -/
def closeSplice (start depth : Nat) : Scanner Unit :=
  repeatM (fun depth => do
    match depth with
    | 0 => return .inr ()
    | outer + 1 =>
      skipTrivia
      match ← peek with
      | none => refuse start .unterminatedSplice
      | some '\x7b' =>
        let _ ← bump
        return .inl (outer + 1 + 1)
      | some '\x7d' =>
        let _ ← bump
        return .inl outer
      | some '"' =>
        string ((← passed).getLast?.any isIdentPart)
        return .inl (outer + 1)
      | some _ =>
        let _ ← bump
        return .inl (outer + 1)) depth

/-- Moves over a splice, in which strings may stand. -/
def spliceWith : Scanner Unit := do
  let start ← get
  move 2
  closeSplice string start 1

end

/-- Moves over a string. Strings stand in splices of strings, and every one of them needs room
where the calls are kept; with no room left the scanner panics. -/
def string : Nat → Bool → Scanner Unit
  | 0, _ => throw .panicked
  | room + 1, interpolated => stringWith (spliceWith (string room)) interpolated

/-- Moves over a character or symbol literal. -/
def quote : Scanner Unit := do
  let start ← get
  let _ ← bump
  match ← peek, ← peekAt 1 with
  | some '\\', _ =>
    eatWhile fun c => c ≠ '\'' && c ≠ '\n'
    closeWith '\'' start .unterminatedCharacter
  | some _, some '\'' =>
    let _ ← bump
    let _ ← bump
  | some c, _ =>
    if isIdentStart c then eatWhile isIdentPart else refuse start .malformedCharacter
  | none, _ => refuse start .malformedCharacter

/-- Moves over what goes on with a number behind the given character. -/
def number (previous : Char) : Scanner Unit :=
  repeatM (fun previous => do
    match ← peek with
    | none => return .inr ()
    | some c =>
      let sign := (c = '-' || c = '+') && (previous = 'e' || previous = 'E')
      let fraction := c = '.' && (← peekAt 1).any Char.isDigit
      if c.isAlphanum || c = '_' || sign || fraction then
        let _ ← bump
        return .inl c
      else return .inr ()) previous

/-- Moves over a word. One that ends in an underscore takes the symbols behind it. -/
def word : Scanner Unit := do
  eatWhile isIdentPart
  if (← passed).getLast? = some '_' && (← peek).any isOperatorChar then eatWhile isOperatorChar

/-- Moves over a name in back quotes. -/
def quotedIdent : Scanner Unit := do
  let start ← get
  let _ ← bump
  eatWhile fun c => c ≠ '\x60' && c ≠ '\n'
  closeWith '\x60' start .unterminatedQuotedIdent

/-- Moves over the token that begins with `c`. -/
def nextKind (c : Char) (previous : Option (TokenKind × Span)) : Scanner TokenKind := do
  let start ← get
  match punctuation? c (← peekAt 1).toList with
  | some kind =>
    let _ ← bump
    return kind
  | none =>
    if c = '"' then
      -- There is room for more strings than the text can have.
      string ((← read).length + 1) (previous.any fun (kind, span) => kind = .ident && span.stop = start)
      return .literal
    else if c = '\'' then
      quote
      return .literal
    else if c = '\x60' then
      quotedIdent
      return .ident
    else if c.isDigit || c = '.' then
      number '\x00'
      return .literal
    else if isIdentStart c then
      word
      return wordKind (← textSince start)
    else if isOperatorChar c then
      eatWhile isOperatorChar
      return operatorKind (← textSince start)
    else refuse start (.unexpectedCharacter c)

/-- Reads all tokens behind those that are there. -/
def run (tokens : List (TokenKind × Span)) : Scanner (List (TokenKind × Span)) :=
  repeatM (fun tokens => do
    skipTrivia
    let start ← get
    match ← peek with
    | none => return .inr tokens
    | some c =>
      let kind ← nextKind c tokens.getLast?
      return .inl (tokens ++ [(kind, ⟨start, ← get⟩)])) tokens

/-- The tokens of a text with their spans, and where the scanner stands in the end. -/
def tokenize (source : List Char) : Option (Except Stop (List (TokenKind × Span)) × Nat) :=
  (run []).run source |>.run.run 0

end KindLift.ByteScanner
