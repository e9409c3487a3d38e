import KindLift.Decl
import KindLift.Token.Group

/-! Reading declarations off a list of tokens. A parser reads the source text,
which it cuts the texts of types from, and moves a cursor over the tokens. -/
namespace KindLift

/-- A syntactic fault and its offset. -/
structure SyntaxFault where
  offset : Nat
  cause : ParseCause
deriving DecidableEq, Repr

/-- The tokens still to be read, and where the last one read ended. -/
structure Cursor where
  rest : List Token
  lastStop : Nat

abbrev Parser := ReaderT (List Char) (StateT Cursor (Except SyntaxFault))

namespace Parser

/-- Whether a repeated step is to be taken again. -/
inductive Step (σ ρ : Type) where
  | again (state : σ)
  | done (result : ρ)

def peek? : Parser (Option Token) := return (← get).rest.head?

def peekKind? : Parser (Option TokenKind) := return (← peek?).map Token.kind

/-- The kind of the token after the next one. -/
def secondKind? : Parser (Option TokenKind) := return (← get).rest[1]?.map Token.kind

/-- Where the next token begins; the end of the source when there is none. -/
def here : Parser Nat := do
  match ← peek? with
  | some token => return token.start
  | none => return Text.byteLength (← read)

def lastStop : Parser Nat := return (← get).lastStop

/-- Fails at the next token. -/
def fail (cause : ParseCause) : Parser α := do
  throw ⟨← here, cause⟩

/-- Reads the next token, if there is one. -/
def bump : Parser (Option Token) := do
  match (← get).rest with
  | [] => return none
  | token :: rest =>
    set ({ rest := rest, lastStop := token.stop } : Cursor)
    return some token

def isAt (kind : TokenKind) : Parser Bool := return (← peekKind?) = some kind

/-- Reads the next token when it is of the given kind. -/
def eat? (kind : TokenKind) : Parser (Option Token) := do
  if ← isAt kind then bump else return none

def eats (kind : TokenKind) : Parser Bool := return (← eat? kind).isSome

def expect (kind : TokenKind) (what : String) : Parser Token := do
  match ← eat? kind with
  | some token => return token
  | none => fail (.expected what)

/-- Reads the next token when it can name something. -/
def name? : Parser (Option Token) := do
  match ← peek? with
  | some token => if token.isName then bump else return none
  | none => return none

def expectName (what : String) : Parser Token := do
  match ← name? with
  | some token => return token
  | none => fail (.expected what)

/-- Takes a step again and again until it is done. A step that asks to be taken
again has to read something. -/
def iterateFrom (step : σ → Parser (Step σ ρ)) (state : σ) (source : List Char) (cursor : Cursor) :
    Except SyntaxFault (ρ × Cursor) :=
  match step state source cursor with
  | .error fault => .error fault
  | .ok (.done result, next) => .ok (result, next)
  | .ok (.again state, next) =>
    if next.rest.length < cursor.rest.length then iterateFrom step state source next
    else .error ⟨next.lastStop, .noProgress⟩
termination_by cursor.rest.length

def iterate (step : σ → Parser (Step σ ρ)) (state : σ) : Parser ρ :=
  fun source cursor => iterateFrom step state source cursor

/-- Reads tokens of one kind for as long as they come. -/
def eatAll (kind : TokenKind) : Parser Unit :=
  iterate (fun _ => do if ← eats kind then return .again () else return .done ()) ()

/-- Reads a whole bracket group. -/
def skipGroup : Parser Span := do
  let tokens := (← get).rest
  match tokens with
  | [] => fail (.expected "bracket")
  | opening :: _ =>
    match Token.splitGroup? tokens with
    | none => throw ⟨opening.start, .unbalanced⟩
    | some (closing, rest) =>
      set ({ rest := rest, lastStop := closing.stop } : Cursor)
      return opening.span.cover closing.span

/-- Reads bracket groups of one kind for as long as they come. -/
def skipGroups (bracket : Bracket) : Parser Unit :=
  iterate (fun _ => do
    if ← isAt (.opener bracket) then
      let _ ← skipGroup
      return .again ()
    else return .done ()) ()

/-- Reads to the end of the statement that is being read. -/
def skipRest : Parser Unit :=
  iterate (fun _ => do
    match ← peekKind? with
    | none => return .done ()
    | some (.closer .brace) => return .done ()
    | some (.closer _) => fail .unbalanced
    | some .semi =>
      let _ ← bump
      return .done ()
    | some .atSign => return .done ()
    | some (.opener _) =>
      let _ ← skipGroup
      return .again ()
    | some (.keyword word) =>
      if word.startsStatement then return .done ()
      let _ ← bump
      return .again ()
    | some _ =>
      let _ ← bump
      return .again ()) ()

/-- Reads a whole statement, whatever it begins with. -/
def skipStatement : Parser Unit := do
  match ← peekKind? with
  | none => return ()
  | some (.opener _) =>
    let _ ← skipGroup
    skipRest
  | some (.closer _) => fail .unbalanced
  | some _ =>
    let _ ← bump
    skipRest

/-- Reads one token or one group, unless it is at a token that `stops` or at a
closing bracket, and adds its span to the span of what was read before. -/
def scanStep (stops : TokenKind → Bool) (seen : Option Span) :
    Parser (Step (Option Span) (Option Span)) := do
  match ← peek? with
  | none => return .done seen
  | some token =>
    if stops token.kind then return .done seen
    let extend (span : Span) : Option Span :=
      match seen with
      | some before => some (before.cover span)
      | none => some span
    match token.kind with
    | .opener _ => return .again (extend (← skipGroup))
    | .closer _ => return .done seen
    | _ =>
      let _ ← bump
      return .again (extend token.span)

/-- Reads up to a token that `stops` or a closing bracket, groups as a whole, and
returns the span of what was read. -/
def scanUntil (stops : TokenKind → Bool) : Parser (Option Span) := iterate (scanStep stops) none

/-- The arrow that ends a self type's annotation, and what follows it. -/
def selfTypeArrow? (tokens : List Token) : Option (Token × List Token) :=
  match tokens with
  | [] => none
  | token :: rest =>
    match token.kind with
    | .arrow => some (token, rest)
    | .semi | .closer .brace | .equals => none
    | .keyword word => if word.startsStatement then none else selfTypeArrow? rest
    | .opener _ =>
      match _ : Token.splitGroup? (token :: rest) with
      | some (_, after) => selfTypeArrow? after
      | none => none
    | _ => selfTypeArrow? rest
termination_by tokens.length
decreasing_by
  · simp
  · apply Token.splitGroup?_length_lt
    assumption
  · simp

/-- The arrow of the self type a body begins with, and what follows it. -/
def selfType? : List Token → Option (Token × List Token)
  | first :: second :: rest =>
    if first.kind = .ident || first.kind = .underscore then
      match second.kind with
      | .arrow => some (second, rest)
      | .colon => selfTypeArrow? rest
      | _ => none
    else none
  | _ => none

/-- Reads the self type a body begins with, if it has one. -/
def skipSelfType : Parser Unit := do
  match selfType? (← get).rest with
  | some (arrow, rest) => set ({ rest := rest, lastStop := arrow.stop } : Cursor)
  | none => return ()

/-- Reads an opening brace and the self type after it. -/
def openBody : Parser Nat := do
  let brace ← expect (.opener .brace) "`\x7b`"
  skipSelfType
  return brace.start

/-- Reads the end of the body opened at `openBrace`, if it is here. -/
def closeBody? (openBrace : Nat) : Parser (Option Body) := do
  eatAll .semi
  match ← peek? with
  | none => throw ⟨openBrace, .unclosedBody⟩
  | some token =>
    if token.kind = .closer .brace then
      let _ ← bump
      return some ⟨openBrace, token.start⟩
    else return none

/-- Reads a point and the identifier behind it, if they come. -/
def pathStep (what : String) (read : DottedName × Span) :
    Parser (Step (DottedName × Span) (DottedName × Span)) := do
  if (← isAt .dot) && (← secondKind?) = some .ident then
    let _ ← bump
    let segment ← expectName what
    return .again (read.1.child segment.text, read.2.cover segment.span)
  else return .done read

/-- Reads identifiers with points between them. -/
def path (what : String) : Parser (DottedName × Span) := do
  let first ← expectName what
  iterate (pathStep what) (DottedName.mk [first.text], first.span)

end Parser
end KindLift
