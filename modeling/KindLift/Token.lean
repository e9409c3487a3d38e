import KindLift.Text.Line
import KindLift.Text.Position
import KindLift.Text.Quoted

/-! Tokens of a source text. A token keeps the characters it was read from and
the offset of the first of them, so that the text of a token never has to be
looked up again. -/
namespace KindLift

/-- The bytes from `start` up to `stop`. -/
structure Span where
  start : Nat
  stop : Nat
deriving DecidableEq, Repr, Inhabited

namespace Span

/-- The smallest span around both. -/
def cover (a b : Span) : Span := ⟨min a.start b.start, max a.stop b.stop⟩

def contains (span : Span) (offset : Nat) : Bool := span.start ≤ offset && offset < span.stop

theorem contains_iff {span : Span} {offset : Nat} : span.contains offset = true ↔ span.start ≤ offset ∧ offset < span.stop := by
  rw [contains, Bool.and_eq_true, decide_eq_true_eq, decide_eq_true_eq]

/-- The characters of the span; a span that addresses none is empty. -/
def chars (span : Span) (source : List Char) : List Char :=
  (Text.slice? source span.start span.stop).getD []

/-- The text of the span without white space at its ends. -/
def trimmed (span : Span) (source : List Char) : String :=
  String.ofList (Text.trim (span.chars source))

/-- The span without its first and its last byte, which a bracket group
begins and ends with. -/
def interior (span : Span) : Span := ⟨span.start + 1, span.stop - 1⟩

end Span

/-- The three kinds of brackets. -/
inductive Bracket where
  | paren
  | square
  | brace
deriving DecidableEq, Repr

/-- Reserved words that shape declarations. -/
inductive Keyword where
  | packageKw | importKw | traitKw | objectKw | classKw | caseKw | defKw | valKw | varKw | typeKw
  | extendsKw | withKw | implicitKw | overrideKw | sealedKw | abstractKw | finalKw | privateKw
  | protectedKw | lazyKw | newKw | enumKw | givenKw
deriving DecidableEq, Repr

namespace Keyword

def spelling : Keyword → String
  | packageKw => "package" | importKw => "import" | traitKw => "trait" | objectKw => "object"
  | classKw => "class" | caseKw => "case" | defKw => "def" | valKw => "val" | varKw => "var"
  | typeKw => "type" | extendsKw => "extends" | withKw => "with" | implicitKw => "implicit"
  | overrideKw => "override" | sealedKw => "sealed" | abstractKw => "abstract"
  | finalKw => "final" | privateKw => "private" | protectedKw => "protected" | lazyKw => "lazy"
  | newKw => "new" | enumKw => "enum" | givenKw => "given"

def all : List Keyword :=
  [packageKw, importKw, traitKw, objectKw, classKw, caseKw, defKw, valKw, varKw, typeKw, extendsKw,
   withKw, implicitKw, overrideKw, sealedKw, abstractKw, finalKw, privateKw, protectedKw, lazyKw,
   newKw, enumKw, givenKw]

/-- The keyword with the given spelling. -/
def ofText? (text : String) : Option Keyword := all.find? fun keyword => keyword.spelling == text

/-- Keywords that introduce a named definition. -/
def isDefinition : Keyword → Bool
  | traitKw | objectKw | classKw | defKw | valKw | varKw | typeKw | enumKw | givenKw => true
  | _ => false

/-- Keywords that can only stand where a statement begins. -/
def startsStatement : Keyword → Bool
  | extendsKw | withKw | newKw => false
  | _ => true

end Keyword

inductive TokenKind where
  | ident
  | keyword (word : Keyword)
  | literal
  | opener (bracket : Bracket)
  | closer (bracket : Bracket)
  | comma
  | semi
  | dot
  | colon
  | equals
  | arrow
  | atSign
  | underscore
  | operator
deriving DecidableEq, Repr

structure Token where
  kind : TokenKind
  start : Nat
  lexeme : List Char
deriving DecidableEq, Repr

namespace Token

def stop (token : Token) : Nat := token.start + Text.byteLength token.lexeme

def span (token : Token) : Span := ⟨token.start, token.stop⟩

/-- The characters between two back quotes, or all of them when they are not
enclosed that way. -/
def unquote (lexeme : List Char) : List Char :=
  match lexeme with
  | '\x60' :: rest => if rest.getLast? = some '\x60' then rest.dropLast else lexeme
  | _ => lexeme

/-- The text of the token; a quoted identifier is known by what it quotes. -/
def text (token : Token) : String := String.ofList (unquote token.lexeme)

/-- The token is a word or a symbol that can name something. -/
def isName (token : Token) : Bool := token.kind = .ident || token.kind = .operator

end Token

/-- What can be wrong with a source text. -/
inductive ParseCause where
  | unterminatedComment
  | unterminatedString
  | unterminatedSplice
  | unterminatedQuotedIdent
  | unterminatedCharacter
  | malformedCharacter
  | unexpectedCharacter (c : Char)
  | expected (what : String)
  | expectedSelectorEnd
  | unbalanced
  | unclosedBody
  | latePackageClause
  | packageBlock
  | noProgress
deriving DecidableEq, Repr

def ParseCause.message : ParseCause → String
  | unterminatedComment => "unterminated block comment"
  | unterminatedString => "unterminated string literal"
  | unterminatedSplice => "unterminated string splice"
  | unterminatedQuotedIdent => "unterminated quoted identifier"
  | unterminatedCharacter => "unterminated character literal"
  | malformedCharacter => "malformed character literal"
  | unexpectedCharacter c => "unexpected character " ++ Text.quoteChar c
  | expected what => "expected " ++ what
  | expectedSelectorEnd => "expected `,` or `\x7d` in import selectors"
  | unbalanced => "unbalanced brackets"
  | unclosedBody => "unclosed body"
  | latePackageClause => "package clause after declarations"
  | packageBlock => "package blocks are not supported"
  | noProgress => "parser made no progress"

/-- A fault of a source text and where it is. -/
structure ParseError where
  offset : Nat
  position : Position
  cause : ParseCause
deriving DecidableEq, Repr

namespace ParseError

/-- A fault at an offset, moved down to a boundary of the source, with the position
behind what is in front of that. -/
def locate (source : List Char) (offset : Nat) (cause : ParseCause) : ParseError :=
  ⟨Text.floorBoundary source offset, Position.after (Text.before offset source), cause⟩

def message (error : ParseError) : String :=
  error.position.render ++ ": " ++ error.cause.message

end ParseError
end KindLift
