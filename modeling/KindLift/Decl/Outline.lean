import KindLift.Decl.Object
import KindLift.Decl.Reference
import KindLift.Token.Lexer

/-! The outline of a whole source text. -/
namespace KindLift

namespace Parser

/-- What an opaque declaration declares, by its keyword. -/
def opaqueKind : Keyword → SymbolKind
  | .classKw | .enumKw => .classLike
  | .typeKw => .typeAlias
  | _ => .value

/-- Reads a declaration whose inside does not matter. -/
def opaqueDecl (keyword : Keyword) (mods : Modifiers) : Parser OpaqueDecl := do
  let first ← expect (.keyword keyword) "declaration"
  let name ← name?
  skipRest
  let word := if mods.isCase then "case " ++ first.text else first.text
  return ⟨word, name.map Token.text, some (opaqueKind keyword), ⟨first.start, ← lastStop⟩⟩

/-- Reads a package object. -/
def packageObject : Parser OpaqueDecl := do
  let first ← expect (.keyword .packageKw) "package"
  let _ ← bump
  let name ← name?
  skipRest
  return ⟨"package object", name.map Token.text, none, ⟨first.start, ← lastStop⟩⟩

/-- Reads a declaration that may have modifiers. A case object is opaque, any
other object is read in full. -/
def modifiedDecl : Parser Decl := do
  let mods ← modifiers
  match ← peekKind? with
  | some (.keyword .traitKw) => return .interface (← interface)
  | some (.keyword word) =>
    if word = .objectKw && !mods.isCase then return .holder (← holder)
    else if word.isDefinition then return .other (← opaqueDecl word mods)
    else fail (.expected "declaration")
  | _ => fail (.expected "declaration")

/-- Reads a top-level declaration. -/
def topLevel : Parser Decl := do
  if ← isAt (.keyword .packageKw) then return .other (← packageObject) else modifiedDecl

/-- Reads one clause or declaration. Package clauses come before declarations. -/
def outlineStep (seen : Outline) : Parser (Step Outline Outline) := do
  eatAll .semi
  if (← peek?).isNone then return .done seen
  else if ← atPackageClause then
    if seen.decls.isEmpty then
      return .again { seen with package := some (← packageClause seen.package) }
    else fail .latePackageClause
  else if ← isAt (.keyword .importKw) then
    return .again { seen with imports := seen.imports ++ (← importClauses) }
  else return .again { seen with decls := seen.decls ++ [← topLevel] }

/-- Reads all clauses and declarations. -/
def outline : Parser Outline := iterate outlineStep .empty

/-- Runs a parser over the tokens of a source text. -/
def onTokens (parser : Parser α) (source : List Char) (tokens : List Token) : Except ParseError α :=
  match parser source ⟨tokens, 0⟩ with
  | .ok (result, _) => .ok result
  | .error fault => .error (.locate source fault.offset fault.cause)

end Parser

namespace Outline

/-- The outline of a source text. -/
def parse (source : List Char) : Except ParseError Outline := do
  let tokens ← Token.scan source
  let outline ← Parser.outline.onTokens source tokens
  return { outline with typeRefs := TypeRef.collect tokens outline.decls }

/-- Package and imports only; what follows them is tokens but need not parse. -/
def parsePreamble (source : List Char) : Except ParseError Parser.Preamble := do
  let tokens ← Token.scan source
  Parser.preamble.onTokens source tokens

end Outline
end KindLift
