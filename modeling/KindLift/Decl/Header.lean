import KindLift.Decl.Cursor

/-! Package and import clauses. -/
namespace KindLift.Parser

/-- The token selects everything: `_`, `*` or `given`. -/
def isWildcard (token : Token) : Bool :=
  token.kind = .underscore || (token.kind = .operator && token.text = "*") ||
    token.kind = .keyword .givenKw

/-- Reads the new name of an imported name. -/
def importAlias : Parser String := do
  match ← bump with
  | some newName =>
    if newName.kind = .ident || newName.kind = .underscore then return newName.text
    else fail (.expected "import alias")
  | none => fail (.expected "import alias")

/-- Reads the new name of an imported name, after an arrow or `as`. -/
def importRename : Parser (Option String) := do
  match ← peek? with
  | none => return none
  | some token =>
    if token.kind = .arrow || (token.kind = .ident && token.text = "as") then
      let _ ← bump
      return some (← importAlias)
    else return none

/-- Reads the selector that begins with the given token. -/
def importSelector (token : Token) : Parser Selector := do
  if isWildcard token then
    let _ ← bump
    return .wildcard
  else if token.isName then
    let _ ← bump
    return .named token.text (← importRename)
  else fail (.expected "import selector")

/-- Reads the comma after a selector, which the last one may do without. -/
def selectorEnd : Parser Unit := do
  if (← eats .comma) || (← isAt (.closer .brace)) then return ()
  else fail .expectedSelectorEnd

/-- Reads selectors up to the closing brace. -/
def importSelectors : Parser (List Selector) :=
  iterate (fun (selectors : List Selector) => do
    match ← peek? with
    | none => fail (.expected "import selector")
    | some token =>
      if token.kind = .closer .brace then
        let _ ← bump
        return .done selectors
      else
        let selector ← importSelector token
        selectorEnd
        return .again (selectors ++ [selector])) []

/-- Reads what follows a point in an import path: another segment, or what is
selected. -/
def importPart (segments : List String) : Parser (Step (List String) (List String × List Selector)) := do
  match ← peek? with
  | none => fail (.expected "import selector")
  | some token =>
    if token.kind = .ident then
      let _ ← bump
      return .again (segments ++ [token.text])
    else if isWildcard token then
      let _ ← bump
      return .done (segments, [.wildcard])
    else if token.kind = .operator then
      let _ ← bump
      return .done (segments, [.named token.text (← importRename)])
    else if token.kind = .opener .brace then
      let _ ← bump
      return .done (segments, ← importSelectors)
    else fail (.expected "import selector")

/-- Reads what follows a segment of an import path. Without a point the segment
itself is what is selected. -/
def importStep (segments : List String) :
    Parser (Step (List String) (List String × List Selector)) := do
  if ← eats .dot then importPart segments
  else
    let rename ← importRename
    return .done (segments.dropLast, [Selector.named (segments.getLast?.getD "") rename])

/-- Reads one clause of an import, after the keyword or a comma. -/
def importClause (start : Nat) : Parser Import := do
  let first ← expectName "import path"
  let (segments, selectors) ← iterate importStep [first.text]
  return ⟨⟨segments⟩, selectors, ⟨start, ← lastStop⟩⟩

/-- Reads an import with all its clauses; the first includes the keyword. -/
def importClauses : Parser (List Import) := do
  let keyword ← expect (.keyword .importKw) "import"
  iterate (fun (start, clauses) => do
    let clauses := clauses ++ [← importClause start]
    if ← eats .comma then return .again (← here, clauses)
    else return .done clauses) (keyword.start, [])

/-- A second clause names a package inside the first. -/
def nestClause (outer : Option PackageClause) (name : DottedName) (span : Span) : PackageClause :=
  match outer with
  | some clause => ⟨clause.name.append name, clause.span.cover span⟩
  | none => ⟨name, span⟩

/-- Fails in front of the body of a package. -/
def refuseBlock : Parser Unit := do
  if ← isAt (.opener .brace) then fail .packageBlock else return ()

/-- Reads a package clause. -/
def packageClause (outer : Option PackageClause) : Parser PackageClause := do
  let keyword ← expect (.keyword .packageKw) "package"
  let (name, span) ← path "package name"
  refuseBlock
  return nestClause outer name (keyword.span.cover span)

/-- The next token begins a package clause and not a package object. -/
def atPackageClause : Parser Bool := do
  return (← isAt (.keyword .packageKw)) && (← secondKind?) != some (.keyword .objectKw)

/-- The package and the imports in front of the first declaration. -/
structure Preamble where
  package : Option PackageClause
  imports : List Import
deriving DecidableEq, Repr

/-- Reads clauses up to the first token that begins neither. -/
def preamble : Parser Preamble :=
  iterate (fun (seen : Preamble) => do
    eatAll .semi
    if ← atPackageClause then
      return .again { seen with package := some (← packageClause seen.package) }
    else if ← isAt (.keyword .importKw) then
      return .again { seen with imports := seen.imports ++ (← importClauses) }
    else return .done seen) ⟨none, []⟩

end KindLift.Parser
