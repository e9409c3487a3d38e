import KindLift.Decl.Outline
import KindLift.Proofs.WrittenObjects
import KindLift.SourceUnit

/-! Whole units as they are written: a package clause, imports, and traits and
objects. Loading the text of a unit gives what was written. -/
namespace KindLift.WrittenUnits
open Token Text KindLift.Parser QualifiedTokens WrittenTokens WrittenReading WrittenGroups WrittenTraits WrittenObjects

variable {source : List Char} {offset : Nat} {gap : List Char} {rest tokens : List Token} {before : Option Lexeme}

/-! ### Clauses -/

/-- A package clause at the beginning of a text. -/
def packagePieces : Option Path → List Piece
  | none => []
  | some path => ⟨[], .keyword .packageKw⟩ :: path.pieces [' ']

def packageRead : Option Path → Option PackageClause
  | none => none
  | some path => some ⟨⟨path.segments⟩, reach 0 (packagePieces (some path))⟩

theorem reads_packageClause {path : Path} (ends : EndsStatement rest) :
    ReadsAs source (packageClause none) offset (⟨gap, .keyword .packageKw⟩ :: path.pieces [' ']) rest
      ⟨⟨path.segments⟩, reach offset (⟨gap, .keyword .packageKw⟩ :: path.pieces [' '])⟩ := by
  have covered := @cover_reach [⟨gap, .keyword .packageKw⟩] (by simp) offset (path.pieces [' '])
  refine .next (reads_expect rfl) (.last (reads_path (ends.ne (by simp) (by simp))) ?_)
  refine .glance (.glance (reads_isAt_other (ends.ne (by simp) (by simp))) .pure) ?_
  rw [span_token, ← width_singleton, covered]
  exact .pure

/-- What an import selects: its last name, everything, or a symbol. -/
inductive Selection where
  | name
  | everything
  | symbol (operator : Operator) (proper : String.ofList (Lexeme.operator operator).chars ≠ "*")

/-- An import of one clause. -/
structure Line where
  path : Path
  selection : Selection

namespace Line

def selectionPieces : Selection → List Piece
  | .name => []
  | .everything => [⟨[], .dot⟩, ⟨[], .wildcard⟩]
  | .symbol operator _ => [⟨[], .dot⟩, ⟨[], .operator operator⟩]

def pieces (gap : List Char) (line : Line) : List Piece :=
  ⟨gap, .keyword .importKw⟩ :: (line.path.pieces [' '] ++ selectionPieces line.selection)

/-- What is imported from where. -/
def target (segments : List String) : Selection → List String × List Selector
  | .name => (segments.dropLast, [.named (segments.getLast?.getD "") none])
  | .everything => (segments, [.wildcard])
  | .symbol operator _ => (segments, [.named (String.ofList (Lexeme.operator operator).chars) none])

/-- The import that stands at `offset`. -/
def clause (gap : List Char) (offset : Nat) (line : Line) : Import :=
  ⟨⟨(target line.path.segments line.selection).1⟩, (target line.path.segments line.selection).2,
    reach offset (line.pieces gap)⟩

end Line

theorem reads_importRename (ends : EndsStatement tokens) : ReadsAs source importRename offset [] tokens none := by
  refine .glance reads_peek? ?_
  cases tokens with
  | nil => exact .pure
  | cons token tokens =>
    dsimp only [List.head?_cons]
    rcases ends token rfl with closes | ⟨word, begins, -⟩
    · simp only [closes]
      exact .pure
    · simp only [begins]
      exact .pure

theorem text_operator (operator : Operator) :
    ((Piece.mk gap (.operator operator)).token offset).text = String.ofList (Lexeme.operator operator).chars := by
  obtain ⟨-, -, -, -, special, -⟩ := isSymbol_facts (List.all_eq_true.mp operator.symbols _ (List.mem_cons_self ..))
  have tick := (not_special special).2.2.1
  have bare : unquote (operator.first :: operator.more) = operator.first :: operator.more := by
    unfold unquote
    split
    · rename_i same
      exact absurd (List.cons.inj same).1 tick
    · rfl
  rw [Token.text, Piece.token_lexeme, Lexeme.chars, bare]

theorem reads_importSteps {more : List Name} {selection : Selection} {segments : List String}
    (ends : EndsStatement rest) :
    ReadsAs source (iterate importStep segments) offset
      ((more.flatMap fun name => [⟨[], .dot⟩, ⟨[], .name name⟩]) ++ Line.selectionPieces selection) rest
      (Line.target (segments ++ more.map Name.text) selection) := by
  induction more generalizing offset segments with
  | nil =>
    rw [List.flatMap_nil, List.nil_append, List.map_nil, List.append_nil]
    cases selection with
    | name =>
      exact .done (.look (reads_eats_other (ends.ne (by simp) (by simp))) (.glance (reads_importRename ends) .pure))
    | everything => exact .done (.next (reads_eats rfl) (.look reads_peek? (.next reads_bump .pure)))
    | symbol operator proper =>
      have named : isWildcard ((Piece.mk [] (.operator operator)).token (offset + (Piece.mk [] .dot).width)) = false := by
        simp only [isWildcard, text_operator, proper]
        rfl
      have kind : ((Piece.mk [] (.operator operator)).token (offset + (Piece.mk [] .dot).width)).kind = .operator := rfl
      refine .done (.next (reads_eats rfl) (.look reads_peek? ?_))
      dsimp only [place_cons, List.cons_append, List.head?_cons]
      rw [if_neg (by simp), named, if_neg (by simp), if_pos kind, text_operator]
      exact .next reads_bump (.glance (reads_importRename ends) .pure)
  | cons name more ih =>
    have further := @ih (offset + width [⟨[], .dot⟩, ⟨[], .name name⟩]) (segments ++ [name.text])
    rw [List.append_assoc] at further
    rw [List.flatMap_cons, List.append_assoc]
    refine .again [⟨[], .dot⟩, ⟨[], .name name⟩] (.next (reads_eats rfl) (.look reads_peek? (.next reads_bump ?_)))
      (by simp) further
    rw [text_name]
    exact .pure

theorem reads_importClause {line : Line} {start : Nat} (ends : EndsStatement rest) :
    ReadsAs source (importClause start) offset (line.path.pieces [' '] ++ Line.selectionPieces line.selection) rest
      ⟨⟨(Line.target line.path.segments line.selection).1⟩, (Line.target line.path.segments line.selection).2,
        start, offset + width (line.path.pieces [' '] ++ Line.selectionPieces line.selection)⟩ := by
  refine .next reads_expectName ?_
  rw [text_name]
  refine .last (reads_importSteps ends) (.glance reads_lastStop ?_)
  rw [Nat.add_assoc, ← width_cons]
  exact .pure

theorem reads_importClauses {line : Line} (ends : EndsStatement rest) :
    ReadsAs source importClauses offset (line.pieces gap) rest [line.clause gap offset] := by
  refine .next (reads_expect rfl) (.done (.last (reads_importClause ends) ?_))
  refine .glance (reads_eats_other (ends.ne (by simp) (by simp))) ?_
  rw [Nat.add_assoc, ← width_cons]
  exact .pure

/-! ### Declarations -/

inductive Declaration where
  | trait (trait : Trait)
  | object (object : Object)

namespace Declaration

def pieces (gap : List Char) : Declaration → List Piece
  | trait declared => declared.pieces gap []
  | object declared => declared.pieces gap

/-- The declaration that stands at `offset`. -/
def decl (gap : List Char) (offset : Nat) : Declaration → Decl
  | trait declared => .interface (declared.interface gap [] offset)
  | object declared => .holder (declared.holder gap offset)

theorem begins (declaration : Declaration) (gap : List Char) : ∃ word later,
    declaration.pieces gap = ⟨gap, .keyword word⟩ :: later ∧ (word = .traitKw ∨ word = .objectKw) := by
  cases declaration with
  | trait declared => exact ⟨_, _, rfl, .inl rfl⟩
  | object declared => exact ⟨_, _, rfl, .inr rfl⟩

end Declaration

/-- Imports with the blanks in front of them. -/
def importPieces (imports : List (List Char × Line)) : List Piece := imports.flatMap fun line => line.2.pieces line.1

/-- The imports that stand from `offset` on. -/
def importsAt : Nat → List (List Char × Line) → List Import :=
  readAll (fun line => line.2.pieces line.1) fun offset line => line.2.clause line.1 offset

/-- Declarations with the blanks in front of them. -/
def declPieces (decls : List (List Char × Declaration)) : List Piece := decls.flatMap fun decl => decl.2.pieces decl.1

/-- The declarations that stand from `offset` on. -/
def declsAt : Nat → List (List Char × Declaration) → List Decl :=
  readAll (fun decl => decl.2.pieces decl.1) fun offset decl => decl.2.decl decl.1 offset

theorem endsStatement_decls {decls : List (List Char × Declaration)} :
    EndsStatement (place offset (declPieces decls)) := by
  cases decls with
  | nil => nofun
  | cons decl decls =>
    obtain ⟨word, later, shape, declares⟩ := decl.2.begins decl.1
    intro token first
    rw [declPieces, List.flatMap_cons, shape] at first
    cases first
    exact .inr ⟨word, rfl, by rcases declares with rfl | rfl <;> rfl⟩

theorem endsStatement_imports {imports : List (List Char × Line)} {decls : List (List Char × Declaration)} :
    EndsStatement (place offset (importPieces imports ++ declPieces decls)) := by
  cases imports with
  | nil => exact endsStatement_decls
  | cons line imports =>
    rintro _ ⟨⟩
    exact .inr ⟨_, rfl, rfl⟩

theorem reads_topLevel {declaration : Declaration} (sits : Sits source offset (declaration.pieces gap))
    (ends : EndsStatement rest) :
    ReadsAs source topLevel offset (declaration.pieces gap) rest (declaration.decl gap offset) := by
  cases declaration with
  | trait declared =>
    refine .look (reads_isAt_other (by simp [Declaration.pieces, Trait.pieces, Trait.opening])) ?_
    refine .look (reads_modifiers_bare rfl) (.look reads_peekKind? ?_)
    exact .last (reads_interface sits ends) .pure
  | object declared =>
    refine .look (reads_isAt_other (by simp [Declaration.pieces, Object.pieces, Object.opening])) ?_
    refine .look (reads_modifiers_bare rfl) (.look reads_peekKind? ?_)
    exact .last (reads_holder sits ends) .pure

/-! ### Outlines -/

theorem reads_atPackageClause_other (other : tokens.head?.map Token.kind ≠ some (.keyword .packageKw)) :
    ReadsAs source atPackageClause offset [] tokens false := .glance (reads_isAt_other other) .pure

theorem reads_outlineSteps_decls {decls : List (List Char × Declaration)} {seen : Outline}
    (sits : Sits source offset (declPieces decls)) :
    ReadsAs source (iterate outlineStep seen) offset (declPieces decls) []
      { seen with decls := seen.decls ++ declsAt offset decls } := by
  induction decls generalizing offset seen with
  | nil =>
    refine .done (.glance (reads_eatAll_other (by simp)) (.glance reads_peek? ?_))
    rw [declsAt, readAll, List.append_nil]
    exact .pure
  | cons decl decls ih =>
    have shape : declPieces (decl :: decls) = decl.2.pieces decl.1 ++ declPieces decls := by simp [declPieces]
    obtain ⟨gap, declaration⟩ := decl
    obtain ⟨word, later, first, declares⟩ := declaration.begins gap
    rw [shape] at sits ⊢
    have further := @ih _ { seen with decls := seen.decls ++ [declaration.decl gap offset] } (sits.right _)
    have read := @reads_topLevel source offset gap (place (offset + width (declaration.pieces gap)) (declPieces decls))
      declaration (sits.left _) endsStatement_decls
    have placed : declsAt offset ((gap, declaration) :: decls) =
        [declaration.decl gap offset] ++ declsAt (offset + width (declaration.pieces gap)) decls := rfl
    rw [List.append_assoc, ← placed] at further
    dsimp only at further ⊢
    rw [first] at read further ⊢
    have noPackage : word ≠ .packageKw := by rcases declares with rfl | rfl <;> simp
    have noImport : word ≠ .importKw := by rcases declares with rfl | rfl <;> simp
    rw [← List.append_nil (place _ (declPieces decls))] at read
    refine .again _ (.look (reads_eatAll_other (by simp)) (.look reads_peek? ?_)) (by simp) further
    refine .look (reads_atPackageClause_other (by simp [noPackage])) (.look (reads_isAt_other (by simp [noImport])) ?_)
    exact .last read .pure

theorem reads_outlineSteps_imports {imports : List (List Char × Line)} {decls : List (List Char × Declaration)}
    {seen : Outline} (sits : Sits source offset (importPieces imports ++ declPieces decls)) :
    ReadsAs source (iterate outlineStep seen) offset (importPieces imports ++ declPieces decls) []
      { seen with
        imports := seen.imports ++ importsAt offset imports
        decls := seen.decls ++ declsAt (offset + width (importPieces imports)) decls } := by
  induction imports generalizing offset seen with
  | nil =>
    rw [importsAt, readAll, List.append_nil]
    exact reads_outlineSteps_decls sits
  | cons line imports ih =>
    obtain ⟨gap, line⟩ := line
    have shape : importPieces ((gap, line) :: imports) ++ declPieces decls =
        line.pieces gap ++ (importPieces imports ++ declPieces decls) := by simp [importPieces]
    have wide : offset + width (importPieces ((gap, line) :: imports)) =
        offset + width (line.pieces gap) + width (importPieces imports) := by simp [importPieces, Nat.add_assoc]
    rw [shape] at sits ⊢
    rw [wide]
    have further := @ih _ { seen with imports := seen.imports ++ [line.clause gap offset] } (sits.right _)
    have placed : importsAt offset ((gap, line) :: imports) =
        [line.clause gap offset] ++ importsAt (offset + width (line.pieces gap)) imports := rfl
    rw [List.append_assoc, ← placed] at further
    refine .again _ (.look (reads_eatAll_other (by simp [Line.pieces])) (.look reads_peek? ?_)) (by simp [Line.pieces]) further
    refine .look (reads_atPackageClause_other (by simp [Line.pieces])) (.look (reads_isAt rfl) ?_)
    refine .last (reads_importClauses ?_) .pure
    rw [List.append_nil]
    exact endsStatement_imports

/-- A unit. The package clause, if there is one, begins the text. -/
structure Written where
  package : Option Path
  imports : List (List Char × Line)
  decls : List (List Char × Declaration)

namespace Written

def pieces (unit : Written) : List Piece :=
  packagePieces unit.package ++ (importPieces unit.imports ++ declPieces unit.decls)

/-- Where the imports begin. -/
def importOffset (unit : Written) : Nat := width (packagePieces unit.package)

/-- Where the declarations begin. -/
def declOffset (unit : Written) : Nat := unit.importOffset + width (importPieces unit.imports)

/-- The outline of the unit but for its references. -/
def outline (unit : Written) : Outline where
  package := packageRead unit.package
  imports := importsAt unit.importOffset unit.imports
  decls := declsAt unit.declOffset unit.decls
  typeRefs := []

end Written

theorem reads_outline {unit : Written} (sits : Sits source 0 unit.pieces) :
    ReadsAs source Parser.outline 0 unit.pieces [] unit.outline := by
  obtain ⟨package, imports, decls⟩ := unit
  cases package with
  | none => exact reads_outlineSteps_imports sits
  | some path =>
    have clause := @reads_packageClause source 0 [] (place (0 + width (packagePieces (some path)))
      (importPieces imports ++ declPieces decls)) path endsStatement_imports
    have further := @reads_outlineSteps_imports source (0 + width (packagePieces (some path))) imports decls
      ⟨some ⟨⟨path.segments⟩, reach 0 (packagePieces (some path))⟩, [], [], []⟩ (sits.right (packagePieces (some path)))
    rw [← List.append_nil (place _ (importPieces imports ++ declPieces decls))] at clause
    have whole : (Written.mk (some path) imports decls).outline =
        ⟨some ⟨⟨path.segments⟩, reach 0 (packagePieces (some path))⟩,
          importsAt (0 + width (packagePieces (some path))) imports,
          declsAt (0 + width (packagePieces (some path)) + width (importPieces imports)) decls, []⟩ := by
      rw [Nat.zero_add]
      rfl
    rw [whole]
    refine .again (packagePieces (some path)) (.look (reads_eatAll_other (by simp [packagePieces]))
      (.look reads_peek? ?_)) (by simp [packagePieces]) further
    exact .look (.look (reads_isAt rfl) (.look reads_secondKind? .pure)) (.last clause .pure)

/-! ### Layout -/

/-- Items stand behind blanks. The first one may do without them where a text begins. -/
def Leads (before : Option Lexeme) : List (List Char × α) → Prop
  | [] => True
  | first :: others =>
    IsBlank first.1 ∧ (first.1 = [] → before = none) ∧ ∀ other ∈ others, IsBlank other.1 ∧ other.1 ≠ []

theorem laid_leads {items : List (List Char × α)} {write : List Char × α → List Piece}
    (each : ∀ item ∈ items, ∀ before, IsBlank item.1 → (item.1 = [] → before = none) → Laid before (write item))
    (leads : Leads before items) : Laid before (items.flatMap write) := by
  cases items with
  | nil => trivial
  | cons first others =>
    obtain ⟨blank, apart, rest⟩ := leads
    obtain ⟨here, there⟩ := List.forall_mem_cons.mp each
    rw [List.flatMap_cons, laid_append]
    refine ⟨here before blank apart, laid_flatMap (fun other member before => ?_) _⟩
    obtain ⟨blank', nonempty⟩ := rest other member
    exact there other member before blank' fun empty => absurd empty nonempty

theorem lastOf_path {path : Path} : ∃ name, lastOf before (path.pieces gap) = some (.name name) := by
  obtain ⟨first, more⟩ := path
  rw [Path.pieces, lastOf_cons]
  induction more generalizing first with
  | nil => exact ⟨first, rfl⟩
  | cons next more ih => exact ih next

theorem laid_line {line : Line} (blank : IsBlank gap) (apart : gap = [] → before = none) :
    Laid before (line.pieces gap) := by
  have first : gap = [] → ∀ last ∈ before, last.separate (.keyword .importKw) = true := by
    intro empty last member
    rw [apart empty] at member
    cases member
  obtain ⟨name, ends⟩ := @lastOf_path [' '] (some (.keyword .importKw)) line.path
  have selection : Laid (some (.name name)) (Line.selectionPieces line.selection) := by
    cases line.selection <;> simp [Line.selectionPieces, Laid]
  rw [Line.pieces, laid_cons, laid_append, ends]
  exact ⟨blank, first, laid_path, selection⟩

/-- What is asked of the blanks of a unit. -/
structure Written.IsLaid (unit : Written) : Prop where
  imports : Leads (lastOf none (packagePieces unit.package)) unit.imports
  decls : Leads (lastOf (lastOf none (packagePieces unit.package)) (importPieces unit.imports)) unit.decls
  insides : ∀ decl ∈ unit.decls, ∀ object, decl.2 = .object object → ∀ inside ∈ object.inside, inside.IsLaid

theorem Written.IsLaid.laid {unit : Written} (laid : unit.IsLaid) : Laid none unit.pieces := by
  have package : Laid none (packagePieces unit.package) := by
    cases unit.package with
    | none => trivial
    | some path =>
      rw [packagePieces, laid_cons]
      exact ⟨by simp, nofun, laid_path⟩
  rw [Written.pieces, laid_append, laid_append]
  refine ⟨package, laid_leads (fun line _ before => laid_line) laid.imports, laid_leads (fun decl member before => ?_) laid.decls⟩
  intro blank apart
  have inside := laid.insides decl member
  cases shape : decl.2 with
  | trait trait => exact laid_trait blank apart (by simp)
  | object object => exact laid_object blank apart (inside object shape)

/-! ### Loading -/

/-- The outline of a written text is the one of the unit, whatever it refers to. -/
theorem parse_written {unit : Written} {tail : List Char} (laid : unit.IsLaid) (blank : IsBlank tail) :
    ∃ references, Outline.parse (written unit.pieces ++ tail) = .ok { unit.outline with typeRefs := references } := by
  have sits : Sits (written unit.pieces ++ tail) 0 unit.pieces := ⟨[], tail, rfl, rfl⟩
  have read := reads_outline sits
  rw [ReadsAs, List.append_nil] at read
  refine ⟨TypeRef.collect (place 0 unit.pieces) unit.outline.decls, ?_⟩
  rw [Outline.parse, scan_written laid.laid blank]
  show (onTokens Parser.outline _ _ >>= _) = _
  rw [onTokens, read]
  rfl

/-- Nothing is missing in an empty program. -/
theorem resolve_empty (id : UnitId) (outline : Outline) : ∃ scope, Scope.resolve .empty id outline = .ok scope := by
  have present : ∀ target, Scope.isMissing .empty target = false := by
    intro target
    unfold Scope.isMissing
    cases target.parent? <;> rfl
  have none : (outline.imports.flatMap Import.targets).find? (Scope.isMissing .empty) = none := by
    rw [List.find?_eq_none]
    simp [present]
  rw [Scope.resolve, none]
  exact ⟨_, rfl⟩

/-- A written text is loaded as what was written. -/
theorem load_written {unit : Written} {tail : List Char} (laid : unit.IsLaid) (blank : IsBlank tail) (id : UnitId) :
    ∃ references scope, SourceUnit.load .empty id (String.ofList (written unit.pieces ++ tail)) =
      ⟨id, String.ofList (written unit.pieces ++ tail), { unit.outline with typeRefs := references }, .ok scope⟩ := by
  obtain ⟨references, parsed⟩ := parse_written laid blank
  obtain ⟨scope, resolved⟩ := resolve_empty id { unit.outline with typeRefs := references }
  refine ⟨references, scope, ?_⟩
  rw [SourceUnit.load, String.toList_ofList, parsed]
  dsimp only
  rw [resolved]

end KindLift.WrittenUnits
