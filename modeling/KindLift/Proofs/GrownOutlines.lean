import KindLift.Proofs.GrownDecls

/-! Outlines that are read again after additions. A step over a clause or a declaration is
answered in another text by steps over what has become of it: a trait is kept or makes room
for its alias, an object may come behind it, an object gets members, and imports come behind
a clause. Whatever comes next is read as it was. -/
namespace KindLift.GrownOutlines
open KindLift.Parser ParserLogic CursorAdvance ParserProgress ParserSimulation TokenReaders SeamLogic SeamParsers SeamBodies
open GrownObjects GrownDecls Preambles ImportLines
open IndentedTexts (spell)

variable {source other : List Char} {left middle next right core : Cursor} {seen seen' later : Outline} {tokens front rest own : List Token}
  {names : List DottedName} {words : List Word}

/-! ### What becomes of an outline -/

/-- What is done with a declaration: a trait makes room for its alias or not, and members
are added to its object, which is created if need be. -/
structure Change where
  aliased : Bool
  added : Option (List String)

/-- The trait is kept, or it is the alias by now. -/
def StandsFor (aliased : Bool) (old new : Interface) : Prop :=
  if aliased then new.name = old.name ∧ new.typeParams = [] else interfaceGist new = interfaceGist old

/-- An object of the name with the added members. -/
def Beside (name : String) (added : Option (List String)) (objects : List Decl) : Prop :=
  match added with
  | none => objects = []
  | some names => ∃ holder, objects = [.holder holder] ∧ holderGist holder = (name, names)

/-- What a declaration becomes. -/
inductive Becomes (change : Change) : Decl → List Decl → Prop where
  | interface {old new : Interface} {objects : List Decl} (stands : StandsFor change.aliased old new)
      (beside : Beside old.name change.added objects) : Becomes change (.interface old) (.interface new :: objects)
  | holder {old new : Holder} (grown : holderGist new = (old.name, (holderGist old).2 ++ change.added.getD [])) :
      Becomes change (.holder old) [.holder new]
  | other (old new : OpaqueDecl) : Becomes change (.other old) [.other new]

/-- What the declarations become, one behind the other. -/
inductive Grown (change : Decl → Change) : List Decl → List Decl → Prop where
  | nil : Grown change [] []
  | snoc {decls decls' block : List Decl} {decl : Decl} (before : Grown change decls decls')
      (becomes : Becomes (change decl) decl block) : Grown change (decls ++ [decl]) (decls' ++ block)

/-- The declarations have become those of another outline, which imports what the first one
imports, and some of the names. -/
structure Kept (change : Decl → Change) (names : List DottedName) (seen seen' : Outline) : Prop where
  decls : Grown change seen.decls seen'.decls
  imports : ∀ clause ∈ seen'.imports, ∀ target ∈ clause.targets, (∃ old ∈ seen.imports, target ∈ old.targets) ∨ target ∈ names

/-- What was read from one cursor to another is read where the words have been put in its
place, whatever comes behind. -/
def Regrows (change : Decl → Change) (names : List DottedName) (source : List Char) (left next : Cursor) (seen later : Outline)
    (words : List Word) : Prop :=
  ∀ (other : List Char) (front tokens : List Token), front.map spell = words → Flush ⟨source, other, next.rest, tokens⟩ →
    Flush ⟨source, other, left.rest, front ++ tokens⟩ ∧ ∀ seen' stop, Kept change names seen seen' → ∃ later' stop',
      Kept change names later later' ∧
        iterateFrom outlineStep seen' other ⟨front ++ tokens, stop⟩ = iterateFrom outlineStep later' other ⟨tokens, stop'⟩

variable {change : Decl → Change}

theorem Grown.empty {decls' : List Decl} (grown : Grown change [] decls') : decls' = [] := by
  generalize whole : ([] : List Decl) = decls at grown
  cases grown with
  | nil => rfl
  | snoc => simp at whole

/-- One more declaration. -/
theorem Kept.addDecl {decl : Decl} {block : List Decl} (kept : Kept change names seen seen') (becomes : Becomes (change decl) decl block) :
    Kept change names { seen with decls := seen.decls ++ [decl] } { seen' with decls := seen'.decls ++ block } :=
  ⟨kept.decls.snoc becomes, kept.imports⟩

theorem targets_of_gist {clause clause' : Import} (same : importGist clause' = importGist clause) : clause'.targets = clause.targets := by
  obtain ⟨path, selectors⟩ := Prod.mk.inj same
  rw [Import.targets, Import.targets, path, selectors]

/-- More imports, and some of the names. -/
theorem Kept.addImports {clauses clauses' more : List Import} (kept : Kept change names seen seen')
    (same : clauses'.map importGist = clauses.map importGist) (known : ∀ clause ∈ more, ∀ target ∈ clause.targets, target ∈ names) :
    Kept change names { seen with imports := seen.imports ++ clauses } { seen' with imports := seen'.imports ++ clauses' ++ more } := by
  refine ⟨kept.decls, fun clause listed target among => ?_⟩
  rcases List.mem_append.mp listed with listed | listed
  · rcases List.mem_append.mp listed with listed | listed
    · refine (kept.imports clause listed target among).imp_left fun ⟨old, member, found⟩ => ⟨old, List.mem_append_left _ member, found⟩
    · obtain ⟨old, member, gist⟩ := List.mem_map.mp (same ▸ List.mem_map_of_mem (f := importGist) listed)
      exact .inl ⟨old, List.mem_append_right _ member, by rwa [← targets_of_gist gist.symm]⟩
  · exact .inr (known clause listed target among)

/-! ### Clauses and declarations that are kept -/

theorem outlineStep_of_stepped {outcome : Step Outline Outline} (ate : eatAll .semi source left = .ok ((), middle))
    (stepped : Stepped source seen middle outcome next) : outlineStep seen source left = .ok (outcome, next) := by
  have looked : peek? source middle = .ok (middle.rest.head?, middle) := rfl
  have more : ∀ {kind}, middle.rest.head?.map Token.kind = some kind → ¬ middle.rest.head?.isNone = true := by
    intro kind ahead
    cases first : middle.rest.head? <;> simp_all
  rw [outlineStep, bind_ok ate, bind_ok looked]
  cases stepped with
  | finished last =>
    rw [if_pos (by rw [last]; rfl)]
    rfl
  | package undeclared ahead ran =>
    rw [if_neg (more ahead.1), bind_ok atPackageClause_run, if_pos (decide_eq_true ahead), if_pos (List.isEmpty_iff.mpr undeclared), bind_ok ran]
    rfl
  | imports noPackage ahead ran =>
    rw [if_neg (more ahead), bind_ok atPackageClause_run, if_neg (by simpa using noPackage), bind_ok isImport_run,
      if_pos (decide_eq_true ahead), bind_ok ran]
    rfl
  | decl noPackage noImport ran =>
    have shorter : next.rest.length < middle.rest.length := topLevel_takes.ensures source middle _ _ ran
    have nonempty : ¬ middle.rest.head?.isNone = true := by
      intro none
      have empty : middle.rest = [] := List.head?_eq_none_iff.mp (Option.isNone_iff_eq_none.mp none)
      simp [empty] at shorter
    rw [if_neg nonempty, bind_ok atPackageClause_run, if_neg (by simpa using noPackage), bind_ok isImport_run,
      if_neg (by simpa using noImport), bind_ok ran]
    rfl

/-- A package clause is read from two tokens at least. -/
theorem packageClause_shape {outer : Option PackageClause} {clause : PackageClause} (ran : packageClause outer source left = .ok (clause, next)) :
    ∃ keyword name rest, left.rest = keyword :: name :: rest ∧ next.rest <:+ rest := by
  obtain ⟨keyword, begun, expected, ran⟩ := bind_eq_ok ran
  obtain ⟨⟨name, span⟩, named, walked, ran⟩ := bind_eq_ok ran
  obtain ⟨_, _, refused, ran⟩ := bind_eq_ok ran
  cases ran
  obtain ⟨first, behind, found, walked⟩ := bind_eq_ok walked
  obtain ⟨shape, -, -⟩ := expect_some expected
  obtain ⟨shape', -, -⟩ := expectName_some found
  have onward : Advances (iterate (pathStep "package name") (⟨[first.text]⟩, first.span)) := inferInstance
  have refusing : Advances refuseBlock := inferInstance
  have suffix := (onward.ensures _ _ _ _ walked).suffix
  exact ⟨keyword, first, behind.rest, by rw [shape, shape'], ((refusing.ensures _ _ _ _ refused).suffix).trans suffix⟩

theorem atPackage_along {seam : Seam} (flush : Flush seam) (along : seam.Along left right) (noPackage : ¬ AtPackage left) : ¬ AtPackage right := by
  rintro ⟨head, second⟩
  rw [along.kind flush.toFlat] at head
  obtain ⟨token, first, kind⟩ := Option.map_eq_some_iff.mp head
  have object : left.rest[1]?.map Token.kind = some (.keyword .objectKw) := by
    by_contra different
    exact noPackage ⟨head, different⟩
  rcases along.second flush.toFlat first (by simp [kind, Looks]) with same | ⟨closer, -⟩
  · exact second (same.trans object)
  · rw [object] at closer
    cases closer

/-- A clause of a package is read in front of whatever is added. -/
theorem package_again {seam : Seam} {clause : PackageClause} (quiet : Quiet seam) (along : seam.Along left right)
    (ate : eatAll .semi seam.source left = .ok ((), middle)) (ahead : AtPackage middle)
    (ran : packageClause seen.package seam.source middle = .ok (clause, next)) (inside : seam.back.length ≤ next.rest.length)
    (undeclared : seen'.decls = []) : ∃ clause' right',
      outlineStep seen' seam.other right = .ok (.again { seen' with package := some clause' }, right') ∧ seam.Along next right' := by
  obtain ⟨keyword, name, rest, shape, suffix⟩ := packageClause_shape ran
  have below := Nat.le_trans inside suffix.length_le
  obtain ⟨_, middle', ate', -, along⟩ := eatAll_mirrors (quiet_asks (.inr rfl)) seam quiet _ _ along _ _ ate
    (by rw [shape, List.length_cons, List.length_cons]; omega)
  obtain ⟨keyword', rest', shape', alike, later⟩ := along.next shape (by rw [List.length_cons]; omega)
  obtain ⟨name', rest'', shape'', alike', -⟩ := (later 0 0).next rfl below
  have ahead' : AtPackage middle' := by
    rw [AtPackage, shape] at ahead
    rw [AtPackage, shape', show rest' = name' :: rest'' from shape'']
    simpa [kind_of_spell alike, kind_of_spell alike'] using ahead
  obtain ⟨clause', right', ran', -, along⟩ := packageClause_mirrors seen.package seen'.package seam quiet _ _ along _ _ ran inside
  exact ⟨clause', right', outlineStep_of_stepped ate' (.package undeclared ahead' ran'), along⟩

/-- An import is read in front of whatever is added. -/
theorem imports_again {seam : Seam} {clauses : List Import} (quiet : Quiet seam) (along : seam.Along left right)
    (ate : eatAll .semi seam.source left = .ok ((), middle)) (ahead : AtImport middle)
    (ran : importClauses seam.source middle = .ok (clauses, next)) (inside : seam.back.length ≤ next.rest.length) : ∃ clauses' right',
      outlineStep seen' seam.other right = .ok (.again { seen' with imports := seen'.imports ++ clauses' }, right') ∧
        clauses'.map importGist = clauses.map importGist ∧ seam.Along next right' := by
  obtain ⟨token, first, kind⟩ := Option.map_eq_some_iff.mp ahead
  obtain ⟨rest, shape⟩ := List.head?_eq_some_iff.mp first
  have shorter : next.rest.length < middle.rest.length := importClauses_takes.ensures seam.source middle _ _ ran
  have below : seam.back.length ≤ rest.length := by
    rw [shape, List.length_cons] at shorter
    omega
  obtain ⟨_, middle', ate', -, along⟩ := eatAll_mirrors (quiet_asks (.inr rfl)) seam quiet _ _ along _ _ ate
    (by rw [shape, List.length_cons]; omega)
  obtain ⟨token', rest', shape', alike, -⟩ := along.next shape below
  have ahead' : AtImport middle' := by simp [AtImport, shape', kind_of_spell alike, kind]
  have noPackage : ¬ AtPackage middle' := by
    rintro ⟨package, -⟩
    rw [ahead'] at package
    cases package
  obtain ⟨clauses', right', ran', same, along⟩ := importClauses_mirrors seam quiet _ _ along _ _ ran inside
  exact ⟨clauses', right', outlineStep_of_stepped ate' (.imports noPackage ahead' ran'), same, along⟩

/-- A declaration is read where nothing is added. -/
theorem decl_again {seam : Seam} {decl : Decl} (flush : Flush seam) (along : seam.Along left right)
    (ate : eatAll .semi seam.source left = .ok ((), middle)) (noPackage : ¬ AtPackage middle) (noImport : ¬ AtImport middle)
    (ran : topLevel seam.source middle = .ok (decl, next)) (inside : seam.back.length ≤ next.rest.length) : ∃ decl' right',
      outlineStep seen' seam.other right = .ok (.again { seen' with decls := seen'.decls ++ [decl'] }, right') ∧ SameDecl decl decl' ∧
        seam.Along next right' := by
  have shorter : next.rest.length < middle.rest.length := topLevel_takes.ensures seam.source middle _ _ ran
  obtain ⟨_, middle', ate', -, along⟩ := eatAll_mirrors (flush_asks _) seam flush _ _ along _ _ ate (Nat.le_trans inside (Nat.le_of_lt shorter))
  obtain ⟨decl', right', ran', same, along'⟩ := topLevel_mirrors seam flush _ _ along _ _ ran inside
  have noImport' : ¬ AtImport middle' := by rwa [AtImport, along.kind flush.toFlat]
  exact ⟨decl', right', outlineStep_of_stepped ate' (.decl (atPackage_along flush along noPackage) noImport' ran'), same, along'⟩

/-! ### Steps that are answered -/

theorem again_at {seen later : Outline} {stop stop' : Nat} {front : List Token}
    (ran : outlineStep seen other ⟨front, stop⟩ = .ok (.again later, ⟨tokens, stop'⟩)) :
    iterateFrom outlineStep seen other ⟨front, stop⟩ = iterateFrom outlineStep later other ⟨tokens, stop'⟩ :=
  iterateFrom_again ran ((outlineStep_strides seen).ensures _ _ _ _ ran)

/-- A declaration that nothing is done with. -/
theorem becomes_same {decl decl' : Decl} (same : SameDecl decl decl') (keeps : change decl = ⟨false, none⟩) :
    Becomes (change decl) decl [decl'] := by
  rw [keeps]
  cases same with
  | interface same => exact .interface same rfl
  | holder same => exact .holder (by rw [same]; simp [holderGist])
  | other => exact .other _ _

/-- A step that nothing is done with. -/
theorem regrows_kept (ran : outlineStep seen source left = .ok (.again later, next)) (shape : left.rest = own ++ next.rest)
    (keeps : ∀ decl, later.decls = seen.decls ++ [decl] → change decl = ⟨false, none⟩) :
    Regrows change names source left next seen later (own.map spell) := by
  intro other front tokens alike flush
  refine ⟨by rw [shape]; exact flush.back alike, fun seen' stop kept => ?_⟩
  have along : (Seam.mk source other next.rest tokens).Along left ⟨front ++ tokens, stop⟩ := ⟨own, front, shape, rfl, alike⟩
  obtain ⟨middle, ate, stepped⟩ := outlineStep_stepped ran
  cases stepped with
  | package undeclared ahead read =>
    have undeclared' : seen'.decls = [] := Grown.empty (undeclared ▸ kept.decls)
    obtain ⟨clause', ⟨tokens', stop'⟩, again, along⟩ := package_again flush.quiet along ate ahead read (Nat.le_refl _) undeclared'
    obtain rfl : tokens' = tokens := along.ends (Nat.le_refl _)
    exact ⟨{ seen' with package := some clause' }, stop', ⟨kept.decls, kept.imports⟩, again_at again⟩
  | imports noPackage ahead read =>
    obtain ⟨clauses', ⟨tokens', stop'⟩, again, same, along⟩ := @imports_again _ _ _ _ seen' _ _ flush.quiet along ate ahead read (Nat.le_refl _)
    obtain rfl : tokens' = tokens := along.ends (Nat.le_refl _)
    refine ⟨_, stop', ?_, again_at again⟩
    have none : ∀ clause ∈ ([] : List Import), ∀ target ∈ clause.targets, target ∈ names := by simp
    simpa using kept.addImports same none
  | decl noPackage noImport read =>
    obtain ⟨decl', ⟨tokens', stop'⟩, again, same, along⟩ := @decl_again _ _ _ _ seen' _ _ flush along ate noPackage noImport read (Nat.le_refl _)
    obtain rfl : tokens' = tokens := along.ends (Nat.le_refl _)
    exact ⟨_, stop', kept.addDecl (becomes_same same (keeps _ rfl)), again_at again⟩

/-! ### Imports behind a clause -/

theorem spells_alike {segments : List String} {path path' : List Token} (spells : Spells segments path)
    (same : path'.map spell = path.map spell) : Spells segments path' := by
  induction spells generalizing path' with
  | last named lexeme =>
    obtain ⟨token', rfl, alike⟩ := List.map_eq_singleton_iff.mp same
    exact .last ((isName_of_spell alike).trans named) ((congrArg Prod.snd alike).trans lexeme)
  | point word lexeme point others ih =>
    obtain ⟨token', _, rfl, alike, same⟩ := List.map_eq_cons_iff.mp same
    obtain ⟨dot', path', rfl, alike', same⟩ := List.map_eq_cons_iff.mp same
    exact .point ((kind_of_spell alike).trans word) ((congrArg Prod.snd alike).trans lexeme) ((kind_of_spell alike').trans point) (ih same)

theorem lines_alike {lines lines' : List Token} (written : Lines names lines) (same : lines'.map spell = lines.map spell) :
    Lines names lines' := by
  induction written generalizing lines' with
  | nil => rw [List.map_eq_nil_iff.mp same]; exact .nil
  | cons first spells others ih =>
    obtain ⟨keyword', _, rfl, alike, same⟩ := List.map_eq_cons_iff.mp same
    rw [List.map_append] at same
    obtain ⟨path', lines', rfl, path, same⟩ := List.map_eq_append_iff.mp same
    exact .cons ((kind_of_spell alike).trans first) (spells_alike spells path) (ih same)

/-- Names that are imported as they are written, and by themselves. -/
def Proper (name : DottedName) : Prop := bare name = name ∧ name.last? ≠ some "*"

instance (name : DottedName) : Decidable (Proper name) := inferInstanceAs (Decidable (_ ∧ _))

/-- What the lines import is among their names. -/
theorem brought_targets {clauses : List Import} (brought : List.Forall₂ (fun name clause => Brings (bare name) clause) names clauses)
    (proper : ∀ name ∈ names, Proper name) : ∀ clause ∈ clauses, ∀ target ∈ clause.targets, target ∈ names := by
  intro clause listed target among
  obtain ⟨name, member, -, targets⟩ := Traversal.related_right brought listed
  obtain ⟨same, plain⟩ := proper name member
  rw [same] at targets
  rw [targets.resolve_left plain, List.mem_singleton] at among
  rwa [among]

/-- Two tokens at least are read of a clause that begins with a token behind which a second one is looked at. -/
theorem clause_long (ran : outlineStep seen source left = .ok (.again later, next)) (clause : later.decls = seen.decls)
    (shape : left.rest = own ++ next.rest) : own ≠ [] ∧ ∀ token ∈ own.head?, Looks token.kind → 1 < own.length := by
  have shorter := (outlineStep_strides seen).ensures _ _ _ _ ran
  have nonempty : own ≠ [] := by
    rintro rfl
    rw [List.nil_append] at shape
    exact absurd shorter (by simp [Goes, Shorter, shape])
  refine ⟨nonempty, fun token first looks => ?_⟩
  have head : left.rest.head? = some token := by
    rw [shape, List.head?_append]
    simp [Option.mem_def.mp first]
  obtain ⟨middle, ate, stepped⟩ := outlineStep_stepped ran
  have stays : eatAll .semi source left = .ok ((), left) := eatAll_stays (by
    rw [head, Option.map_some, ne_eq, Option.some.injEq]
    intro semi
    simp [Looks, semi] at looks)
  cases ate.symm.trans stays
  cases stepped with
  | package _ _ read =>
    obtain ⟨keyword, name, rest, shape', suffix⟩ := packageClause_shape read
    have length := congrArg List.length (shape.symm.trans shape')
    have behind := suffix.length_le
    rw [List.length_append, List.length_cons, List.length_cons] at length
    omega
  | imports _ ahead =>
    rw [AtImport, head, Option.map_some, Option.some.injEq] at ahead
    simp [Looks, ahead] at looks
  | decl => simp at clause

/-- At a flat seam both texts go on with what a step begins with. -/
theorem starts_behind {seam : Seam} (flat : Flat seam) (starts : ∀ token ∈ seam.back.head?, Starts token) :
    ∀ token ∈ seam.back'.head?, Starts token := by
  intro token' first
  have head := flat.head
  rw [Option.mem_def.mp first] at head
  obtain ⟨token, found, alike⟩ := Option.map_eq_some_iff.mp head.symm
  have starting := starts token found
  rwa [Starts, kind_of_spell alike, text_of_spell alike] at starting

theorem ends_of_starts (starts : ∀ token ∈ tokens.head?, Starts token) : Ends tokens := by
  intro token first
  obtain ⟨-, dot, comma, arrow, -, -, word⟩ := (starts token first).plain
  exact ⟨dot, comma, arrow, word⟩

/-- A clause behind which imports are put. -/
theorem regrows_lines (ran : outlineStep seen source left = .ok (.again later, next)) (clause : later.decls = seen.decls)
    (shape : left.rest = own ++ next.rest) {lines : List Token} (written : Lines names lines) (nonempty : names ≠ [])
    (proper : ∀ name ∈ names, Proper name) (starts : ∀ token ∈ next.rest.head?, Starts token) :
    Regrows change names source left next seen later (own.map spell ++ lines.map spell) := by
  intro other front tokens alike flush
  obtain ⟨own', lines', rfl, alike, alike'⟩ := List.map_eq_append_iff.mp alike
  obtain ⟨longer, long⟩ := clause_long ran clause shape
  have written := lines_alike written alike'
  have ends : Ends tokens := ends_of_starts (starts_behind flush.toFlat starts)
  have quiet : Quiet ⟨source, other, next.rest, lines' ++ tokens⟩ := by
    cases written with
    | nil => exact absurd rfl nonempty
    | cons first => exact .inr ⟨_, congrArg some first, rfl⟩
  rw [List.append_assoc]
  refine ⟨?_, fun seen' stop kept => ?_⟩
  · rw [shape]
    exact @flush_within ⟨source, other, next.rest, lines' ++ tokens⟩ _ _ alike longer long
  have along : (Seam.mk source other next.rest (lines' ++ tokens)).Along left ⟨own' ++ (lines' ++ tokens), stop⟩ := ⟨own, own', shape, rfl, alike⟩
  obtain ⟨middle, ate, stepped⟩ := outlineStep_stepped ran
  cases stepped with
  | package undeclared ahead read =>
    have undeclared' : seen'.decls = [] := Grown.empty (undeclared ▸ kept.decls)
    obtain ⟨clause', ⟨tokens', stop'⟩, again, along⟩ := package_again quiet along ate ahead read (Nat.le_refl _) undeclared'
    obtain rfl : tokens' = lines' ++ tokens := along.ends (Nat.le_refl _)
    obtain ⟨clauses, stop'', onward, brought⟩ := @outline_lines other _ _ tokens written ends { seen' with package := some clause' } stop'
    have none : ([] : List Import).map importGist = [].map importGist := rfl
    refine ⟨{ seen' with package := some clause', imports := seen'.imports ++ clauses }, stop'', ⟨kept.decls, ?_⟩, (again_at again).trans onward⟩
    simpa using (kept.addImports none (brought_targets brought proper)).imports
  | imports noPackage ahead read =>
    obtain ⟨clauses', ⟨tokens', stop'⟩, again, same, along⟩ := @imports_again _ _ _ _ seen' _ _ quiet along ate ahead read (Nat.le_refl _)
    obtain rfl : tokens' = lines' ++ tokens := along.ends (Nat.le_refl _)
    obtain ⟨clauses, stop'', onward, brought⟩ := @outline_lines other _ _ tokens written ends { seen' with imports := seen'.imports ++ clauses' } stop'
    exact ⟨_, stop'', kept.addImports same (brought_targets brought proper), (again_at again).trans onward⟩
  | decl => simp at clause

/-! ### Declarations that something is done with -/

theorem head_front {behind : List Token} (alike : front.map spell = own.map spell) (nonempty : own ≠ []) :
    (front ++ rest).head?.map spell = (own ++ behind).head?.map spell := by
  cases own with
  | nil => exact absurd rfl nonempty
  | cons token own =>
    obtain ⟨token', front, rfl, same, -⟩ := List.map_eq_cons_iff.mp alike
    exact congrArg some same

variable {lead : List Token} {holder : Holder} {interface : Interface} {members : List String}

/-- An object without a body gets one. -/
theorem regrows_opened (led : Led Parser.holder .holder .objectKw source left next holder lead core) (bodiless : holder.body = none)
    (entries : Entries members words) (opens : change (.holder holder) = ⟨false, some members⟩) (shape : core.rest = own ++ next.rest) :
    Regrows change names source left next seen { seen with decls := seen.decls ++ [.holder holder] }
      (lead.map spell ++ (own.map spell ++ openingWord :: (words ++ [closingWord]))) := by
  intro other front tokens written flush
  obtain ⟨lead', behind, rfl, alike, spelled⟩ := List.map_eq_append_iff.mp written
  obtain ⟨own', _, rfl, alike', spelled⟩ := List.map_eq_append_iff.mp spelled
  obtain ⟨opening, _, rfl, opened, spelled⟩ := List.map_eq_cons_iff.mp spelled
  obtain ⟨added, _, rfl, same, spelled⟩ := List.map_eq_append_iff.mp spelled
  obtain ⟨closing, rfl, closed⟩ := List.map_eq_singleton_iff.mp spelled
  have nonempty : own ≠ [] := by
    rintro rfl
    have shorter : next.rest.length < core.rest.length := holder_takes.ensures _ _ _ _ led.read
    simp [shape] at shorter
  have head : (own' ++ (opening :: (added ++ closing :: tokens))).head?.map spell = core.rest.head?.map spell := by
    rw [shape]
    exact head_front alike' nonempty
  have whole : lead' ++ (own' ++ opening :: (added ++ [closing])) ++ tokens = lead' ++ (own' ++ opening :: (added ++ closing :: tokens)) := by simp
  rw [whole]
  refine ⟨led.flush other alike head, fun seen' stop kept => ?_⟩
  obtain ⟨begun, again⟩ := led.again other lead' _ alike head seen' stop
  have along : (Seam.mk source other next.rest (opening :: (added ++ closing :: tokens))).Along core
      ⟨own' ++ opening :: (added ++ closing :: tokens), begun⟩ := ⟨own, own', shape, rfl, alike'⟩
  obtain ⟨grown, stop', read, gist⟩ := holder_opened entries same opened closed rfl along led.read rfl bodiless
  have becomes : Becomes (change (.holder holder)) (.holder holder) [.holder grown] := by
    rw [opens]
    exact .holder gist
  exact ⟨_, stop', kept.addDecl becomes, again_at (again _ _ read)⟩

/-- An object gets more members in its body. -/
theorem regrows_extended (led : Led Parser.holder .holder .objectKw source left next holder lead core) {body : Body}
    (bodied : holder.body = some body) (entries : Entries members words) (grows : change (.holder holder) = ⟨false, some members⟩)
    {ending : Token} (ends : ending.kind = .closer .brace) (shape : core.rest = own ++ ending :: next.rest) :
    Regrows change names source left next seen { seen with decls := seen.decls ++ [.holder holder] }
      (lead.map spell ++ (own.map spell ++ (words ++ [closingWord]))) := by
  intro other front tokens written flush
  obtain ⟨lead', behind, rfl, alike, spelled⟩ := List.map_eq_append_iff.mp written
  obtain ⟨own', _, rfl, alike', spelled⟩ := List.map_eq_append_iff.mp spelled
  obtain ⟨added, _, rfl, same, spelled⟩ := List.map_eq_append_iff.mp spelled
  obtain ⟨closing, rfl, closed⟩ := List.map_eq_singleton_iff.mp spelled
  have nonempty : own ≠ [] := by
    rintro rfl
    have first := led.first
    simp [shape, ends] at first
  have head : (own' ++ (added ++ closing :: tokens)).head?.map spell = core.rest.head?.map spell := by
    rw [shape]
    exact head_front alike' nonempty
  have whole : lead' ++ (own' ++ (added ++ [closing])) ++ tokens = lead' ++ (own' ++ (added ++ closing :: tokens)) := by simp
  rw [whole]
  refine ⟨led.flush other alike head, fun seen' stop kept => ?_⟩
  obtain ⟨begun, again⟩ := led.again other lead' _ alike head seen' stop
  have along : (Seam.mk source other (ending :: next.rest) (added ++ closing :: tokens)).Along core
      ⟨own' ++ (added ++ closing :: tokens), begun⟩ := ⟨own, own', shape, rfl, alike'⟩
  obtain ⟨grown, stop', read, gist⟩ := holder_extended entries same ends closed rfl along led.read rfl bodied
  have becomes : Becomes (change (.holder holder)) (.holder holder) [.holder grown] := by
    rw [grows]
    exact .holder gist
  exact ⟨_, stop', kept.addDecl becomes, again_at (again _ _ read)⟩

/-- A trait beside which an object is created. -/
theorem regrows_beside (led : Led Parser.interface .interface .traitKw source left next interface lead core)
    (entries : Entries members words) {name : Word} (named : IsName name) (called : nameText name = interface.name)
    (beside : change (.interface interface) = ⟨false, some members⟩) (shape : core.rest = own ++ next.rest) :
    Regrows change names source left next seen { seen with decls := seen.decls ++ [.interface interface] }
      (lead.map spell ++ (own.map spell ++ objectWords name words)) := by
  intro other front tokens written flush
  obtain ⟨lead', behind, rfl, alike, spelled⟩ := List.map_eq_append_iff.mp written
  obtain ⟨own', object, rfl, alike', spelled⟩ := List.map_eq_append_iff.mp spelled
  have nonempty : own ≠ [] := by
    rintro rfl
    have shorter : next.rest.length < core.rest.length := interface_takes.ensures _ _ _ _ led.read
    simp [shape] at shorter
  have head : (own' ++ (object ++ tokens)).head?.map spell = core.rest.head?.map spell := by
    rw [shape]
    exact head_front alike' nonempty
  have begins : (object ++ tokens).head?.map Token.kind = some (.keyword .objectKw) := by
    obtain ⟨first, _, rfl, same, -⟩ := List.map_eq_cons_iff.mp spelled
    exact congrArg some (kind_of_word same)
  rw [show lead' ++ (own' ++ object) ++ tokens = lead' ++ (own' ++ (object ++ tokens)) by simp]
  refine ⟨led.flush other alike head, fun seen' stop kept => ?_⟩
  obtain ⟨begun, again⟩ := led.again other lead' _ alike head seen' stop
  have along : (Seam.mk source other next.rest (object ++ tokens)).Along core ⟨own' ++ (object ++ tokens), begun⟩ :=
    ⟨own, own', shape, rfl, alike'⟩
  obtain ⟨new, ⟨tokens', stop'⟩, read, same, along⟩ := interface_mirrors _ (.inr ⟨_, begins, rfl⟩) _ _ along _ _ led.read (Nat.le_refl _)
  obtain rfl : tokens' = object ++ tokens := along.ends (Nat.le_refl _)
  obtain ⟨created, stop'', fresh, gist⟩ := holder_fresh entries named spelled other tokens stop'
  have object' := @outlineStep_object other _ _ { seen' with decls := seen'.decls ++ [.interface new] } created begins fresh
  have becomes : Becomes (change (.interface interface)) (.interface interface) [.interface new, .holder created] := by
    rw [beside]
    exact .interface same ⟨created, rfl, by rw [gist, called]⟩
  refine ⟨_, stop'', kept.addDecl becomes, ?_⟩
  rw [again_at (again _ _ read), again_at object', List.append_assoc]
  rfl

/-- The alias of a trait is read where the trait was. -/
theorem alias_again (led : Led Parser.interface .interface .traitKw source left next interface lead core)
    (trait : core.rest.head?.map spell = some traitHead) {name argument : Word} (word : name.1 = .ident)
    (plain : ∀ bracket, argument.1 ≠ .opener bracket ∧ argument.1 ≠ .closer bracket) (spelled : tokens.map spell = aliasWords name argument)
    (other : List Char) {lead' : List Token} (alike : lead'.map spell = lead.map spell) (starts : ∀ token ∈ rest.head?, Starts token) :
    Flush ⟨source, other, left.rest, lead' ++ (tokens ++ rest)⟩ ∧ ∀ seen' stop, ∃ new stop',
      iterateFrom outlineStep seen' other ⟨lead' ++ (tokens ++ rest), stop⟩ =
          iterateFrom outlineStep { seen' with decls := seen'.decls ++ [.interface new] } other ⟨rest, stop'⟩ ∧
        new.name = nameText name ∧ new.typeParams = [] := by
  have head : (tokens ++ rest).head?.map spell = core.rest.head?.map spell := by
    obtain ⟨first, _, rfl, same, -⟩ := List.map_eq_cons_iff.mp spelled
    rw [trait, ← same]
    rfl
  refine ⟨led.flush other alike head, fun seen' stop => ?_⟩
  obtain ⟨begun, again⟩ := led.again other lead' _ alike head seen' stop
  obtain ⟨new, stop', read, called, proper⟩ := interface_alias word plain spelled other rest starts begun
  exact ⟨new, stop', again_at (again _ _ read), called, proper⟩

/-- A trait that makes room for its alias. -/
theorem regrows_alias (led : Led Parser.interface .interface .traitKw source left next interface lead core)
    (trait : core.rest.head?.map spell = some traitHead) {name argument : Word} (word : name.1 = .ident)
    (plain : ∀ bracket, argument.1 ≠ .opener bracket ∧ argument.1 ≠ .closer bracket) (called : nameText name = interface.name)
    (aliases : change (.interface interface) = ⟨true, none⟩) (starts : ∀ token ∈ next.rest.head?, Starts token) :
    Regrows change names source left next seen { seen with decls := seen.decls ++ [.interface interface] }
      (lead.map spell ++ aliasWords name argument) := by
  intro other front tokens written flush
  obtain ⟨lead', stands, rfl, alike, spelled⟩ := List.map_eq_append_iff.mp written
  obtain ⟨flush', again⟩ := alias_again led trait word plain spelled other alike (starts_behind flush.toFlat starts)
  rw [List.append_assoc]
  refine ⟨flush', fun seen' stop kept => ?_⟩
  obtain ⟨new, stop', onward, named, proper⟩ := again seen' stop
  have becomes : Becomes (change (.interface interface)) (.interface interface) [.interface new] := by
    rw [aliases]
    exact .interface ⟨named.trans called, proper⟩ rfl
  exact ⟨_, stop', kept.addDecl becomes, onward⟩

/-- A trait that makes room for its alias and an object. -/
theorem regrows_replaced (led : Led Parser.interface .interface .traitKw source left next interface lead core)
    (trait : core.rest.head?.map spell = some traitHead) (entries : Entries members words) {name argument : Word} (word : name.1 = .ident)
    (plain : ∀ bracket, argument.1 ≠ .opener bracket ∧ argument.1 ≠ .closer bracket) (called : nameText name = interface.name)
    (replaces : change (.interface interface) = ⟨true, some members⟩) :
    Regrows change names source left next seen { seen with decls := seen.decls ++ [.interface interface] }
      (lead.map spell ++ (aliasWords name argument ++ objectWords name words)) := by
  intro other front tokens written flush
  obtain ⟨lead', _, rfl, alike, spelled⟩ := List.map_eq_append_iff.mp written
  obtain ⟨stands, object, rfl, spelled, made⟩ := List.map_eq_append_iff.mp spelled
  have begins : (object ++ tokens).head?.map Token.kind = some (.keyword .objectKw) := by
    obtain ⟨first, _, rfl, same, -⟩ := List.map_eq_cons_iff.mp made
    exact congrArg some (kind_of_word same)
  have starts : ∀ token ∈ (object ++ tokens).head?, Starts token := by
    intro token first
    rw [Option.mem_def.mp first] at begins
    exact definition_starts (Option.some.inj begins) rfl
  obtain ⟨flush', again⟩ := alias_again led trait word plain spelled other alike starts
  rw [show lead' ++ (stands ++ object) ++ tokens = lead' ++ (stands ++ (object ++ tokens)) by simp]
  refine ⟨flush', fun seen' stop kept => ?_⟩
  obtain ⟨new, stop', onward, named, proper⟩ := again seen' stop
  obtain ⟨created, stop'', fresh, gist⟩ := holder_fresh entries (.inl word) made other tokens stop'
  have object' := @outlineStep_object other _ _ { seen' with decls := seen'.decls ++ [.interface new] } created begins fresh
  have becomes : Becomes (change (.interface interface)) (.interface interface) [.interface new, .holder created] := by
    rw [replaces]
    exact .interface ⟨named.trans called, proper⟩ ⟨created, rfl, by rw [gist, called]⟩
  refine ⟨_, stop'', kept.addDecl becomes, ?_⟩
  rw [onward, again_at object', List.append_assoc]
  rfl

end KindLift.GrownOutlines
