import KindLift.Proofs.OutlineSpans
import KindLift.Proofs.ParserSimulation

/-! The clauses a text begins with, read without the declarations behind them. Reading
them takes the steps of reading the whole text up to the first declaration, where it
stops: whatever a text that parses declares, its preamble is the package of the whole
and the imports in front of the first declaration. -/
namespace KindLift.Preambles
open KindLift.Parser TextBoundary TokenPlacement ParserLogic CursorAdvance CursorPlacement ParserProgress
open ParserSimulation DeclPlacement OutlineSpans

variable {source : List Char} {cursor middle next left right : Cursor} {seen outline : Outline} {front : Preamble}

/-! ### Steps -/

/-- Reads one clause, or nothing in front of anything else. -/
def preambleStep (seen : Preamble) : Parser (Step Preamble Preamble) := do
  eatAll .semi
  if ← atPackageClause then
    return .again { seen with package := some (← packageClause seen.package) }
  else if ← isAt (.keyword .importKw) then
    return .again { seen with imports := seen.imports ++ (← importClauses) }
  else return .done seen

theorem preamble_eq : preamble = iterate preambleStep ⟨none, []⟩ := rfl

/-- A package clause comes next. -/
def AtPackage (cursor : Cursor) : Prop :=
  cursor.rest.head?.map Token.kind = some (.keyword .packageKw) ∧ cursor.rest[1]?.map Token.kind ≠ some (.keyword .objectKw)

instance : Decidable (AtPackage cursor) := inferInstanceAs (Decidable (_ ∧ _))

/-- An import comes next. -/
def AtImport (cursor : Cursor) : Prop := cursor.rest.head?.map Token.kind = some (.keyword .importKw)

instance : Decidable (AtImport cursor) := inferInstanceAs (Decidable (_ = _))

theorem atPackageClause_run : atPackageClause source cursor = .ok (decide (AtPackage cursor), cursor) := by
  have same : decide (AtPackage cursor) = (decide (cursor.rest.head?.map Token.kind = some (.keyword .packageKw)) &&
      cursor.rest[1]?.map Token.kind != some (.keyword .objectKw)) := by
    rw [Bool.eq_iff_iff, decide_eq_true_iff, Bool.and_eq_true, decide_eq_true_iff, bne_iff_ne]
    rfl
  rw [same]
  rfl

theorem isImport_run : isAt (.keyword .importKw) source cursor = .ok (decide (AtImport cursor), cursor) := rfl

/-- What a step of an outline has read, from behind the semicolons on. -/
inductive Stepped (source : List Char) (seen : Outline) (cursor : Cursor) : Step Outline Outline → Cursor → Prop where
  | finished (last : cursor.rest = []) : Stepped source seen cursor (.done seen) cursor
  | package {clause : PackageClause} {next : Cursor} (undeclared : seen.decls = []) (ahead : AtPackage cursor)
      (ran : packageClause seen.package source cursor = .ok (clause, next)) :
      Stepped source seen cursor (.again { seen with package := some clause }) next
  | imports {clauses : List Import} {next : Cursor} (other : ¬ AtPackage cursor) (ahead : AtImport cursor)
      (ran : importClauses source cursor = .ok (clauses, next)) :
      Stepped source seen cursor (.again { seen with imports := seen.imports ++ clauses }) next
  | decl {decl : Decl} {next : Cursor} (noPackage : ¬ AtPackage cursor) (noImport : ¬ AtImport cursor)
      (ran : topLevel source cursor = .ok (decl, next)) :
      Stepped source seen cursor (.again { seen with decls := seen.decls ++ [decl] }) next

theorem outlineStep_stepped {outcome : Step Outline Outline} (ran : outlineStep seen source cursor = .ok (outcome, next)) :
    ∃ middle, eatAll .semi source cursor = .ok ((), middle) ∧ Stepped source seen middle outcome next := by
  obtain ⟨_, middle, ate, ran⟩ := bind_eq_ok ran
  refine ⟨middle, ate, ?_⟩
  rw [bind_ok (show peek? source middle = .ok (middle.rest.head?, middle) from rfl)] at ran
  split at ran
  · rename_i last
    cases ran
    exact .finished (List.head?_eq_none_iff.mp (Option.isNone_iff_eq_none.mp last))
  rw [bind_ok atPackageClause_run] at ran
  simp only [decide_eq_true_eq] at ran
  split at ran
  · rename_i ahead
    split at ran
    · rename_i undeclared
      obtain ⟨clause, _, run, ran⟩ := bind_eq_ok ran
      cases ran
      exact .package (List.isEmpty_iff.mp undeclared) ahead run
    · exact absurd ran fail_ne_ok
  rename_i noPackage
  rw [bind_ok isImport_run] at ran
  simp only [decide_eq_true_eq] at ran
  split at ran
  · rename_i ahead
    obtain ⟨clauses, _, run, ran⟩ := bind_eq_ok ran
    cases ran
    exact .imports noPackage ahead run
  · rename_i noImport
    obtain ⟨decl, _, run, ran⟩ := bind_eq_ok ran
    cases ran
    exact .decl noPackage noImport run

theorem preambleStep_package {seen : Preamble} {clause : PackageClause} (ate : eatAll .semi source cursor = .ok ((), middle))
    (ahead : AtPackage middle) (ran : packageClause seen.package source middle = .ok (clause, next)) :
    preambleStep seen source cursor = .ok (.again { seen with package := some clause }, next) := by
  rw [preambleStep, bind_ok ate, bind_ok atPackageClause_run, if_pos (decide_eq_true ahead), bind_ok ran]
  rfl

theorem preambleStep_imports {seen : Preamble} {clauses : List Import} (ate : eatAll .semi source cursor = .ok ((), middle))
    (other : ¬ AtPackage middle) (ahead : AtImport middle) (ran : importClauses source middle = .ok (clauses, next)) :
    preambleStep seen source cursor = .ok (.again { seen with imports := seen.imports ++ clauses }, next) := by
  rw [preambleStep, bind_ok ate, bind_ok atPackageClause_run, if_neg (by simpa using other), bind_ok isImport_run,
    if_pos (decide_eq_true ahead), bind_ok ran]
  rfl

theorem preambleStep_stops {seen : Preamble} (ate : eatAll .semi source cursor = .ok ((), middle))
    (noPackage : ¬ AtPackage middle) (noImport : ¬ AtImport middle) :
    preambleStep seen source cursor = .ok (.done seen, middle) := by
  rw [preambleStep, bind_ok ate, bind_ok atPackageClause_run, if_neg (by simpa using noPackage), bind_ok isImport_run,
    if_neg (by simpa using noImport)]
  rfl

/-! ### The imports in front -/

/-- The import ends in front of the first declaration, if there is one. -/
def Precedes (outline : Outline) (clause : Import) : Prop :=
  ∀ first ∈ outline.decls.head?, clause.span.stop ≤ first.span.start

instance : DecidablePred (Precedes outline) := fun clause =>
  inferInstanceAs (Decidable (∀ first ∈ outline.decls.head?, clause.span.stop ≤ first.span.start))

/-- The import begins behind a declaration. -/
def Trails (outline : Outline) (clause : Import) : Prop := ∃ decl ∈ outline.decls, decl.span.stop ≤ clause.span.start

/-- The preamble has the package of an outline and the imports in front of its first
declaration. All others begin behind that. -/
structure Fronts (outline : Outline) (front : Preamble) : Prop where
  package : front.package = outline.package
  precede : ∀ clause ∈ front.imports, Precedes outline clause
  trail : ∃ later, outline.imports = front.imports ++ later ∧
    ∀ clause ∈ later, ∃ first ∈ outline.decls.head?, first.span.stop ≤ clause.span.start

/-- Where reading the preamble is while the whole text is read: it goes along up to the
first declaration, and has ended behind it. -/
inductive Along (source : List Char) (seen : Outline) (left : Cursor) : Preamble → Cursor → Prop where
  | before (undeclared : seen.decls = []) : Along source seen left ⟨seen.package, seen.imports⟩ left
  | behind {state front : Preamble} {right stopped : Cursor} (declared : seen.decls ≠ [])
      (ended : iterateFrom preambleStep state source right = .ok (front, stopped)) (fronts : Fronts seen front) :
      Along source seen left state right

/-- Without a declaration all imports are in front. -/
theorem fronts_undeclared (undeclared : outline.decls = []) : Fronts outline ⟨outline.package, outline.imports⟩ := by
  refine ⟨rfl, fun clause _ first found => ?_, [], (List.append_nil _).symm, by simp⟩
  rw [undeclared] at found
  cases found

/-- The first declaration is behind all imports read before it. -/
theorem fronts_first {decl : Decl} (undeclared : seen.decls = []) (read : OutlineRead source cursor.lastStop seen)
    (passed : DeclPassed source cursor next decl) :
    Fronts { seen with decls := seen.decls ++ [decl] } ⟨seen.package, seen.imports⟩ := by
  refine ⟨rfl, fun clause listed first found => ?_, [], (List.append_nil _).symm, by simp⟩
  simp only [undeclared, List.nil_append, List.head?_cons, Option.mem_some_iff] at found
  subst found
  exact Nat.le_trans (read.imports.within _ (List.mem_map_of_mem listed)).le_high passed.within.low_le

/-- Another declaration is not the first one. -/
theorem Fronts.addDecl {decl : Decl} (fronts : Fronts seen front) (declared : seen.decls ≠ []) :
    Fronts { seen with decls := seen.decls ++ [decl] } front := by
  have first : (seen.decls ++ [decl]).head? = seen.decls.head? := List.head?_append_of_ne_nil _ declared
  obtain ⟨later, whole, behind⟩ := fronts.trail
  refine ⟨fronts.package, fun clause listed first found => ?_, later, whole, fun clause listed => ?_⟩
  · exact fronts.precede clause listed first (by rwa [← ‹_ = seen.decls.head?›])
  · rw [first]
    exact behind clause listed

/-- Imports that are read behind a declaration are behind the first one. -/
theorem Fronts.addImports {clauses : List Import} (fronts : Fronts seen front) (declared : seen.decls ≠ [])
    (read : OutlineRead source cursor.lastStop seen)
    (line : InLine source cursor.lastStop next.lastStop (clauses.map Import.span)) :
    Fronts { seen with imports := seen.imports ++ clauses } front := by
  obtain ⟨first, others, shape⟩ := List.exists_cons_of_ne_nil declared
  obtain ⟨later, whole, behind⟩ := fronts.trail
  refine ⟨fronts.package, fronts.precede, later ++ clauses, by rw [whole, List.append_assoc],
    List.forall_mem_append.mpr ⟨behind, fun clause listed => ⟨first, by rw [shape]; rfl, ?_⟩⟩⟩
  have ends := (read.decls.within first.span (List.mem_map_of_mem (by rw [shape]; exact List.mem_cons_self))).le_high
  exact Nat.le_trans ends (line.within clause.span (List.mem_map_of_mem listed)).low_le

/-! ### Whole texts -/

/-- Reading the preamble answers every step of reading the whole text. -/
theorem along_step {state : Preamble} {outcome : Step Outline Outline} (sound : Sound source left)
    (read : OutlineRead source left.lastStop seen) (along : Along source seen left state right)
    (ran : outlineStep seen source left = .ok (outcome, next)) :
    match outcome with
    | .again later => ∃ state' right', Along source later next state' right' ∧
        iterateFrom preambleStep state source right = iterateFrom preambleStep state' source right'
    | .done found => ∃ front stopped, iterateFrom preambleStep state source right = .ok (front, stopped) ∧ Fronts found front := by
  obtain ⟨middle, ate, stepped⟩ := outlineStep_stepped ran
  have moved := forward_of (eatAll_advances .semi) _ sound _ _ ate
  have read := read.widen moved.forward
  have shorter := (outlineStep_strides seen).ensures source left _ _ ran
  cases along with
  | before undeclared =>
    cases stepped with
    | finished last =>
      refine ⟨_, _, iterateFrom_done (preambleStep_stops ate ?_ ?_), fronts_undeclared undeclared⟩ <;>
        simp [AtPackage, AtImport, last]
    | package _ ahead run =>
      exact ⟨_, _, .before undeclared, iterateFrom_again (preambleStep_package ate ahead run) shorter⟩
    | imports other ahead run =>
      exact ⟨_, _, .before undeclared, iterateFrom_again (preambleStep_imports ate other ahead run) shorter⟩
    | decl noPackage noImport run =>
      exact ⟨_, _, .behind (by simp) (iterateFrom_done (preambleStep_stops ate noPackage noImport))
        (fronts_first undeclared read (topLevel_placed moved.sound _ _ run)), rfl⟩
  | behind declared ended fronts =>
    cases stepped with
    | finished => exact ⟨_, _, ended, fronts⟩
    | package undeclared => exact absurd undeclared declared
    | imports _ _ run =>
      exact ⟨_, _, .behind declared ended (fronts.addImports declared read (importClauses_placed moved.sound _ _ run).2), rfl⟩
    | decl => exact ⟨_, _, .behind (by simp) ended (fronts.addDecl declared), rfl⟩

/-- Reading the preamble ends in front of the first declaration, if reading the whole
text succeeds. -/
theorem preamble_agree (sound : Sound source cursor) :
    Agree source source cursor cursor Parser.outline preamble fun outline next front _ =>
      Fronts outline front ∧ OutlineRead source next.lastStop outline := by
  refine Agree.and_left ?_ (outline_read sound)
  rw [preamble_eq]
  refine agree_iterate (fun seen left state right => Along source seen left state right ∧ Sound source left ∧
    OutlineRead source left.lastStop seen) ⟨.before rfl, sound, .empty⟩ ?_
  rintro seen left state right ⟨along, sound, read⟩ outcome next ran
  have answered := along_step sound read along ran
  have kept := outlineStep_read sound read outcome next ran
  cases outcome with
  | again later =>
    obtain ⟨state', right', along', goes⟩ := answered
    exact ⟨state', right', ⟨along', kept⟩, goes⟩
  | done found =>
    obtain ⟨front, stopped, ended, fronts⟩ := answered
    exact ⟨front, stopped, ended, fronts⟩

theorem parsePreamble_eq_ok {tokens : List Token} (scanned : Token.scan source = .ok tokens)
    (ran : preamble source ⟨tokens, 0⟩ = .ok (front, next)) : Outline.parsePreamble source = .ok front := by
  rw [Outline.parsePreamble, scanned]
  show preamble.onTokens source tokens = .ok front
  rw [onTokens, ran]

/-- Imports in front of the first declaration are told from all others by where they end. -/
theorem Fronts.imports_eq (fronts : Fronts outline front) (read : OutlineRead source high outline) :
    front.imports = outline.imports.filter (Precedes outline) := by
  obtain ⟨later, whole, behind⟩ := fronts.trail
  have kept : front.imports.filter (Precedes outline) = front.imports :=
    List.filter_eq_self.mpr fun clause listed => decide_eq_true (fronts.precede clause listed)
  have dropped : later.filter (Precedes outline) = [] := by
    refine List.filter_eq_nil_iff.mpr fun clause listed precedes => ?_
    obtain ⟨first, found, above⟩ := behind clause listed
    have below := of_decide_eq_true precedes first found
    have ordered := (read.imports.within clause.span
      (List.mem_map_of_mem (whole ▸ List.mem_append_right _ listed))).ordered
    have width := declPlaced_width (read.parts first (List.mem_of_mem_head? found))
    omega
  rw [whole, List.filter_append, kept, dropped, List.append_nil]

/-- When a text parses, its preamble can be read alone. It has the package clause of the
whole, and its imports are those in front of the first declaration: the first imports of
the whole, and all of them when none follows a declaration. -/
theorem preamble_of_parse (source : List Char) (outline : Outline) (parsed : Outline.parse source = .ok outline) :
    ∃ front, Outline.parsePreamble source = .ok front ∧ front.package = outline.package ∧
      front.imports = outline.imports.filter (Precedes outline) ∧ front.imports <+: outline.imports ∧
      ((∀ clause ∈ outline.imports, ¬ Trails outline clause) → front.imports = outline.imports) := by
  obtain ⟨tokens, found, next, scanned, ran, rfl⟩ := parse_eq_ok parsed
  obtain ⟨front, stopped, run, fronts, read⟩ := preamble_agree ⟨cut_zero source, scan_inOrder scanned⟩ _ _ ran
  obtain ⟨later, whole, behind⟩ := fronts.trail
  refine ⟨front, parsePreamble_eq_ok scanned run, fronts.package, fronts.imports_eq read, ⟨later, whole.symm⟩, fun none => ?_⟩
  have empty : later = [] := by
    refine List.eq_nil_iff_forall_not_mem.mpr fun clause listed => ?_
    obtain ⟨first, isFirst, above⟩ := behind clause listed
    exact none clause (whole ▸ List.mem_append_right _ listed) ⟨first, List.mem_of_mem_head? isFirst, above⟩
  exact (whole.trans (by rw [empty, List.append_nil])).symm

/-- Two package clauses, an import with two clauses, and another one behind a package
object. -/
def splitText : List Char :=
  "package a;\npackage b.c\nimport x.y, z.\x7bp => q, _\x7d;;\nimport w._\npackage object d \x7b val i = 1 \x7d\nimport late.n\nclass C".toList

theorem splitText_preamble : ∃ outline front, Outline.parse splitText = .ok outline ∧
    outline.imports.map Import.span = [⟨23, 33⟩, ⟨35, 48⟩, ⟨51, 61⟩, ⟨93, 106⟩] ∧
    Outline.parsePreamble splitText = .ok front ∧ front.imports.map Import.span = [⟨23, 33⟩, ⟨35, 48⟩, ⟨51, 61⟩] ∧
    front.package = outline.package ∧ front.imports = outline.imports.filter (Precedes outline) ∧
    front.imports <+: outline.imports := by
  have whole : (Outline.parse splitText).toOption.map (fun outline => outline.imports.map Import.span) =
      some [⟨23, 33⟩, ⟨35, 48⟩, ⟨51, 61⟩, ⟨93, 106⟩] := by decide +kernel
  have alone : (Outline.parsePreamble splitText).toOption.map (fun front => front.imports.map Import.span) =
      some [⟨23, 33⟩, ⟨35, 48⟩, ⟨51, 61⟩] := by decide +kernel
  cases parsed : Outline.parse splitText with
  | error fault => simp [parsed, Except.toOption] at whole
  | ok outline =>
    obtain ⟨front, ran, package, imports, first, -⟩ := preamble_of_parse splitText outline parsed
    exact ⟨outline, front, rfl, by simpa [parsed, Except.toOption] using whole, ran,
      by simpa [ran, Except.toOption] using alone, package, imports, first⟩

end KindLift.Preambles
