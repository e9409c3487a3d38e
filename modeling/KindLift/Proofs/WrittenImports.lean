import KindLift.Proofs.WrittenMatching

/-! Units that are written token by token, with one import to a line and an empty line
between declarations, and the imports that they lack. -/
namespace KindLift.WrittenImports
open Token Text TextBoundary TokenPlacement EditApplication WrittenTokens WrittenReading WrittenGroups WrittenTraits
open WrittenObjects WrittenUnits WrittenTemplates WrittenInstances WrittenNesting WrittenServices WrittenPlans WrittenMatching

variable {gap : List Char} {offset : Nat} {package : Option Path} {imports : List Line} {decls : List Declaration}

/-! ### The layout of a unit -/

/-- The blanks in front of the imports: an empty line behind a package clause. -/
def importLead (package : Option Path) : List Char := if package.isSome then blankLine else []

/-- The blanks in front of the declarations: an empty line behind what comes before. -/
def declLead (package : Option Path) (imports : List Line) : List Char :=
  if package.isNone && imports.isEmpty then [] else blankLine

/-- The imports of a unit, each on a line of its own. -/
def linesBehind (package : Option Path) (imports : List Line) : List (List Char × Line) :=
  spread (importLead package) ['\n'] imports

/-- A unit with an empty line behind each of its parts. -/
def assemble (package : Option Path) (imports : List Line) (decls : List Declaration) : Written :=
  ⟨package, linesBehind package imports, spread (declLead package imports) blankLine decls⟩

/-- The package clause and the imports. -/
def headText (package : Option Path) (imports : List Line) : List Char :=
  written (packagePieces package ++ importPieces (linesBehind package imports))

theorem written_assemble (package : Option Path) (imports : List Line) (decls : List Declaration) :
    written (assemble package imports decls).pieces =
      headText package imports ++ written (declPieces (spread (declLead package imports) blankLine decls)) := by
  simp [assemble, Written.pieces, headText]

theorem spread_leads {before : Option Lexeme} {first others : List Char} (items : List α) (blank : IsBlank first)
    (apart : first = [] → before = none) (blank' : IsBlank others) (nonempty : others ≠ []) :
    Leads before (spread first others items) := by
  cases items with
  | nil => trivial
  | cons item items =>
    refine ⟨blank, apart, fun other member => ?_⟩
    obtain ⟨item, -, rfl⟩ := List.mem_map.mp member
    exact ⟨blank', nonempty⟩

theorem laid_assemble (insides : ∀ object, .object object ∈ decls → ∀ inside ∈ object.inside, inside.IsLaid) :
    (assemble package imports decls).IsLaid where
  imports := by
    refine spread_leads imports ?_ ?_ (by simp) (by simp)
    · cases package <;> simp [importLead, blankLine]
    · cases package with
      | none => exact fun _ => rfl
      | some path => exact fun empty => absurd empty (by simp [importLead, blankLine])
  decls := by
    refine spread_leads decls ?_ ?_ (by simp [blankLine]) (by simp [blankLine])
    · unfold declLead
      split <;> simp [blankLine]
    · intro empty
      unfold declLead at empty
      split at empty
      · rename_i bare
        rw [Bool.and_eq_true, Option.isNone_iff_eq_none, List.isEmpty_iff] at bare
        obtain ⟨rfl, rfl⟩ := bare
        rfl
      · exact absurd empty (by simp [blankLine])
  insides := by
    intro decl member object same
    have listed : decl.2 ∈ (spread (declLead package imports) blankLine decls).map Prod.snd :=
      List.mem_map.mpr ⟨decl, member, rfl⟩
    rw [spread_snd, same] at listed
    exact insides object listed

/-- Bodies of objects are laid out. -/
theorem laid_insideOf (entries : List Entry) : (Specimen.insideOf entries).IsLaid where
  entries := by
    intro entry member
    cases entries with
    | nil => cases member
    | cons first entries =>
      rcases List.mem_cons.mp member with rfl | later
      · simp [step]
      · obtain ⟨other, -, rfl⟩ := List.mem_map.mp later
        simp [emptyLine, step]
  close := by
    unfold Specimen.insideOf
    split <;> simp

/-! ### Missing imports -/

def cats : Name := ⟨"cats", by decide⟩

def data : Name := ⟨"data", by decide⟩

def tagless : Name := ⟨"tagless", by decide⟩

/-- The imports of the names that instances use. -/
def libraries : List (DottedName × Line) :=
  [(⟨["cats", "data", "ReaderT"]⟩, ⟨⟨cats, [data, readerT]⟩, .name⟩),
    (⟨["cats", "tagless", "FunctorK"]⟩, ⟨⟨cats, [tagless, functorK]⟩, .name⟩),
    (⟨["cats", "~>"]⟩, ⟨⟨cats, []⟩, .symbol arrowSign (by decide)⟩)]

/-- The line imports the name, wherever it stands. -/
def covers (name : DottedName) (line : Line) : Bool := (line.clause [] 0).imports name

theorem libraries_cover : ∀ library ∈ libraries, covers library.1 library.2 = true := by decide +kernel

/-- The libraries that no line imports. -/
def lacking (imports : List Line) : List (DottedName × Line) :=
  libraries.filter fun library => !imports.any (covers library.1)

theorem importsAt_any (lines : List (List Char × Line)) (offset : Nat) (name : DottedName) :
    (importsAt offset lines).any (fun clause => clause.imports name) = (lines.map Prod.snd).any (covers name) := by
  have each := @map_readAll _ _ _ (fun line : List Char × Line => line.2.pieces line.1)
    (fun offset line => line.2.clause line.1 offset) lines (fun clause => clause.imports name)
    (fun line => covers name line.2) (fun _ _ _ => rfl) offset
  have both := congrArg (List.any · id) each
  simpa [importsAt, List.any_map, Function.comp_def] using both

theorem missingImports_lines (lines : List (List Char × Line)) (offset : Nat) :
    AddInstances.missingImports .default (importsAt offset lines) = (lacking (lines.map Prod.snd)).map Prod.fst := by
  have all : Conventions.default.imports.all = libraries.map Prod.fst := rfl
  rw [AddInstances.missingImports, all, List.filter_map, lacking]
  simp only [importsAt_any, Function.comp_def]

/-- With the lacking libraries nothing is missing. -/
theorem lacking_covered (imports : List Line) : lacking (imports ++ (lacking imports).map Prod.snd) = [] := by
  rw [lacking, List.filter_eq_nil_iff]
  intro library listed uncovered
  rw [List.any_append, Bool.not_eq_true', Bool.or_eq_false_iff] at uncovered
  have member : library ∈ lacking imports := List.mem_filter.mpr ⟨listed, by rw [uncovered.1]; rfl⟩
  have added := List.any_eq_false.mp uncovered.2 library.2 (List.mem_map.mpr ⟨library, member, rfl⟩)
  exact added (libraries_cover library listed)

/-- The lines that import the given names. -/
def importLines (names : List DottedName) : String := String.intercalate "\n" (names.map fun name => "import " ++ name.render)

theorem written_line (line : Line) (gap : List Char) : written (line.pieces gap) = gap ++ written (line.pieces []) := by
  simp [Line.pieces, Piece.chars]

theorem library_text : ∀ library ∈ libraries, ("import " ++ library.1.render).toList = written (library.2.pieces []) := by
  decide +kernel

theorem importLines_text {added : List (DottedName × Line)} (known : ∀ library ∈ added, library ∈ libraries)
    (nonempty : added ≠ []) (first : List Char) :
    first ++ (importLines (added.map Prod.fst)).toList = written (importPieces (spread first ['\n'] (added.map Prod.snd))) := by
  have texts : ((added.map Prod.fst).map fun name => "import " ++ name.render).map String.toList =
      (added.map Prod.snd).map fun line => written (line.pieces []) := by
    simp only [List.map_map]
    exact List.map_congr_left fun library listed => library_text library (known library listed)
  have spaced := @written_spread _ (fun gap (line : Line) => line.pieces gap) (fun gap line => written_line line gap)
    (added.map Prod.snd) (by simpa using nonempty) first ['\n']
  rw [importPieces, spaced, importLines, String.toList_intercalate, texts]
  rfl

theorem importPieces_cons (line : List Char × Line) (lines : List (List Char × Line)) :
    importPieces (line :: lines) = line.2.pieces line.1 ++ importPieces lines := rfl

/-- The last import ends last. -/
theorem importsAt_max? {lines : List (List Char × Line)} (nonempty : lines ≠ []) (offset : Nat) :
    ((importsAt offset lines).map fun clause => clause.span.stop).max? = some (offset + width (importPieces lines)) := by
  have upper : ∀ lines : List (List Char × Line), ∀ offset, ∀ stop ∈ (importsAt offset lines).map fun clause => clause.span.stop,
      stop ≤ offset + width (importPieces lines) := by
    intro lines
    induction lines with
    | nil => simp [importsAt, readAll]
    | cons line lines ih =>
      intro offset stop member
      rw [importPieces_cons, width_append, ← Nat.add_assoc]
      rcases List.mem_cons.mp member with rfl | later
      · exact Nat.le_add_right _ _
      · exact ih _ stop later
  have last : ∀ lines : List (List Char × Line), lines ≠ [] → ∀ offset,
      offset + width (importPieces lines) ∈ (importsAt offset lines).map fun clause => clause.span.stop := by
    intro lines
    induction lines with
    | nil => exact fun nonempty => absurd rfl nonempty
    | cons line lines ih =>
      intro _ offset
      rw [importPieces_cons, width_append, ← Nat.add_assoc]
      cases lines with
      | nil => exact List.mem_cons_self ..
      | cons next lines => exact List.mem_cons_of_mem _ (ih (by simp) _)
  exact List.max?_eq_some_iff.mpr ⟨last lines nonempty offset, upper lines offset⟩

theorem headText_append {imports : List Line} (nonempty : imports ≠ []) (added : List Line) :
    headText package (imports ++ added) =
      headText package imports ++ written (importPieces (spread ['\n'] ['\n'] added)) := by
  rw [headText, linesBehind, spread_append _ _ nonempty, importPieces, List.flatMap_append, ← importPieces, ← importPieces]
  simp [headText, linesBehind]

/-- The edit for the imports leaves the head of the unit with all of them. Where there
was nothing in front of the declarations, there is an empty line then. -/
theorem importEdit?_spliced {outline : Outline} (clause : outline.package = packageRead package)
    (listed : outline.imports = importsAt (width (packagePieces package)) (linesBehind package imports)) :
    ∃ extra, declLead package (imports ++ (lacking imports).map Prod.snd) = extra ++ declLead package imports ∧
      Spliced 0 (headText package imports) (AddInstances.importEdit? .default outline).toList
        (headText package (imports ++ (lacking imports).map Prod.snd) ++ extra) := by
  have missing : AddInstances.missingImports .default outline.imports = (lacking imports).map Prod.fst := by
    rw [listed, missingImports_lines, linesBehind, spread_snd]
  by_cases covered : lacking imports = []
  · refine ⟨[], by rw [covered]; simp, ?_⟩
    have absent : AddInstances.importEdit? .default outline = none := by
      rw [AddInstances.importEdit?, missing, covered]
      rfl
    rw [absent, covered, List.map_nil, List.append_nil, List.append_nil]
    exact .done
  · have known : ∀ library ∈ lacking imports, library ∈ libraries := fun library member => (List.mem_filter.mp member).1
    have text := importLines_text known covered
    obtain ⟨first, others, shape⟩ := List.exists_cons_of_ne_nil covered
    have wide : width (packagePieces package) + width (importPieces (linesBehind package imports)) =
        byteLength (headText package imports) := by
      rw [headText, ← width_append]
      rfl
    by_cases bare : imports = []
    · subst bare
      cases package with
      | none =>
        have edit : AddInstances.importEdit? .default outline =
            some (.insertion 0 (importLines ((lacking []).map Prod.fst) ++ "\n\n")) := by
          rw [AddInstances.importEdit?, missing, clause, listed, shape]
          rfl
        have spliced := @spliced_insertion [] [] 0 (importLines ((lacking []).map Prod.fst) ++ "\n\n") 0 rfl
        have lines := text []
        refine ⟨blankLine, by simp [declLead, covered, blankLine], ?_⟩
        have head : headText none ((lacking []).map Prod.snd) =
            written (importPieces (spread [] ['\n'] ((lacking []).map Prod.snd))) := rfl
        rw [edit, List.nil_append, head, ← lines]
        simpa [headText, packagePieces, linesBehind, spread, importPieces, blankLine] using spliced
      | some path =>
        have edit : AddInstances.importEdit? .default outline =
            some (.insertion (byteLength (headText (some path) [])) ("\n\n" ++ importLines ((lacking []).map Prod.fst))) := by
          rw [AddInstances.importEdit?, missing, clause, listed, shape]
          simp [linesBehind, spread, importsAt, readAll, packageRead, reach, headText, importPieces, importLines, width]
        have spliced := @spliced_insertion (headText (some path) []) [] 0
          ("\n\n" ++ importLines ((lacking []).map Prod.fst)) _ (Nat.zero_add _)
        have lines := text blankLine
        refine ⟨[], by simp [declLead], ?_⟩
        have head : headText (some path) ((lacking []).map Prod.snd) = headText (some path) [] ++
            written (importPieces (spread blankLine ['\n'] ((lacking []).map Prod.snd))) := by
          simp [headText, linesBehind, importLead, spread, importPieces]
        rw [edit, List.nil_append, head, ← lines]
        simpa [blankLine] using spliced
    · have edit : AddInstances.importEdit? .default outline = some (.insertion (byteLength (headText package imports))
          ("\n" ++ importLines ((lacking imports).map Prod.fst))) := by
        have filled : linesBehind package imports ≠ [] := by
          intro empty
          have plain := spread_snd (importLead package) ['\n'] imports
          rw [← linesBehind, empty] at plain
          exact bare plain.symm
        rw [AddInstances.importEdit?, missing, listed, importsAt_max? filled, wide, shape]
        rfl
      have spliced := @spliced_insertion (headText package imports) [] 0 ("\n" ++ importLines ((lacking imports).map Prod.fst))
        _ (Nat.zero_add _)
      have feed := text ['\n']
      refine ⟨[], by simp [declLead, bare], ?_⟩
      rw [edit, headText_append bare, ← feed]
      simpa using spliced

end KindLift.WrittenImports
