import KindLift.Proofs.WrittenOutcomes

/-! Units that are generated from a list of services, each with its own number. A unit
is written down as a text, without regard to its tokens; migrated, it declares what its
services become. -/
namespace KindLift.GeneratedUnits
open Token Text TokenPlacement WrittenTokens WrittenReading WrittenGroups WrittenTraits WrittenObjects WrittenUnits WrittenTemplates
open WrittenInstances WrittenServices WrittenPlans WrittenImports WrittenMigration WrittenOutcomes

/-! ### Texts of units -/

/-- What stands beside a trait. -/
inductive Companion where
  | missing
  | braceless
  | empty
  | withMember
  | withReader
deriving DecidableEq

/-- A trait with so many methods, each of which has so many parameters. -/
structure Generated where
  shape : Option Shape
  companion : Companion
  methods : Nat
  inhabited : 0 < methods
  params : Nat

inductive ImportForm where
  | none
  | instanceOnly
  | wildcards
deriving DecidableEq

def serviceName (index : Nat) : String := "Svc" ++ toString index

def headerText (name : String) : Option Shape → String
  | some .legacy => "trait " ++ name ++ "[Future] extends ThriftService"
  | some .modern => "trait " ++ name ++ "[F[_]]"
  | none => "trait " ++ name

def resultHead : Option Shape → String
  | some .legacy => "Future"
  | some .modern => "F"
  | none => "Option"

def methodText (head : String) (params index : Nat) : String :=
  "  def m" ++ toString index ++ "(" ++
    String.intercalate ", " ((List.range params).map fun param => "p" ++ toString param ++ ": Int") ++
    "): " ++ head ++ "[String]\n"

def holeText (name : String) : String :=
  "  implicit def " ++ name ++ "ReaderT[F[_]]: " ++ name ++ "[ReaderT[F, " ++ name ++ "[F], *]] = ???"

def companionText (name : String) : Companion → String
  | .missing => ""
  | .braceless => "\nobject " ++ name ++ "\n"
  | .empty => "\nobject " ++ name ++ " \x7b\x7d\n"
  | .withMember => "\nobject " ++ name ++ " \x7b\n  val Id = 1\n\x7d\n"
  | .withReader => "\nobject " ++ name ++ " \x7b\n" ++ holeText name ++ "\n\x7d\n"

def serviceText (index : Nat) (service : Generated) : String :=
  headerText (serviceName index) service.shape ++ " \x7b\n" ++
    String.join ((List.range service.methods).map (methodText (resultHead service.shape) service.params)) ++ "\x7d\n" ++
    companionText (serviceName index) service.companion

def importText : ImportForm → String
  | .none => ""
  | .instanceOnly => "import cats.data.ReaderT\n\n"
  | .wildcards => "import cats._\nimport cats.data._\nimport cats.tagless._\n\n"

/-- The text of a unit, with or without a package clause. -/
def unitText (package : Bool) (imports : ImportForm) (services : List Generated) : String :=
  (if package then "package gen.api\n\n" else "") ++ importText imports ++
    String.intercalate "\n" (services.zipIdx.map fun entry => serviceText entry.2 entry.1)

/-! ### The same units token by token -/

theorem numbered_word {letters : String} (alphabetic : letters.toList.all Char.isAlpha = true) (nonempty : letters ≠ "")
    (number : Nat) : ∃ first rest, (letters ++ toString number).toList = first :: rest ∧ first.isAlpha = true ∧
      ∀ e ∈ rest, e.isAlphanum = true := by
  have digits : ∀ digit ∈ Nat.toDigits 10 number, digit.isAlphanum = true := fun digit member => by
    rw [Char.isAlphanum, Nat.isDigit_of_mem_toDigits (by decide) (by decide) member, Bool.or_true]
  cases shape : letters.toList with
  | nil => exact absurd (String.toList_eq_nil_iff.mp shape) nonempty
  | cons first more =>
    rw [shape, List.all_cons, Bool.and_eq_true] at alphabetic
    refine ⟨first, more ++ Nat.toDigits 10 number, by simp [shape], alphabetic.1,
      List.forall_mem_append.mpr ⟨fun letter member => ?_, digits⟩⟩
    rw [Char.isAlphanum, List.all_eq_true.mp alphabetic.2 letter member, Bool.true_or]

theorem numbered_mark (letters : String) (number : Nat) : ∃ e ∈ (letters ++ toString number).toList, e.isLower = false := by
  obtain ⟨digit, member⟩ := List.exists_mem_of_ne_nil _ (@Nat.toDigits_ne_nil number 10)
  refine ⟨digit, by simp [member], Bool.eq_false_iff.mpr fun lower => ?_⟩
  have code := digit_code (Nat.isDigit_of_mem_toDigits (by decide) (by decide) member)
  have code' := alpha_code (Bool.or_eq_true_iff.mpr (.inr lower) : digit.isAlpha = true)
  omega

/-- Letters and a number behind them. -/
def numbered (letters : String) (alphabetic : letters.toList.all Char.isAlpha = true) (nonempty : letters ≠ "")
    (number : Nat) : Name :=
  .marked (letters ++ toString number) (numbered_word alphabetic nonempty number) (numbered_mark letters number)

def serviceNamed (index : Nat) : Name := numbered "Svc" (by decide) (by decide) index

def methodNamed (index : Nat) : Name := numbered "m" (by decide) (by decide) index

def paramNamed (index : Nat) : Name := numbered "p" (by decide) (by decide) index

def int : Name := ⟨"Int", by decide⟩

def string : Name := ⟨"String", by decide⟩

def signature (params index : Nat) : Signature :=
  ⟨methodNamed index, (List.range params).map fun param => ⟨paramNamed param, int⟩, option, string⟩

def numberTail : List Piece := [⟨[' '], .equals⟩, ⟨[' '], .digit 1⟩]

theorem laid_numberTail (name : Name) : Laid (some (.name name)) numberTail := by simp [numberTail, Laid]

theorem val_defines : Parser.memberKind? .valKw = some .val := rfl

theorem def_defines : Parser.memberKind? .defKw = some .method := rfl

theorem ends_numberTail : track endsStatement [] numberTail = some [] := rfl

def identity : Name := ⟨"Id", by decide⟩

/-- The definition of a number. -/
def numberDefinition : Definition where
  isImplicit := false
  word := .valKw
  kind := .val
  defines := val_defines
  name := identity
  tail := numberTail
  ends := ends_numberTail
  laid := laid_numberTail identity

/-- An operator that stands for code that is not written yet. -/
def hole : Operator := ⟨'?', ['?', '?'], by decide, by decide⟩

def holeTail (service : Name) : List Piece :=
  (Abstraction.mk effect .higherKinded).pieces ++ ⟨[], .colon⟩ ::
    (appliedPieces service ++ [⟨[' '], .equals⟩, ⟨[' '], .operator hole⟩])

theorem ends_holeTail (service : Name) : track endsStatement [] (holeTail service) = some [] := by
  have reads := nested_reads service [] (.inl rfl)
  have param : IsNested (Abstraction.mk effect .higherKinded).inner :=
    .cons (isPlain_name effect) (.group (nested_single ⟨by simp, by simp⟩))
  simp [holeTail, appliedPieces, Abstraction.pieces, track, track_group, endsStatement, param, reads]

theorem laid_holeTail (service : Name) : Laid (some (.name (readerTName service))) (holeTail service) := by
  have param := @laid_paramPieces (some (.name (readerTName service))) (some ⟨effect, .higherKinded⟩)
  rw [paramPieces] at param
  simp only [holeTail, laid_cons, laid_append, laid_appliedPieces, param]
  simp [Laid, Abstraction.pieces, appliedPieces, group]

/-- The first instance, without its code. -/
def holeDefinition (service : Name) : Definition where
  isImplicit := true
  word := .defKw
  kind := .method
  defines := def_defines
  name := readerTName service
  tail := holeTail service
  ends := ends_holeTail service
  laid := laid_holeTail service

/-- The object beside a trait of the name, and its definitions. -/
def insideOf (name : Name) : Companion → Option (Option (List Definition))
  | .missing => none
  | .braceless => some none
  | .empty => some (some [])
  | .withMember => some (some [numberDefinition])
  | .withReader => some (some [holeDefinition name])

def specimenOf (index : Nat) (service : Generated) : Specimen where
  name := serviceNamed index
  shape := service.shape
  signatures := (List.range service.methods).map (signature service.params)
  nonempty := by
    have inhabited := service.inhabited
    simp only [ne_eq, List.map_eq_nil_iff, List.range_eq_nil]
    omega
  object := insideOf (serviceNamed index) service.companion
  unmapped := by
    have number : numberDefinition.name ≠ functorKName (serviceNamed index) := by
      intro same
      have texts := congrArg (fun name : Name => name.text.toList.getLast?) same
      simp [numberDefinition, identity, functorKName, suffixed, Name.marked] at texts
    have hole : (holeDefinition (serviceNamed index)).name ≠ functorKName (serviceNamed index) :=
      readerTName_ne_functorKName _
    cases service.companion <;> simp [insideOf, number, hole]
  readOnce := by
    cases service.companion <;> simp [insideOf] <;> exact List.length_filter_le _ _

def packageOf (package : Bool) : Option Path :=
  if package then some ⟨⟨"gen", by decide⟩, [⟨"api", by decide⟩]⟩ else none

def importsOf : ImportForm → List Line
  | .none => []
  | .instanceOnly => [⟨⟨cats, [data, readerT]⟩, .name⟩]
  | .wildcards => [⟨⟨cats, []⟩, .everything⟩, ⟨⟨cats, [data]⟩, .everything⟩, ⟨⟨cats, [tagless]⟩, .everything⟩]

/-! ### The two are the same -/

variable {index : Nat} {service : Generated} {services : List Generated}

theorem written_fields (params : Nat) : written (fieldPieces ((List.range params).map fun param => ⟨paramNamed param, int⟩)) =
    (String.intercalate ", " ((List.range params).map fun param => "p" ++ toString param ++ ": Int")).toList := by
  have each := @written_separated _ Field.pieces (by simp [Field.pieces, Piece.chars])
    ((List.range params).map fun param => ⟨paramNamed param, int⟩)
  rw [fieldPieces, each, String.toList_intercalate, List.map_map, List.map_map]
  refine congrArg _ (List.map_congr_left fun param _ => ?_)
  simp [Field.pieces, Piece.chars, Lexeme.chars, paramNamed, numbered, Name.marked, int]

theorem headOf_text (shape : Option Shape) : (headOf shape).text = resultHead shape := by
  rcases shape with _ | _ | _ <;> rfl

theorem written_method (shape : Option Shape) (params index : Nat) :
    written ((WrittenNesting.headed (headOf shape) (signature params index)).pieces ['\n', ' ', ' ']) ++ ['\n'] =
      '\n' :: (methodText (resultHead shape) params index).toList := by
  have fields := written_fields params
  simp [methodText, WrittenNesting.headed, Signature.pieces, Signature.opening, Signature.resultPieces, signature, listPieces,
    bracketed, group, Piece.chars, Lexeme.chars, openingChar, closingChar, Keyword.spelling, headOf_text, fields, methodNamed,
    numbered, Name.marked, string]

theorem written_methods (shape : Option Shape) (params : Nat) (indices : List Nat) :
    written (methodPieces ['\n', ' ', ' '] ((indices.map (signature params)).map (WrittenNesting.headed (headOf shape)))) ++ ['\n'] =
      '\n' :: (String.join (indices.map (methodText (resultHead shape) params))).toList := by
  induction indices with
  | nil => rfl
  | cons index indices ih =>
    have first := written_method shape params index
    rw [List.map_cons, List.map_cons, methodPieces_cons, written_append, List.append_assoc, ih, List.map_cons, String.join_cons,
      String.toList_append, ← List.cons_append, ← first, List.append_assoc]
    rfl

theorem written_declared (index : Nat) (service : Generated) :
    written ((specimenOf index service).trait.pieces [] []) ++ ['\n'] =
      (headerText (serviceName index) service.shape ++ " \x7b\n" ++
        String.join ((List.range service.methods).map (methodText (resultHead service.shape) service.params)) ++ "\x7d\n").toList := by
  have methods := written_methods service.shape service.params (List.range service.methods)
  have body : written (bodyPieces [] (specimenOf index service).trait.methods) ++ ['\n'] = [' ', '\x7b'] ++
      ('\n' :: (String.join ((List.range service.methods).map (methodText (resultHead service.shape) service.params))).toList ++
        ['\x7d', '\n']) := by
    rw [← methods]
    simp [bodyPieces, Specimen.trait, Specimen.methods, specimenOf, group, Piece.chars, Lexeme.chars, openingChar, closingChar]
  have head : written ((specimenOf index service).trait.opening []) ++ (written (paramPieces (specimenOf index service).trait.param) ++
      written (parentPieces (specimenOf index service).trait.ancestor)) = (headerText (serviceName index) service.shape).toList := by
    simp only [Trait.opening, Specimen.trait, specimenOf]
    rcases service.shape with _ | _ | _ <;>
      simp [paramOf, ancestorOf, paramPieces, parentPieces, Abstraction.pieces, Abstraction.inner, Abstraction.kindPieces,
        Ancestor.pieces, Ancestor.argPieces, Path.pieces, group, Piece.chars, Lexeme.chars, openingChar, closingChar,
        Keyword.spelling, headerText, serviceName, serviceNamed, numbered, Name.marked, future, effect, thriftService]
  simp only [Trait.pieces, written_append, String.toList_append, ← head, List.append_assoc, body]
  rfl

theorem linesOf_single (definition : Definition) : WrittenTemplates.linesOf [.defined definition] = written (definition.pieces step) := by
  simp [WrittenTemplates.linesOf, spread, entryPieces, Entry.pieces]

theorem written_hole (service : Name) : written ((holeDefinition service).pieces step) = (holeText service.text).toList := by
  have applied := written_applied service
  have lead : written ((holeDefinition service).lead step ++ (holeDefinition service).core [' ']) =
      "  implicit def ".toList ++ (service.text.toList ++ "ReaderT".toList) ++ written (holeTail service) := by
    simp [Definition.lead, Definition.core, holeDefinition, readerTName, suffixed, Name.marked, Piece.chars, Lexeme.chars,
      Keyword.spelling, step]
  have param : written (Abstraction.mk effect .higherKinded).pieces = "[F[_]]".toList := rfl
  have tail : written (holeTail service) = "[F[_]]:".toList ++ (written (appliedPieces service) ++ " = ???".toList) := by
    rw [holeTail, written_append, param, written_cons, written_append]
    rfl
  have text : holeText service.text = "  implicit def " ++ service.text ++ "ReaderT[F[_]]: " ++ service.text ++ "[ReaderT[F, " ++
      service.text ++ "[F], *]] = ???" := rfl
  refine lead.trans ?_
  rw [tail, applied, text]
  delta readsText
  simp

theorem written_companion (index : Nat) (inside : Option (List Definition)) (companion : Companion)
    (beside : insideOf (serviceNamed index) companion = some inside) :
    written ((objectOf (serviceNamed index) (inside.map (List.map .defined))).pieces blankLine) ++ ['\n'] =
      '\n' :: (companionText (serviceName index) companion).toList := by
  have opening : written ((objectOf (serviceNamed index) none).opening blankLine) =
      '\n' :: ("\nobject ".toList ++ (serviceName index).toList) := by
    simp [objectOf, Object.opening, blankLine, Piece.chars, Lexeme.chars, Keyword.spelling, serviceName, serviceNamed, numbered,
      Name.marked]
  rw [written_objectOf, opening]
  cases companion with
  | missing => cases beside
  | braceless =>
    cases beside
    have text : companionText (serviceName index) .braceless = "\nobject " ++ serviceName index ++ "\n" := rfl
    simp [text, Object.insidePieces]
  | empty =>
    cases beside
    have text : companionText (serviceName index) .empty = "\nobject " ++ serviceName index ++ " \x7b\x7d\n" := rfl
    simp [text, Object.insidePieces, written_inside_empty]
  | withMember =>
    cases beside
    have text : companionText (serviceName index) .withMember =
        "\nobject " ++ serviceName index ++ " \x7b\n  val Id = 1\n\x7d\n" := rfl
    have number : written (numberDefinition.pieces step) = "  val Id = 1".toList := rfl
    rw [Option.map_some, Option.map_some, Object.insidePieces, List.map_singleton, written_inside (by simp), linesOf_single, number]
    simp [text]
  | withReader =>
    cases beside
    have text : companionText (serviceName index) .withReader =
        "\nobject " ++ serviceName index ++ " \x7b\n" ++ holeText (serviceName index) ++ "\n\x7d\n" := rfl
    have name : (serviceNamed index).text = serviceName index := rfl
    rw [Option.map_some, Option.map_some, Object.insidePieces, List.map_singleton, written_inside (by simp), linesOf_single,
      written_hole, name]
    simp [text]

theorem written_service (index : Nat) (service : Generated) :
    written (declPieces (spread [] blankLine (specimenOf index service).decls)) ++ ['\n'] = (serviceText index service).toList := by
  have header := written_declared index service
  have companion := written_companion index
  rw [serviceText, String.toList_append, ← header]
  cases beside : insideOf (serviceNamed index) service.companion with
  | none =>
    have missing : service.companion = .missing := by
      revert beside
      cases service.companion <;> simp [insideOf]
    have alone : (specimenOf index service).decls = [.trait (specimenOf index service).trait] := by
      simp [Specimen.decls, Specimen.holder?, specimenOf, beside]
    rw [alone, missing]
    have text : companionText (serviceName index) .missing = "" := rfl
    simp [text, spread, declPieces, Declaration.pieces]
  | some inside =>
    have both : (specimenOf index service).decls = [.trait (specimenOf index service).trait,
        .object (objectOf (serviceNamed index) (inside.map (List.map .defined)))] := by
      simp only [Specimen.decls, Specimen.holder?, specimenOf, beside, objectOf, Option.map_map]
      rfl
    rw [both, List.append_assoc, List.singleton_append, ← companion inside service.companion beside]
    simp [spread, declPieces, Declaration.pieces]

/-- The services with their numbers. -/
def specimensOf (services : List Generated) : List Specimen := services.zipIdx.map fun entry => specimenOf entry.2 entry.1

/-- The clauses in front of the services. -/
theorem headText_eq (package : Bool) (imports : ImportForm) :
    headText (packageOf package) (importsOf imports) ++ declLead (packageOf package) (importsOf imports) =
      ((if package then "package gen.api\n\n" else "") ++ importText imports).toList := by
  cases package <;> cases imports <;> decide +kernel

theorem intercalate_ended (separator ending : List Char) {items : List (List Char)} (nonempty : items ≠ []) :
    separator.intercalate (items.map (· ++ ending)) = (ending ++ separator).intercalate items ++ ending := by
  cases items with
  | nil => exact absurd rfl nonempty
  | cons first others =>
    rw [List.map_cons, intercalate_cons, intercalate_cons]
    induction others generalizing first with
    | nil => simp
    | cons next others ih =>
      have rest := ih next (by simp)
      simp only [List.map_cons, List.flatMap_cons, List.append_assoc] at rest ⊢
      rw [rest]

/-- The blanks that end the text of a unit. -/
def tailOf (package : Bool) (imports : ImportForm) (services : List Generated) : List Char :=
  if services.isEmpty then declLead (packageOf package) (importsOf imports) else ['\n']

theorem blank_tailOf (package : Bool) (imports : ImportForm) (services : List Generated) :
    IsBlank (tailOf package imports services) := by
  unfold tailOf declLead
  split
  · split <;> simp [blankLine]
  · simp

/-- The text of a unit is the text of its tokens. -/
theorem unitText_eq (package : Bool) (imports : ImportForm) (services : List Generated) :
    unitText package imports services =
      textOf (unitOf (packageOf package) (importsOf imports) (specimensOf services)) (tailOf package imports services) := by
  have head := headText_eq package imports
  rw [textOf, unitOf, written_assemble, ← String.ofList_toList (s := unitText package imports services), unitText,
    String.toList_append, ← head, List.append_assoc, List.append_assoc, String.toList_intercalate]
  refine congrArg String.ofList (congrArg _ ?_)
  by_cases none : services = []
  · subst none
    simp [tailOf, specimensOf, spread, declPieces, List.intercalate]
  have filled : specimensOf services ≠ [] := by simpa [specimensOf] using none
  have texts : (services.zipIdx.map fun entry => serviceText entry.2 entry.1).map String.toList =
      ((specimensOf services).map fun specimen => written (declPieces (spread [] blankLine specimen.decls))).map (· ++ ['\n']) := by
    simp only [specimensOf, List.map_map]
    exact List.map_congr_left fun entry _ => (written_service entry.2 entry.1).symm
  have leads : ∀ gap (specimen : Specimen), written (declPieces (spread gap blankLine specimen.decls)) =
      gap ++ written (declPieces (spread [] blankLine specimen.decls)) := by
    intro gap specimen
    have lead := @written_decls_lead specimen.decls gap [] fun empty => absurd empty (decls_ne_nil specimen)
    rw [List.append_nil] at lead
    exact lead.symm
  have spaced := @written_spread _ (fun gap (specimen : Specimen) => declPieces (spread gap blankLine specimen.decls)) leads
    _ filled (declLead (packageOf package) (importsOf imports)) blankLine
  have ending : tailOf package imports services = ['\n'] := by simp [tailOf, none]
  have apart : "\n".toList = ['\n'] := rfl
  rw [texts, apart, intercalate_ended _ _ (by simpa using filled), ending, ← spread_flatMap decls_ne_nil, declPieces,
    List.flatMap_assoc, ← List.append_assoc]
  exact congrArg (· ++ ['\n']) spaced.symm

/-! ### Migration -/

theorem names_distinct (services : List Generated) : ((specimensOf services).map fun specimen => specimen.name.text).Nodup := by
  have names : (specimensOf services).map (fun specimen => specimen.name.text) = (services.zipIdx.map Prod.snd).map serviceName := by
    simp only [specimensOf, List.map_map]
    rfl
  have injective : Function.Injective serviceName := by
    intro index index' same
    have digits : Nat.toDigits 10 index = Nat.toDigits 10 index' := by
      rw [← Nat.toList_repr, ← Nat.toList_repr]
      exact congrArg String.toList ((String.append_right_inj "Svc").mp same)
    have values := congrArg (Nat.ofDigitChars 10 · 0) digits
    rwa [Nat.ofDigitChars_toDigits (by decide) (by decide), Nat.ofDigitChars_toDigits (by decide) (by decide)] at values
  rw [names, List.zipIdx_map_snd]
  exact (List.nodup_range' ..).map injective

/-- Migrating a generated unit gives a text that loads, with every library name imported
as soon as an instance was added. Each service becomes what its shape says. -/
theorem generated_migrates (package : Bool) (imports : ImportForm) (services : List Generated) (id : UnitId) :
    ∃ plans set result scope, AddInstances.plans .default (.load .empty id (unitText package imports services)) = .ok plans ∧
      (AddInstances.rule .default).editSet (.load .empty id (unitText package imports services)) = .ok set ∧
      set.apply (unitText package imports services) = .ok result ∧
      (SourceUnit.load .empty id result).scope = .ok scope ∧
      (∀ (index : Nat) service, services[index]? = some service → Becomes (.load .empty id (unitText package imports services))
        (.load .empty id result) (serviceName index) service.shape) ∧
      ((plans.any fun plan => !plan.bindings.isEmpty) = true → ∀ name ∈ Conventions.default.imports.all,
        (SourceUnit.load .empty id result).outline.imports.any (·.imports name) = true) := by
  have blank := blank_tailOf package imports services
  have distinct := names_distinct services
  obtain ⟨plans, set, planned, bound, returned, applied⟩ :=
    migration_applies (packageOf package) (importsOf imports) blank distinct id
  obtain ⟨references, scope, loaded⟩ := load_written
    (laid_migratedOf (packageOf package) (importsOf imports) (specimensOf services)) blank id
  rw [unitText_eq]
  refine ⟨plans, set, _, scope, planned, returned, applied, ?_, fun index service found => ?_, fun emitted => ?_⟩
  · rw [textOf, loaded]
  · have listed : specimenOf index service ∈ specimensOf services :=
      List.mem_map.mpr ⟨(service, index), List.mk_mem_zipIdx_iff_getElem?.mpr found, rfl⟩
    exact becomes_migrated distinct listed blank id
  · rw [bound] at emitted
    exact libraries_imported emitted blank id

/-- A service of each shape, with different objects beside them. -/
def sampleServices : List Generated :=
  [⟨some .legacy, .withMember, 2, by decide, 1⟩, ⟨some .modern, .withReader, 1, by decide, 0⟩, ⟨none, .braceless, 1, by decide, 2⟩]

theorem sample_migrates : ∃ result scope, (SourceUnit.load .empty "A" result).scope = .ok scope ∧
    Becomes (.load .empty "A" (unitText true .wildcards sampleServices)) (.load .empty "A" result) "Svc0" (some .legacy) ∧
    Becomes (.load .empty "A" (unitText true .wildcards sampleServices)) (.load .empty "A" result) "Svc1" (some .modern) ∧
    Becomes (.load .empty "A" (unitText true .wildcards sampleServices)) (.load .empty "A" result) "Svc2" none := by
  obtain ⟨_, _, result, scope, -, -, -, resolved, becomes, -⟩ := generated_migrates true .wildcards sampleServices "A"
  exact ⟨result, scope, resolved, becomes 0 _ rfl, becomes 1 _ rfl, becomes 2 _ rfl⟩

end KindLift.GeneratedUnits
