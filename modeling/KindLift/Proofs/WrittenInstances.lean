import KindLift.Proofs.WrittenTemplates

/-! The two instances of a service as written tokens. The text that is generated for
an instance is the text of these tokens, and as an entry of an object they are a
definition of the instance's name. -/
namespace KindLift.WrittenInstances
open Token Text TokenPlacement KindLift.Parser QualifiedTokens WrittenTokens WrittenReading WrittenGroups WrittenTraits WrittenObjects
open WrittenTemplates

/-! ### Words of the generated code -/

def effect : Name := ⟨"F", by decide⟩

def effect' : Name := ⟨"G", by decide⟩

def readerT : Name := ⟨"ReaderT", by decide⟩

def functorK : Name := ⟨"FunctorK", by decide⟩

def mapK : Name := ⟨"mapK", by decide⟩

def algebra : Name := ⟨"af", by decide⟩

def arrow : Name := ⟨"fk", by decide⟩

def arrowSign : Operator := ⟨'~', ['>'], by decide, by decide⟩

def star : Operator := ⟨'*', [], by decide, by decide⟩

/-- The name with a suffix that has a capital letter. -/
def suffixed (service : Name) (suffix : String) (parts : suffix.toList.all Char.isAlphanum = true)
    (mark : suffix.toList.any (fun c => !c.isLower) = true) : Name :=
  .marked (service.text ++ suffix)
    (by
      obtain ⟨c, rest, shape, letter, others, -⟩ := service.chars_eq
      refine ⟨c, rest ++ suffix.toList, by simp [shape], letter, fun e member => ?_⟩
      rcases List.mem_append.mp member with first | last
      · exact others e first
      · exact List.all_eq_true.mp parts e last)
    (by
      obtain ⟨e, member, high⟩ := List.any_eq_true.mp mark
      exact ⟨e, by simp [member], by simpa using high⟩)

/-- The names of the two instances. -/
def readerTName (service : Name) : Name := suffixed service "ReaderT" (by decide) (by decide)

def functorKName (service : Name) : Name := suffixed service "FunctorK" (by decide) (by decide)

/-! ### Parameters -/

/-- The parameters of a method as they are passed on. -/
def passPieces (fields : List Field) : List Piece :=
  group [] .paren (separated (fun gap field => [⟨gap, .name field.name⟩]) fields) []

theorem written_separated {write : List Char → α → List Piece} (moves : ∀ gap item, written (write gap item) = gap ++ written (write [] item))
    (items : List α) :
    written (separated write items) = [',', ' '].intercalate (items.map fun item => written (write [] item)) := by
  cases items with
  | nil => rfl
  | cons first others =>
    rw [List.map_cons, intercalate_cons, separated, written_append]
    congr 1
    induction others with
    | nil => rfl
    | cons next others ih =>
      rw [List.flatMap_cons, written_append, ih, written_cons, moves]
      simp [Piece.chars, Lexeme.chars]

theorem renderedLists_method (signature : Signature) (gap : List Char) (offset : Nat) :
    Template.renderedLists (signature.method gap offset) =
      [⟨false, false, signature.fields.map fun field => ⟨field.name.text, field.type.text, false⟩⟩] := by
  have named : ∀ fields : List Field, ∀ anonymous, Template.nameParams anonymous (fields.map Field.param) =
      (fields.map fun field => ⟨field.name.text, field.type.text, false⟩, anonymous) := by
    intro fields anonymous
    induction fields with
    | nil => rfl
    | cons field fields ih =>
      have proper : (Field.param field).name ≠ "_" := by
        intro same
        have part := field.name.alphanum '_'
        rw [show field.name.text = "_" from same] at part
        exact absurd (part (by decide)) (by decide)
      have single : (Field.param field).isRepeated = false := by
        refine decide_eq_false fun last => ?_
        have part := field.type.alphanum '*'
        rw [show (Field.param field).type = field.type.text from rfl, trimEnd_name] at last
        exact absurd (part (List.mem_of_getLast? last)) (by decide)
      rw [List.map_cons, Template.nameParams, if_neg proper, ih, single]
      rfl
  rw [Template.renderedLists, Signature.method, Template.nameLists, named]
  rfl

/-- The parameters with the names and the types they are declared with. -/
def rendered (fields : List Field) : Template.RenderedList :=
  ⟨false, false, fields.map fun field => ⟨field.name.text, field.type.text, false⟩⟩

theorem declareList_rendered (fields : List Field) :
    (Template.declareList (rendered fields)).toList = written (listPieces fields) := by
  have inner := @written_separated _ Field.pieces (by simp [Field.pieces, Piece.chars]) fields
  simp [Template.declareList, rendered, listPieces, fieldPieces, group, inner, Piece.chars, Lexeme.chars, Field.pieces,
    openingChar, closingChar, Function.comp_def]

theorem passList_rendered (fields : List Field) :
    (Template.passList (rendered fields)).toList = written (passPieces fields) := by
  have inner := @written_separated _ (fun gap (field : Field) => [⟨gap, .name field.name⟩]) (by simp [Piece.chars]) fields
  simp [Template.passList, rendered, passPieces, group, inner, Piece.chars, Lexeme.chars, openingChar, closingChar,
    Function.comp_def]

/-! ### The instance that reads the service -/

/-- A computation that reads the service and yields the given type. -/
def readsPieces (gap : List Char) (service : Name) (result : Lexeme) : List Piece :=
  ⟨gap, .name readerT⟩ :: group [] .square (⟨[], .name effect⟩ :: ⟨[], .comma⟩ :: ⟨[' '], .name service⟩ ::
    (bracketed effect ++ [⟨[], .comma⟩, ⟨[' '], result⟩])) []

/-- The service over such computations. -/
def appliedPieces (service : Name) : List Piece :=
  ⟨[' '], .name service⟩ :: group [] .square (readsPieces [] service (.operator star)) []

/-- A method of the instance. -/
def readerMember (service : Name) (signature : Signature) : List Piece :=
  signature.opening ['\n', ' ', ' '] ++ (listPieces signature.fields ++ ⟨[], .colon⟩ ::
    (readsPieces [' '] service (.name signature.arg) ++ ⟨[' '], .equals⟩ :: ⟨[' '], .name readerT⟩ ::
      group [] .paren (⟨[], .wildcard⟩ :: ⟨[], .dot⟩ :: ⟨[], .name signature.name⟩ :: passPieces signature.fields) []))

/-- What follows the name of the instance. -/
def readerTail (service : Name) (methods : List Signature) : List Piece :=
  (Abstraction.mk effect .higherKinded).pieces ++ ⟨[], .colon⟩ :: (appliedPieces service ++ ⟨[' '], .equals⟩ ::
    ⟨[' '], .keyword .newKw⟩ :: (appliedPieces service ++
      group [' '] .brace (methods.flatMap (readerMember service)) ['\n']))

/-! ### The instance that maps the service -/

/-- A method of the mapped service. -/
def functorMember (signature : Signature) : List Piece :=
  signature.opening ['\n', ' ', ' ', ' ', ' '] ++ (listPieces signature.fields ++ ⟨[], .colon⟩ ::
    ⟨[' '], .name effect'⟩ :: (bracketed signature.arg ++ ⟨[' '], .equals⟩ :: ⟨[' '], .name arrow⟩ ::
      group [] .paren (⟨[], .name algebra⟩ :: ⟨[], .dot⟩ :: ⟨[], .name signature.name⟩ :: passPieces signature.fields) []))

/-- The one method of the instance. -/
def mapPieces (service : Name) (methods : List Signature) : List Piece :=
  ⟨['\n', ' ', ' '], .keyword .defKw⟩ :: ⟨[' '], .name mapK⟩ ::
    (group [] .square (⟨[], .name effect⟩ :: (group [] .square [⟨[], .wildcard⟩] [] ++
        ⟨[], .comma⟩ :: ⟨[' '], .name effect'⟩ :: group [] .square [⟨[], .wildcard⟩] [])) [] ++
      (group [] .paren (⟨[], .name algebra⟩ :: ⟨[], .colon⟩ :: ⟨[' '], .name service⟩ :: bracketed effect) [] ++
        (group [] .paren [⟨[], .name arrow⟩, ⟨[], .colon⟩, ⟨[' '], .name effect⟩, ⟨[' '], .operator arrowSign⟩,
            ⟨[' '], .name effect'⟩] [] ++
          ⟨[], .colon⟩ :: ⟨[' '], .name service⟩ :: (bracketed effect' ++ ⟨[' '], .equals⟩ :: ⟨[' '], .keyword .newKw⟩ ::
            ⟨[' '], .name service⟩ :: (bracketed effect' ++
              group [' '] .brace (methods.flatMap functorMember) ['\n', ' ', ' '])))))

/-- What follows the name of the instance. -/
def functorTail (service : Name) (methods : List Signature) : List Piece :=
  ⟨[], .colon⟩ :: ⟨[' '], .name functorK⟩ :: (bracketed service ++ ⟨[' '], .equals⟩ :: ⟨[' '], .keyword .newKw⟩ ::
    ⟨[' '], .name functorK⟩ :: (bracketed service ++ group [' '] .brace (mapPieces service methods) ['\n']))

/-! ### Brackets and layout -/

section Nested

variable (service : Name) (signature : Signature) (methods : List Signature) (gap : List Char)

theorem nested_listPieces (fields : List Field) : IsNested (listPieces fields) :=
  .group (nested_separated (fun gap field => by intro opened; simp [Field.pieces, track]) fields)

theorem nested_passPieces (fields : List Field) : IsNested (passPieces fields) :=
  .group (nested_separated (fun gap field => by intro opened; simp [track]) fields)

theorem nested_bracketed (name : Name) : IsNested (bracketed name) := .group (nested_single (isPlain_name name))

theorem nested_reads {result : Lexeme} (single : result = .operator star ∨ ∃ name, result = .name name) :
    IsNested (readsPieces gap service result) := by
  intro opened
  rcases single with rfl | ⟨name, rfl⟩ <;>
    simp [readsPieces, group, track, track_append, nested_bracketed effect _]

theorem nested_readerMember : IsNested (readerMember service signature) := by
  have reads := nested_reads service [' '] (.inr ⟨signature.arg, rfl⟩)
  intro opened
  simp [readerMember, Signature.opening, group, track, track_append, nested_listPieces _ _, nested_passPieces _ _, reads _]

theorem nested_functorMember : IsNested (functorMember signature) := by
  intro opened
  simp [functorMember, Signature.opening, group, track, track_append, nested_listPieces _ _, nested_passPieces _ _,
    nested_bracketed _ _]

theorem nested_mapPieces : IsNested (mapPieces service methods) := by
  have members : IsNested (methods.flatMap functorMember) := .flatMap fun method _ => nested_functorMember method
  intro opened
  simp [mapPieces, group, track, track_append, nested_bracketed _ _, members _]

theorem ends_readerTail : track endsStatement [] (readerTail service methods) = some [] := by
  have members : IsNested (methods.flatMap (readerMember service)) := .flatMap fun method _ => nested_readerMember service method
  have reads := nested_reads service [] (.inl rfl)
  have param : IsNested (Abstraction.mk effect .higherKinded).inner :=
    .cons (isPlain_name effect) (.group (nested_single ⟨by simp, by simp⟩))
  simp [readerTail, appliedPieces, Abstraction.pieces, track, track_group, track_group_last, endsStatement,
    Keyword.startsStatement, param, reads, members]

theorem ends_functorTail : track endsStatement [] (functorTail service methods) = some [] := by
  have mapped := nested_mapPieces service methods
  have argument := nested_single (@isPlain_name [] service)
  simp [functorTail, bracketed, track, track_group, track_group_last, endsStatement, Keyword.startsStatement, mapped,
    argument]

end Nested

section Layout

variable {before : Option Lexeme} {service : Name} {signature : Signature} {methods : List Signature}

theorem laid_passPieces {fields : List Field} : Laid before (passPieces fields) := by
  have each : ∀ field ∈ fields, ∀ before, Laid before [⟨[], .comma⟩, ⟨[' '], .name field.name⟩] := by simp [Laid]
  cases fields with
  | nil => simp [passPieces, separated, group, Laid]
  | cons field fields =>
    have more := laid_flatMap fun other member => each other (List.mem_cons_of_mem _ member)
    simp only [passPieces, separated, group, laid_cons, laid_append, more]
    simp [Laid]

theorem laid_reads {gap : List Char} {result : Lexeme} (blank : IsBlank gap)
    (apart : gap = [] → ∀ last ∈ before, last.separate (.name readerT) = true)
    (single : result = .operator star ∨ ∃ name, result = .name name) : Laid before (readsPieces gap service result) := by
  rw [readsPieces, laid_cons]
  refine ⟨blank, apart, ?_⟩
  rcases single with rfl | ⟨name, rfl⟩ <;>
    simp [group, laid_cons, laid_append, laid_bracketed, Laid]

theorem laid_readerMember : Laid before (readerMember service signature) := by
  have reads : ∀ before, Laid before (readsPieces [' '] service (.name signature.arg)) :=
    fun before => laid_reads (by simp) nofun (.inr ⟨_, rfl⟩)
  simp only [readerMember, Signature.opening, group, laid_cons, laid_append, laid_listPieces, laid_passPieces, reads]
  simp [Laid, listPieces, group, readsPieces]

theorem laid_functorMember : Laid before (functorMember signature) := by
  simp only [functorMember, Signature.opening, group, laid_cons, laid_append, laid_listPieces, laid_passPieces, laid_bracketed]
  simp [Laid, listPieces, group]

theorem laid_appliedPieces : Laid before (appliedPieces service) := by
  have reads : Laid (some (.opener .square)) (readsPieces [] service (.operator star)) :=
    laid_reads (by simp) (by simp) (.inl rfl)
  simp only [appliedPieces, group, laid_cons, laid_append, reads]
  simp [Laid]

theorem laid_readerTail : Laid before (readerTail service methods) := by
  have members := laid_flatMap fun method (_ : method ∈ methods) before => @laid_readerMember before service method
  have param := @laid_paramPieces before (some ⟨effect, .higherKinded⟩)
  rw [paramPieces] at param
  simp only [readerTail, group, laid_cons, laid_append, laid_appliedPieces, members, param]
  simp [Laid, Abstraction.pieces, group]

theorem laid_mapPieces : Laid before (mapPieces service methods) := by
  have members := laid_flatMap fun method (_ : method ∈ methods) before => @laid_functorMember before method
  simp only [mapPieces, group, laid_cons, laid_append, laid_bracketed, members]
  simp [Laid]

theorem laid_functorTail {name : Name} : Laid (some (.name name)) (functorTail service methods) := by
  simp only [functorTail, group, laid_cons, laid_append, laid_bracketed, laid_mapPieces]
  simp [Laid]

end Layout

section Lines

variable (service : Name) (signature : Signature) (methods : List Signature)

theorem level_passPieces (fields : List Field) : Level (passPieces fields) :=
  level_group (level_separated (by simp [Level]) (by simp [Level]) fields)

theorem level_reads {gap : List Char} (spaces : ∀ c ∈ gap, c = ' ') (result : Lexeme) :
    Level (readsPieces gap service result) := by
  refine List.forall_mem_cons.mpr ⟨spaces, level_group ?_⟩
  simp [Level, bracketed, group]

theorem tidy_readerTail : Tidy (readerTail service methods) := by
  have members : Tidy (methods.flatMap (readerMember service)) := tidy_flatMap fun signature _ => by
    simp [readerMember, Signature.opening, group, (level_listPieces _).tidy, (level_passPieces _).tidy,
      (@level_reads service [' '] (by simp) (.name signature.arg)).tidy]
  have reads := (@level_reads service [] (by simp) (.operator star)).tidy
  have param := (level_paramPieces (some ⟨effect, .higherKinded⟩)).tidy
  rw [paramPieces] at param
  simp [readerTail, appliedPieces, group, members, reads, param]

theorem tidy_functorTail : Tidy (functorTail service methods) := by
  have members : Tidy (methods.flatMap functorMember) := tidy_flatMap fun signature _ => by
    simp [functorMember, Signature.opening, bracketed, group, (level_listPieces _).tidy, (level_passPieces _).tidy]
  simp [functorTail, mapPieces, bracketed, group, members]

end Lines

/-! ### Texts -/

section Texts

variable (service : Name) (signature : Signature) (methods : List Signature) (gap : List Char) (offset : Nat)

/-- Lines for all methods. The line feed that ends a line is written in front of the
next one. -/
theorem join_methods {line : Method → String} {write : Signature → List Piece}
    (each : ∀ signature offset, '\n' :: (line (Signature.method gap offset signature)).toList = written (write signature) ++ ['\n']) :
    '\n' :: (String.join ((methodsAt gap offset methods).map line)).toList = written (methods.flatMap write) ++ ['\n'] := by
  induction methods generalizing offset with
  | nil => rfl
  | cons signature methods ih =>
    have later := ih (offset + width (signature.pieces gap))
    rw [methodsAt] at later
    rw [methodsAt, readAll, List.map_cons, String.join_cons, String.toList_append, ← List.cons_append, each,
      List.append_assoc, List.singleton_append, later, List.flatMap_cons, written_append, List.append_assoc]

theorem signature_text (result : String) :
    (Template.signature (signature.method gap offset) (Template.renderedLists (signature.method gap offset)) result).toList =
      "def ".toList ++ (signature.name.text.toList ++ (written (listPieces signature.fields) ++ (": ".toList ++ result.toList))) := by
  have list := declareList_rendered signature.fields
  rw [rendered] at list
  rw [renderedLists_method]
  simp [Template.signature, Signature.method, list]

theorem call_text (receiver : String) :
    (Template.call receiver (signature.method gap offset) (Template.renderedLists (signature.method gap offset))).toList =
      receiver.toList ++ ('.' :: (signature.name.text.toList ++ written (passPieces signature.fields))) := by
  have list := passList_rendered signature.fields
  rw [rendered] at list
  rw [renderedLists_method]
  simp [Template.call, Signature.method, list]

/-- The type of a computation that reads the service. -/
def readsText (service result : String) : String :=
  "ReaderT" ++ "[" ++ "F" ++ ", " ++ service ++ "[" ++ "F" ++ "], " ++ result ++ "]"

theorem written_reads (result : Lexeme) :
    written (readsPieces gap service result) = gap ++ (readsText service.text (String.ofList result.chars)).toList := by
  delta readsText
  simp [readsPieces, bracketed, group, Piece.chars, Lexeme.chars, openingChar, closingChar, readerT, effect]

/-- A line of the instance that reads the service. -/
def readerLine (service : String) (method : Method) : String :=
  "  " ++ Template.signature method (Template.renderedLists method) (readsText service (Template.resultArg method)) ++
    " = " ++ "ReaderT" ++ "(" ++ Template.call "_" method (Template.renderedLists method) ++ ")\n"

theorem readerLine_text : '\n' :: (readerLine service.text (signature.method gap offset)).toList =
    written (readerMember service signature) ++ ['\n'] := by
  have reads := written_reads service [' '] (.name signature.arg)
  have arg : Template.resultArg (signature.method gap offset) = signature.arg.text := rfl
  simp only [Lexeme.chars, String.ofList_toList] at reads
  simp only [readerLine, arg, String.toList_append, signature_text, call_text]
  simp [readerMember, Signature.opening, group, reads, Piece.chars, Lexeme.chars, openingChar, closingChar, readerT,
    Keyword.spelling]

/-- A line of the instance that maps the service. -/
def functorLine (method : Method) : String :=
  "    " ++ Template.signature method (Template.renderedLists method) ("G" ++ "[" ++ Template.resultArg method ++ "]") ++
    " = " ++ "fk" ++ "(" ++ Template.call "af" method (Template.renderedLists method) ++ ")\n"

theorem functorLine_text : '\n' :: (functorLine (signature.method gap offset)).toList =
    written (functorMember signature) ++ ['\n'] := by
  have arg : Template.resultArg (signature.method gap offset) = signature.arg.text := rfl
  simp only [functorLine, arg, String.toList_append, signature_text, call_text]
  simp [functorMember, Signature.opening, bracketed, group, Piece.chars, Lexeme.chars, openingChar, closingChar, effect',
    algebra, arrow, Keyword.spelling]

/-- The definition of the first instance. -/
def readerDefinition : Definition where
  isImplicit := true
  word := .defKw
  kind := .method
  defines := rfl
  name := readerTName service
  tail := readerTail service methods
  ends := ends_readerTail service methods
  laid := laid_readerTail

/-- The definition of the second instance. -/
def functorDefinition : Definition where
  isImplicit := true
  word := .valKw
  kind := .val
  defines := rfl
  name := functorKName service
  tail := functorTail service methods
  ends := ends_functorTail service methods
  laid := laid_functorTail

theorem readerT_eq (service : String) (methods : List Method) : Template.readerT service methods .default =
    "implicit def " ++ (service ++ "ReaderT") ++ "[" ++ "F" ++ "[_]]: " ++ (service ++ "[" ++ readsText service "*" ++ "]") ++
      " = new " ++ (service ++ "[" ++ readsText service "*" ++ "]") ++ " \x7b\n" ++
        String.join (methods.map (readerLine service)) ++ "\x7d" := rfl

theorem written_applied : written (appliedPieces service) =
    ' ' :: (service.text.toList ++ ("[" ++ readsText service.text "*" ++ "]").toList) := by
  have reads := written_reads service [] (.operator star)
  rw [List.nil_append] at reads
  simp [appliedPieces, group, reads, Piece.chars, Lexeme.chars, openingChar, closingChar, -String.toList_append]
  simp [star]

/-- The text of the first instance is the text of its definition. -/
theorem readerT_text : (Template.readerT service.text (methodsAt gap offset methods) .default).toList =
    written ((readerDefinition service methods).pieces []) := by
  have lines := join_methods methods gap offset (readerLine_text service · gap)
  have members : '\n' :: ((String.join ((methodsAt gap offset methods).map (readerLine service.text))).toList ++ ['\x7d']) =
      written (methods.flatMap (readerMember service)) ++ ['\n', '\x7d'] := by
    rw [← List.cons_append, lines, List.append_assoc, List.singleton_append]
  have applied := written_applied service
  rw [readerT_eq]
  simp only [String.toList_append, String.toList_join] at members applied ⊢
  simp [readerDefinition, Definition.pieces, Definition.lead, Definition.core, readerTail, readerTName, suffixed,
    Name.marked, Abstraction.pieces, Abstraction.inner, Abstraction.kindPieces, group, applied, Piece.chars, Lexeme.chars,
    openingChar, closingChar, effect, Keyword.spelling, members]

theorem functorK_eq (service : String) (methods : List Method) : Template.functorK service methods .default =
    "implicit val " ++ (service ++ "FunctorK") ++ ": " ++ ("FunctorK" ++ "[" ++ service ++ "]") ++ " = new " ++
      ("FunctorK" ++ "[" ++ service ++ "]") ++ " \x7b\n" ++ ("  def mapK[" ++ "F" ++ "[_], " ++ "G" ++ "[_]](" ++ "af" ++
        ": " ++ service ++ "[" ++ "F" ++ "])(" ++ "fk" ++ ": " ++ "F" ++ " " ++ "~>" ++ " " ++ "G" ++ "): " ++
          (service ++ "[" ++ "G" ++ "]") ++ " = new " ++ (service ++ "[" ++ "G" ++ "]") ++ " \x7b\n" ++
            String.join (methods.map functorLine) ++ "  \x7d\n") ++ "\x7d" := by
  have lines : (Template.mapping methods .default).methods.map Template.MappedMethod.render = methods.map functorLine :=
    List.map_map
  rw [← lines]
  rfl

/-- The text of the second instance is the text of its definition. -/
theorem functorK_text : (Template.functorK service.text (methodsAt gap offset methods) .default).toList =
    written ((functorDefinition service methods).pieces []) := by
  have lines := join_methods methods gap offset (functorLine_text · gap)
  have members : '\n' :: ((String.join ((methodsAt gap offset methods).map functorLine)).toList ++ [' ', ' ', '\x7d', '\n', '\x7d']) =
      written (methods.flatMap functorMember) ++ ['\n', ' ', ' ', '\x7d', '\n', '\x7d'] := by
    rw [← List.cons_append, lines, List.append_assoc, List.singleton_append]
  rw [functorK_eq]
  simp only [String.toList_append, String.toList_join] at members ⊢
  simp [functorDefinition, Definition.pieces, Definition.lead, Definition.core, functorTail, mapPieces, functorKName, suffixed,
    Name.marked, bracketed, group, Piece.chars, Lexeme.chars, openingChar, closingChar, effect, effect', functorK, mapK,
    algebra, arrow, arrowSign, Keyword.spelling, members]

theorem renders_readerT : Renders (Template.readerT service.text (methodsAt gap offset methods) .default)
    (.defined (readerDefinition service methods)) where
  text := readerT_text service methods gap offset
  tidy := by
    have tail := tidy_readerTail service methods
    simp [Entry.pieces, Definition.pieces, Definition.lead, Definition.core, readerDefinition, tail]

theorem renders_functorK : Renders (Template.functorK service.text (methodsAt gap offset methods) .default)
    (.defined (functorDefinition service methods)) where
  text := functorK_text service methods gap offset
  tidy := by
    have tail := tidy_functorTail service methods
    simp [Entry.pieces, Definition.pieces, Definition.lead, Definition.core, functorDefinition, tail]

end Texts

end KindLift.WrittenInstances
