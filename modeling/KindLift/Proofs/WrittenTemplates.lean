import KindLift.Proofs.WrittenUnits
import KindLift.Rule.AddInstances

/-! The texts that are generated for a service, as written tokens: the two instances,
and what becomes of a text when its lines are moved in. -/
namespace KindLift.WrittenTemplates
open Token Text TextBoundary KindLift.Parser ScanSteps WrittenTokens WrittenReading WrittenGroups WrittenTraits WrittenObjects

variable {indent line gap : List Char} {rest : List Char} {pieces : List Piece} {c : Char}

/-! ### Lines -/

theorem splitOn_line (line : List Char) (rest : List Char) (whole : '\n' ∉ line) :
    splitOn '\n' (line ++ '\n' :: rest) = line :: splitOn '\n' rest := by
  induction line with
  | nil => simp [splitOn]
  | cons c line ih =>
    obtain ⟨differs, others⟩ := List.ne_and_not_mem_of_not_mem_cons whole
    rw [List.cons_append, splitOn, if_neg (Ne.symm differs), ih others]

theorem splitOn_last (line : List Char) (whole : '\n' ∉ line) : splitOn '\n' line = [line] := by
  induction line with
  | nil => rfl
  | cons c line ih =>
    obtain ⟨differs, others⟩ := List.ne_and_not_mem_of_not_mem_cons whole
    rw [splitOn, if_neg (Ne.symm differs), ih others]

theorem splitOn_ne_nil (text : List Char) : splitOn '\n' text ≠ [] := by
  cases text with
  | nil => simp [splitOn]
  | cons c text =>
    rw [splitOn]
    split
    · simp
    · split <;> simp

/-- A line that is not blank is moved in, and then the lines behind it. -/
theorem indentLines_line (whole : '\n' ∉ line) (solid : isBlank line = false) (rest : List Char) :
    Template.indentLines indent (line ++ '\n' :: rest) = indent ++ line ++ '\n' :: Template.indentLines indent rest := by
  obtain ⟨next, others, shape⟩ := List.exists_cons_of_ne_nil (splitOn_ne_nil rest)
  have joined : ∀ first second : List Char, ∀ more,
      joinWith '\n' (first :: second :: more) = first ++ '\n' :: joinWith '\n' (second :: more) := fun _ _ _ => rfl
  rw [Template.indentLines, Template.indentLines, splitOn_line line rest whole, shape, List.map_cons, List.map_cons,
    joined, solid, if_neg Bool.false_ne_true]

theorem indentLines_last (whole : '\n' ∉ line) (solid : isBlank line = false) :
    Template.indentLines indent line = indent ++ line := by
  rw [Template.indentLines, splitOn_last line whole, List.map_singleton, joinWith, solid]
  rfl

/-! ### Moving tokens in -/

/-- Blanks with at most one line feed, which comes first. -/
def IsTidy (gap : List Char) : Prop := ∃ spaces, (∀ c ∈ spaces, c = ' ') ∧ (gap = spaces ∨ gap = '\n' :: spaces)

@[simp] theorem isTidy_nil : IsTidy [] := ⟨[], by simp, .inl rfl⟩

@[simp] theorem isTidy_cons : IsTidy (c :: gap) ↔ (c = ' ' ∨ c = '\n') ∧ ∀ e ∈ gap, e = ' ' := by
  constructor
  · rintro ⟨spaces, blank, shape | shape⟩
    · subst shape
      obtain ⟨first, others⟩ := List.forall_mem_cons.mp blank
      exact ⟨.inl first, others⟩
    · obtain ⟨rfl, rfl⟩ := List.cons.inj shape
      exact ⟨.inr rfl, blank⟩
  · rintro ⟨rfl | rfl, others⟩
    · exact ⟨' ' :: gap, List.forall_mem_cons.mpr ⟨rfl, others⟩, .inl rfl⟩
    · exact ⟨gap, others, .inr rfl⟩

/-- All blanks between tokens are tidy. -/
def Tidy (pieces : List Piece) : Prop := ∀ piece ∈ pieces, IsTidy piece.gap

@[simp] theorem tidy_nil : Tidy [] := by simp [Tidy]

@[simp] theorem tidy_cons {piece : Piece} : Tidy (piece :: pieces) ↔ IsTidy piece.gap ∧ Tidy pieces :=
  List.forall_mem_cons

@[simp] theorem tidy_append {front back : List Piece} : Tidy (front ++ back) ↔ Tidy front ∧ Tidy back :=
  List.forall_mem_append

theorem tidy_flatMap {items : List α} {write : α → List Piece} (each : ∀ item ∈ items, Tidy (write item)) :
    Tidy (items.flatMap write) := by
  intro piece member
  obtain ⟨item, listed, inside⟩ := List.mem_flatMap.mp member
  exact each item listed piece inside

/-- Blanks whose line is moved in. -/
def moveGap (indent gap : List Char) : List Char := gap.flatMap fun c => if c = '\n' then '\n' :: indent else [c]

def movePiece (indent : List Char) (piece : Piece) : Piece := ⟨moveGap indent piece.gap, piece.lexeme⟩

/-- Tokens whose lines are moved in. -/
def moved (indent : List Char) (pieces : List Piece) : List Piece := pieces.map (movePiece indent)

theorem moveGap_spaces {spaces : List Char} (blank : ∀ c ∈ spaces, c = ' ') : moveGap indent spaces = spaces := by
  induction spaces with
  | nil => rfl
  | cons c spaces ih =>
    obtain ⟨rfl, others⟩ := List.forall_mem_cons.mp blank
    have rest := ih others
    rw [moveGap] at rest ⊢
    rw [List.flatMap_cons, rest]
    rfl

/-- No token holds white space. -/
theorem solid_chars (lexeme : Lexeme) : ∀ c ∈ lexeme.chars, isWhiteSpace c = false := by
  intro c member
  cases lexeme with
  | keyword word => exact solid_of_alphanum (isAlphanum_of_alpha (List.all_eq_true.mp (spelling_letters word) c member))
  | name name => exact solid_of_alphanum (name.alphanum c member)
  | operator symbol => exact (isSymbol_facts (List.all_eq_true.mp symbol.symbols c member)).2.1
  | digit value =>
    have facts : ∀ value : Fin 10, isWhiteSpace value.val.digitChar = false := by decide
    rw [Lexeme.chars, List.mem_singleton] at member
    exact member ▸ facts value
  | opener bracket | closer bracket =>
    rw [Lexeme.chars, List.mem_singleton] at member
    subst member
    cases bracket <;> rfl
  | _ =>
    rw [Lexeme.chars, List.mem_singleton] at member
    subst member
    rfl

theorem whole_chars (lexeme : Lexeme) : '\n' ∉ lexeme.chars := fun member => by
  cases solid_chars lexeme _ member

theorem isBlank_chars (lexeme : Lexeme) (front back : List Char) : isBlank (front ++ (lexeme.chars ++ back)) = false := by
  obtain ⟨c, body, shape, -⟩ := lexeme.chars_first
  have solid := solid_chars lexeme c (by rw [shape]; exact List.mem_cons_self ..)
  rw [isBlank, shape, List.all_append]
  simp [solid]

/-- Moving in what follows a line that has been begun. -/
theorem indentLines_more (tidy : Tidy pieces) (whole : '\n' ∉ line) (solid : isBlank line = false) :
    Template.indentLines indent (line ++ written pieces) = indent ++ line ++ written (moved indent pieces) := by
  induction pieces generalizing line with
  | nil =>
    rw [written_nil, List.append_nil, indentLines_last whole solid]
    simp [moved]
  | cons piece pieces ih =>
    obtain ⟨⟨spaces, blank, shape⟩, others⟩ := List.forall_mem_cons.mp tidy
    have within : '\n' ∉ spaces := fun member => by cases blank _ member
    have kept := @moveGap_spaces indent _ blank
    rcases shape with shape | shape
    · have further := @ih (line ++ (spaces ++ piece.lexeme.chars)) others
        (by simp [whole, within, whole_chars]) (by rw [isBlank, List.all_append, ← isBlank, solid, Bool.false_and])
      simp only [List.append_assoc] at further
      rw [written_cons, Piece.chars, shape, List.append_assoc, further]
      simp [moved, movePiece, Piece.chars, shape, kept]
    · have further := @ih (spaces ++ piece.lexeme.chars) others (by simp [within, whole_chars])
        (by have := isBlank_chars piece.lexeme spaces []; rwa [List.append_nil] at this)
      simp only [List.append_assoc] at further
      rw [written_cons, Piece.chars, shape, List.append_assoc, List.cons_append, indentLines_line whole solid, further]
      have moves : moveGap indent ('\n' :: spaces) = '\n' :: (indent ++ spaces) := by
        show '\n' :: indent ++ moveGap indent spaces = _
        rw [kept]
        rfl
      simp [moved, movePiece, Piece.chars, shape, moves]

/-- Moving in a text that begins with a token. -/
theorem indentLines_written {piece : Piece} (first : piece.gap = []) (tidy : Tidy pieces) :
    Template.indentLines indent (written (piece :: pieces)) = indent ++ written (moved indent (piece :: pieces)) := by
  have line := @indentLines_more indent piece.lexeme.chars pieces tidy (whole_chars _)
    (by have := isBlank_chars piece.lexeme [] []; rwa [List.append_nil] at this)
  rw [written_cons, Piece.chars, first, List.nil_append, line]
  simp [moved, movePiece, Piece.chars, first, moveGap]

/-! ### The indentation of a line -/

/-- The offset is on a line that begins with the given blanks. -/
theorem lineIndent?_eq {source front : List Char} {offset : Nat} {rest : List Char} (shape : source = front ++ (indent ++ rest))
    (place : byteLength (front ++ indent) = offset) (begins : front = [] ∨ ∃ before, front = before ++ ['\n'])
    (blank : ∀ c ∈ indent, c = ' ') (solid : ∀ c ∈ rest.head?, c ≠ ' ' ∧ c ≠ '\t') :
    Template.lineIndent? source offset = some (String.ofList indent) := by
  have taken : takeBytes? offset source = some (front ++ indent) :=
    takeBytes?_eq_some_iff.mpr ⟨rest, by rw [shape, List.append_assoc], place⟩
  have dropped : dropBytes? offset source = some rest :=
    dropBytes?_eq_some_iff.mpr ⟨front ++ indent, by rw [shape, List.append_assoc], place⟩
  have line : lastLine (front ++ indent) = indent := by
    have passes : ∀ c ∈ indent.reverse, decide (c ≠ '\n') = true := by
      intro c member
      rw [blank c (List.mem_reverse.mp member)]
      rfl
    have stop : ∀ c ∈ front.reverse.head?, decide (c ≠ '\n') = false := by
      rcases begins with rfl | ⟨before, rfl⟩ <;> simp
    rw [lastLine, List.reverse_append, (dropWhile_stop passes stop).2, List.reverse_reverse]
  have passes : ∀ c ∈ indent, (decide (c = ' ') || decide (c = '\t')) = true := by
    intro c member
    rw [blank c member]
    rfl
  have stop : ∀ c ∈ rest.head?, (decide (c = ' ') || decide (c = '\t')) = false := by
    intro c member
    obtain ⟨space, tab⟩ := solid c member
    simp [space, tab]
  simp only [Template.lineIndent?, taken, dropped, Option.bind_eq_bind, Option.bind_some, line, (dropWhile_stop passes stop).2]
  rfl

/-! ### Entries moved in -/

theorem moveGap_eq_nil : moveGap indent gap = [] ↔ gap = [] := by
  cases gap with
  | nil => simp [moveGap]
  | cons c gap =>
    rw [moveGap, List.flatMap_cons]
    split <;> simp

theorem blank_moveGap (inner : IsBlank indent) (blank : IsBlank gap) : IsBlank (moveGap indent gap) := by
  intro c member
  obtain ⟨e, listed, inside⟩ := List.mem_flatMap.mp member
  split at inside
  · rcases List.mem_cons.mp inside with rfl | member
    · exact .inr rfl
    · exact inner c member
  · rw [List.mem_singleton.mp inside]
    exact blank e listed

theorem laid_moved {before : Option Lexeme} (inner : IsBlank indent) (laid : Laid before pieces) :
    Laid before (moved indent pieces) := by
  induction pieces generalizing before with
  | nil => trivial
  | cons piece pieces ih =>
    obtain ⟨blank, apart, later⟩ := laid
    exact ⟨blank_moveGap inner blank, fun empty => apart (moveGap_eq_nil.mp empty), ih later⟩

theorem track_moved (stops : TokenKind → Bool) (opened : List Bracket) (pieces : List Piece) :
    track stops opened (moved indent pieces) = track stops opened pieces := by
  induction pieces generalizing opened with
  | nil => rfl
  | cons piece pieces ih =>
    rw [moved] at ih ⊢
    simp only [List.map_cons, track, movePiece, ih]

@[simp] theorem moved_nil : moved indent [] = [] := rfl

@[simp] theorem moved_cons (piece : Piece) : moved indent (piece :: pieces) = movePiece indent piece :: moved indent pieces := rfl

@[simp] theorem moved_append (front back : List Piece) : moved indent (front ++ back) = moved indent front ++ moved indent back :=
  List.map_append

@[simp] theorem movePiece_nil (lexeme : Lexeme) : movePiece indent ⟨[], lexeme⟩ = ⟨[], lexeme⟩ := rfl

@[simp] theorem movePiece_space (lexeme : Lexeme) : movePiece indent ⟨[' '], lexeme⟩ = ⟨[' '], lexeme⟩ := rfl

/-- The definition with its lines moved in. -/
def movedDefinition (definition : Definition) : Definition :=
  { definition with
    tail := moved step definition.tail
    ends := by rw [track_moved, definition.ends]
    laid := laid_moved (by simp [step]) definition.laid }

/-- The entry as it stands in an object, with its lines moved in. -/
def movedEntry : Entry → Entry
  | .nested trait => .nested trait
  | .defined definition => .defined (movedDefinition definition)

theorem moved_definition (definition : Definition) :
    moved step (definition.pieces []) = (movedDefinition definition).pieces [] := by
  unfold Definition.pieces Definition.lead Definition.core movedDefinition
  cases definition.isImplicit <;> simp

/-- All blanks between tokens are within a line. -/
def Level (pieces : List Piece) : Prop := ∀ piece ∈ pieces, ∀ c ∈ piece.gap, c = ' '

theorem Level.tidy (level : Level pieces) : Tidy pieces := fun piece member => ⟨piece.gap, level piece member, .inl rfl⟩

theorem Level.moved (level : Level pieces) : moved indent pieces = pieces := by
  refine (List.map_congr_left fun piece member => ?_).trans (List.map_id pieces)
  rw [movePiece, moveGap_spaces (level piece member)]
  rfl

theorem level_append {front back : List Piece} : Level (front ++ back) ↔ Level front ∧ Level back :=
  List.forall_mem_append

theorem level_flatMap {items : List α} {write : α → List Piece} (each : ∀ item ∈ items, Level (write item)) :
    Level (items.flatMap write) := by
  intro piece member
  obtain ⟨item, listed, inside⟩ := List.mem_flatMap.mp member
  exact each item listed piece inside

theorem level_bracketed (name : Name) : Level (bracketed name) := by simp [Level, bracketed, group]

theorem level_separated {write : List Char → α → List Piece} (each : ∀ item, Level (write [] item))
    (others : ∀ item, Level (write [' '] item)) (items : List α) : Level (separated write items) := by
  cases items with
  | nil => simp [Level, separated]
  | cons first items =>
    refine level_append.mpr ⟨each first, level_flatMap fun item _ => ?_⟩
    exact List.forall_mem_cons.mpr ⟨by simp, others item⟩

theorem level_group {bracket : Bracket} {inner : List Piece} (level : Level inner) : Level (group [] bracket inner []) :=
  List.forall_mem_cons.mpr ⟨by simp, level_append.mpr ⟨level, by simp [Level]⟩⟩

theorem level_listPieces (fields : List Field) : Level (listPieces fields) :=
  level_group (level_separated (by simp [Level, Field.pieces]) (by simp [Level, Field.pieces]) fields)

theorem level_paramPieces (param : Option Abstraction) : Level (paramPieces param) := by
  cases param with
  | none => simp [Level, paramPieces]
  | some param =>
    obtain ⟨name, kind⟩ := param
    cases kind <;>
      simp [Level, paramPieces, Abstraction.pieces, Abstraction.inner, Abstraction.kindPieces, group]

theorem level_parentPieces (ancestor : Option Ancestor) : Level (parentPieces ancestor) := by
  cases ancestor with
  | none => simp [Level, parentPieces]
  | some ancestor =>
    obtain ⟨⟨first, more⟩, arg⟩ := ancestor
    have path : Level (more.flatMap fun name => [⟨[], .dot⟩, ⟨[], .name name⟩]) :=
      level_flatMap (by simp [Level])
    have arg : Level (Ancestor.argPieces arg) := by
      cases arg with
      | none => simp [Level, Ancestor.argPieces]
      | some name => exact level_bracketed name
    refine List.forall_mem_cons.mpr ⟨by simp, level_append.mpr ⟨?_, arg⟩⟩
    exact List.forall_mem_cons.mpr ⟨by simp, path⟩

theorem level_signature (signature : Signature) :
    Level (listPieces signature.fields ++ ⟨[], .colon⟩ :: signature.resultPieces) := by
  refine level_append.mpr ⟨level_listPieces _, List.forall_mem_cons.mpr ⟨by simp, ?_⟩⟩
  exact List.forall_mem_cons.mpr ⟨by simp, level_bracketed _⟩

theorem moved_methodPieces (methods : List Signature) :
    moved indent (methodPieces gap methods) = methodPieces (moveGap indent gap) methods := by
  induction methods with
  | nil => rfl
  | cons signature methods ih =>
    rw [methodPieces_cons, moved_append, ih, Signature.pieces, moved_append, (level_signature signature).moved]
    rfl

/-- A trait is moved in as a whole. -/
theorem moved_trait (trait : Trait) : moved step (trait.pieces [] []) = trait.pieces [] step := by
  have body : moved step (bodyPieces [] trait.methods) = bodyPieces step trait.methods := by
    cases trait.methods with
    | none => rfl
    | some methods =>
      simp only [bodyPieces, group, moved_cons, moved_append, moved_methodPieces]
      rfl
  simp only [Trait.pieces, moved_append, (level_paramPieces _).moved, (level_parentPieces _).moved, body]
  rfl

theorem tidy_trait (trait : Trait) : Tidy (trait.pieces [] []) := by
  have body : Tidy (bodyPieces [] trait.methods) := by
    cases trait.methods with
    | none => simp [bodyPieces]
    | some methods =>
      have members : Tidy (methodPieces ['\n', ' ', ' '] methods) := tidy_flatMap fun signature _ => by
        rw [Signature.pieces, tidy_append]
        exact ⟨by simp [Signature.opening], (level_signature signature).tidy⟩
      simp [bodyPieces, group, members]
  simp [Trait.pieces, Trait.opening, (level_paramPieces _).tidy, (level_parentPieces _).tidy, body]

theorem moved_entry (entry : Entry) : moved step (entry.pieces [] []) = (movedEntry entry).pieces [] step := by
  cases entry with
  | nested trait => exact moved_trait trait
  | defined definition => exact moved_definition definition

/-- The blanks in front of an entry come first. -/
theorem written_entry (entry : Entry) (gap indent : List Char) :
    written (entry.pieces gap indent) = gap ++ written (entry.pieces [] indent) := by
  cases entry with
  | nested trait => simp [Entry.pieces, Trait.pieces, Trait.opening, Piece.chars]
  | defined definition =>
    simp only [Entry.pieces, Definition.pieces, Definition.lead, Definition.core]
    cases definition.isImplicit <;> simp [Piece.chars]

/-! ### Lists of entries -/

/-- Items behind blanks; the first one may stand behind others than the rest. -/
def spread (first others : List Char) : List α → List (List Char × α)
  | [] => []
  | item :: items => (first, item) :: items.map (others, ·)

theorem intercalate_cons (separator first : List α) (others : List (List α)) :
    separator.intercalate (first :: others) = first ++ others.flatMap (separator ++ ·) := by
  induction others generalizing first with
  | nil => simp [List.intercalate]
  | cons next others ih =>
    have rest := ih next
    rw [List.intercalate] at rest ⊢
    simp_all

theorem intercalate_lead {items : List (List α)} (nonempty : items ≠ []) (lead separator : List α) :
    separator.intercalate (items.map (lead ++ ·)) = lead ++ (separator ++ lead).intercalate items := by
  cases items with
  | nil => exact absurd rfl nonempty
  | cons first others =>
    rw [List.map_cons, intercalate_cons, intercalate_cons, List.flatMap_map]
    simp

/-- The text of items with blanks between them. -/
theorem written_spread {write : List Char → α → List Piece}
    (leads : ∀ gap item, written (write gap item) = gap ++ written (write [] item)) {items : List α} (nonempty : items ≠ [])
    (first others : List Char) :
    written ((spread first others items).flatMap fun item => write item.1 item.2) =
      first ++ others.intercalate (items.map fun item => written (write [] item)) := by
  cases items with
  | nil => exact absurd rfl nonempty
  | cons item items =>
    rw [spread, List.flatMap_cons, written_append, leads first, List.map_cons, intercalate_cons, List.append_assoc]
    congr 2
    induction items with
    | nil => rfl
    | cons next items ih =>
      rw [List.map_cons, List.flatMap_cons, written_append, ih (by simp), leads others, List.map_cons, List.flatMap_cons]

theorem spread_snd (first others : List Char) (items : List α) : (spread first others items).map Prod.snd = items := by
  cases items with
  | nil => rfl
  | cons item items => simp [spread, Function.comp_def]

theorem spread_append (first others : List Char) {items : List α} (nonempty : items ≠ []) (more : List α) :
    spread first others (items ++ more) = spread first others items ++ spread others others more := by
  cases items with
  | nil => exact absurd rfl nonempty
  | cons item items => cases more <;> simp [spread]

/-- Items that are written as lists of others. -/
theorem spread_flatMap {write : α → List β} (filled : ∀ item, write item ≠ []) (first others : List Char) (items : List α) :
    (spread first others items).flatMap (fun item => spread item.1 others (write item.2)) =
      spread first others (items.flatMap write) := by
  cases items with
  | nil => rfl
  | cons item items =>
    rw [List.flatMap_cons, spread_append first others (filled item), spread, List.flatMap_cons]
    congr 1
    induction items with
    | nil => rfl
    | cons next items ih =>
      rw [List.map_cons, List.flatMap_cons, ih, List.flatMap_cons, spread_append others others (filled next)]

/-- What is in front of an entry that is not the first one: an empty line. -/
def emptyLine : List Char := '\n' :: '\n' :: step

/-- Entries with empty lines between them. -/
def linesOf (entries : List Entry) : List Char := written (entryPieces step (spread step emptyLine entries))

/-- The text, which may be moved in, of an entry. -/
structure Renders (text : String) (entry : Entry) : Prop where
  text : text.toList = written (entry.pieces [] [])
  tidy : Tidy (entry.pieces [] [])

theorem Renders.indented {text : String} {entry : Entry} (renders : Renders text entry) :
    (Template.indentBlock text "  ").toList = step ++ written ((movedEntry entry).pieces [] step) := by
  obtain ⟨word, later, shape, -⟩ := entry.begins [] []
  have tidy := renders.tidy
  have blanks : "  ".toList = step := rfl
  rw [Template.indentBlock, String.toList_ofList, renders.text, ← moved_entry, blanks]
  rw [shape] at tidy ⊢
  exact indentLines_written rfl (tidy_cons.mp tidy).2

/-- Rendered entries are the entries with empty lines between them. -/
theorem renderEntries_written {texts : List String} {entries : List Entry} (renders : List.Forall₂ Renders texts entries)
    (nonempty : entries ≠ []) : (AddInstances.renderEntries texts "  ").toList = linesOf (entries.map movedEntry) := by
  have indented : (texts.map (Template.indentBlock · "  ")).map String.toList =
      ((entries.map movedEntry).map fun entry => written (entry.pieces [] step)).map (step ++ ·) := by
    induction renders with
    | nil => rfl
    | @cons _ entry _ entries first others ih =>
      cases entries with
      | nil =>
        cases others
        simp [first.indented]
      | cons next entries =>
        rw [List.map_cons, List.map_cons, ih (by simp), first.indented]
        rfl
  have leads : ∀ gap (entry : Entry), written (entry.pieces gap step) = gap ++ written (entry.pieces [] step) :=
    fun gap entry => written_entry entry gap step
  rw [AddInstances.renderEntries, String.toList_intercalate, indented, intercalate_lead (by simpa using nonempty), linesOf,
    entryPieces, written_spread leads (by simpa using nonempty)]
  rfl

end KindLift.WrittenTemplates
