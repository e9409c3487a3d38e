import KindLift.Decl.Object
import KindLift.Proofs.WrittenTraits

/-! Objects as they are written: nested traits, and definitions of which only the
name matters. -/
namespace KindLift.WrittenObjects
open Token Text KindLift.Parser QualifiedTokens WrittenTokens WrittenReading WrittenGroups WrittenTraits

variable {source : List Char} {offset : Nat} {gap indent : List Char} {rest tokens : List Token} {before : Option Lexeme}

/-! ### Entries -/

/-- A definition whose inside does not matter. What follows its name is laid out
behind the name, and its brackets match. -/
structure Definition where
  isImplicit : Bool
  word : Keyword
  kind : MemberKind
  defines : memberKind? word = some kind
  name : Name
  tail : List Piece
  ends : track endsStatement [] tail = some []
  laid : Laid (some (.name name)) tail

namespace Definition

/-- The keyword of the definition and what follows it. -/
def core (gap : List Char) (definition : Definition) : List Piece :=
  ⟨gap, .keyword definition.word⟩ :: ⟨[' '], .name definition.name⟩ :: definition.tail

/-- The modifier in front of the keyword. -/
def lead (gap : List Char) (definition : Definition) : List Piece :=
  if definition.isImplicit then [⟨gap, .keyword .implicitKw⟩] else []

def pieces (gap : List Char) (definition : Definition) : List Piece :=
  definition.lead gap ++ definition.core (if definition.isImplicit then [' '] else gap)

/-- The member that stands at `offset`. -/
def member (gap : List Char) (offset : Nat) (definition : Definition) : Member :=
  ⟨definition.name.text, definition.kind, definition.isImplicit, reach offset (definition.pieces gap)⟩

theorem leadOf_pieces (gap : List Char) (definition : Definition) : leadOf (definition.pieces gap) = gap := by
  unfold pieces lead core
  cases definition.isImplicit <;> rfl

/-- The keyword begins a statement. -/
theorem starts (definition : Definition) : definition.word.startsStatement = true ∧
    isBare (.keyword definition.word) = true ∧ definition.word ≠ .traitKw ∧ definition.word ≠ .importKw := by
  have defines := definition.defines
  cases shape : definition.word <;> rw [shape] at defines <;> first
    | cases defines
    | decide

end Definition

/-- What stands in the body of an object. -/
inductive Entry where
  | nested (trait : Trait)
  | defined (definition : Definition)

namespace Entry

/-- The entry behind blanks, of which the last line is `indent`. -/
def pieces (gap indent : List Char) : Entry → List Piece
  | nested trait => trait.pieces gap indent
  | defined definition => definition.pieces gap

/-- The entry that stands at `offset`: the member, and the trait if it is one. -/
def read (gap indent : List Char) (offset : Nat) : Entry → Member × Option Interface
  | nested trait => (⟨trait.name.text, .interface, false, reach offset (trait.pieces gap indent)⟩,
      some (trait.interface gap indent offset))
  | defined definition => (definition.member gap offset, none)

end Entry

theorem reads_modifiers_definition {definition : Definition} {gap' : List Char} :
    ReadsAs source modifiers offset (definition.lead gap)
      (place (offset + width (definition.lead gap)) (definition.core gap') ++ rest) ⟨definition.isImplicit, false⟩ := by
  have bare : ∀ behind, isBare ((Piece.mk gap' (.keyword definition.word)).token behind).kind = true :=
    fun _ => definition.starts.2.1
  unfold Definition.lead
  cases definition.isImplicit with
  | false => exact reads_modifiers_bare (bare _)
  | true =>
    show ReadsAs source modifiers offset ([⟨gap, .keyword .implicitKw⟩] ++ []) _ _
    exact .again _ (.look reads_peek? (.next reads_bump .pure)) (by simp) (reads_modifiers_bare (bare _))

/-- The name of the definition; the rest is read over. -/
theorem reads_namedStatement {definition : Definition} (ends : EndsStatement rest) :
    ReadsAs source namedStatement offset (definition.core gap) rest
      (some ((Piece.mk [' '] (.name definition.name)).token (offset + (Piece.mk gap (.keyword definition.word)).width))) :=
  .next reads_bump (.next reads_name? (.last (reads_skipRest (items_of_track definition.ends) ends) .pure))

theorem reads_holderStatement_definition {definition : Definition} {seen : HolderMembers} {start : Nat}
    (begins : start = offset + byteLength gap) (ends : EndsStatement rest) :
    ReadsAs source (holderStatement start seen) offset (definition.pieces gap) rest
      { seen with members := seen.members ++ [definition.member gap offset] } := by
  obtain ⟨-, -, notTrait, notImport⟩ := definition.starts
  refine .bind _ reads_modifiers_definition (.look reads_peekKind? ?_)
  dsimp only [Definition.core, place_cons, List.cons_append, List.head?_cons, Option.map_some, Piece.token_kind, Lexeme.kind]
  split
  · exact absurd (TokenKind.keyword.inj (Option.some.inj ‹_›)) notTrait
  · exact absurd (TokenKind.keyword.inj (Option.some.inj ‹_›)) notImport
  · rename_i word _ _ same
    obtain rfl := TokenKind.keyword.inj (Option.some.inj same)
    rw [definition.defines]
    refine .last (reads_namedStatement ends) (.glance reads_lastStop ?_)
    have whole : reach offset (definition.pieces gap) = ⟨start, offset + width (definition.lead gap) +
        width (definition.core (if definition.isImplicit then [' '] else gap))⟩ := by
      rw [reach, definition.leadOf_pieces, begins, Nat.add_assoc, ← width_append]
      rfl
    rw [HolderMembers.addMember, text_name, Definition.member, whole]
    exact .pure
  · rename_i none
    exact absurd rfl (none _)

theorem reads_holderStatement_trait {trait : Trait} {seen : HolderMembers} {start : Nat}
    (sits : Sits source offset (trait.pieces gap indent)) (begins : start = offset + byteLength gap)
    (ends : EndsStatement rest) :
    ReadsAs source (holderStatement start seen) offset (trait.pieces gap indent) rest
      ⟨seen.members ++ [⟨trait.name.text, .interface, false, reach offset (trait.pieces gap indent)⟩],
        seen.nested ++ [trait.interface gap indent offset]⟩ := by
  refine .look (reads_modifiers_bare rfl) (.look reads_peekKind? ?_)
  refine .last (reads_interface sits ends) (.glance reads_lastStop ?_)
  rw [begins]
  exact .pure

/-- An entry adds itself to the members, and to the nested traits if it is one. -/
def addEntry (seen : HolderMembers) (entry : Member × Option Interface) : HolderMembers :=
  ⟨seen.members ++ [entry.1], seen.nested ++ entry.2.toList⟩

theorem reads_holderStatement {entry : Entry} {seen : HolderMembers} {start : Nat}
    (sits : Sits source offset (entry.pieces gap indent)) (begins : start = offset + byteLength gap)
    (ends : EndsStatement rest) :
    ReadsAs source (holderStatement start seen) offset (entry.pieces gap indent) rest
      (addEntry seen (entry.read gap indent offset)) := by
  cases entry with
  | nested trait => exact reads_holderStatement_trait sits begins ends
  | defined definition =>
    have read := @reads_holderStatement_definition source offset gap rest definition seen start begins ends
    rw [addEntry, Entry.read, Option.toList_none, List.append_nil]
    exact read

/-! ### Bodies -/

/-- Entries with the blanks in front of them. -/
def entryPieces (indent : List Char) (entries : List (List Char × Entry)) : List Piece :=
  entries.flatMap fun entry => entry.2.pieces entry.1 indent

/-- The entries that stand from `offset` on. -/
def entriesAt (indent : List Char) : Nat → List (List Char × Entry) → List (Member × Option Interface) :=
  readAll (fun entry => entry.2.pieces entry.1 indent) fun offset entry => entry.2.read entry.1 indent offset

/-- Definitions are no nested traits. -/
theorem nested_defined {entries : List (List Char × Entry)} (defined : ∀ entry ∈ entries.map Prod.snd, ∃ definition, entry = .defined definition)
    (offset : Nat) : (entriesAt indent offset entries).filterMap Prod.snd = [] := by
  induction entries generalizing offset with
  | nil => rfl
  | cons entry entries ih =>
    obtain ⟨⟨definition, same⟩, others⟩ := List.forall_mem_cons.mp defined
    have none : (entry.2.read entry.1 indent offset).2 = none := by rw [same]; rfl
    rw [entriesAt] at ih ⊢
    rw [readAll, List.filterMap_cons_none none, ih others]

/-- The members and the nested traits among what was read. -/
def addEntries (seen : HolderMembers) (entries : List (Member × Option Interface)) : HolderMembers :=
  entries.foldl addEntry seen

/-- One more statement of an object, or the end of its body. -/
def holderBodyStep (openBrace : Nat) (seen : HolderMembers) : Parser (Step HolderMembers (HolderMembers × Body)) := do
  match ← closeBody? openBrace with
  | some body => return .done (seen, body)
  | none => return .again (← holderStatement (← here) seen)

/-- An entry begins with a keyword that starts a statement. -/
theorem Entry.begins (entry : Entry) (gap indent : List Char) : ∃ word later,
    entry.pieces gap indent = ⟨gap, .keyword word⟩ :: later ∧ word.startsStatement = true := by
  cases entry with
  | nested trait => exact ⟨_, _, rfl, rfl⟩
  | defined definition =>
    have starts := definition.starts.1
    simp only [Entry.pieces, Definition.pieces, Definition.lead, Definition.core]
    cases definition.isImplicit with
    | false => exact ⟨_, _, rfl, starts⟩
    | true => exact ⟨_, _, rfl, rfl⟩

theorem endsStatement_entries {entries : List (List Char × Entry)} {gap' : List Char} :
    EndsStatement (place offset (entryPieces indent entries ++ [⟨gap', .closer .brace⟩]) ++ rest) := by
  cases entries with
  | nil =>
    rintro _ ⟨⟩
    exact .inl rfl
  | cons entry entries =>
    obtain ⟨word, later, shape, starts⟩ := entry.2.begins entry.1 indent
    intro token first
    rw [entryPieces, List.flatMap_cons, shape] at first
    cases first
    exact .inr ⟨word, rfl, starts⟩

theorem reads_holderBodySteps {entries : List (List Char × Entry)} {gap' : List Char} {openBrace : Nat}
    {seen : HolderMembers} (sits : Sits source offset (entryPieces indent entries)) :
    ReadsAs source (iterate (holderBodyStep openBrace) seen) offset
      (entryPieces indent entries ++ [⟨gap', .closer .brace⟩]) rest
      (addEntries seen (entriesAt indent offset entries),
        ⟨openBrace, offset + width (entryPieces indent entries) + byteLength gap'⟩) := by
  induction entries generalizing offset seen with
  | nil => exact .done (.last (reads_closeBody? openBrace) .pure)
  | cons entry entries ih =>
    have shape : entryPieces indent (entry :: entries) = entry.2.pieces entry.1 indent ++ entryPieces indent entries := by
      simp [entryPieces]
    obtain ⟨word, later, first, starts⟩ := entry.2.begins entry.1 indent
    rw [shape] at sits ⊢
    have further := @ih _ (addEntry seen (entry.2.read entry.1 indent offset)) (sits.right _)
    rw [List.append_assoc, width_append, ← Nat.add_assoc]
    refine .again _ ?_ (by simp [first]) further
    have statement := @reads_holderStatement source offset entry.1 indent _ entry.2 seen _ (sits.left _) rfl
      (@endsStatement_entries (offset + width (entry.2.pieces entry.1 indent)) indent rest entries gap')
    rw [first] at statement ⊢
    refine .look (reads_closeBody?_other (by simp) (by simp)) (.look reads_here ?_)
    exact .last statement .pure

/-! ### Objects -/

/-- The inside of an object: entries with the blanks in front of them, and the blanks
in front of the closing brace. -/
structure Inside where
  entries : List (List Char × Entry)
  close : List Char

/-- An object, which may do without a body. -/
structure Object where
  name : Name
  inside : Option Inside

/-- Entries of objects are moved in by two blanks. -/
def step : List Char := [' ', ' ']

namespace Inside

def pieces (inside : Inside) : List Piece := group [' '] .brace (entryPieces step inside.entries) inside.close

/-- The entries of the body that stands at `offset`. -/
def read (offset : Nat) (inside : Inside) : List (Member × Option Interface) :=
  entriesAt step (offset + (Piece.mk [' '] (.opener .brace)).width) inside.entries

/-- The braces of the body that stands at `offset`. -/
def body (offset : Nat) (inside : Inside) : Body := ⟨offset + 1, offset + width inside.pieces - 1⟩

/-- An object without a body has no entries. -/
def readOptional (offset : Nat) : Option Inside → List (Member × Option Interface)
  | none => []
  | some inside => inside.read offset

end Inside

namespace Object

def opening (gap : List Char) (object : Object) : List Piece :=
  [⟨gap, .keyword .objectKw⟩, ⟨[' '], .name object.name⟩]

def insidePieces : Option Inside → List Piece
  | none => []
  | some inside => inside.pieces

def pieces (gap : List Char) (object : Object) : List Piece := object.opening gap ++ insidePieces object.inside

/-- The entries of the object that stands at `offset`. -/
def entriesRead (gap : List Char) (offset : Nat) (object : Object) : List (Member × Option Interface) :=
  Inside.readOptional (offset + width (object.opening gap)) object.inside

/-- The object that stands at `offset`. -/
def holder (gap : List Char) (offset : Nat) (object : Object) : Holder where
  name := object.name.text
  nameSpan := reach (offset + (Piece.mk gap (.keyword .objectKw)).width) [⟨[' '], .name object.name⟩]
  span := reach offset (object.pieces gap)
  members := (object.entriesRead gap offset).map Prod.fst
  nested := (object.entriesRead gap offset).filterMap Prod.snd
  body := object.inside.map (Inside.body (offset + width (object.opening gap)))

end Object

theorem addEntries_eq (seen : HolderMembers) (entries : List (Member × Option Interface)) :
    addEntries seen entries = ⟨seen.members ++ entries.map Prod.fst, seen.nested ++ entries.filterMap Prod.snd⟩ := by
  induction entries generalizing seen with
  | nil => simp [addEntries]
  | cons entry entries ih =>
    rw [addEntries, List.foldl_cons, ← addEntries, ih]
    obtain ⟨member, nested⟩ := entry
    cases nested <;> simp [addEntry]

theorem reads_optionalHolderBody {inside : Option Inside} (sits : Sits source offset (Object.insidePieces inside))
    (ends : EndsStatement rest) :
    ReadsAs source optionalHolderBody offset (Object.insidePieces inside) rest
      (⟨(Inside.readOptional offset inside).map Prod.fst, (Inside.readOptional offset inside).filterMap Prod.snd⟩,
        inside.map (Inside.body offset)) := by
  cases inside with
  | none => exact .look (reads_isAt_other (ends.ne (by simp) (by simp))) .pure
  | some inside =>
    have body : ReadsAs source holderBody offset inside.pieces rest
        (⟨(inside.read offset).map Prod.fst, (inside.read offset).filterMap Prod.snd⟩, inside.body offset) := by
      have braces : inside.body offset = ⟨offset + byteLength [' '], offset + (Piece.mk [' '] (.opener .brace)).width +
          width (entryPieces step inside.entries) + byteLength inside.close⟩ := by
        rw [Inside.body, Inside.pieces, width_group, width_closer]
        simp only [Body.mk.injEq]
        exact ⟨rfl, by omega⟩
      refine .next (reads_openBody ?_) ?_
      · intro token first
        rcases endsStatement_entries token first with closes | ⟨word, begins, -⟩
        · simp [closes]
        · simp [begins]
      · have steps := @reads_holderBodySteps source _ step rest inside.entries inside.close (offset + byteLength [' '])
          ⟨[], []⟩ (sits.tail.left _)
        rw [addEntries_eq] at steps
        rw [braces]
        exact steps
    exact .look (reads_isAt rfl) (.last body .pure)

theorem reads_holder {object : Object} (sits : Sits source offset (object.pieces gap)) (ends : EndsStatement rest) :
    ReadsAs source holder offset (object.pieces gap) rest (object.holder gap offset) := by
  have opened : offset + (Piece.mk gap (.keyword .objectKw)).width + (Piece.mk [' '] (.name object.name)).width =
      offset + width (object.opening gap) := by simp [Object.opening, Nat.add_assoc]
  have head : EndsHead (place (offset + width (object.opening gap)) (Object.insidePieces object.inside) ++ rest) := by
    cases object.inside with
    | none => exact .inr ends
    | some inside => exact .inl rfl
  refine .next (reads_expect rfl) (.next reads_expectName ?_)
  rw [opened, text_name]
  show ReadsAs source _ _ (Object.insidePieces object.inside) rest _
  refine .look (.glance (reads_eats_other (head.ne (by simp) (by simp) (by simp [Keyword.startsStatement]))) .pure) ?_
  refine .last (reads_optionalHolderBody (sits.right _) ends) (.glance reads_lastStop ?_)
  have whole : reach offset (object.pieces gap) = ⟨offset + byteLength gap, offset + width (object.opening gap) +
      width (Object.insidePieces object.inside)⟩ := by
    rw [Nat.add_assoc, ← width_append]
    rfl
  rw [Object.holder, whole, span_token]
  exact .pure

/-! ### Layout -/

theorem laid_entry {entry : Entry} (blank : IsBlank gap) (nonempty : gap ≠ []) (inner : IsBlank indent) :
    Laid before (entry.pieces gap indent) := by
  cases entry with
  | nested trait => exact laid_trait blank (fun empty => absurd empty nonempty) inner
  | defined definition =>
    simp only [Entry.pieces, Definition.pieces, Definition.lead, Definition.core]
    cases definition.isImplicit <;> simp [Laid, blank, nonempty, definition.laid]

/-- All entries stand behind blanks. -/
structure Inside.IsLaid (inside : Inside) : Prop where
  entries : ∀ entry ∈ inside.entries, IsBlank entry.1 ∧ entry.1 ≠ []
  close : IsBlank inside.close

theorem laid_object {object : Object} (blank : IsBlank gap) (apart : gap = [] → before = none)
    (inside : ∀ inside ∈ object.inside, inside.IsLaid) : Laid before (object.pieces gap) := by
  have first : gap = [] → ∀ last ∈ before, last.separate (.keyword .objectKw) = true := by
    intro empty last member
    rw [apart empty] at member
    cases member
  have behind : ∀ before, Laid before (Object.insidePieces object.inside) := by
    intro before
    cases shape : object.inside with
    | none => trivial
    | some body =>
      have laid := inside body shape
      have entries := laid_flatMap fun entry member before => @laid_entry entry.1 step before entry.2
        (laid.entries entry member).1 (laid.entries entry member).2 (by simp [step])
      simp [Object.insidePieces, Inside.pieces, entryPieces, group, laid_cons, laid_append, entries, laid.close, Laid]
  simp only [Object.pieces, Object.opening, laid_append, behind, laid_cons, and_true]
  exact ⟨blank, first, by simp [Laid]⟩

end KindLift.WrittenObjects
