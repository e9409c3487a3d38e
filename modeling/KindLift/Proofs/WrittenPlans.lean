import KindLift.Proofs.EditApplication
import KindLift.Proofs.WrittenServices

/-! What the rule for instances does to a service that is written token by token. The
edits for a service, made one after the other, leave the text of its declarations with
everything they lack. -/
namespace KindLift.WrittenPlans
open Token Text TextBoundary TokenPlacement EditApplication WrittenTokens WrittenReading WrittenGroups WrittenTraits
open WrittenObjects WrittenUnits WrittenTemplates WrittenInstances WrittenNesting WrittenServices

variable {source before after front back front' back' gap lead indent : List Char} {offset : Nat} {edits others : List Edit}
  {pieces : List Piece} {lexeme : Lexeme}

/-! ### Splices one after the other -/

/-- What is in front of all edits stays. -/
theorem spliced_behind (later : Spliced (offset + byteLength front) back others back') :
    Spliced offset (front ++ back) others (front ++ back') := by
  cases later with
  | done => exact .done
  | @replaced _ gapText old rest edits result edit gap range later =>
    rw [← List.append_assoc, ← List.append_assoc front gapText]
    refine .replaced ?_ range later
    rw [byteLength_append, ← Nat.add_assoc, gap]

theorem spliced_append (first : Spliced offset front edits front')
    (second : Spliced (offset + byteLength front) back others back') :
    Spliced offset (front ++ back) (edits ++ others) (front' ++ back') := by
  induction first with
  | done => exact spliced_behind second
  | @replaced offset gapText old rest edits result edit gap range _ ih =>
    have moved : edit.stop + byteLength rest = offset + byteLength (gapText ++ (old ++ rest)) := by
      simp only [byteLength_append]
      omega
    rw [← moved] at second
    simp only [List.append_assoc, List.cons_append]
    exact .replaced gap range (ih second)

/-- Text that is put behind a text. -/
theorem spliced_insertion {text : String} {spot : Nat} (here : offset + byteLength front = spot) :
    Spliced offset (front ++ back) [.insertion spot text] (front ++ (text.toList ++ back)) := by
  have empty := @Spliced.replaced offset front [] back [] back (.insertion spot text) here (Nat.add_zero _) .done
  exact empty

/-! ### Beginnings of lines -/

/-- A token that begins a line behind some blanks. -/
theorem lineIndent?_piece (sits : Sits source offset (⟨lead ++ indent, lexeme⟩ :: pieces))
    (begins : lead = [] ∧ offset = 0 ∨ ∃ front, lead = front ++ ['\n']) (blank : ∀ c ∈ indent, c = ' ') :
    Template.lineIndent? source (offset + byteLength (lead ++ indent)) = some (String.ofList indent) := by
  obtain ⟨before, after, shape, place⟩ := sits
  obtain ⟨c, body, chars, solid⟩ := lexeme.chars_first
  refine @lineIndent?_eq indent source (before ++ lead) _ (c :: (body ++ (written pieces ++ after))) ?_ ?_ ?_ blank ?_
  · rw [shape, written_cons, Piece.chars, chars]
    simp
  · rw [List.append_assoc, byteLength_append, place]
  · rcases begins with ⟨rfl, rfl⟩ | ⟨front, rfl⟩
    · left
      rw [List.append_nil]
      cases before with
      | nil => rfl
      | cons c before =>
        have := byteLength_pos (List.cons_ne_nil c before)
        omega
    · exact .inr ⟨before ++ front, by rw [List.append_assoc]⟩
  · rintro _ ⟨⟩
    constructor <;>
      · rintro rfl
        exact absurd solid (by decide)

/-! ### Bodies -/

/-- An empty body with its braces on one line. -/
theorem extendBody?_empty {place : Nat} (shape : source = before ++ '\x7b' :: '\x7d' :: after) (open' : byteLength before = place)
    (rendered : String) : AddInstances.extendBody? source ⟨place, place + 1⟩ "" rendered =
      some (.insertion (place + 1) ("\n" ++ rendered ++ "\n")) := by
  have taken : takeBytes? (place + 1) source = some (before ++ ['\x7b']) :=
    takeBytes?_eq_some_iff.mpr ⟨'\x7d' :: after, by rw [shape]; simp, by simp [open', Char.utf8Size]⟩
  have line : ¬ place < place + 1 - byteLength (lastLine (before ++ ['\x7b'])) := by
    have single : byteLength ['\x7b'] = 1 := rfl
    rw [lastLine_snoc (by decide), byteLength_append, single]
    omega
  simp only [AddInstances.extendBody?, taken, Option.bind_eq_bind, Option.bind_some, line, decide_false, Bool.false_and,
    Bool.false_eq_true, if_false, String.append_empty]
  rfl

/-- A body with its closing brace on a line of its own. -/
theorem extendBody?_lines {inner : List Char} {place : Nat}
    (shape : source = before ++ '\x7b' :: (inner ++ '\n' :: '\x7d' :: after)) (open' : byteLength before = place)
    (solid : isBlank inner = false) (rendered : String) :
    AddInstances.extendBody? source ⟨place, place + 1 + byteLength inner + 1⟩ "" rendered =
      some (.insertion (place + 1 + byteLength inner + 1) ("\n" ++ rendered ++ "\n")) := by
  have brace : byteLength ['\x7b'] = 1 := rfl
  have feed : byteLength ['\n'] = 1 := rfl
  have taken : takeBytes? (place + 1 + byteLength inner + 1) source = some (before ++ (['\x7b'] ++ (inner ++ ['\n']))) := by
    refine takeBytes?_eq_some_iff.mpr ⟨'\x7d' :: after, by rw [shape]; simp, ?_⟩
    simp only [byteLength_append, brace, feed, open']
    omega
  have line : lastLine (before ++ (['\x7b'] ++ (inner ++ ['\n']))) = [] := by simp [lastLine]
  have cut : Body.inner? ⟨place, place + 1 + byteLength inner + 1⟩ source = some (inner ++ ['\n']) := by
    refine slice?_eq_some_iff.mpr ⟨before ++ ['\x7b'], '\x7d' :: after, by rw [shape]; simp, ?_, ?_⟩
    · rw [byteLength_append, brace, open']
    · rw [byteLength_append, feed, Nat.add_assoc (place + 1)]
  have filled : isBlank (inner ++ ['\n']) = false := by
    rw [isBlank, List.all_append, ← isBlank, solid, Bool.false_and]
  have inside : place < place + 1 + byteLength inner + 1 := by omega
  have empty : isBlank [] = true := rfl
  simp only [AddInstances.extendBody?, taken, line, byteLength_nil, Nat.sub_zero, inside, empty, decide_true, Bool.and_self,
    if_true, cut, filled, Option.bind_eq_bind, Option.bind_some, Bool.false_eq_true, if_false]
  rfl

/-! ### Entries of objects -/

theorem written_entries {entries : List Entry} (nonempty : entries ≠ []) (first : List Char) :
    written (entryPieces step (spread first emptyLine entries)) =
      first ++ emptyLine.intercalate (entries.map fun entry => written (entry.pieces [] step)) :=
  written_spread (fun gap entry => written_entry entry gap step) nonempty first emptyLine

theorem linesOf_append {olds news : List Entry} (nonempty : olds ≠ []) (filled : news ≠ []) :
    linesOf (olds ++ news) = linesOf olds ++ (['\n', '\n'] ++ linesOf news) := by
  have behind : written (entryPieces step (spread emptyLine emptyLine news)) = ['\n', '\n'] ++ linesOf news := by
    rw [linesOf, written_entries filled, written_entries filled]
    rfl
  rw [linesOf, spread_append step emptyLine nonempty, entryPieces, List.flatMap_append, written_append, ← entryPieces,
    ← entryPieces, behind, ← linesOf]

theorem isBlank_linesOf {entries : List Entry} (nonempty : entries ≠ []) : isBlank ('\n' :: linesOf entries) = false := by
  cases entries with
  | nil => exact absurd rfl nonempty
  | cons entry entries =>
    obtain ⟨word, later, shape, -⟩ := entry.begins step step
    have solid := isBlank_chars (.keyword word) ('\n' :: step)
      (written later ++ written (entryPieces step (entries.map (emptyLine, ·))))
    have first : linesOf (entry :: entries) = written (entry.pieces step step) ++
        written (entryPieces step (entries.map (emptyLine, ·))) := written_append _ _
    rw [first, shape]
    simpa [Piece.chars] using solid

theorem written_inside_empty : written (Specimen.insideOf []).pieces = [' ', '\x7b', '\x7d'] := rfl

theorem written_inside {entries : List Entry} (nonempty : entries ≠ []) : written (Specimen.insideOf entries).pieces =
    [' ', '\x7b'] ++ ('\n' :: linesOf entries ++ ['\n', '\x7d']) := by
  have feed : written (entryPieces step (spread ('\n' :: step) emptyLine entries)) = '\n' :: linesOf entries := by
    rw [linesOf, written_entries nonempty, written_entries nonempty]
    rfl
  simp [Inside.pieces, Specimen.insideOf, group, nonempty, feed, Piece.chars, Lexeme.chars, openingChar, closingChar]

/-- An object that is made for an interface. -/
theorem newHolder?_text {interface : Interface} {name : Name} {texts : List String} {entries : List Entry}
    (named : interface.name = name.text) (line : Template.lineIndent? source interface.span.start = some "")
    (renders : List.Forall₂ Renders texts entries) (nonempty : entries ≠ []) :
    ∃ text, AddInstances.newHolder? source interface texts = some text ∧
      text.toList = written (Object.pieces [] ⟨name, some (Specimen.insideOf (entries.map movedEntry))⟩) := by
  refine ⟨"" ++ "object " ++ interface.name ++ " \x7b\n" ++ AddInstances.renderEntries texts ("" ++ "  ") ++ "\n" ++ "" ++ "\x7d",
    ?_, ?_⟩
  · rw [AddInstances.newHolder?, line]
    rfl
  · have blanks : "" ++ "  " = "  " := rfl
    have inside := @written_inside (entries.map movedEntry) (by simpa using nonempty)
    have rendered : (AddInstances.renderEntries texts "  ").toList = linesOf (entries.map movedEntry) :=
      renderEntries_written renders nonempty
    simp only [blanks, String.toList_append, rendered, named, Object.pieces, Object.opening,
      Object.insidePieces, written_append, inside]
    simp [Piece.chars, Lexeme.chars, Keyword.spelling]

/-- An object with entries of any kind. -/
def objectOf (name : Name) (inside : Option (List Entry)) : Object := ⟨name, inside.map Specimen.insideOf⟩

theorem written_objectOf (name : Name) (inside : Option (List Entry)) (gap : List Char) :
    written ((objectOf name inside).pieces gap) =
      written (Object.opening gap (objectOf name none)) ++ written (Object.insidePieces (inside.map Specimen.insideOf)) := by
  rw [Object.pieces, written_append]
  rfl

/-- The member that stands first in a body tells how far entries are moved in. -/
theorem memberIndent?_objectOf {name : Name} {inside : Option (List Entry)}
    (sits : Sits source offset ((objectOf name inside).pieces gap)) :
    AddInstances.memberIndent? source "" ((objectOf name inside).holder gap offset).members = some "  " := by
  rcases inside with - | - | ⟨entry, olds⟩
  · rfl
  · rfl
  · obtain ⟨word, later, shape, -⟩ := entry.begins ('\n' :: step) step
    have inside := (sits.right (Object.opening gap (objectOf name (some (entry :: olds))))).tail
    have first : Sits source (offset + width (Object.opening gap (objectOf name (some (entry :: olds)))) +
        (Piece.mk [' '] (.opener .brace)).width) (entry.pieces ('\n' :: step) step) :=
      (inside.left (entryPieces step ((Specimen.insideOf (entry :: olds)).entries))).left _
    rw [shape] at first
    have start : ∀ place, (entry.read ('\n' :: step) step place).1.span.start = place + byteLength ('\n' :: step) := by
      intro place
      cases entry with
      | nested trait => rfl
      | defined definition =>
        show place + byteLength (leadOf (definition.pieces ('\n' :: step))) = _
        rw [definition.leadOf_pieces]
    show Template.lineIndent? source (entry.read ('\n' :: step) step _).1.span.start = _
    rw [start]
    exact @lineIndent?_piece source ['\n'] step _ _ _ first (.inr ⟨[], rfl⟩) (by simp [step])

/-- Entries are added to a body. -/
theorem extendBody?_spliced {olds news : List Entry} {rendered : String}
    (shape : source = before ++ (written (Specimen.insideOf olds).pieces ++ after)) (start : byteLength before = offset)
    (filled : news ≠ []) (text : rendered.toList = linesOf news) :
    ∃ edit, AddInstances.extendBody? source ((Specimen.insideOf olds).body offset) "" rendered = some edit ∧
      Spliced offset (written (Specimen.insideOf olds).pieces) [edit] (written (Specimen.insideOf (olds ++ news)).pieces) := by
  have space : byteLength [' '] = 1 := rfl
  by_cases empty : olds = []
  · subst empty
    have made := @extendBody?_empty source (before ++ [' ']) after (offset + 1)
      (by rw [shape, written_inside_empty]; simp) (by rw [byteLength_append, start, space]) rendered
    have spliced := @spliced_insertion [' ', '\x7b'] ['\x7d'] offset ("\n" ++ rendered ++ "\n") (offset + 2) rfl
    refine ⟨_, made, ?_⟩
    rw [List.nil_append, written_inside filled, written_inside_empty]
    simpa [text] using spliced
  · have opened : byteLength [' ', '\x7b'] = 2 := rfl
    have closed : byteLength ['\n', '\x7d'] = 2 := rfl
    have feed : byteLength ['\n'] = 1 := rfl
    have body : (Specimen.insideOf olds).body offset =
        ⟨offset + 1, offset + 1 + 1 + byteLength ('\n' :: linesOf olds) + 1⟩ := by
      rw [Inside.body, width, written_inside empty, byteLength_append, byteLength_append, opened, closed, Body.mk.injEq]
      omega
    have made := @extendBody?_lines source (before ++ [' ']) after ('\n' :: linesOf olds) (offset + 1)
      (by rw [shape, written_inside empty]; simp) (by rw [byteLength_append, start, space]) (isBlank_linesOf empty) rendered
    rw [← body] at made
    have spliced := @spliced_insertion ([' ', '\x7b'] ++ ('\n' :: linesOf olds ++ ['\n'])) ['\x7d'] offset
      ("\n" ++ rendered ++ "\n") (offset + 1 + 1 + byteLength ('\n' :: linesOf olds) + 1) (by
        rw [byteLength_append, byteLength_append, opened, feed]
        omega)
    refine ⟨_, made, ?_⟩
    rw [written_inside empty, written_inside (by simp [empty]), linesOf_append empty filled]
    simpa [text] using spliced

/-- An object without a body gets one. -/
theorem extendHolder?_bare {holder : Holder} {indent inner : String} {texts : List String} (bare : holder.body = none)
    (line : Template.lineIndent? source holder.span.start = some indent)
    (members : AddInstances.memberIndent? source indent holder.members = some inner) :
    AddInstances.extendHolder? source holder texts =
      some (.insertion holder.span.stop (" \x7b\n" ++ AddInstances.renderEntries texts inner ++ "\n" ++ indent ++ "\x7d")) := by
  simp only [AddInstances.extendHolder?, line, members, bare, Option.bind_eq_bind, Option.bind_some, Option.pure_def]

theorem extendHolder?_body {holder : Holder} {body : Body} {indent inner : String} {texts : List String} (filled : holder.body = some body)
    (line : Template.lineIndent? source holder.span.start = some indent)
    (members : AddInstances.memberIndent? source indent holder.members = some inner) :
    AddInstances.extendHolder? source holder texts =
      AddInstances.extendBody? source body indent (AddInstances.renderEntries texts inner) := by
  simp only [AddInstances.extendHolder?, line, members, filled, Option.bind_eq_bind, Option.bind_some]

/-- Entries are added to an object, whether it has a body or not. -/
theorem extendHolder?_spliced {name : Name} {inside : Option (List Entry)} {texts : List String} {entries : List Entry}
    (sits : Sits source offset ((objectOf name inside).pieces ['\n', '\n']))
    (renders : List.Forall₂ Renders texts entries) (nonempty : entries ≠ []) :
    ∃ edit, AddInstances.extendHolder? source ((objectOf name inside).holder ['\n', '\n'] offset) texts = some edit ∧
      Spliced offset (written ((objectOf name inside).pieces ['\n', '\n'])) [edit]
        (written ((objectOf name (some (inside.getD [] ++ entries.map movedEntry))).pieces ['\n', '\n'])) := by
  have filled : entries.map movedEntry ≠ [] := by simpa using nonempty
  have line : Template.lineIndent? source ((objectOf name inside).holder ['\n', '\n'] offset).span.start = some "" :=
    @lineIndent?_piece source ['\n', '\n'] [] offset _ (.keyword .objectKw) sits (.inr ⟨['\n'], rfl⟩) (by simp)
  have rendered : (AddInstances.renderEntries texts "  ").toList = linesOf (entries.map movedEntry) :=
    renderEntries_written renders nonempty
  have members := memberIndent?_objectOf sits
  rw [written_objectOf, written_objectOf]
  cases inside with
  | none =>
    have stop : offset + byteLength (written (Object.opening ['\n', '\n'] (objectOf name none))) =
        ((objectOf name none).holder ['\n', '\n'] offset).span.stop := by
      show _ = offset + width (Object.opening ['\n', '\n'] (objectOf name none) ++ [])
      rw [List.append_nil, width]
    refine ⟨_, extendHolder?_bare rfl line members, ?_⟩
    have whole := @spliced_insertion (written (Object.opening ['\n', '\n'] (objectOf name none))) [] offset
      (" \x7b\n" ++ AddInstances.renderEntries texts "  " ++ "\n" ++ "" ++ "\x7d") _ stop
    have same : (" \x7b\n" ++ AddInstances.renderEntries texts "  " ++ "\n" ++ "" ++ "\x7d").toList =
        written (Specimen.insideOf (entries.map movedEntry)).pieces := by
      rw [written_inside filled]
      simp [rendered]
    rw [same, List.append_nil (written (Specimen.insideOf (entries.map movedEntry)).pieces)] at whole
    exact whole
  | some olds =>
    obtain ⟨before, after, shape, start⟩ := sits
    rw [written_objectOf, List.append_assoc, ← List.append_assoc] at shape
    obtain ⟨edit, made, spliced⟩ := @extendBody?_spliced source _ after _ olds (entries.map movedEntry)
      (AddInstances.renderEntries texts "  ") shape (by rw [byteLength_append, start]) filled rendered
    exact ⟨edit, (extendHolder?_body rfl line members).trans made, spliced_behind spliced⟩

/-! ### Plans -/

variable {specimen : Specimen} {shape : Shape}

theorem written_trait (trait : Trait) (gap : List Char) :
    written (trait.pieces gap []) = gap ++ written (trait.pieces [] []) := written_entry (.nested trait) gap []

theorem written_object (object : Object) (gap : List Char) :
    written (object.pieces gap) = gap ++ written (object.pieces []) := by
  simp [Object.pieces, Object.opening, Piece.chars]

/-- A trait is replaced as a whole. -/
theorem replace?_trait (trait : Trait) (gap : List Char) (offset : Nat) (text : String) :
    ∃ edit, Edit.replace? (trait.interface gap [] offset).span.start (trait.interface gap [] offset).span.stop text = some edit ∧
      Spliced offset (written (trait.pieces gap [])) [edit] (gap ++ text.toList) := by
  have lead : byteLength gap ≤ width (trait.pieces gap []) := leadOf_le_width (trait.pieces gap [])
  have ordered : (trait.interface gap [] offset).span.start ≤ (trait.interface gap [] offset).span.stop :=
    Nat.add_le_add_left lead offset
  refine ⟨⟨_, _, text, ordered⟩, dif_pos ordered, ?_⟩
  have start : offset + byteLength gap = (trait.interface gap [] offset).span.start := rfl
  have stop : (trait.interface gap [] offset).span.start + byteLength (written (trait.pieces [] [])) =
      (trait.interface gap [] offset).span.stop := by
    show offset + byteLength gap + _ = offset + width (trait.pieces gap [])
    rw [width, written_trait trait gap, byteLength_append, Nat.add_assoc]
  have spliced := @Spliced.replaced offset gap (written (trait.pieces [] [])) [] [] []
    ⟨_, _, text, ordered⟩ start stop .done
  rw [List.append_nil, List.append_nil, ← written_trait] at spliced
  exact spliced

theorem aliasText_text (specimen : Specimen) :
    (AddInstances.aliasText .default specimen.name.text).toList = written (specimen.aliased.pieces [] []) := by
  delta AddInstances.aliasText
  simp [Conventions.default, Specimen.aliased, Trait.pieces, Trait.opening, paramPieces,
    parentPieces, Ancestor.pieces, Ancestor.argPieces, Path.pieces, bodyPieces, bracketed, group, Piece.chars, Lexeme.chars,
    openingChar, closingChar, Keyword.spelling, future]

/-- The blanks between declarations: an empty line. -/
def blankLine : List Char := ['\n', '\n']

/-- The interface that is moved, as it is rendered. -/
theorem relocatedEntry?_renders (is : specimen.shape = some shape) (sits : Sits source offset (specimen.trait.pieces gap [])) :
    ∃ texts, AddInstances.relocatedEntry? source .default (specimen.interface gap offset) (.migrating shape) = some texts ∧
      List.Forall₂ Renders texts specimen.relocated := by
  cases shape with
  | legacy =>
    obtain ⟨text, found, renders⟩ := nestedInterface?_trait sits (show specimen.trait.methods = some specimen.methods from rfl)
    refine ⟨[text], ?_, ?_⟩
    · show Option.map _ (Template.nestedInterface? source (specimen.trait.interface gap [] offset) .default) = _
      rw [found]
      rfl
    · rw [Specimen.relocated, if_pos is]
      exact .cons renders .nil
  | modern =>
    refine ⟨[], rfl, ?_⟩
    rw [Specimen.relocated, if_neg (by rw [is]; simp)]
    exact .nil

theorem added_ne_nil (specimen : Specimen) : specimen.added ≠ [] := by
  simp [Specimen.added, Specimen.missing]

theorem declPieces_trait (trait : Trait) (gap : List Char) :
    declPieces (spread gap blankLine [.trait trait]) = trait.pieces gap [] := List.append_nil _

theorem declPieces_pair (trait : Trait) (object : Object) (gap : List Char) :
    declPieces (spread gap blankLine [.trait trait, .object object]) = trait.pieces gap [] ++ object.pieces blankLine := by
  simp [declPieces, spread, Declaration.pieces]

section Edits

variable {interface : Interface} {holder : Holder} {texts : List String} {created : String} {edit replacement : Edit}
  {conventions : Conventions} {index place : Nat}

theorem edits?_legacy_alone (made : AddInstances.newHolder? source interface texts = some created)
    (replaced : Edit.replace? interface.span.start interface.span.stop
      (AddInstances.aliasText conventions interface.name ++ "\n\n" ++ created) = some edit) :
    AddInstances.edits? source conventions ⟨.legacy, index, interface, none⟩ (.migrating .legacy) texts = some [edit] := by
  simp [AddInstances.edits?, Phase.relocates, made, replaced]

theorem edits?_legacy_beside (made : AddInstances.extendHolder? source holder texts = some edit)
    (replaced : Edit.replace? interface.span.start interface.span.stop
      (AddInstances.aliasText conventions interface.name) = some replacement) :
    AddInstances.edits? source conventions ⟨.legacy, index, interface, some (place, holder)⟩ (.migrating .legacy) texts =
      some [replacement, edit] := by
  simp [AddInstances.edits?, Phase.relocates, made, replaced]

theorem edits?_modern_alone (made : AddInstances.newHolder? source interface texts = some created) (filled : texts ≠ []) :
    AddInstances.edits? source conventions ⟨.modern, index, interface, none⟩ (.migrating .modern) texts =
      some [.insertion interface.span.stop ("\n\n" ++ created)] := by
  simp [AddInstances.edits?, Phase.relocates, made, filled]

theorem edits?_modern_beside (made : AddInstances.extendHolder? source holder texts = some edit) (filled : texts ≠ []) :
    AddInstances.edits? source conventions ⟨.modern, index, interface, some (place, holder)⟩ (.migrating .modern) texts =
      some [edit] := by
  simp [AddInstances.edits?, Phase.relocates, made, filled]

theorem plan?_eq {service : Service} {edits : List Edit}
    (relocated : AddInstances.relocatedEntry? source conventions service.interface (Phase.ofService service).advance = some texts)
    (made : AddInstances.edits? source conventions service (Phase.ofService service).advance
      (texts ++ (AddInstances.missingInstances conventions service).map Prod.snd) = some edits) :
    AddInstances.plan? source conventions service = some ⟨service, (Phase.ofService service).advance.advance,
      (AddInstances.missingInstances conventions service).map Prod.fst, edits⟩ := by
  simp [AddInstances.plan?, relocated, made]

end Edits

theorem texts_ne_nil {texts : List String} (renders : List.Forall₂ Renders texts specimen.added) : texts ≠ [] := by
  rintro rfl
  exact added_ne_nil specimen (List.forall₂_nil_left_iff.mp renders)

/-- The edits of a service without an object. -/
theorem edits?_created (is : specimen.shape = some shape) (alone : specimen.object = none)
    (sits : Sits source offset (specimen.trait.pieces gap []))
    (begins : gap = [] ∧ offset = 0 ∨ ∃ front, gap = front ++ ['\n']) {texts : List String}
    (renders : List.Forall₂ Renders texts specimen.added) (index : Nat) :
    ∃ edits, AddInstances.edits? source .default ⟨shape, index, specimen.interface gap offset, none⟩ (.migrating shape) texts =
        some edits ∧
      Spliced offset (written (specimen.trait.pieces gap [])) edits
        (written (declPieces (spread gap blankLine specimen.migrated))) := by
  have line : Template.lineIndent? source (specimen.interface gap offset).span.start = some "" := by
    have first := @lineIndent?_piece source gap [] offset _ (.keyword .traitKw)
      (by rw [List.append_nil]; exact sits) begins (by simp)
    rw [List.append_nil] at first
    exact first
  obtain ⟨created, made, text⟩ := @newHolder?_text source (specimen.interface gap offset) specimen.name _ _ rfl line renders
    (added_ne_nil specimen)
  have extended : specimen.extended = ⟨specimen.name, some (Specimen.insideOf (specimen.added.map movedEntry))⟩ := by
    rw [Specimen.extended, Specimen.definitions, alone]
    rfl
  rw [← extended] at text
  cases shape with
  | legacy =>
    obtain ⟨edit, replaced, spliced⟩ := replace?_trait specimen.trait gap offset
      (AddInstances.aliasText .default specimen.name.text ++ "\n\n" ++ created)
    refine ⟨[edit], edits?_legacy_alone made replaced, ?_⟩
    have migrated : specimen.migrated = [.trait specimen.aliased, .object specimen.extended] := by
      rw [Specimen.migrated, is]
    rw [migrated, declPieces_pair, written_append, written_trait specimen.aliased gap, written_object _ blankLine, ← text,
      ← aliasText_text]
    simpa [blankLine] using spliced
  | modern =>
    have inserted := @spliced_insertion (written (specimen.trait.pieces gap [])) [] offset ("\n\n" ++ created)
      (specimen.interface gap offset).span.stop rfl
    refine ⟨_, edits?_modern_alone made (texts_ne_nil renders), ?_⟩
    have migrated : specimen.migrated = [.trait specimen.trait, .object specimen.extended] := by
      rw [Specimen.migrated, is]
    rw [List.append_nil, List.append_nil] at inserted
    rw [migrated, declPieces_pair, written_append, written_object _ blankLine, ← text]
    simpa [blankLine] using inserted

/-- The edits of a service make of its declarations what they are to become. -/
theorem edits?_spliced (is : specimen.shape = some shape)
    (sits : Sits source offset (declPieces (spread gap blankLine specimen.decls)))
    (begins : gap = [] ∧ offset = 0 ∨ ∃ front, gap = front ++ ['\n']) {texts : List String}
    (renders : List.Forall₂ Renders texts specimen.added) (index place : Nat) :
    ∃ edits, AddInstances.edits? source .default
        ⟨shape, index, specimen.interface gap offset, (specimen.holder gap offset).map (place, ·)⟩ (.migrating shape) texts = some edits ∧
      Spliced offset (written (declPieces (spread gap blankLine specimen.decls))) edits
        (written (declPieces (spread gap blankLine specimen.migrated))) := by
  cases object : specimen.object with
  | none =>
    have decls : specimen.decls = [.trait specimen.trait] := by
      rw [Specimen.decls, Specimen.holder?, object]
      rfl
    have holder : specimen.holder gap offset = none := by
      rw [Specimen.holder, Specimen.holder?, object]
      rfl
    rw [decls, declPieces_trait] at sits ⊢
    rw [holder]
    exact edits?_created is object sits begins renders index
  | some inside =>
    have decls : specimen.decls = [.trait specimen.trait, .object (objectOf specimen.name (inside.map (List.map .defined)))] := by
      rw [Specimen.decls, Specimen.holder?, object]
      cases inside <;> rfl
    have holder : specimen.holder gap offset = some ((objectOf specimen.name (inside.map (List.map .defined))).holder
        ['\n', '\n'] (specimen.holderOffset gap offset)) := by
      rw [Specimen.holder, Specimen.holder?, object]
      cases inside <;> rfl
    have extended : specimen.extended = objectOf specimen.name
        (some ((inside.map (List.map Entry.defined)).getD [] ++ specimen.added.map movedEntry)) := by
      rw [Specimen.extended, Specimen.definitions, object]
      cases inside <;> rfl
    rw [decls, declPieces_pair] at sits ⊢
    rw [holder]
    obtain ⟨edit, made, spliced⟩ := extendHolder?_spliced (sits.right _) renders (added_ne_nil specimen)
    rw [← extended] at spliced
    cases shape with
    | legacy =>
      obtain ⟨replacement, replaced, first⟩ := replace?_trait specimen.trait gap offset
        (AddInstances.aliasText .default specimen.name.text)
      refine ⟨[replacement, edit], edits?_legacy_beside made replaced, ?_⟩
      have migrated : specimen.migrated = [.trait specimen.aliased, .object specimen.extended] := by
        rw [Specimen.migrated, is]
      rw [aliasText_text, ← written_trait] at first
      rw [migrated, declPieces_pair, written_append, written_append]
      exact spliced_append first spliced
    | modern =>
      refine ⟨[edit], edits?_modern_beside made (texts_ne_nil renders), ?_⟩
      have migrated : specimen.migrated = [.trait specimen.trait, .object specimen.extended] := by
        rw [Specimen.migrated, is]
      rw [migrated, declPieces_pair, written_append, written_append]
      exact spliced_behind spliced

/-- The plan for a service. -/
theorem plan?_spliced (is : specimen.shape = some shape)
    (sits : Sits source offset (declPieces (spread gap blankLine specimen.decls)))
    (begins : gap = [] ∧ offset = 0 ∨ ∃ front, gap = front ++ ['\n']) (index place : Nat) :
    ∃ plan, AddInstances.plan? source .default
        ⟨shape, index, specimen.interface gap offset, (specimen.holder gap offset).map (place, ·)⟩ = some plan ∧
      plan.bindings = specimen.missing.map (fun definition => definition.name.text) ∧
      Spliced offset (written (declPieces (spread gap blankLine specimen.decls))) plan.edits
        (written (declPieces (spread gap blankLine specimen.migrated))) := by
  have trait : Sits source offset (specimen.trait.pieces gap []) := sits.left _
  obtain ⟨texts, relocated, first⟩ := relocatedEntry?_renders is trait
  obtain ⟨bindings, others⟩ := @missingInstances_eq gap offset specimen
    ⟨shape, index, specimen.interface gap offset, (specimen.holder gap offset).map (place, ·)⟩ place rfl rfl
  obtain ⟨edits, made, spliced⟩ := edits?_spliced is sits begins (List.rel_append first others) index place
  exact ⟨_, plan?_eq relocated made, bindings, spliced⟩

end KindLift.WrittenPlans
