import KindLift.Proofs.GrownDecls
import KindLift.Proofs.ScannedPieces
import KindLift.Rule.AddInstances

/-! What the rule for instances puts into a unit, as tokens. Entries are written on lines of
their own: in a new body, in a body that is there, or in a new object, which may stand behind
the alias of a trait. What is written is cut into the same tokens wherever it stands. -/
namespace KindLift.InsertedTexts
open AddInstances Token Text TokenPlacement TriviaGaps ScanSteps ScannedPieces
open GrownDecls GrownObjects ImportLines LegibleTexts
open IndentedTexts (spell IsIndent)

variable {names entries : List String} {name indent rendered created : String} {words : List Word} {tail : List Char} {source : List Char}

/-! ### Names -/

/-- The name of a service is a word as it is written, and so are those of its instances. -/
structure Named (name : String) : Prop where
  word : IsToken .ident name
  bare : name.toList.head? ≠ some '\x60'
  readerT : rereads [.ident] (Template.readerTBinding name) '[' = true
  functorK : rereads [.ident] (Template.functorKBinding name) ':' = true

instance : Decidable (Named name) :=
  decidable_of_iff (IsToken .ident name ∧ name.toList.head? ≠ some '\x60' ∧ rereads [.ident] (Template.readerTBinding name) '[' = true ∧
      rereads [.ident] (Template.functorKBinding name) ':' = true)
    ⟨fun ⟨word, bare, readerT, functorK⟩ => ⟨word, bare, readerT, functorK⟩,
      fun named => ⟨named.word, named.bare, named.readerT, named.functorK⟩⟩

/-- The name as a token. -/
def nameWord (name : String) : Word := (.ident, name.toList)

theorem Named.text (named : Named name) : nameText (nameWord name) = name :=
  bareSegment_unquoted named.bare

theorem reads_word (word : IsToken .ident name) (e : Char) (stops : Stops e) (quote : e ≠ '"') (begins : Begins e tail) :
    Reads name.toList [nameWord name] tail :=
  reads_single (single_stops word stops quote) begins

/-! ### Parts of a line -/

theorem reads_blank {e : Char} (white : isWhiteSpace e = true) (tail : List Char) : Reads [e] [] tail :=
  reads_gap (gap_of_space fun _ member => (List.mem_singleton.mp member) ▸ white) tail

theorem reads_keyword (word : Keyword) (rest : List Char) :
    Reads word.spelling.toList [(.keyword word, word.spelling.toList)] (' ' :: rest) :=
  reads_single (single_lexeme (.keyword word)) (begins_cons ' ' rest)

/-- A point in front of a name. -/
theorem reads_point (word : IsToken .ident name) (rest : List Char) : Reads ['.'] [(.dot, ['.'])] (name.toList ++ rest) := by
  obtain ⟨c, body, shape, digit⟩ := word.head (.inl rfl)
  intro offset
  refine ⟨[⟨.dot, offset, ['.']⟩], rfl, scan_point (fun d first => ?_) offset⟩
  rw [shape] at first
  cases first
  exact digit

theorem reads_opening (tail : List Char) : Reads ['\x7b'] [openingWord] tail := reads_mark (fun _ => rfl) tail

theorem reads_closing (tail : List Char) : Reads ['\x7d'] [closingWord] tail := reads_mark (fun _ => rfl) tail

/-! ### Entries -/

/-- However far they are moved in, the entries are read as members of these names. -/
def Renders (names entries : List String) : Prop :=
  ∀ indent, IsIndent indent → ∃ tokens, Token.scan (renderEntries entries indent).toList = .ok tokens ∧ Entries names (tokens.map spell)

/-- Rendered entries with the line feed behind them. -/
theorem reads_rendered (renders : Renders names entries) (blanks : IsIndent indent) :
    ∃ words, Entries names words ∧ ∀ tail, Reads ((renderEntries entries indent).toList ++ ['\n']) words tail := by
  obtain ⟨tokens, scanned, entries⟩ := renders indent blanks
  exact ⟨_, entries, reads_line scanned⟩

/-- A body behind the head of an object. -/
theorem reads_opened (lines : ∀ tail, Reads (rendered.toList ++ ['\n']) words tail) (blanks : IsIndent indent) (tail : List Char) :
    Reads (" \x7b\n" ++ rendered ++ "\n" ++ indent ++ "\x7d").toList (openingWord :: (words ++ [closingWord])) tail := by
  have shape : (" \x7b\n" ++ rendered ++ "\n" ++ indent ++ "\x7d").toList =
      [' '] ++ (['\x7b'] ++ (['\n'] ++ ((rendered.toList ++ ['\n']) ++ (indent.toList ++ ['\x7d'])))) := by simp
  rw [shape]
  refine Reads.skips (reads_blank (by decide) _) ?_
  refine Reads.cons (reads_opening _) ?_
  refine Reads.skips (reads_blank (by decide) _) ?_
  refine Reads.append (lines _) ?_
  exact Reads.skips (reads_gap (gap_of_space blanks.space) _) (reads_closing _)

/-- Entries in front of the brace of a body, which goes to a line of its own. -/
theorem reads_inner (lines : ∀ tail, Reads (rendered.toList ++ ['\n']) words tail) (blanks : IsIndent indent) (tail : List Char) :
    Reads ("\n" ++ rendered ++ "\n" ++ indent).toList words tail := by
  have shape : ("\n" ++ rendered ++ "\n" ++ indent).toList = ['\n'] ++ ((rendered.toList ++ ['\n']) ++ indent.toList) := by simp
  have all := (lines (indent.toList ++ tail)).append (reads_gap (gap_of_space blanks.space) tail)
  rw [List.append_nil] at all
  rw [shape]
  exact Reads.skips (reads_blank (by decide) _) all

/-- Entries on lines in front of the line of the brace. -/
theorem reads_lines (lines : ∀ tail, Reads (rendered.toList ++ ['\n']) words tail) {separator : String} (blank : IsSpace separator.toList)
    (tail : List Char) : Reads (separator ++ rendered ++ "\n").toList words tail := by
  have shape : (separator ++ rendered ++ "\n").toList = separator.toList ++ (rendered.toList ++ ['\n']) := by simp
  rw [shape]
  exact Reads.skips (reads_gap (gap_of_space blank) _) (lines tail)

/-! ### Objects and aliases -/

theorem isIndent_lineIndent {offset : Nat} (found : Template.lineIndent? source offset = some indent) : IsIndent indent := by
  unfold Template.lineIndent? at found
  simp only [Option.bind_eq_bind, Option.bind_eq_some_iff, Option.pure_def, Option.some.injEq] at found
  obtain ⟨left, -, right, -, rfl⟩ := found
  intro c member
  rw [String.toList_ofList] at member
  simpa using List.mem_takeWhile_imp member

theorem isIndent_deeper (blanks : IsIndent indent) : IsIndent (indent ++ "  ") := by
  intro c member
  rw [String.toList_append, List.mem_append] at member
  rcases member with first | last
  · exact blanks c first
  · exact .inl (by simpa using last)

theorem isIndent_memberIndent {holderIndent : String} {members : List Member} (blanks : IsIndent holderIndent)
    (found : memberIndent? source holderIndent members = some indent) : IsIndent indent := by
  cases members with
  | nil =>
    cases found
    exact isIndent_deeper blanks
  | cons first others => exact isIndent_lineIndent found

/-- A new object is read as one with these members. -/
theorem reads_created {interface : Interface} (named : Named interface.name) (renders : Renders names entries)
    (made : newHolder? source interface entries = some created) : ∃ words, Entries names words ∧
      ∀ tail, Reads created.toList (objectWords (nameWord interface.name) words) tail := by
  obtain ⟨indent, found, same⟩ := Option.bind_eq_some_iff.mp made
  cases same
  have blanks := isIndent_lineIndent found
  obtain ⟨words, members, lines⟩ := reads_rendered renders (isIndent_deeper blanks)
  refine ⟨words, members, fun tail => ?_⟩
  have shape : (indent ++ "object " ++ interface.name ++ " \x7b\n" ++ renderEntries entries (indent ++ "  ") ++ "\n" ++ indent ++ "\x7d").toList =
      indent.toList ++ ("object".toList ++ ([' '] ++ (interface.name.toList ++
        (" \x7b\n" ++ renderEntries entries (indent ++ "  ") ++ "\n" ++ indent ++ "\x7d").toList))) := by simp
  rw [shape]
  refine Reads.skips (reads_gap (gap_of_space blanks.space) _) ?_
  refine Reads.cons (reads_keyword .objectKw _) ?_
  refine Reads.skips (reads_blank (by decide) _) ?_
  refine Reads.cons ?_ (reads_opened lines blanks tail)
  exact reads_word named.word ' ' ⟨rfl, rfl⟩ (by decide) (by simp [Begins])

/-- The type that an alias is applied to. -/
def asyncWord : Word := (.ident, "Future".toList)

/-- The alias of a trait. -/
theorem reads_alias (named : Named name) (tail : List Char) :
    Reads (aliasText .default name).toList (aliasWords (nameWord name) asyncWord) tail := by
  have shape : (aliasText .default name).toList = "trait".toList ++ ([' '] ++ (name.toList ++ ([' '] ++ ("extends".toList ++ ([' '] ++
      (name.toList ++ (['.'] ++ (name.toList ++ (['['] ++ ("Future".toList ++ [']'])))))))))) := by
    simp [aliasText, Conventions.default]
  have async : IsToken .ident "Future" := by decide +kernel
  rw [shape]
  refine Reads.cons (reads_keyword .traitKw _) ?_
  refine Reads.skips (reads_blank (by decide) _) ?_
  refine Reads.cons (reads_word named.word ' ' ⟨rfl, rfl⟩ (by decide) rfl) ?_
  refine Reads.skips (reads_blank (by decide) _) ?_
  refine Reads.cons (reads_keyword .extendsKw _) ?_
  refine Reads.skips (reads_blank (by decide) _) ?_
  refine Reads.cons (reads_word named.word '.' ⟨rfl, rfl⟩ (by decide) rfl) ?_
  refine Reads.cons (by rw [List.append_assoc]; exact reads_point named.word _) ?_
  refine Reads.cons (reads_word named.word '[' ⟨rfl, rfl⟩ (by decide) rfl) ?_
  refine Reads.cons (reads_mark (fun _ => rfl) _) ?_
  exact Reads.cons (reads_word async ']' ⟨rfl, rfl⟩ (by decide) rfl) (reads_mark (fun _ => rfl) _)

end KindLift.InsertedTexts
