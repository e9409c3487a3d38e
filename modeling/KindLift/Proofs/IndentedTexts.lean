import KindLift.Proofs.ScanRuns
import KindLift.Proofs.Traversal
import KindLift.Proofs.WrittenTemplates

/-! Texts of which the lines are moved in. The white space at the beginning of lines stands
between tokens, where it means nothing, unless a token goes over the end of a line. Moving
lines in twice is moving them in once by both indents. -/
namespace KindLift.IndentedTexts
open Token Text TextBoundary TokenPlacement TokenLocality TriviaGaps ScanSteps ScanRuns
open Traversal (toOption_eq_some_iff)

variable {chars chars' front body next rest indent line : List Char} {c : Char} {offset : Nat} {glued : Bool} {tokens : List Token}

/-! ### Lines -/

theorem joinWith_cons (line next : List Char) (lines : List (List Char)) :
    joinWith '\n' (line :: next :: lines) = line ++ '\n' :: joinWith '\n' (next :: lines) := rfl

theorem joinWith_splitOn (chars : List Char) : joinWith '\n' (splitOn '\n' chars) = chars := by
  induction chars with
  | nil => rfl
  | cons c chars ih =>
    obtain ⟨line, lines, shape⟩ := List.exists_cons_of_ne_nil (WrittenTemplates.splitOn_ne_nil chars)
    rw [splitOn]
    split
    · rename_i feed
      rw [shape, joinWith_cons, ← shape, ih, feed]
      rfl
    · rw [shape] at ih ⊢
      cases lines with
      | nil => exact congrArg (c :: ·) ih
      | cons next lines => exact congrArg (c :: ·) ih

/-- A text is cut into its lines again. -/
theorem splitOn_joinWith {lines : List (List Char)} (filled : lines ≠ []) (whole : ∀ line ∈ lines, '\n' ∉ line) :
    splitOn '\n' (joinWith '\n' lines) = lines := by
  induction lines with
  | nil => exact absurd rfl filled
  | cons line lines ih =>
    obtain ⟨first, others⟩ := List.forall_mem_cons.mp whole
    cases lines with
    | nil => exact WrittenTemplates.splitOn_last line first
    | cons next lines =>
      rw [joinWith_cons, WrittenTemplates.splitOn_line line _ first, ih (List.cons_ne_nil _ _) others]

/-- Lines hold no line feeds. -/
theorem splitOn_inline (chars : List Char) : ∀ line ∈ splitOn '\n' chars, '\n' ∉ line := by
  induction chars with
  | nil => simp [splitOn]
  | cons c chars ih =>
    obtain ⟨line, lines, shape⟩ := List.exists_cons_of_ne_nil (WrittenTemplates.splitOn_ne_nil chars)
    rw [splitOn]
    split
    · exact List.forall_mem_cons.mpr ⟨List.not_mem_nil, ih⟩
    · rename_i other
      rw [shape] at ih ⊢
      obtain ⟨first, others⟩ := List.forall_mem_cons.mp ih
      exact List.forall_mem_cons.mpr ⟨List.not_mem_cons_of_ne_of_not_mem (Ne.symm other) first, others⟩

/-- Lines that have been moved in are moved in further: blank lines stay blank, and no others
become so. -/
theorem indentLines_indentLines (space : IsSpace indent) (inline : '\n' ∉ indent) (outer chars : List Char) :
    Template.indentLines outer (Template.indentLines indent chars) = Template.indentLines (outer ++ indent) chars := by
  have whole := splitOn_inline chars
  have moved : ∀ line ∈ (splitOn '\n' chars).map fun line => if isBlank line then [] else indent ++ line, '\n' ∉ line := by
    intro line member
    obtain ⟨old, listed, rfl⟩ := List.mem_map.mp member
    split
    · exact List.not_mem_nil
    · exact List.not_mem_append inline (whole old listed)
  have filled : (splitOn '\n' chars).map (fun line => if isBlank line then [] else indent ++ line) ≠ [] :=
    mt List.map_eq_nil_iff.mp (WrittenTemplates.splitOn_ne_nil chars)
  rw [Template.indentLines, Template.indentLines, splitOn_joinWith filled moved, List.map_map, Template.indentLines]
  congr 2
  funext line
  rw [Function.comp_apply]
  split
  · rfl
  · rename_i solid
    have stays : isBlank (indent ++ line) = isBlank line := by
      rw [isBlank, List.all_append, List.all_eq_true.mpr space, Bool.true_and, isBlank]
    rw [stays, if_neg solid, List.append_assoc]

/-- Behind a line feed the lines that are moved in differ in white space only. -/
theorem respaced_lines (space : IsSpace indent) (line : List Char) (lines : List (List Char)) :
    Respaced ('\n' :: joinWith '\n' (line :: lines)) ('\n' :: joinWith '\n' ((line :: lines).map fun line =>
      if isBlank line then [] else indent ++ line)) := by
  -- One line with what comes behind it.
  have moved : ∀ (line rest rest' : List Char), Respaced rest rest' →
      Respaced ('\n' :: (line ++ rest)) ('\n' :: ((if isBlank line then [] else indent ++ line) ++ rest')) := by
    intro line rest rest' respaced
    split
    · rename_i blank
      exact .line (List.all_eq_true.mp blank) (List.forall_mem_nil _) respaced
    · rw [List.append_assoc]
      exact @Respaced.line [] indent _ _ (List.forall_mem_nil _) space ((Respaced.refl line).append respaced)
  induction lines generalizing line with
  | nil =>
    have last := moved line [] [] .nil
    rwa [List.append_nil, List.append_nil] at last
  | cons next lines ih => exact moved line _ _ (ih next)

theorem respaced_indentLines (space : IsSpace indent) (chars : List Char) :
    Respaced ('\n' :: chars) ('\n' :: Template.indentLines indent chars) := by
  obtain ⟨line, lines, shape⟩ := List.exists_cons_of_ne_nil (WrittenTemplates.splitOn_ne_nil chars)
  have moved := respaced_lines space line lines
  rw [← shape, joinWith_splitOn] at moved
  exact moved

/-! ### Tokens -/

/-- The kind and the text of a token. -/
def spell (token : Token) : TokenKind × List Char := (token.kind, token.lexeme)

theorem alike_of_respaced (respaced : Respaced chars chars') : Alike chars chars' := by
  induction respaced with
  | nil => exact .inl rfl
  | keep c _ ih => exact ih.prepend [c]
  | line => exact .inr ⟨[], '\n', _, _, by decide, fun same => absurd same (by decide), rfl, rfl⟩

/-- What stands on one line is kept. -/
theorem respaced_inline (inline : '\n' ∉ body) (respaced : Respaced (body ++ rest) chars') :
    ∃ rest', chars' = body ++ rest' ∧ Respaced rest rest' := by
  induction body generalizing chars' with
  | nil => exact ⟨chars', rfl, respaced⟩
  | cons c body ih =>
    obtain ⟨differs, others⟩ := List.ne_and_not_mem_of_not_mem_cons inline
    obtain ⟨later, rfl, behind⟩ := Respaced.cons_inline respaced differs.symm
    obtain ⟨rest', rfl, kept⟩ := ih others behind
    exact ⟨rest', rfl, kept⟩

/-- A character that is no white space stands in both texts. -/
theorem respaced_split (solid : isWhiteSpace c = false) (respaced : Respaced (front ++ c :: rest) chars') :
    ∃ front' rest', chars' = front' ++ c :: rest' ∧ Respaced front front' ∧ Respaced rest rest' := by
  generalize whole : front ++ c :: rest = chars at respaced
  induction respaced generalizing front with
  | nil => cases front <;> cases whole
  | keep d later ih =>
    cases front with
    | nil =>
      cases whole
      exact ⟨[], _, rfl, .nil, later⟩
    | cons e front =>
      obtain ⟨rfl, same⟩ := List.cons.inj whole
      obtain ⟨front', rest', rfl, kept, behind⟩ := ih same
      exact ⟨e :: front', rest', rfl, .keep e kept, behind⟩
  | @line lead lead' _ _ space space' later ih =>
    cases front with
    | nil =>
      cases whole
      cases solid
    | cons e front =>
      obtain ⟨rfl, split⟩ := List.cons.inj whole
      -- The character stands behind the white space.
      obtain ⟨middle, rfl, same⟩ : ∃ middle, front = lead ++ middle ∧ middle ++ c :: rest = _ := by
        rcases List.append_eq_append_iff.mp split with ⟨more, rfl, same⟩ | ⟨more, rfl, same⟩
        · cases more with
          | nil => exact ⟨[], by simp, same⟩
          | cons d more =>
            obtain ⟨rfl, -⟩ := List.cons.inj same
            rw [space c (by simp)] at solid
            cases solid
        · exact ⟨more, rfl, same.symm⟩
      obtain ⟨front', rest', rfl, kept, behind⟩ := ih same
      exact ⟨'\n' :: (lead' ++ front'), rest', by simp, .line space space' kept, behind⟩

/-- No token goes over the end of a line. -/
def Inline (spelled : List (TokenKind × List Char)) : Prop := ∀ piece ∈ spelled, '\n' ∉ piece.2

/-- A text is read as the same tokens when its lines are moved in, if none goes over the end
of a line. -/
theorem scanFrom_respaced (scanned : scanFrom offset glued chars = .ok tokens) (inline : Inline (tokens.map spell))
    (respaced : Respaced chars chars') (offset' : Nat) :
    ∃ tokens', scanFrom offset' glued chars' = .ok tokens' ∧ tokens'.map spell = tokens.map spell := by
  induction tokens generalizing offset glued chars chars' offset' with
  | nil =>
    have moved := skipTrivia_respaced (skipTrivia_nothing scanned) (List.append_nil _).symm respaced rfl (.inl ⟨rfl, rfl⟩)
    rw [List.append_nil] at moved
    exact ⟨[], scanFrom_nil offset' moved, rfl⟩
  | cons token tokens ih =>
    obtain ⟨first, others⟩ := List.forall_mem_cons.mp inline
    obtain ⟨gap, c, body, next, rfl, skipped, read, shape, later⟩ := scanFrom_first scanned
    have lexeme : token.lexeme = c :: body := by rw [shape]
    replace first : '\n' ∉ c :: body := lexeme ▸ first
    obtain ⟨gap', behind, rfl, kept, whole⟩ := respaced_split (by simpa using skipTrivia_solid skipped) respaced
    obtain ⟨next', rfl, moved⟩ := respaced_inline (List.not_mem_of_not_mem_cons first) whole
    obtain ⟨tokens', scanned', same⟩ := ih later others moved (Token.mk token.kind (offset' + byteLength gap') (c :: body)).stop
    refine ⟨⟨token.kind, offset' + byteLength gap', c :: body⟩ :: tokens', ?_, ?_⟩
    · rw [scanFrom_step skipped read kept (alike_of_respaced moved), scanned']
      rfl
    · rw [List.map_cons, List.map_cons, same, spell, spell, lexeme]

theorem scan_indentLines (space : IsSpace indent) (scanned : Token.scan chars = .ok tokens) (inline : Inline (tokens.map spell)) :
    ∃ tokens', Token.scan (Template.indentLines indent chars) = .ok tokens' ∧ tokens'.map spell = tokens.map spell := by
  have feed : isWhiteSpace '\n' = true := rfl
  -- A line feed in front of a text makes no difference.
  obtain ⟨led, read, first⟩ := scanFrom_respaced (scan_eq_ok_iff.mp scanned) inline (.refl chars) (0 + byteLength ['\n'])
  rw [← scanFrom_space feed 0 false] at read
  obtain ⟨moved, read', second⟩ := scanFrom_respaced read (first ▸ inline) (respaced_indentLines space chars) 0
  rw [scanFrom_space feed] at read'
  have inline' : Inline (moved.map spell) := by rwa [second, first]
  obtain ⟨tokens', read'', third⟩ := scanFrom_respaced read' inline' (.refl _) 0
  exact ⟨tokens', scan_eq_ok_iff.mpr read'', third.trans (second.trans first)⟩

/-! ### Blocks -/

/-- Spaces and tabs. -/
def IsIndent (indent : String) : Prop := ∀ c ∈ indent.toList, c = ' ' ∨ c = '\t'

theorem IsIndent.space {indent : String} (blanks : IsIndent indent) : IsSpace indent.toList := by
  intro c member
  rcases blanks c member with rfl | rfl <;> rfl

theorem IsIndent.inline {indent : String} (blanks : IsIndent indent) : '\n' ∉ indent.toList := by
  intro member
  rcases blanks '\n' member with same | same <;> exact absurd same (by decide)

theorem text_eq_of_spell {tokens' : List Token} (same : tokens'.map spell = tokens.map spell) :
    tokens'.map Token.text = tokens.map Token.text := by
  have texts := congrArg (List.map fun piece : TokenKind × List Char => String.ofList (unquote piece.2)) same
  rwa [List.map_map, List.map_map] at texts

/-- A block that is moved in has the tokens it had, of the same kinds and texts, when none of
them goes over the end of a line; and any block that is moved in twice is moved in by both
indents, the later one in front. -/
theorem indentBlock_tokens (text indent : String) (blanks : IsIndent indent) :
    (∀ tokens, Token.scan text.toList = .ok tokens → (∀ token ∈ tokens, '\n' ∉ token.lexeme) →
      ∃ tokens', Token.scan (Template.indentBlock text indent).toList = .ok tokens' ∧
        tokens'.map spell = tokens.map spell ∧ tokens'.map Token.text = tokens.map Token.text) ∧
      ∀ outer, IsIndent outer →
        Template.indentBlock (Template.indentBlock text indent) outer = Template.indentBlock text (outer ++ indent) := by
  constructor
  · intro tokens scanned inline
    have lines : Inline (tokens.map spell) := List.forall_mem_map.mpr inline
    obtain ⟨tokens', scanned', same⟩ := scan_indentLines blanks.space scanned lines
    refine ⟨tokens', ?_, same, text_eq_of_spell same⟩
    rw [Template.indentBlock, String.toList_ofList]
    exact scanned'
  · intro outer _
    rw [Template.indentBlock, Template.indentBlock, String.toList_ofList, Template.indentBlock, String.toList_append,
      indentLines_indentLines blanks.space blanks.inline]

/-- A comment over several lines, one of them with a mark at its end, a line that is blank but
not empty, and a string at the beginning of a line. -/
def scatteredText : String := "def f /* a *\n/ // b\n \u00a0\n * c */: s\n\"$\x7bx\x7d\"// d */\n\n  \x60g h\x60"

theorem scatteredText_tokens : ∃ tokens tokens', Token.scan scatteredText.toList = .ok tokens ∧
    tokens.map Token.kind = [.keyword .defKw, .ident, .colon, .ident, .literal, .ident] ∧
    (∀ token ∈ tokens, '\n' ∉ token.lexeme) ∧
    Token.scan (Template.indentBlock scatteredText "\t ").toList = .ok tokens' ∧ tokens'.map spell = tokens.map spell ∧
    tokens'.map Token.text = tokens.map Token.text ∧
    Template.indentBlock (Template.indentBlock scatteredText "\t ") "  " = Template.indentBlock scatteredText "  \t " := by
  have facts : (Token.scan scatteredText.toList).toOption.map (fun tokens =>
      (tokens.map Token.kind, tokens.all fun token => !token.lexeme.contains '\n')) =
      some ([.keyword .defKw, .ident, .colon, .ident, .literal, .ident], true) := by decide +kernel
  obtain ⟨tokens, scanned, facts⟩ := Option.map_eq_some_iff.mp facts
  obtain ⟨kinds, lines⟩ := Prod.mk.inj facts
  have inline : ∀ token ∈ tokens, '\n' ∉ token.lexeme := by simpa using lines
  replace scanned := toOption_eq_some_iff.mp scanned
  have tabbed : IsIndent "\t " := by simp [IsIndent]
  obtain ⟨read, moved⟩ := indentBlock_tokens scatteredText "\t " tabbed
  obtain ⟨tokens', scanned', same, texts⟩ := read tokens scanned inline
  exact ⟨tokens, tokens', scanned, kinds, inline, scanned', same, texts, moved "  " (by simp [IsIndent])⟩

end KindLift.IndentedTexts
