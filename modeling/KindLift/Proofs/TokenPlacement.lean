import KindLift.Proofs.TextBoundary
import KindLift.Token.Lexer

/-! The tokens of a source text stand in it in order: each one spells the
characters at its own offset and begins where the one before it has ended, or
later. Every reader of the scanner leaves a final part of what it was given,
which is all the proof needs to know of white space, comments and literals. -/
namespace KindLift.TokenPlacement
open Text Token TextBoundary

variable {kind : TokenKind}

theorem skipTrivia_suffix (skipped : skipTrivia trivia chars = .ok rest) : rest <:+ chars := by
  fun_induction skipTrivia trivia chars <;> grind [List.IsSuffix.trans, List.suffix_cons]

theorem closeFrames_suffix (closed : closeFrames frames chars = .ok rest) : rest <:+ chars := by
  fun_induction closeFrames frames chars with
  | case1 =>
    cases closed
    exact List.suffix_rfl
  | case2 => cases closed
  | case3 => cases closed
  | case4 =>
    rename_i ih
    exact (ih closed).trans ((List.drop_suffix _ _).trans (List.suffix_cons _ _))

theorem skipString_suffix (read : skipString spliced chars = .ok rest) : rest <:+ chars := by
  unfold skipString at read
  split at read
  · rename_i tail
    exact (closeFrames_suffix read).trans ((List.suffix_cons _ _).trans (List.suffix_cons _ _))
  · exact closeFrames_suffix read

theorem skipQuote_suffix (read : skipQuote chars = .ok rest) : rest <:+ chars := by
  unfold skipQuote at read
  split at read
  · rename_i tail
    split at read
    · rename_i shape
      cases read
      have found := List.dropWhile_suffix (l := '\\' :: tail) fun c => c ≠ '\'' && c ≠ '\n'
      rw [shape] at found
      exact (List.suffix_cons _ _).trans found
    · cases read
  · cases read
    exact (List.suffix_cons _ _).trans (List.suffix_cons _ _)
  · split at read
    · cases read
      exact List.dropWhile_suffix _
    · cases read
  · cases read

theorem skipNumber_suffix (previous : Char) (chars : List Char) :
    skipNumber previous chars <:+ chars := by
  induction chars generalizing previous with
  | nil => exact List.suffix_refl _
  | cons c rest ih =>
    simp only [skipNumber]
    split
    · exact (ih c).trans (List.suffix_cons _ _)
    · exact List.suffix_refl _

theorem skipWord_suffix (first : Char) (rest : List Char) : skipWord first rest <:+ rest := by
  unfold skipWord
  split
  · exact (List.dropWhile_suffix _).trans (List.dropWhile_suffix _)
  · exact List.dropWhile_suffix _

/-- The character that a bracket of the kind is opened with. -/
def openingChar : Bracket → Char
  | .paren => '('
  | .square => '['
  | .brace => '\x7b'

/-- The character that a bracket of the kind is closed with. -/
def closingChar : Bracket → Char
  | .paren => ')'
  | .square => ']'
  | .brace => '\x7d'

/-- A token that is a bracket by its kind is spelled by that one character, and a keyword as
the keyword is. -/
def Spelled (kind : TokenKind) (lexeme : List Char) : Prop :=
  match kind with
  | .opener bracket => lexeme = [openingChar bracket]
  | .closer bracket => lexeme = [closingChar bracket]
  | .keyword word => lexeme = word.spelling.toList
  | _ => True

theorem wordKind_spelled (lexeme : List Char) : Spelled (wordKind lexeme) lexeme := by
  unfold wordKind
  split
  · trivial
  · split
    · rename_i word found
      unfold Keyword.ofText? at found
      have same : word.spelling = String.ofList lexeme := by simpa using List.find?_some found
      exact String.toList_ofList.symm.trans (congrArg String.toList same.symm)
    · trivial

theorem operatorKind_spelled (lexeme spelling : List Char) :
    Spelled (operatorKind lexeme) spelling := by
  unfold operatorKind
  split <;> trivial

theorem consumed_append (front rest : List Char) : consumed (front ++ rest) rest = front := by
  simp [consumed]

/-- What a reader leaves is what follows the characters it has consumed. -/
theorem consumed_append_self (suffix : rest <:+ chars) : consumed chars rest ++ rest = chars := by
  obtain ⟨front, rfl⟩ := suffix
  rw [consumed_append]

theorem punctuation?_spelled (found : punctuation? c rest = some kind) : Spelled kind [c] := by
  unfold punctuation? at found
  split at found <;> first
    | cases found; trivial
    | (split at found <;> cases found; trivial)
    | cases found

/-- A token leaves a final part of the source, and brackets are spelled as such. -/
theorem readToken_spec (read : readToken glued c rest = .ok (kind, next)) :
    next <:+ rest ∧ Spelled kind (c :: consumed rest next) := by
  unfold readToken at read
  split at read
  · rename_i found
    cases read
    have nothing : consumed rest rest = [] := consumed_append [] rest
    rw [nothing]
    exact ⟨List.suffix_refl _, punctuation?_spelled found⟩
  · split at read
    · cases inner : skipString glued rest with
      | error fault => simp [inner, Except.map] at read
      | ok found =>
        simp only [inner, Except.map, Except.ok.injEq, Prod.mk.injEq] at read
        obtain ⟨rfl, rfl⟩ := read
        exact ⟨skipString_suffix inner, trivial⟩
    split at read
    · cases inner : skipQuote rest with
      | error fault => simp [inner, Except.map] at read
      | ok found =>
        simp only [inner, Except.map, Except.ok.injEq, Prod.mk.injEq] at read
        obtain ⟨rfl, rfl⟩ := read
        exact ⟨skipQuote_suffix inner, trivial⟩
    split at read
    · split at read
      · rename_i shape
        cases read
        have found := List.dropWhile_suffix (l := rest) fun d => d ≠ '\x60' && d ≠ '\n'
        rw [shape] at found
        exact ⟨(List.suffix_cons _ _).trans found, trivial⟩
      · cases read
    split at read
    · cases read
      exact ⟨skipNumber_suffix _ _, trivial⟩
    split at read
    · cases read
      exact ⟨skipWord_suffix _ _, wordKind_spelled _⟩
    split at read
    · cases read
      exact ⟨List.dropWhile_suffix _, operatorKind_spelled _ _⟩
    · cases read

/-- The token is not empty and spells the characters of the source at its offset. -/
structure Stands (source : List Char) (token : Token) : Prop where
  placed : ∃ left right, source = left ++ (token.lexeme ++ right) ∧ byteLength left = token.start
  nonempty : token.lexeme ≠ []
  spelled : Spelled token.kind token.lexeme

/-- The characters of a token are the ones at its span. -/
theorem chars_span {source : List Char} {token : Token} (stands : Stands source token) :
    token.span.chars source = token.lexeme := by
  obtain ⟨left, right, shape, start⟩ := stands.placed
  have sliced : slice? source token.start token.stop = some token.lexeme :=
    slice?_eq_some_iff.mpr ⟨left, right, shape, start, rfl⟩
  rw [Span.chars]
  show (slice? source token.start token.stop).getD [] = _
  rw [sliced]
  rfl

/-- The tokens stand in the source one after the other, from `low` on. -/
def InOrder (source : List Char) : Nat → List Token → Prop
  | _, [] => True
  | low, token :: rest => low ≤ token.start ∧ Stands source token ∧ InOrder source token.stop rest

theorem scanFrom_inOrder {source front rest : List Char} (shape : source = front ++ rest)
    (length : byteLength front = offset) (scanned : scanFrom offset after rest = .ok tokens) :
    InOrder source offset tokens := by
  fun_induction scanFrom offset after rest generalizing front tokens with
  | case1 => cases scanned
  | case2 =>
    cases scanned
    trivial
  | case3 => cases scanned
  | case4 =>
    rename_i offset after rest c tail skipped gap kind next read token ih
    obtain ⟨readSuffix, spelled⟩ := readToken_spec read
    have lexeme : consumed tail next ++ next = tail := consumed_append_self readSuffix
    have blank : gap ++ (c :: tail) = rest := consumed_append_self (skipTrivia_suffix skipped)
    cases later : scanFrom token.stop (decide (kind = .ident)) next with
    | error fault => simp [later, Except.map] at scanned
    | ok others =>
      simp only [later, Except.map, Except.ok.injEq] at scanned
      subst scanned
      have placed : source = (front ++ gap) ++ (token.lexeme ++ next) := by
        rw [shape, ← blank, ← lexeme, List.append_assoc, List.cons_append]
      have start : byteLength (front ++ gap) = token.start := by rw [byteLength_append, length]
      refine ⟨Nat.le_add_right _ _, ⟨⟨_, next, placed, start⟩, by simp [token], spelled⟩, ?_⟩
      have advanced : source = (front ++ gap ++ token.lexeme) ++ next := by
        rw [placed, List.append_assoc (front ++ gap)]
      have stop : byteLength (front ++ gap ++ token.lexeme) = token.stop := by
        rw [byteLength_append, start]
        rfl
      exact ih advanced stop later

theorem scan_eq_ok_iff : scan source = .ok tokens ↔ scanFrom 0 false source = .ok tokens := by
  unfold scan
  split
  · rename_i read
    rw [read, Except.ok.injEq, Except.ok.injEq]
  · rename_i failed
    simp [failed]

/-- The tokens of a text stand in it in order. -/
theorem scan_inOrder (scanned : scan source = .ok tokens) : InOrder source 0 tokens :=
  scanFrom_inOrder (List.nil_append source).symm byteLength_nil (scan_eq_ok_iff.mp scanned)

theorem stop_cut (stands : Stands source token) : Cut source token.stop := by
  obtain ⟨left, right, shape, start⟩ := stands.placed
  refine ⟨left ++ token.lexeme, right, by rw [shape, List.append_assoc], ?_⟩
  rw [byteLength_append, start]
  rfl

theorem start_cut (stands : Stands source token) : Cut source token.start := by
  obtain ⟨left, right, shape, start⟩ := stands.placed
  exact ⟨left, _, shape, start⟩

theorem start_lt_stop (stands : Stands source token) : token.start < token.stop :=
  Nat.lt_add_of_pos_right (byteLength_pos stands.nonempty)

/-- An opening bracket takes one byte. -/
theorem opener_stop (stands : Stands source token) (kind : token.kind = .opener bracket) :
    token.stop = token.start + 1 := by
  have spelled := stands.spelled
  rw [kind] at spelled
  have lexeme : token.lexeme = [openingChar bracket] := spelled
  rw [Token.stop, lexeme]
  cases bracket <;> rfl

theorem closer_stop (stands : Stands source token) (kind : token.kind = .closer bracket) :
    token.stop = token.start + 1 := by
  have spelled := stands.spelled
  rw [kind] at spelled
  have lexeme : token.lexeme = [closingChar bracket] := spelled
  rw [Token.stop, lexeme]
  cases bracket <;> rfl

end KindLift.TokenPlacement
