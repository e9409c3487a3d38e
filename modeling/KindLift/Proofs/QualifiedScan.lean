import KindLift.Proofs.EditApplication
import KindLift.Proofs.TokenEdges

/-! Putting a name and a point in front of words of a text puts two tokens in
front of their tokens, and changes no other token but for its place. -/
namespace KindLift.QualifiedScan
open Token Text TokenPlacement TriviaGaps TokenLocality ScanSteps EditApplication TextBoundary TokenEnds TokenEdges

variable {chars next behind : List Char} {c n : Char} {kind : TokenKind} {glued : Bool}

/-- The token is written in back quotes. -/
def Quoted (token : Token) : Prop := token.lexeme.head? = some '\x60'

/-- The characters are an identifier that needs no quotes. -/
def IsWord (chars : List Char) : Prop :=
  ∃ c body, chars = c :: body ∧ c ≠ '\x60' ∧ readToken false c (body ++ ['.']) = .ok (.ident, ['.'])

/-- A word right behind the token would run together with it: the token ends like a word, or
is a number. -/
def Running (token : Token) : Prop :=
  token.lexeme.getLast?.any isIdentPart = true ∨
    token.kind = .literal ∧ token.lexeme.head?.any (fun c => c.isDigit || c = '.') = true

instance : DecidablePred Running := fun _ => inferInstanceAs (Decidable (_ ∨ _))

theorem unquote_bare {lexeme : List Char} (bare : lexeme.head? ≠ some '\x60') : Token.unquote lexeme = lexeme := by
  unfold Token.unquote
  split
  · exact absurd rfl bare
  · rfl

/-! ### Words -/

/-- A word begins like one. -/
theorem word_start {body : List Char} (read : readToken glued c (body ++ next) = .ok (.ident, next)) (bare : c ≠ '\x60') :
    isIdentStart c = true ∧ c.isDigit = false := by
  obtain ⟨-, -, -, ⟨back, -⟩ | ⟨-, number, ⟨starts, -⟩ | ⟨-, -, operator, -⟩⟩⟩ := name_cases read (.inl rfl)
  · exact absurd back bare
  · rw [Bool.or_eq_true, not_or, Bool.not_eq_true] at number
    exact ⟨starts, number.1⟩
  · unfold operatorKind at operator
    split at operator <;> cases operator

/-- A word that is read somewhere is a word. -/
theorem isWord_of_read {body : List Char} (read : readToken glued c (body ++ next) = .ok (.ident, next)) (bare : c ≠ '\x60') :
    IsWord (c :: body) := by
  have quote : c ≠ '"' := edge_ne (word_start read bare).1 (by decide)
  refine ⟨c, body, rfl, bare, ?_⟩
  rw [readToken_glued quote _ glued]
  exact readToken_stop read (.inl rfl) (e := '.') ⟨rfl, rfl⟩ []

/-- What begins a word is foreign to a string. -/
theorem foreign_of_start (starts : isIdentStart n = true) : Foreign n := by
  intro member
  have outside : ['"', '/', '*', '\x7b'].all (fun d => !isIdentStart d) = true := by decide
  have other := List.all_eq_true.mp outside n member
  rw [starts] at other
  cases other

/-- A word that ends in operator characters ends in front of any other word. -/
theorem skipWord_before_word {body others : List Char} (read : skipWord c (body ++ next) = next)
    (word : isIdentStart c = true) (ends : ¬ (c :: body).getLast?.any isIdentPart = true) (starts : isIdentStart n = true) :
    skipWord c (body ++ n :: others) = n :: others := by
  obtain ⟨front, run, rfl, part, operator, stop, ⟨under, -⟩ | ⟨-, rfl⟩⟩ := skipWord_parts read
  · cases run with
    | nil =>
      rw [List.append_nil, under] at ends
      exact absurd (by decide) ends
    | cons d run =>
      obtain ⟨dropped, taken⟩ := @dropWhile_stop (d :: run ++ n :: others) isIdentPart front part (by rintro _ ⟨⟩; exact stop d rfl)
      unfold skipWord
      dsimp only
      rw [List.append_assoc, dropped, taken, if_pos under]
      refine (dropWhile_stop operator ?_).1
      rintro _ ⟨⟩
      exact not_operator_of_part (identPart_of_start starts)
  · refine absurd ?_ ends
    have all : ∀ d ∈ c :: front, isIdentPart d = true := List.forall_mem_cons.mpr ⟨identPart_of_start word, part⟩
    rw [List.append_nil, List.getLast?_eq_some_getLast (List.cons_ne_nil _ _)]
    exact all _ (List.getLast_mem _)

/-- A character literal ends in front of any word, and a symbol ends like a word. -/
theorem skipQuote_before_word {body others : List Char} (read : skipQuote (body ++ '\x60' :: behind) = .ok ('\x60' :: behind))
    (ends : ¬ ('\'' :: body).getLast?.any isIdentPart = true) : skipQuote (body ++ n :: others) = .ok (n :: others) := by
  have longer := skipQuote_length_lt read
  obtain _ | ⟨d, body⟩ := body
  · exact absurd longer (Nat.lt_irrefl _)
  by_cases escaped : d = '\\'
  · subst escaped
    rw [List.cons_append, skipQuote.eq_1] at read ⊢
    split at read
    · rename_i tail dropped
      cases read
      rw [← List.cons_append, @dropWhile_inside ('\x60' :: behind) ('\\' :: body) '\'' _ dropped (n :: others)]
      rfl
    · cases read
  by_cases closes : ∃ rest, body = '\'' :: rest
  · obtain ⟨rest, rfl⟩ := closes
    rw [List.cons_append, List.cons_append, skipQuote.eq_2 _ _ escaped] at read ⊢
    rw [Except.ok.injEq, List.append_left_eq_self] at read
    rw [read]
    rfl
  have symbol : ∀ tail, body ++ '\x60' :: behind = '\'' :: tail → False := by
    intro tail same
    cases body with
    | nil => cases same
    | cons first body =>
      cases same
      exact closes ⟨body, rfl⟩
  rw [List.cons_append, skipQuote.eq_3 _ _ escaped symbol] at read
  split at read
  · rw [Except.ok.injEq, ← List.cons_append] at read
    refine absurd ?_ ends
    rw [List.getLast?_cons_cons, List.getLast?_eq_some_getLast (List.cons_ne_nil _ _)]
    exact run_of_dropWhile read _ (List.getLast_mem _)
  · cases read

/-- What is behind a token that runs into no word may become a word. -/
theorem readToken_before_word {body others : List Char} {offset : Nat}
    (read : readToken glued c (body ++ '\x60' :: behind) = .ok (kind, '\x60' :: behind))
    (still : ¬ Running ⟨kind, offset, c :: body⟩) (starts : isIdentStart n = true) (digit : n.isDigit = false) :
    readToken glued c (body ++ n :: others) = .ok (kind, n :: others) := by
  obtain ⟨ends, noNumber⟩ := not_or.mp still
  have ahead : punctuation? c (body ++ n :: others) = punctuation? c (body ++ '\x60' :: behind) := by
    have heads : (body ++ n :: others).head?.any Char.isDigit = (body ++ '\x60' :: behind).head?.any Char.isDigit := by
      cases body with
      | nil => exact digit
      | cons => rfl
    unfold punctuation?
    rw [heads]
  unfold readToken at read ⊢
  rw [ahead]
  split at read
  · rename_i found
    rw [Except.ok.injEq, Prod.mk.injEq] at read
    obtain ⟨rfl, same⟩ := read
    obtain rfl : body = [] := List.append_left_eq_self.mp same
    rfl
  split at read
  · rename_i quote
    obtain ⟨_, skipped, same⟩ := map_eq_ok read
    cases same
    rw [if_pos quote, @skipString_edge body [] _ _ _ _ skipped (by decide) (foreign_of_start starts)]
    rfl
  rename_i quote
  rw [if_neg quote]
  split at read
  · rename_i tick
    obtain ⟨_, skipped, same⟩ := map_eq_ok read
    cases same
    rw [if_pos tick, skipQuote_before_word skipped (tick ▸ ends)]
    rfl
  rename_i tick
  rw [if_neg tick]
  split at read
  · rename_i back
    split at read
    · rename_i tail dropped
      cases read
      rw [if_pos back, dropWhile_inside dropped]
      rfl
    · cases read
  rename_i back
  rw [if_neg back]
  split at read
  · rename_i number
    obtain ⟨rfl, -⟩ := Prod.mk.inj (Except.ok.inj read)
    exact absurd ⟨rfl, number⟩ noNumber
  rename_i number
  rw [if_neg number]
  split at read
  · rename_i word
    obtain ⟨same, skipped⟩ := Prod.mk.inj (Except.ok.inj read)
    rw [skipped, consumed_append] at same
    rw [if_pos word, skipWord_before_word skipped word ends starts]
    dsimp only
    rw [consumed_append, same]
  rename_i word
  rw [if_neg word]
  split at read
  · rename_i symbol
    obtain ⟨same, dropped⟩ := Prod.mk.inj (Except.ok.inj read)
    have stop : isOperatorChar n = false := not_operator_of_part (identPart_of_start starts)
    obtain ⟨dropped', taken'⟩ := @stop_edge body [] behind n '\x60' isOperatorChar dropped stop others
    rw [takeWhile_eq_consumed, dropped, consumed_append] at same
    rw [List.nil_append] at dropped' taken'
    rw [if_pos symbol, dropped', taken', same]
  · cases read

/-! ### Texts with qualified words -/

/-- The edit that puts a token's name and a point in front of the token. -/
def qualification (token : Token) : Edit := .insertion token.start (token.text ++ ".")

/-- The tokens of the text in which the marked ones are qualified, each moved by
the length of what was inserted in front of it. -/
def qualified (marked : Token → Bool) (shift : Nat) : List Token → List Token
  | [] => []
  | token :: rest =>
    if marked token then
      let name := unquote token.lexeme
      let more := shift + byteLength name + 1
      ⟨.ident, token.start + shift, name⟩ :: ⟨.dot, token.start + shift + byteLength name, ['.']⟩ ::
        ⟨token.kind, token.start + more, token.lexeme⟩ :: qualified marked more rest
    else ⟨token.kind, token.start + shift, token.lexeme⟩ :: qualified marked shift rest

/-- The marked tokens can be qualified: they are words, and their names need no quotes.
A quoted one does not stand right behind a token that would run on into the name. -/
structure Qualifiable (marked : Token → Bool) (tokens : List Token) : Prop where
  ident : ∀ token ∈ tokens, marked token = true → token.kind = .ident
  words : ∀ token ∈ tokens, marked token = true → Quoted token → IsWord (unquote token.lexeme)
  apart : ∀ token ∈ tokens, marked token = true → Quoted token → ∀ before ∈ tokens,
    before.stop = token.start → ¬ Running before

theorem Qualifiable.tail {token : Token} {rest : List Token} {marked : Token → Bool}
    (fit : Qualifiable marked (token :: rest)) : Qualifiable marked rest :=
  ⟨fun other member => fit.ident other (List.mem_cons_of_mem _ member),
    fun other member => fit.words other (List.mem_cons_of_mem _ member),
    fun other member mark quoted before listed => fit.apart other (List.mem_cons_of_mem _ member) mark quoted before
      (List.mem_cons_of_mem _ listed)⟩

/-- What comes before the first edit is kept. -/
theorem Spliced.skip {offset : Nat} {front result : List Char} {changes : List Edit}
    (spliced : Spliced offset (front ++ chars) changes result)
    (behind : ∀ edit ∈ changes, offset + byteLength front ≤ edit.start) :
    ∃ kept, result = front ++ kept ∧ Spliced (offset + byteLength front) chars changes kept := by
  generalize whole : front ++ chars = text at spliced
  cases spliced with
  | done => exact ⟨chars, whole.symm, .done⟩
  | @replaced _ gap old after later result edit start range spliced =>
    have bound := behind edit (List.mem_cons_self ..)
    obtain ⟨middle, rfl⟩ := cuts_nested whole (by omega)
    rw [List.append_assoc, List.append_cancel_left_eq] at whole
    subst whole
    refine ⟨middle ++ (edit.replacement.toList ++ result), by rw [List.append_assoc], ?_⟩
    rw [byteLength_append] at start
    exact .replaced (by omega) range spliced

/-- The first edit is an insertion behind the gap. -/
theorem Spliced.first {offset : Nat} {gap result : List Char} {text : String} {changes : List Edit}
    (spliced : Spliced offset (gap ++ chars) (.insertion (offset + byteLength gap) text :: changes) result) :
    ∃ kept, result = gap ++ (text.toList ++ kept) ∧ Spliced (offset + byteLength gap) chars changes kept := by
  generalize whole : gap ++ chars = source at spliced
  cases spliced with
  | @replaced _ before old after later result edit start range spliced =>
    obtain ⟨rfl, rfl⟩ := cut_unique whole (Nat.add_left_cancel start).symm
    have nothing : byteLength old = 0 := Nat.add_left_cancel range
    have empty : old = [] := by
      by_contra nonempty
      exact Nat.ne_of_gt (byteLength_pos nonempty) nothing
    subst empty
    exact ⟨result, rfl, spliced⟩

/-- The texts go on alike up to a word in quotes, whose name comes first in the other one. -/
def Unquotes (front chars result : List Char) : Prop :=
  ∃ n behind others, chars = front ++ '\x60' :: behind ∧ result = front ++ n :: others ∧
    isIdentStart n = true ∧ n.isDigit = false

/-- What follows a text in which the marked words are qualified. If a quoted one begins it,
its name stands at once where the quotes were. -/
def Meets (marked : Token → Bool) (offset : Nat) (tokens : List Token) (chars result : List Char) : Prop :=
  Alike chars result ∨ ∃ front, Unquotes front chars result ∧
    (front = [] → ∃ token ∈ tokens, marked token = true ∧ Quoted token ∧ token.start = offset)

theorem Unquotes.prepend {front result : List Char} (unquotes : Unquotes front chars result) (before : List Char) :
    Unquotes (before ++ front) (before ++ chars) (before ++ result) := by
  obtain ⟨n, behind, others, rfl, rfl, starts, digit⟩ := unquotes
  exact ⟨n, behind, others, (List.append_assoc ..).symm, (List.append_assoc ..).symm, starts, digit⟩

/-- A token in front of texts that go on alike for a while is read alike. -/
theorem Unquotes.readToken {front body kept : List Char} (unquotes : Unquotes front next kept) (some : front ≠ [])
    (read : Token.readToken glued c (body ++ next) = .ok (kind, next)) :
    Token.readToken glued c (body ++ kept) = .ok (kind, kept) := by
  obtain ⟨n, behind, others, rfl, rfl, starts, digit⟩ := unquotes
  obtain _ | ⟨d, front⟩ := front
  · exact absurd rfl some
  rw [List.cons_append, ← List.nil_append (d :: (front ++ _))] at read ⊢
  refine readToken_alike (fun skipped => ?_) (fun _ => ?_) read
  · have both : ∀ z, body ++ d :: (front ++ z) = body ++ d :: front ++ z := fun _ => by simp
    rw [both] at skipped ⊢
    exact @skipString_edge (body ++ d :: front) (d :: front) _ _ _ _ skipped (by decide) (foreign_of_start starts) _
  · cases front with
    | nil => exact digit.symm
    | cons => rfl

variable {marked : Token → Bool} {offset shift : Nat} {gap body kept : List Char} {rest tokens : List Token} {token : Token}

/-- A token in front of what is qualified is read as before. -/
theorem Meets.readToken (meets : Meets marked token.stop rest next kept) (fit : Qualifiable marked (token :: rest))
    (written : token = ⟨kind, offset, c :: body⟩) (read : Token.readToken glued c (body ++ next) = .ok (kind, next)) :
    Token.readToken glued c (body ++ kept) = .ok (kind, kept) := by
  rcases meets with alike | ⟨front, unquotes, first⟩
  · exact alike.readToken read
  · by_cases start : front = []
    · obtain ⟨other, listed, mark, quoted, place⟩ := first start
      have apart := fit.apart other (List.mem_cons_of_mem _ listed) mark quoted token (List.mem_cons_self ..) place.symm
      obtain ⟨n, behind, others, rfl, rfl, starts, digit⟩ := unquotes
      subst start
      exact readToken_before_word read (written ▸ apart) starts digit
    · exact unquotes.readToken start read

/-- The gap in front of a token is passed over as before. -/
theorem Meets.skipTrivia (meets : Meets marked offset rest next kept)
    (skipped : Token.skipTrivia .blank (gap ++ c :: (body ++ next)) = .ok (c :: (body ++ next))) :
    Token.skipTrivia .blank (gap ++ c :: (body ++ kept)) = .ok (c :: (body ++ kept)) := by
  refine skipTrivia_respaced skipped rfl (.refl gap) rfl (.inr ⟨List.cons_ne_nil _ _, skipTrivia_ahead skipped fun d first => ?_⟩)
  rcases meets with alike | ⟨front, ⟨n, behind, others, rfl, rfl, starts, -⟩, -⟩
  · exact .inl ((alike.prepend body).head ▸ first)
  · rw [← List.append_assoc] at first ⊢
    cases whole : body ++ front with
    | nil =>
      rw [whole] at first
      cases first
      exact .inr ⟨edge_ne starts (by decide), edge_ne starts (by decide)⟩
    | cons e before =>
      rw [whole] at first
      exact .inl first

/-- A word that is qualified by its name is read as three tokens, and reading goes on
behind them. -/
theorem scanFrom_word (offset : Nat) {name : List Char}
    (skipped : skipTrivia .blank (gap ++ c :: (body ++ next)) = .ok (c :: (body ++ next)))
    (read : readToken (glued && gap.isEmpty) c (body ++ next) = .ok (.ident, next)) (bare : n ≠ '\x60')
    (word : readToken false n (name ++ ['.']) = .ok (.ident, ['.']))
    (again : readToken (glued && gap.isEmpty) c (body ++ kept) = .ok (.ident, kept))
    (scanned : scanFrom (offset + byteLength gap + byteLength (n :: name) + 1 + byteLength (c :: body)) true kept =
      .ok rest) :
    scanFrom offset glued (gap ++ n :: (name ++ '.' :: c :: (body ++ kept))) =
      .ok (⟨.ident, offset + byteLength gap, n :: name⟩ ::
        ⟨.dot, offset + byteLength gap + byteLength (n :: name), ['.']⟩ ::
        ⟨.ident, offset + byteLength gap + byteLength (n :: name) + 1, c :: body⟩ :: rest) := by
  have solid := skipTrivia_solid skipped
  obtain ⟨starts, -⟩ := word_start word bare
  have slash : n ≠ '/' := edge_ne starts (by decide)
  have quote : n ≠ '"' := edge_ne starts (by decide)
  have gapped : skipTrivia .blank (gap ++ n :: (name ++ '.' :: c :: (body ++ kept))) =
      .ok (n :: (name ++ '.' :: c :: (body ++ kept))) := by
    have solid : ¬ isWhiteSpace n = true := by
      rw [identPart_solid (identPart_of_start starts)]
      exact Bool.false_ne_true
    have alone := @skipTrivia_done n (name ++ '.' :: c :: (body ++ kept)) solid (fun same => absurd same slash)
      (fun same => absurd same slash)
    exact skipTrivia_respaced skipped rfl (.refl gap) rfl (.inr ⟨List.cons_ne_nil _ _, alone⟩)
  have first : readToken (glued && gap.isEmpty) n (name ++ '.' :: c :: (body ++ kept)) =
      .ok (.ident, '.' :: c :: (body ++ kept)) := by
    rw [readToken_glued quote _ false]
    exact readToken_stop word (.inl rfl) (e := '.') ⟨rfl, rfl⟩ _
  obtain ⟨-, noString, -, shape⟩ := name_cases read (.inl rfl)
  have marks : c ≠ '/' ∧ c.isDigit = false := by
    by_cases back : c = '\x60'
    · rw [back]
      exact ⟨by decide, rfl⟩
    · obtain ⟨starts, digit⟩ := word_start read back
      exact ⟨edge_ne starts (by decide), digit⟩
  have pointed : skipTrivia .blank ([] ++ '.' :: ([] ++ c :: (body ++ kept))) = .ok ('.' :: ([] ++ c :: (body ++ kept))) :=
    skipTrivia_done (by decide) (by simp) (by simp)
  have point : readToken (true && ([] : List Char).isEmpty) '.' ([] ++ c :: (body ++ kept)) = .ok (.dot, c :: (body ++ kept)) := by
    simp [Token.readToken, punctuation?, marks.2]
  have ungapped : skipTrivia .blank ([] ++ c :: (body ++ kept)) = .ok (c :: (body ++ kept)) :=
    skipTrivia_done solid (fun same => absurd same marks.1) (fun same => absurd same marks.1)
  have unglued : readToken (false && ([] : List Char).isEmpty) c (body ++ kept) = .ok (.ident, kept) := by
    rw [readToken_glued noString _ (glued && gap.isEmpty)]
    exact again
  have third := scanFrom_cons (offset + byteLength gap + byteLength (n :: name) + 1) [] body ungapped unglued
  have second := scanFrom_cons (offset + byteLength gap + byteLength (n :: name)) [] [] pointed point
  simp only [Token.stop, byteLength_nil, Nat.add_zero, List.nil_append, decide_true] at second third
  rw [scanFrom_cons offset gap name gapped first]
  simp only [Token.stop, decide_true]
  rw [second]
  have width : byteLength ['.'] = 1 := rfl
  rw [width, show decide (TokenKind.dot = .ident) = false from rfl, third, scanned]
  rfl

/-- The name of a marked word is a word. -/
theorem Qualifiable.isWord (fit : Qualifiable marked (token :: rest)) (mark : marked token = true)
    (written : token = ⟨.ident, offset, c :: body⟩) (read : readToken glued c (body ++ next) = .ok (.ident, next)) :
    IsWord (unquote (c :: body)) := by
  have words := fit.words token (List.mem_cons_self ..) mark
  rw [written] at words
  by_cases quoted : c = '\x60'
  · exact words (congrArg some quoted)
  · have bare : (c :: body).head? ≠ some '\x60' := fun same => quoted (Option.some.inj same)
    rw [unquote_bare bare]
    exact isWord_of_read read quoted

/-- A marked word is met as its name, with the same beginning or in place of its quote. -/
theorem meets_marked {name others : List Char} (skipped : Token.skipTrivia .blank (gap ++ c :: (body ++ next)) = .ok (c :: (body ++ next)))
    (read : Token.readToken glued c (body ++ next) = .ok (.ident, next)) (mark : marked token = true)
    (written : token = ⟨.ident, offset + byteLength gap, c :: body⟩) (named : unquote (c :: body) = n :: name)
    (starts : isIdentStart n = true) (digit : n.isDigit = false) :
    Meets marked offset (token :: rest) (gap ++ c :: (body ++ next)) (gap ++ n :: others) := by
  cases gap with
  | cons g gap =>
    have plain : g ≠ '"' ∧ g ≠ '.' := by
      constructor <;> rintro rfl <;> exact absurd (TriviaGaps.gap_first skipped) (by decide)
    exact .inl (.inr ⟨[], g, _, _, plain.1, fun same => absurd same plain.2, rfl, rfl⟩)
  | nil =>
    by_cases quoted : c = '\x60'
    · subst quoted
      refine .inr ⟨[], ⟨n, _, others, rfl, rfl, starts, digit⟩, fun _ => ⟨token, List.mem_cons_self .., mark, ?_, ?_⟩⟩ <;> rw [written]
      · rfl
      · rfl
    · have bare : (c :: body).head? ≠ some '\x60' := fun same => quoted (Option.some.inj same)
      rw [unquote_bare bare] at named
      cases named
      have point : c ≠ '.' := edge_ne starts (by decide)
      exact .inl (.inr ⟨[], c, _, _, edge_ne starts (by decide), fun same => absurd same point, rfl, rfl⟩)

/-- A token that is kept is met as it is, and what is met behind it is met behind the token. -/
theorem Meets.cons (meets : Meets marked token.stop rest next kept) (others : List Token) (gap : List Char) :
    Meets marked offset others (gap ++ c :: (body ++ next)) (gap ++ c :: (body ++ kept)) := by
  rcases meets with alike | ⟨front, unquotes, -⟩
  · exact .inl ((alike.prepend (c :: body)).prepend gap)
  · exact .inr ⟨gap ++ (c :: body ++ front), (unquotes.prepend (c :: body)).prepend gap, fun empty => by simp at empty⟩

/-- Scanning a text in which the marked tokens are qualified. The text differs from the
original only from some word on. -/
def ScansQualified (marked : Token → Bool) (offset : Nat) (glued : Bool) (tokens : List Token) (chars : List Char) : Prop :=
  ∀ shift result, Spliced offset chars ((tokens.filter marked).map qualification) result →
    scanFrom (offset + shift) glued result = .ok (qualified marked shift tokens) ∧ Meets marked offset tokens chars result

/-- The edits of later words stand behind a token. -/
theorem changes_behind (later : scanFrom token.stop glued next = .ok rest) :
    ∀ edit ∈ (rest.filter marked).map qualification, token.stop ≤ edit.start := by
  intro edit member
  obtain ⟨other, listed, rfl⟩ := List.mem_map.mp member
  exact scanned_behind later other (List.mem_filter.mp listed).1

/-- A marked word in front of what can be qualified. -/
theorem scansQualified_marked (skipped : Token.skipTrivia .blank (gap ++ c :: (body ++ next)) = .ok (c :: (body ++ next)))
    (read : Token.readToken (glued && gap.isEmpty) c (body ++ next) = .ok (.ident, next))
    (written : token = ⟨.ident, offset + byteLength gap, c :: body⟩) (mark : marked token = true)
    (fit : Qualifiable marked (token :: rest)) (later : scanFrom token.stop true next = .ok rest)
    (others : ScansQualified marked token.stop true rest next) :
    ScansQualified marked offset glued (token :: rest) (gap ++ c :: (body ++ next)) := by
  intro shift result spliced
  obtain ⟨n, name, named, bare, word⟩ := fit.isWord mark written read
  obtain ⟨starts, digit⟩ := word_start word bare
  have stop : token.stop = offset + byteLength gap + byteLength (c :: body) := by rw [written, Token.stop]
  have changes := @changes_behind _ _ marked rest token later
  rw [List.filter_cons_of_pos mark, List.map_cons, written] at spliced
  obtain ⟨inserted, rfl, splicedWord⟩ := Spliced.first spliced
  rw [← List.cons_append] at splicedWord
  obtain ⟨kept, rfl, splicedRest⟩ := Spliced.skip splicedWord (stop ▸ changes)
  rw [← stop] at splicedRest
  obtain ⟨scannedRest, meets⟩ := others (shift + byteLength (n :: name) + 1) kept splicedRest
  have moved : token.stop + (shift + byteLength (n :: name) + 1) =
      offset + shift + byteLength gap + byteLength (n :: name) + 1 + byteLength (c :: body) := by
    rw [stop]
    omega
  rw [moved] at scannedRest
  have scannedWord := scanFrom_word (offset + shift) skipped read bare word (meets.readToken fit written read) scannedRest
  have text : (Token.text ⟨.ident, offset + byteLength gap, c :: body⟩ ++ ".").toList = n :: (name ++ ['.']) := by
    rw [Token.text, String.toList_append, String.toList_ofList, named]
    rfl
  rw [text, List.cons_append, List.cons_append, List.append_assoc]
  refine ⟨?_, meets_marked skipped read mark written named starts digit⟩
  rw [qualified, if_pos mark]
  refine scannedWord.trans ?_
  rw [written]
  simp only [named, Except.ok.injEq, List.cons.injEq, Token.mk.injEq, true_and, and_true]
  omega

/-- Any other token in front of what can be qualified. -/
theorem scansQualified_unmarked (skipped : Token.skipTrivia .blank (gap ++ c :: (body ++ next)) = .ok (c :: (body ++ next)))
    (read : Token.readToken (glued && gap.isEmpty) c (body ++ next) = .ok (kind, next))
    (written : token = ⟨kind, offset + byteLength gap, c :: body⟩) (unmarked : ¬ marked token = true)
    (fit : Qualifiable marked (token :: rest)) (later : scanFrom token.stop (kind = .ident) next = .ok rest)
    (others : ScansQualified marked token.stop (kind = .ident) rest next) :
    ScansQualified marked offset glued (token :: rest) (gap ++ c :: (body ++ next)) := by
  intro shift result spliced
  have stop : token.stop = offset + byteLength gap + byteLength (c :: body) := by rw [written, Token.stop]
  have start : offset + byteLength (gap ++ c :: body) = token.stop := by rw [stop, byteLength_append, ← Nat.add_assoc]
  have changes := @changes_behind _ _ marked rest token later
  rw [List.filter_cons_of_neg unmarked, ← List.cons_append, ← List.append_assoc] at spliced
  obtain ⟨kept, rfl, splicedRest⟩ := Spliced.skip spliced (start ▸ changes)
  rw [start] at splicedRest
  obtain ⟨scannedRest, meets⟩ := others shift kept splicedRest
  have moved : (Token.mk kind (offset + shift + byteLength gap) (c :: body)).stop = token.stop + shift := by
    rw [stop, Token.stop]
    dsimp only
    omega
  rw [List.append_assoc, List.cons_append]
  refine ⟨?_, meets.cons _ gap⟩
  rw [scanFrom_cons (offset + shift) gap body (meets.skipTrivia skipped) (meets.readToken fit written read), moved, scannedRest,
    qualified, if_neg unmarked, written, Except.map, Nat.add_right_comm]

theorem scansQualified_of_scan (scanned : scanFrom offset glued chars = .ok tokens) (fit : Qualifiable marked tokens) :
    ScansQualified marked offset glued tokens chars := by
  fun_induction scanFrom offset glued chars generalizing tokens with
  | case1 => cases scanned
  | case2 offset glued chars skipped =>
    cases scanned
    rintro shift result ⟨⟩
    exact ⟨scanFrom_nil _ skipped, .inl (.inl rfl)⟩
  | case3 => cases scanned
  | case4 =>
    rename_i offset glued chars c tail skipped gap kind next read token ih
    obtain ⟨rest, later, rfl⟩ := map_eq_ok scanned
    have lexeme : consumed tail next ++ next = tail := consumed_append_self (readToken_spec read).1
    have blank : gap ++ c :: tail = chars := consumed_append_self (skipTrivia_suffix skipped)
    obtain ⟨body, shape⟩ : ∃ body, consumed tail next = body := ⟨_, rfl⟩
    have written : token = ⟨kind, offset + byteLength gap, c :: body⟩ := by rw [← shape]
    clear_value gap token
    rw [shape] at lexeme
    subst lexeme blank
    have others := ih later fit.tail
    by_cases mark : marked token = true
    · have isIdent := fit.ident token (List.mem_cons_self ..) mark
      rw [written] at isIdent
      cases isIdent
      exact scansQualified_marked skipped read written mark fit later others
    · exact scansQualified_unmarked skipped read written mark fit later others

/-- The tokens of the text in which the marked ones are qualified. -/
theorem scanFrom_qualified {result : List Char} (scanned : scanFrom offset glued chars = .ok tokens) (fit : Qualifiable marked tokens)
    (spliced : Spliced offset chars ((tokens.filter marked).map qualification) result) :
    scanFrom (offset + shift) glued result = .ok (qualified marked shift tokens) :=
  (scansQualified_of_scan scanned fit shift result spliced).1

end KindLift.QualifiedScan
