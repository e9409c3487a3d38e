import KindLift.Proofs.ScanSteps

/-! Texts that are written token by token, with blanks between the tokens. Such a
text is read as the tokens it was written with when no token reaches into the one
behind it. -/
namespace KindLift.WrittenTokens
open Token Text TokenPlacement TriviaGaps TokenLocality ScanSteps

/-- An ASCII letter and then ASCII letters and digits. Neither a reserved word nor
the word that marks a parameter list is plain. -/
def isPlain (text : String) : Bool :=
  match text.toList with
  | [] => false
  | c :: rest =>
    c.isAlpha && rest.all Char.isAlphanum && (Keyword.ofText? text).isNone && text ≠ "using"

/-- A plain identifier. -/
structure Name where
  text : String
  plain : isPlain text = true
deriving DecidableEq

/-- The ASCII characters of operators but for the slash, which may begin a comment. -/
def isSymbol (c : Char) : Bool := "!#%&*+-:<=>?@\\^|~".toList.contains c

/-- An operator that has no other meaning. -/
structure Operator where
  first : Char
  more : List Char
  symbols : (first :: more).all isSymbol = true
  plain : operatorKind (first :: more) = .operator
deriving DecidableEq

/-- What a token is written as. -/
inductive Lexeme where
  | keyword (word : Keyword)
  | name (name : Name)
  | wildcard
  | operator (symbol : Operator)
  | colon
  | equals
  | opener (bracket : Bracket)
  | closer (bracket : Bracket)
  | comma
  | dot
  | digit (value : Fin 10)
deriving DecidableEq

namespace Lexeme

@[simp] def kind : Lexeme → TokenKind
  | keyword word => .keyword word
  | name _ => .ident
  | wildcard => .underscore
  | operator _ => .operator
  | colon => .colon
  | equals => .equals
  | opener bracket => .opener bracket
  | closer bracket => .closer bracket
  | comma => .comma
  | dot => .dot
  | digit _ => .literal

def chars : Lexeme → List Char
  | keyword word => word.spelling.toList
  | .name written => written.text.toList
  | wildcard => ['_']
  | operator symbol => symbol.first :: symbol.more
  | colon => [':']
  | equals => ['=']
  | opener bracket => [openingChar bracket]
  | closer bracket => [closingChar bracket]
  | comma => [',']
  | dot => ['.']
  | digit value => [value.val.digitChar]

@[simp] def isWord : Lexeme → Bool
  | keyword _ | name _ | wildcard | digit _ => true
  | _ => false

@[simp] def isSymbolic : Lexeme → Bool
  | operator _ | colon | equals => true
  | _ => false

/-- Characters that the token would take in if they followed it. -/
def reaches (lexeme : Lexeme) (c : Char) : Bool :=
  match lexeme with
  | keyword _ | name _ => isIdentPart c
  | wildcard => isIdentPart c || isOperatorChar c
  | operator _ | colon | equals => isOperatorChar c
  | dot => c.isDigit
  | digit _ => isIdentPart c || c = '.'
  | _ => false

/-- The second token may follow the first one directly. -/
def separate : Lexeme → Lexeme → Bool
  | keyword _, next | name _, next => !next.isWord
  | wildcard, next => !next.isWord && !next.isSymbolic
  | operator _, next | colon, next | equals, next => !next.isSymbolic
  | dot, digit _ => false
  | digit _, next => !next.isWord && next ≠ dot
  | _, _ => true

variable (last next : Lexeme) (bracket : Bracket)

@[simp] theorem separate_opener : last.separate (opener bracket) = true := by cases last <;> rfl

@[simp] theorem separate_closer : last.separate (closer bracket) = true := by cases last <;> rfl

@[simp] theorem separate_comma : last.separate comma = true := by cases last <;> rfl

@[simp] theorem opener_separate : (opener bracket).separate next = true := by cases next <;> rfl

@[simp] theorem closer_separate : (closer bracket).separate next = true := by cases next <;> rfl

@[simp] theorem comma_separate : comma.separate next = true := by cases next <;> rfl

@[simp] theorem name_separate (name : Name) : (Lexeme.name name).separate next = !next.isWord := by cases next <;> rfl

@[simp] theorem keyword_separate (word : Keyword) : (keyword word).separate next = !next.isWord := by cases next <;> rfl

@[simp] theorem wildcard_separate : wildcard.separate next = (!next.isWord && !next.isSymbolic) := by cases next <;> rfl

@[simp] theorem operator_separate (symbol : Operator) : (operator symbol).separate next = !next.isSymbolic := by
  cases next <;> rfl

@[simp] theorem colon_separate : colon.separate next = !next.isSymbolic := by cases next <;> rfl

@[simp] theorem equals_separate : equals.separate next = !next.isSymbolic := by cases next <;> rfl

@[simp] theorem dot_separate (other : ∀ value, next ≠ digit value) : dot.separate next = true := by
  cases next <;> first
    | rfl
    | exact absurd rfl (other _)

end Lexeme

/-! ### Single tokens -/

variable {c : Char} {body next : List Char}

theorem alpha_code (letter : c.isAlpha = true) : 65 ≤ c.toNat ∧ c.toNat ≤ 90 ∨ 97 ≤ c.toNat ∧ c.toNat ≤ 122 := by
  have ranges : (decide (65 ≤ c.val ∧ c.val ≤ 90) || (decide (97 ≤ c.val) && decide (c.val ≤ 122))) = true := letter
  simpa [UInt32.le_iff_toNat_le] using ranges

theorem digit_code (digit : c.isDigit = true) : 48 ≤ c.toNat ∧ c.toNat ≤ 57 := by
  have range : (decide (48 ≤ c.val) && decide (c.val ≤ 57)) = true := digit
  simpa [UInt32.le_iff_toNat_le] using range

theorem alphanum_code (plain : c.isAlphanum = true) : 48 ≤ c.toNat ∧ c.toNat ≤ 122 := by
  rcases Bool.or_eq_true_iff.mp plain with letter | digit
  · have code := alpha_code letter
    omega
  · have code := digit_code digit
    omega

theorem isAlphanum_ascii (plain : c.isAlphanum = true) : isAscii c = true := by
  have code := alphanum_code plain
  rw [isAscii, decide_eq_true_eq]
  omega

theorem solid_of_alphanum (plain : c.isAlphanum = true) : isWhiteSpace c = false := by
  have code := alphanum_code plain
  have ascii := isAlphanum_ascii plain
  have space : c ≠ ' ' := by
    rintro rfl
    exact absurd plain (by decide)
  simp only [isWhiteSpace, ascii, if_true, space, decide_false, Bool.false_or, Bool.and_eq_false_imp,
    decide_eq_true_eq, decide_eq_false_iff_not]
  omega

theorem identPart_of_alphanum (plain : c.isAlphanum = true) : isIdentPart c = true := by
  have ascii := isAlphanum_ascii plain
  rw [Char.isAlphanum] at plain
  simp only [isIdentPart, isAlphanumeric, isAlphabetic, isNumeric, ascii, if_true, plain, Bool.true_or]

theorem isAlphanum_of_alpha (letter : c.isAlpha = true) : c.isAlphanum = true := by
  rw [Char.isAlphanum, letter, Bool.true_or]

theorem identStart_of_alpha (letter : c.isAlpha = true) : isIdentStart c = true := by
  have ascii := isAlphanum_ascii (isAlphanum_of_alpha letter)
  simp only [isIdentStart, isAlphabetic, ascii, if_true, letter, Bool.true_or]

theorem not_digit_of_alpha (letter : c.isAlpha = true) : c.isDigit = false := by
  rw [Bool.eq_false_iff]
  intro digit
  have code := alpha_code letter
  have code' := digit_code digit
  omega

theorem not_operator_of_alphanum (plain : c.isAlphanum = true) : isOperatorChar c = false :=
  not_operator_of_part (identPart_of_alphanum plain)

theorem punctuation?_alpha (letter : c.isAlpha = true) (rest : List Char) : punctuation? c rest = none := by
  have starts := identStart_of_alpha letter
  unfold punctuation?
  split <;> first
    | rfl
    | exact absurd rfl (edge_ne starts (by decide))

/-- A word of letters and digits is read up to the first character that is no part of it. -/
theorem readToken_word (letter : c.isAlpha = true) (parts : ∀ e ∈ body, e.isAlphanum = true)
    (stop : ∀ e ∈ next.head?, isIdentPart e = false) (glued : Bool) :
    readToken glued c (body ++ next) = .ok (wordKind (c :: body), next) := by
  have starts := identStart_of_alpha letter
  have quote : c ≠ '"' := edge_ne starts (by decide)
  have tick : c ≠ '\'' := edge_ne starts (by decide)
  have back : c ≠ '\x60' := edge_ne starts (by decide)
  have point : c ≠ '.' := edge_ne starts (by decide)
  have number : ¬ (c.isDigit || decide (c = '.')) = true := by simp [not_digit_of_alpha letter, point]
  obtain ⟨dropped, taken⟩ := dropWhile_stop (fun e member => identPart_of_alphanum (parts e member)) stop
  have under : ¬ (c :: body).getLast? = some '_' := by
    intro last
    rcases List.mem_cons.mp (List.mem_of_getLast? last) with same | member
    · subst same
      exact absurd letter (by decide)
    · exact absurd (parts _ member) (by decide)
  have word : skipWord c (body ++ next) = next := by
    unfold skipWord
    dsimp only
    rw [dropped, taken, if_neg under]
  unfold readToken
  simp only [punctuation?_alpha letter, if_neg quote, if_neg tick, if_neg back, if_neg number, if_pos starts, word,
    consumed_append]

/-- A lone underscore. -/
theorem readToken_wildcard (stop : ∀ e ∈ next.head?, (isIdentPart e || isOperatorChar e) = false) (glued : Bool) :
    readToken glued '_' next = .ok (.underscore, next) := by
  obtain ⟨dropped, taken⟩ := @dropWhile_stop next isIdentPart [] (by simp)
    (fun e member => (Bool.or_eq_false_iff.mp (stop e member)).1)
  obtain ⟨dropped', -⟩ := @dropWhile_stop next isOperatorChar [] (by simp)
    (fun e member => (Bool.or_eq_false_iff.mp (stop e member)).2)
  rw [List.nil_append] at dropped taken dropped'
  have word : skipWord '_' next = next := by
    unfold skipWord
    dsimp only
    rw [dropped, taken, dropped']
    simp
  have nothing : consumed next next = [] := consumed_append [] next
  have alone : punctuation? '_' next = none := rfl
  unfold readToken
  simp only [alone, word, nothing]
  rfl

/-- The characters that begin neither a word nor an operator. -/
def isSpecial (c : Char) : Bool :=
  ['(', ')', '[', ']', '\x7b', '\x7d', ',', ';', '.', '"', '\'', '\x60'].contains c

theorem punctuation?_plain (plain : isSpecial c = false) (rest : List Char) : punctuation? c rest = none := by
  unfold punctuation?
  split <;> first
    | rfl
    | exact absurd plain (by decide)

/-- What is known of a symbol, checked for each of them. -/
theorem isSymbol_facts (symbol : isSymbol c = true) :
    isOperatorChar c = true ∧ isWhiteSpace c = false ∧ isIdentStart c = false ∧ c.isDigit = false ∧
      isSpecial c = false ∧ c ≠ '/' ∧ isIdentPart c = false := by
  have all : "!#%&*+-:<=>?@\\^|~".toList.all (fun c => decide (isOperatorChar c = true ∧ isWhiteSpace c = false ∧
      isIdentStart c = false ∧ c.isDigit = false ∧ isSpecial c = false ∧ c ≠ '/' ∧ isIdentPart c = false)) = true := by
    decide
  exact of_decide_eq_true (List.all_eq_true.mp all c (List.contains_iff_mem.mp symbol))

theorem not_special (plain : isSpecial c = false) : c ≠ '"' ∧ c ≠ '\'' ∧ c ≠ '\x60' ∧ c ≠ '.' := by
  refine ⟨?_, ?_, ?_, ?_⟩ <;>
    · rintro rfl
      exact absurd plain (by decide)

/-- An operator is read up to the first character that is no part of it. -/
theorem readToken_operator (symbols : ∀ e ∈ c :: body, isSymbol e = true)
    (stop : ∀ e ∈ next.head?, isOperatorChar e = false) (glued : Bool) :
    readToken glued c (body ++ next) = .ok (operatorKind (c :: body), next) := by
  obtain ⟨first, more⟩ := List.forall_mem_cons.mp symbols
  obtain ⟨operator, -, word, digit, special, -⟩ := isSymbol_facts first
  obtain ⟨quote, tick, back, point⟩ := not_special special
  have number : ¬ (c.isDigit || decide (c = '.')) = true := by simp [digit, point]
  have word' : ¬ isIdentStart c = true := by simp [word]
  obtain ⟨dropped, taken⟩ := dropWhile_stop (fun e member => (isSymbol_facts (more e member)).1) stop
  unfold readToken
  simp only [punctuation?_plain special, if_neg quote, if_neg tick, if_neg back, if_neg number, if_neg word',
    if_pos operator, dropped, taken]

/-- A digit alone is a number. -/
theorem readToken_digit (value : Fin 10) (stop : ∀ e ∈ next.head?, (isIdentPart e || decide (e = '.')) = false)
    (glued : Bool) : readToken glued value.val.digitChar next = .ok (.literal, next) := by
  have facts : ∀ value : Fin 10, isSpecial value.val.digitChar = false ∧ value.val.digitChar.isDigit = true ∧
      value.val.digitChar ≠ 'e' ∧ value.val.digitChar ≠ 'E' := by decide
  obtain ⟨special, digit, small, large⟩ := facts value
  obtain ⟨quote, tick, back, point⟩ := not_special special
  have number : (value.val.digitChar.isDigit || decide (value.val.digitChar = '.')) = true := by simp [digit]
  have ends : skipNumber value.val.digitChar next = next := by
    cases next with
    | nil => rfl
    | cons e next =>
      have outside := stop e rfl
      have part : e.isAlphanum = false := by
        by_contra plain
        rw [Bool.not_eq_false] at plain
        simp [identPart_of_alphanum plain] at outside
      have under : e ≠ '_' := by
        rintro rfl
        exact absurd outside (by decide)
      have point' : e ≠ '.' := by
        rintro rfl
        exact absurd outside (by decide)
      simp [skipNumber, part, under, point', small, large]
  unfold readToken
  simp only [punctuation?_plain special, if_neg quote, if_neg tick, if_neg back, if_pos number, ends]

/-- The bracket, comma or point that stands for itself. -/
theorem readToken_mark {kind : TokenKind} (found : punctuation? c next = some kind) (glued : Bool) :
    readToken glued c next = .ok (kind, next) := by
  unfold readToken
  rw [found]

/-! ### Written tokens -/

namespace Name

theorem chars_eq (name : Name) : ∃ c rest, name.text.toList = c :: rest ∧ c.isAlpha = true ∧
    (∀ e ∈ rest, e.isAlphanum = true) ∧ Keyword.ofText? name.text = none ∧ name.text ≠ "using" := by
  have plain := name.plain
  unfold isPlain at plain
  split at plain
  · cases plain
  · rename_i c rest shape
    simp only [Bool.and_eq_true, List.all_eq_true, Option.isNone_iff_eq_none, decide_eq_true_eq] at plain
    exact ⟨c, rest, shape, plain.1.1.1, plain.1.1.2, plain.1.2, plain.2⟩

theorem alphanum (name : Name) : ∀ e ∈ name.text.toList, e.isAlphanum = true := by
  obtain ⟨c, rest, shape, letter, parts, -⟩ := name.chars_eq
  rw [shape]
  exact List.forall_mem_cons.mpr ⟨isAlphanum_of_alpha letter, parts⟩

theorem wordKind_eq (name : Name) : wordKind name.text.toList = .ident := by
  obtain ⟨c, rest, shape, letter, -, foreign, -⟩ := name.chars_eq
  have under : ¬ name.text.toList = ['_'] := by
    rw [shape]
    rintro ⟨⟩
    exact absurd letter (by decide)
  rw [wordKind, if_neg under, String.ofList_toList, foreign]

/-- A word with a capital letter or a digit is neither reserved nor the word that marks a
parameter list. -/
def marked (text : String)
    (word : ∃ c rest, text.toList = c :: rest ∧ c.isAlpha = true ∧ ∀ e ∈ rest, e.isAlphanum = true)
    (mark : ∃ e ∈ text.toList, e.isLower = false) : Name where
  text := text
  plain := by
    obtain ⟨c, rest, shape, letter, parts⟩ := word
    have lower : ∀ other : String, other.toList.all Char.isLower = true → other ≠ text := by
      rintro other low rfl
      obtain ⟨e, member, high⟩ := mark
      rw [List.all_eq_true.mp low e member] at high
      cases high
    have spelled : ∀ word : Keyword, word.spelling.toList.all Char.isLower = true := by
      intro word
      cases word <;> decide
    have foreign : Keyword.ofText? text = none := by
      rw [Keyword.ofText?, List.find?_eq_none]
      intro word _
      simp [lower _ (spelled word)]
    have ordinary : text ≠ "using" := (lower "using" (by decide)).symm
    simp [isPlain, shape, letter, List.all_eq_true.mpr parts, foreign, ordinary]

end Name

theorem spelling_letters (word : Keyword) : word.spelling.toList.all Char.isAlpha = true := by
  cases word <;> decide

theorem wordKind_spelling (word : Keyword) : wordKind word.spelling.toList = .keyword word := by
  cases word <;> decide

namespace Lexeme

/-- A written token is read as a token of its kind, up to what it does not reach. -/
theorem read (lexeme : Lexeme) (stop : ∀ e ∈ next.head?, lexeme.reaches e = false) :
    ∃ first body, lexeme.chars = first :: body ∧ isWhiteSpace first = false ∧ first ≠ '/' ∧
      ∀ glued, readToken glued first (body ++ next) = .ok (lexeme.kind, next) := by
  cases lexeme with
  | keyword word =>
    have letters := List.all_eq_true.mp (spelling_letters word)
    obtain ⟨c, body, shape⟩ : ∃ c body, word.spelling.toList = c :: body := by cases word <;> exact ⟨_, _, rfl⟩
    rw [shape] at letters
    obtain ⟨first, more⟩ := List.forall_mem_cons.mp letters
    have starts := identStart_of_alpha first
    refine ⟨c, body, shape, ?_, edge_ne starts (by decide), fun glued => ?_⟩
    · exact solid_of_alphanum (isAlphanum_of_alpha first)
    · rw [readToken_word first (fun e member => isAlphanum_of_alpha (more e member)) stop, ← shape, wordKind_spelling]
      rfl
  | name written =>
    obtain ⟨c, body, shape, first, more, -⟩ := written.chars_eq
    have starts := identStart_of_alpha first
    refine ⟨c, body, shape, ?_, edge_ne starts (by decide), fun glued => ?_⟩
    · exact solid_of_alphanum (isAlphanum_of_alpha first)
    · rw [readToken_word first more stop, ← shape, written.wordKind_eq]
      rfl
  | wildcard => exact ⟨'_', [], rfl, by decide, by decide, readToken_wildcard stop⟩
  | operator symbol =>
    have symbols := List.all_eq_true.mp symbol.symbols
    obtain ⟨-, space, -, -, -, slash, -⟩ := isSymbol_facts (symbols _ (List.mem_cons_self ..))
    refine ⟨symbol.first, symbol.more, rfl, space, slash, fun glued => ?_⟩
    rw [readToken_operator symbols stop, symbol.plain]
    rfl
  | colon =>
    exact ⟨':', [], rfl, by decide, by decide, readToken_operator (List.forall_mem_singleton.mpr rfl) stop⟩
  | equals => exact ⟨'=', [], rfl, by decide, by decide, readToken_operator (List.forall_mem_singleton.mpr rfl) stop⟩
  | opener bracket => 
    cases bracket <;> exact ⟨_, [], rfl, by decide, by decide, readToken_mark rfl⟩
  | closer bracket =>
    cases bracket <;> exact ⟨_, [], rfl, by decide, by decide, readToken_mark rfl⟩
  | comma => exact ⟨',', [], rfl, by decide, by decide, readToken_mark rfl⟩
  | dot =>
    refine ⟨'.', [], rfl, by decide, by decide, readToken_mark ?_⟩
    cases next with
    | nil => rfl
    | cons e next => 
      have outside : e.isDigit = false := stop e rfl
      simp [punctuation?, outside, kind]
  | digit value =>
    have facts : ∀ value : Fin 10, isWhiteSpace value.val.digitChar = false ∧ value.val.digitChar ≠ '/' := by decide
    exact ⟨_, [], rfl, (facts value).1, (facts value).2, readToken_digit value stop⟩

theorem chars_first (lexeme : Lexeme) : ∃ first body, lexeme.chars = first :: body ∧ isWhiteSpace first = false := by
  obtain ⟨first, body, shape, solid, -⟩ := @read [] lexeme (by simp)
  exact ⟨first, body, shape, solid⟩

/-- A token reaches no blank. -/
theorem reaches_blank (lexeme : Lexeme) (blank : c = ' ' ∨ c = '\n') : lexeme.reaches c = false := by
  rcases blank with rfl | rfl <;> cases lexeme <;> rfl

/-- Tokens that are kept apart do not reach each other. -/
theorem separate_reaches {first second : Lexeme} (apart : first.separate second = true)
    (chars : second.chars = c :: body) : first.reaches c = false := by
  cases second with
  | keyword word =>
    have letter : c.isAlpha = true := by
      have letters := List.all_eq_true.mp (spelling_letters word)
      exact letters c (by rw [show word.spelling.toList = c :: body from chars]; exact List.mem_cons_self ..)
    cases first <;> first
      | rfl
      | exact not_operator_of_alphanum (isAlphanum_of_alpha letter)
      | exact not_digit_of_alpha letter
      | cases apart
  | name written =>
    have letter : c.isAlpha = true := by
      obtain ⟨d, rest, shape, letter, -⟩ := written.chars_eq
      rw [show written.text.toList = c :: body from chars] at shape
      cases shape
      exact letter
    cases first <;> first
      | rfl
      | exact not_operator_of_alphanum (isAlphanum_of_alpha letter)
      | exact not_digit_of_alpha letter
      | cases apart
  | operator symbol =>
    cases chars
    obtain ⟨-, -, -, digit, special, -, part⟩ := isSymbol_facts (List.all_eq_true.mp symbol.symbols _ (List.mem_cons_self ..))
    have point := (not_special special).2.2.2
    cases first <;> first
      | rfl
      | exact part
      | exact digit
      | exact Bool.or_eq_false_iff.mpr ⟨part, decide_eq_false point⟩
      | cases apart
  | digit value =>
    cases chars
    have facts : ∀ value : Fin 10, isOperatorChar value.val.digitChar = false := by decide
    cases first <;> first
      | rfl
      | exact facts value
      | cases apart
  | opener bracket => cases chars; cases bracket <;> cases first <;> rfl
  | closer bracket => cases chars; cases bracket <;> cases first <;> rfl
  | _ =>
    cases chars
    cases first <;> first
      | rfl
      | cases apart

end Lexeme

/-! ### Written texts -/

/-- A token and the blanks in front of it. -/
structure Piece where
  gap : List Char
  lexeme : Lexeme
deriving DecidableEq

namespace Piece

def chars (piece : Piece) : List Char := piece.gap ++ piece.lexeme.chars

def width (piece : Piece) : Nat := byteLength piece.chars

/-- The token of the piece where its blanks begin at `offset`. -/
def token (offset : Nat) (piece : Piece) : Token :=
  ⟨piece.lexeme.kind, offset + byteLength piece.gap, piece.lexeme.chars⟩

@[simp] theorem token_kind (offset : Nat) (piece : Piece) : (piece.token offset).kind = piece.lexeme.kind := rfl

@[simp] theorem token_lexeme (offset : Nat) (piece : Piece) : (piece.token offset).lexeme = piece.lexeme.chars := rfl

@[simp] theorem token_start (offset : Nat) (piece : Piece) :
    (piece.token offset).start = offset + byteLength piece.gap := rfl

@[simp] theorem token_stop (offset : Nat) (piece : Piece) : (piece.token offset).stop = offset + piece.width := by
  rw [Token.stop, token_start, token_lexeme, width, chars, byteLength_append, Nat.add_assoc]

end Piece

/-- The text of the pieces. -/
def written (pieces : List Piece) : List Char := pieces.flatMap Piece.chars

@[simp] theorem written_nil : written [] = [] := rfl

@[simp] theorem written_cons (piece : Piece) (rest : List Piece) :
    written (piece :: rest) = piece.chars ++ written rest := rfl

@[simp] theorem written_append (front back : List Piece) : written (front ++ back) = written front ++ written back :=
  List.flatMap_append

/-- How many bytes the text of the pieces takes. -/
def width (pieces : List Piece) : Nat := byteLength (written pieces)

@[simp] theorem width_nil : width [] = 0 := rfl

@[simp] theorem width_cons (piece : Piece) (rest : List Piece) : width (piece :: rest) = piece.width + width rest := by
  rw [width, written_cons, byteLength_append]
  rfl

theorem width_singleton (piece : Piece) : width [piece] = piece.width := by rw [width_cons, width_nil, Nat.add_zero]

@[simp] theorem width_append (front back : List Piece) : width (front ++ back) = width front + width back := by
  rw [width, written_append, byteLength_append]
  rfl

/-- The tokens of the pieces where their text begins at `offset`. -/
def place (offset : Nat) : List Piece → List Token
  | [] => []
  | piece :: rest => piece.token offset :: place (offset + piece.width) rest

@[simp] theorem place_nil (offset : Nat) : place offset [] = [] := rfl

@[simp] theorem place_cons (offset : Nat) (piece : Piece) (rest : List Piece) :
    place offset (piece :: rest) = piece.token offset :: place (offset + piece.width) rest := rfl

@[simp] theorem place_append (offset : Nat) (front back : List Piece) :
    place offset (front ++ back) = place offset front ++ place (offset + width front) back := by
  induction front generalizing offset with
  | nil => rfl
  | cons piece front ih => rw [List.cons_append, place_cons, place_cons, ih, width_cons, Nat.add_assoc, List.cons_append]

@[simp] theorem length_place (offset : Nat) (pieces : List Piece) : (place offset pieces).length = pieces.length := by
  induction pieces generalizing offset with
  | nil => rfl
  | cons piece pieces ih => rw [place_cons, List.length_cons, List.length_cons, ih]

def IsBlank (gap : List Char) : Prop := ∀ c ∈ gap, c = ' ' ∨ c = '\n'

@[simp] theorem isBlank_nil : IsBlank [] := by simp [IsBlank]

@[simp] theorem isBlank_cons {gap : List Char} : IsBlank (c :: gap) ↔ (c = ' ' ∨ c = '\n') ∧ IsBlank gap := by
  simp [IsBlank]

/-- The last token of the pieces, or the one before them if there are none. -/
def lastOf (before : Option Lexeme) : List Piece → Option Lexeme
  | [] => before
  | piece :: rest => lastOf (some piece.lexeme) rest

@[simp] theorem lastOf_nil (before : Option Lexeme) : lastOf before [] = before := rfl

@[simp] theorem lastOf_cons (before : Option Lexeme) (piece : Piece) (rest : List Piece) :
    lastOf before (piece :: rest) = lastOf (some piece.lexeme) rest := rfl

@[simp] theorem lastOf_append (before : Option Lexeme) (front back : List Piece) :
    lastOf before (front ++ back) = lastOf (lastOf before front) back := by
  induction front generalizing before with
  | nil => rfl
  | cons piece front ih => exact ih _

/-- The gaps are blank, and tokens without a gap between them are separate. -/
def Laid (before : Option Lexeme) : List Piece → Prop
  | [] => True
  | piece :: rest =>
    IsBlank piece.gap ∧ (piece.gap = [] → ∀ last ∈ before, last.separate piece.lexeme = true) ∧
      Laid (some piece.lexeme) rest

theorem laid_cons {before : Option Lexeme} {piece : Piece} {rest : List Piece} :
    Laid before (piece :: rest) ↔ IsBlank piece.gap ∧
      (piece.gap = [] → ∀ last ∈ before, last.separate piece.lexeme = true) ∧ Laid (some piece.lexeme) rest := Iff.rfl

theorem laid_append {before : Option Lexeme} {front back : List Piece} :
    Laid before (front ++ back) ↔ Laid before front ∧ Laid (lastOf before front) back := by
  induction front generalizing before with
  | nil => simp [Laid]
  | cons piece front ih => simp only [List.cons_append, laid_cons, ih, lastOf_cons, and_assoc]

theorem laid_flatMap {items : List α} {write : α → List Piece} (each : ∀ item ∈ items, ∀ before, Laid before (write item))
    (before : Option Lexeme) : Laid before (items.flatMap write) := by
  induction items generalizing before with
  | nil => trivial
  | cons item items ih =>
    obtain ⟨first, others⟩ := List.forall_mem_cons.mp each
    rw [List.flatMap_cons, laid_append]
    exact ⟨first before, ih others _⟩

theorem blank_space (blank : c = ' ' ∨ c = '\n') : isWhiteSpace c = true := by
  rcases blank with rfl | rfl <;> rfl

theorem skipTrivia_blank {gap : List Char} (blank : IsBlank gap) (next : List Char) :
    skipTrivia .blank (gap ++ next) = skipTrivia .blank next := by
  induction gap with
  | nil => rfl
  | cons c gap ih =>
    obtain ⟨first, others⟩ := List.forall_mem_cons.mp blank
    rw [List.cons_append, skipTrivia_space (blank_space first), ih others]

/-- What a token does not reach: the blanks behind it, or a separate token. -/
theorem reaches_next {lexeme : Lexeme} {rest : List Piece} {tail : List Char} (laid : Laid (some lexeme) rest)
    (blank : IsBlank tail) : ∀ e ∈ (written rest ++ tail).head?, lexeme.reaches e = false := by
  intro e first
  cases rest with
  | nil => exact lexeme.reaches_blank (blank e (List.mem_of_mem_head? first))
  | cons piece rest =>
    obtain ⟨gap, apart, -⟩ := laid
    rw [written_cons, Piece.chars] at first
    cases shape : piece.gap with
    | nil =>
      obtain ⟨c, body, chars, -⟩ := piece.lexeme.chars_first
      rw [shape, chars] at first
      cases first
      exact Lexeme.separate_reaches (apart shape _ rfl) chars
    | cons c more =>
      rw [shape] at first gap
      cases first
      exact lexeme.reaches_blank (gap _ (List.mem_cons_self ..))

/-- A written text is read as the tokens it was written with. -/
theorem scanFrom_written {before : Option Lexeme} {pieces : List Piece} {tail : List Char} (laid : Laid before pieces)
    (blank : IsBlank tail) (offset : Nat) (glued : Bool) :
    scanFrom offset glued (written pieces ++ tail) = .ok (place offset pieces) := by
  induction pieces generalizing before offset glued with
  | nil =>
    refine scanFrom_nil _ ?_
    rw [written_nil, List.nil_append, ← List.append_nil tail, skipTrivia_blank blank]
    rfl
  | cons piece rest ih =>
    obtain ⟨gap, -, later⟩ := laid
    obtain ⟨c, body, chars, solid, slash, read⟩ := piece.lexeme.read (reaches_next later blank)
    have skipped : skipTrivia .blank (piece.gap ++ c :: (body ++ (written rest ++ tail))) =
        .ok (c :: (body ++ (written rest ++ tail))) := by
      rw [skipTrivia_blank gap, skipTrivia_done (by simp [solid]) (fun same => absurd same slash)
        (fun same => absurd same slash)]
    have whole : written (piece :: rest) ++ tail = piece.gap ++ c :: (body ++ (written rest ++ tail)) := by
      rw [written_cons, Piece.chars, chars]
      simp
    have token : piece.token offset = ⟨piece.lexeme.kind, offset + byteLength piece.gap, c :: body⟩ := by
      rw [Piece.token, chars]
    rw [whole, scanFrom_cons offset piece.gap body skipped (read _), ← token, Piece.token_stop, ih later]
    rfl

theorem scan_written {pieces : List Piece} {tail : List Char} (laid : Laid none pieces) (blank : IsBlank tail) :
    Token.scan (written pieces ++ tail) = .ok (place 0 pieces) := by
  rw [Token.scan, scanFrom_written laid blank]

end KindLift.WrittenTokens
