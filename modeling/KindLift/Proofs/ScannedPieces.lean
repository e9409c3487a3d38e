import KindLift.Proofs.ImportLines
import KindLift.Proofs.IndentedTexts
import KindLift.Proofs.TokenEdges

/-! Texts that are put together from pieces. A piece is cut into the same tokens wherever it
stands in front of a tail: the beginning of a text that was read, if the tail goes on as that
text did or with a character that no token goes on with; a gap; a line that was read alone. -/
namespace KindLift.ScannedPieces
open Token Text TextBoundary TokenPlacement TokenCopies TokenEnds TokenTiling TriviaGaps ScanSteps ScanRuns LineBreaks TokenEdges
open IndentedTexts (spell)
open LegibleTexts (scanFrom_glued Single single_mark)

variable {chars text later tail tail' rest gap body : List Char} {words others : List (TokenKind × List Char)} {c e : Char}
  {offset : Nat} {glued : Bool} {kind : TokenKind} {tokens front back : List Token}

/-- In front of the tail the text is cut into tokens that are spelled as the words. -/
def Reads (text : List Char) (words : List (TokenKind × List Char)) (tail : List Char) : Prop :=
  ∀ offset, ∃ front, front.map spell = words ∧
    scanFrom offset false (text ++ tail) = (scanFrom (offset + byteLength text) false tail).map (front ++ ·)

theorem Reads.nil (tail : List Char) : Reads [] [] tail := fun _ => ⟨[], rfl, (map_nil_append _).symm⟩

/-- A piece in front of another one. -/
theorem Reads.append (first : Reads text words (later ++ tail)) (second : Reads later others tail) :
    Reads (text ++ later) (words ++ others) tail := by
  intro offset
  obtain ⟨front, rfl, ahead⟩ := first offset
  obtain ⟨front', rfl, behind⟩ := second (offset + byteLength text)
  refine ⟨front ++ front', List.map_append, ?_⟩
  rw [List.append_assoc, ahead, behind, byteLength_append, Nat.add_assoc]
  cases scanFrom (offset + (byteLength text + byteLength later)) false tail with
  | error => rfl
  | ok rest => exact congrArg Except.ok (List.append_assoc _ _ _).symm

/-- A gap in front of a piece. -/
theorem Reads.skips (first : Reads text [] (later ++ tail)) (second : Reads later others tail) : Reads (text ++ later) others tail :=
  first.append second

/-- A token in front of a piece. -/
theorem Reads.cons {word : TokenKind × List Char} (first : Reads text [word] (later ++ tail)) (second : Reads later others tail) :
    Reads (text ++ later) (word :: others) tail :=
  first.append second

theorem Reads.scanned (reads : Reads text words tail) (scanned : scanFrom (offset + byteLength text) false tail = .ok back) :
    ∃ front, front.map spell = words ∧ scanFrom offset false (text ++ tail) = .ok (front ++ back) := by
  obtain ⟨front, same, goes⟩ := reads offset
  exact ⟨front, same, by rw [goes, scanned]; rfl⟩

/-! ### Gaps -/

theorem skipTrivia_lineComment (inLine : '\n' ∉ body) (rest : List Char) :
    skipTrivia .lineComment (body ++ '\n' :: rest) = skipTrivia .blank rest := by
  induction body with
  | nil => rw [List.nil_append, skipTrivia, if_pos rfl]
  | cons c body ih =>
    obtain ⟨other, inLine⟩ := List.ne_and_not_mem_of_not_mem_cons inLine
    rw [List.cons_append, skipTrivia, if_neg (Ne.symm other), ih inLine]

/-- Behind a comment, and behind the comments around it. -/
def behindComment (opened : List Char) : Nat → Trivia
  | 0 => .blank
  | outer + 1 => .blockComment outer opened

theorem skipTrivia_body (comment : Comment body) (enclosing : Nat) (opened rest : List Char) :
    skipTrivia (.blockComment enclosing opened) (body ++ '*' :: '/' :: rest) = skipTrivia (behindComment opened enclosing) rest := by
  induction comment generalizing enclosing rest with
  | nil => cases enclosing <;> rfl
  | char c body opens closes _ ih =>
    rw [mark_ahead _ _ rest] at opens closes
    rw [List.cons_append, skipTrivia_inside, ih]
    · rintro more rfl same
      exact opens (by simp [same])
    · rintro more rfl same
      exact closes (by simp [same])
  | nested inner body _ _ ih ih' =>
    have shape : '/' :: '*' :: (inner ++ '*' :: '/' :: body) ++ '*' :: '/' :: rest =
        '/' :: '*' :: (inner ++ '*' :: '/' :: (body ++ '*' :: '/' :: rest)) := by simp
    rw [shape, skipTrivia, ih, behindComment, ih']

/-- A gap in front of a tail is passed over. -/
theorem skipTrivia_passed (between : Gap false gap) (tail : List Char) : skipTrivia .blank (gap ++ tail) = skipTrivia .blank tail := by
  induction between with
  | nil => rfl
  | space c gap blank _ ih => rw [List.cons_append, skipTrivia_space blank, ih]
  | line body gap inLine _ ih =>
    have shape : '/' :: '/' :: (body ++ '\n' :: gap) ++ tail = '/' :: '/' :: (body ++ '\n' :: (gap ++ tail)) := by simp
    rw [shape, ← ih]
    exact skipTrivia_lineComment inLine _
  | lastLine _ last => cases last
  | block body gap inside _ ih =>
    have shape : '/' :: '*' :: (body ++ '*' :: '/' :: gap) ++ tail = '/' :: '*' :: (body ++ '*' :: '/' :: (gap ++ tail)) := by simp
    rw [shape, ← ih]
    exact skipTrivia_body inside 0 _ _

theorem reads_gap (between : Gap false gap) (tail : List Char) : Reads gap [] tail := by
  intro offset
  refine ⟨[], rfl, ?_⟩
  rw [map_nil_append]
  cases gap with
  | nil => rfl
  | cons c gap => exact scanFrom_behind (skipTrivia_passed between tail) (List.cons_ne_nil _ _) offset false

theorem gap_of_space (white : IsSpace gap) : Gap false gap := by
  induction gap with
  | nil => exact .nil
  | cons c gap ih =>
    obtain ⟨blank, white⟩ := List.forall_mem_cons.mp white
    exact .space c gap blank (ih white)

/-- A gap can be cut behind a line feed, if there is only white space on the line behind it. -/
theorem gap_cut {blanks : List Char} (between : Gap false chars) (whole : chars = gap ++ '\n' :: blanks) (white : IsSpace blanks)
    (inLine : '\n' ∉ blanks) : Gap false (gap ++ ['\n']) := by
  induction between generalizing gap with
  | nil => simp at whole
  | space c rest blank _ ih =>
    cases gap with
    | nil =>
      cases whole
      exact .space '\n' [] blank .nil
    | cons d gap =>
      cases whole
      exact .space _ _ blank (ih rfl)
  | line body rest inBody _ ih =>
    replace whole : ('/' :: '/' :: body) ++ '\n' :: rest = gap ++ '\n' :: blanks := by rw [← whole]; simp
    rcases List.append_eq_append_iff.mp whole with ⟨more, rfl, split⟩ | ⟨more, shape, split⟩
    · cases more with
      | nil =>
        rw [List.append_nil]
        simpa using Gap.line body [] inBody .nil
      | cons d more =>
        cases split
        have later := Gap.line body (more ++ ['\n']) inBody (ih rfl)
        simpa using later
    · -- The line feed is not inside of the comment.
      cases more with
      | nil =>
        rw [List.append_nil] at shape
        subst shape
        simpa using Gap.line body [] inBody .nil
      | cons d more =>
        cases split
        have inside : '\n' ∈ '/' :: '/' :: body := by rw [shape]; simp
        simp [inBody] at inside
  | lastLine _ last => cases last
  | block body rest inside behind ih =>
    replace whole : ('/' :: '*' :: body ++ ['*', '/']) ++ rest = gap ++ '\n' :: blanks := by rw [← whole]; simp
    rcases List.append_eq_append_iff.mp whole with ⟨more, rfl, split⟩ | ⟨more, shape, split⟩
    · have later := Gap.block body (more ++ ['\n']) inside (ih split)
      simpa using later
    · cases more with
      | nil =>
        rw [List.append_nil] at shape
        rw [← shape]
        have later : Gap false _ := .block body ['\n'] inside (.space '\n' [] (by decide) .nil)
        simpa using later
      | cons d more =>
        -- The end of the comment is not among the white space.
        obtain ⟨rfl, rfl⟩ := List.cons.inj split
        have ends : (gap ++ '\n' :: more).getLast? = some '/' := by
          rw [← shape, List.getLast?_append]
          rfl
        rw [List.getLast?_append_of_ne_nil _ (List.cons_ne_nil _ _)] at ends
        rcases List.mem_cons.mp (List.mem_of_getLast? ends) with same | last
        · cases same
        · exact absurd (white _ (List.mem_append_left _ last)) (by decide)

/-! ### The beginning of a text -/

/-- No string and no point comes next. -/
def Plain (tokens : List Token) : Prop := ∀ token ∈ tokens.head?, token.kind ≠ .literal ∧ token.kind ≠ .dot

theorem head_plain (scanned : scanFrom offset glued chars = .ok tokens) (plain : Plain tokens) :
    ∀ e ∈ chars.head?, e ≠ '"' ∧ e ≠ '.' := by
  intro e first
  obtain ⟨rest, rfl⟩ := List.head?_eq_some_iff.mp first
  cases tokens with
  | nil =>
    have skipped : skipTrivia .blank (e :: rest ++ []) = .ok [] := by
      rw [List.append_nil]
      exact skipTrivia_nothing scanned
    exact ⟨(gap_plain skipped).1, (gap_plain skipped).2.1⟩
  | cons token tokens =>
    obtain ⟨gap, c, body, next, whole, skipped, read, -⟩ := scanFrom_first scanned
    cases gap with
    | cons d gap =>
      cases whole
      exact ⟨(gap_plain skipped).1, (gap_plain skipped).2.1⟩
    | nil =>
      cases whole
      obtain ⟨noString, noPoint⟩ := plain token rfl
      constructor
      · rintro rfl
        obtain ⟨_, -, same⟩ := TokenLocality.map_eq_ok (show (skipString _ _).map (TokenKind.literal, ·) = .ok (token.kind, next) from read)
        exact noString (Prod.mk.inj same).1.symm
      · rintro rfl
        have point : ∀ rest, punctuation? '.' rest = if rest.head?.any Char.isDigit then none else some .dot := fun _ => rfl
        unfold readToken at read
        rw [point] at read
        by_cases digit : (body ++ next).head?.any Char.isDigit = true
        · rw [if_pos digit] at read
          exact noString (Prod.mk.inj (Except.ok.inj read)).1.symm
        · rw [if_neg digit] at read
          exact noPoint (Prod.mk.inj (Except.ok.inj read)).1.symm

theorem scanFrom_plain (plain : ∀ e ∈ chars.head?, e ≠ '"') (offset : Nat) (glued : Bool) :
    scanFrom offset glued chars = scanFrom offset false chars := by
  cases chars with
  | nil => rw [scanFrom_nil _ rfl, scanFrom_nil _ rfl]
  | cons e chars => exact scanFrom_glued (plain e rfl) (LegibleTexts.begins_cons e chars) _ _ _

theorem spell_carried {low low' size : Nat} {front' : List Token} (carried : List.Forall₂ (Carried low low' size) front front') :
    front'.map spell = front.map spell := by
  induction carried with
  | nil => rfl
  | cons first _ ih => rw [List.map_cons, List.map_cons, ih, spell, spell, first.kind, first.lexeme]

/-- The first tokens of a text that was read, and where they end. They are read again in front
of what begins as the text went on, or with a character that no token goes on with. -/
theorem reads_begun (scanned : scanFrom offset false chars = .ok (front ++ back)) (plain : Plain back) :
    ∃ text tail, chars = text ++ tail ∧ offset + byteLength text = stopAfter offset front ∧ (front ≠ [] → EndsSolid text) ∧
      scanFrom (stopAfter offset front) false tail = .ok back ∧
      (∀ tail', tail'.head? = tail.head? → Reads text (front.map spell) tail') ∧
      ∀ e z, Breaks e → Reads text (front.map spell) (e :: z) := by
  obtain ⟨text, tail, rfl, stop, ends, behind, again⟩ := scanFrom_front scanned
  have first := head_plain behind plain
  refine ⟨text, tail, rfl, stop, ends, ?_, fun tail' same offset' => ?_, fun e z breaks offset' => ?_⟩
  · rwa [scanFrom_plain fun e begins => (first e begins).1] at behind
  · have alike : Alike tail tail' := by
      cases tail with
      | nil => exact .inl (List.head?_eq_none_iff.mp same).symm
      | cons e tail =>
        obtain ⟨rest, rfl⟩ := List.head?_eq_some_iff.mp same
        exact .inr ⟨[], e, tail, rest, (first e rfl).1, fun point => absurd point (first e rfl).2, rfl, rfl⟩
    obtain ⟨front', carried, goes⟩ := again tail' alike offset'
    refine ⟨front', spell_carried carried, ?_⟩
    rw [goes, scanFrom_plain fun e begins => (first e (same ▸ begins)).1]
  · -- At the end of the text a line feed stands in for what comes behind.
    obtain ⟨f, x, feed, quote⟩ : ∃ f x, scanFrom offset false (text ++ f :: x) = .ok (front ++ back) ∧ f ≠ '"' := by
      cases tail with
      | cons f x => exact ⟨f, x, scanned, (first f rfl).1⟩
      | nil =>
        rw [List.append_nil] at scanned
        refine ⟨'\n', [], ?_, by decide⟩
        rw [scanFrom_line scanned, scanFrom_nil _ rfl]
        exact congrArg Except.ok (List.append_nil _)
    obtain ⟨front', carried, goes⟩ := scanFrom_edge feed stop quote breaks offset' z
    refine ⟨front', spell_carried carried, ?_⟩
    rw [goes, scanFrom_plain]
    rintro _ ⟨⟩
    exact breaks.quote

/-! ### Whole lines -/

theorem spell_shift (distance : Nat) (tokens : List Token) : (tokens.map (shift distance)).map spell = tokens.map spell := by
  rw [List.map_map]
  rfl

/-- A text has the same words at another offset. -/
theorem rescanned {low : Nat} {tokens : List Token} (scanned : scanFrom low false chars = .ok tokens) (offset : Nat) :
    ∃ tokens', scanFrom offset false chars = .ok tokens' ∧ tokens'.map spell = tokens.map spell := by
  have moved := LineBreaks.scanFrom_shift low 0 false chars
  have moved' := LineBreaks.scanFrom_shift offset 0 false chars
  rw [Nat.zero_add, scanned] at moved
  rw [Nat.zero_add] at moved'
  obtain ⟨base, first, same⟩ := TokenLocality.map_eq_ok moved.symm
  rw [first] at moved'
  exact ⟨_, moved', by rw [← same, spell_shift, spell_shift]⟩

/-- A text that is read alone is read in front of a line feed. -/
theorem reads_line (scanned : scan text = .ok tokens) (tail : List Char) : Reads (text ++ ['\n']) (tokens.map spell) tail := by
  intro offset
  have moved := scanFrom_shift offset 0 false text
  rw [scan_eq_ok_iff.mp scanned, Nat.zero_add] at moved
  refine ⟨tokens.map (shift offset), spell_shift offset tokens, ?_⟩
  have width : byteLength (text ++ ['\n']) = byteLength text + 1 := by
    rw [byteLength_append]
    rfl
  rw [List.append_assoc, List.singleton_append, scanFrom_line moved, width]

/-- A text that is read alone, and that its last token ends, is read in front of whatever no
token goes on with. -/
theorem reads_ended (scanned : scan text = .ok tokens) (ends : stopAfter 0 tokens = byteLength text) (follow : ∀ e ∈ tail.head?, Breaks e) :
    Reads text (tokens.map spell) tail := by
  cases tail with
  | nil =>
    intro offset
    have moved := scanFrom_shift offset 0 false text
    rw [scan_eq_ok_iff.mp scanned, Nat.zero_add] at moved
    refine ⟨tokens.map (shift offset), spell_shift offset tokens, ?_⟩
    rw [List.append_nil, moved, scanFrom_nil _ rfl]
    exact congrArg Except.ok (List.append_nil _).symm
  | cons e z =>
    have nothing : scanFrom (0 + (byteLength text + 1)) false [] = .ok [] := scanFrom_nil _ rfl
    have line : scanFrom 0 false (text ++ ['\n']) = .ok (tokens ++ []) := by
      rw [scanFrom_line (scan_eq_ok_iff.mp scanned), nothing]
      rfl
    obtain ⟨front, gap, whole, length, -, -, -, before⟩ := reads_begun line (by simp [Plain])
    obtain ⟨rest, rfl⟩ := cuts_nested whole (by omega)
    obtain rfl : rest = [] := by
      refine eq_nil_of_width ?_
      rw [byteLength_append] at length
      omega
    rw [List.append_nil] at before
    exact before e z (follow e rfl)

theorem reads_single {follows : List Char → Prop} (single : Single text kind follows) (follow : follows tail) :
    Reads text [(kind, text)] tail :=
  fun offset => ⟨[⟨kind, offset, text⟩], rfl, single offset tail follow⟩

/-- A mark is a token of its own in front of everything. -/
theorem reads_mark (mark : ∀ next, punctuation? e next = some kind) (tail : List Char) : Reads [e] [(kind, [e])] tail :=
  reads_single (single_mark mark) trivial

end KindLift.ScannedPieces
