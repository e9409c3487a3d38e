import KindLift.Proofs.BytePrograms
import KindLift.Proofs.TokenEnds
import KindLift.Proofs.TokenTiling

/-! The scanner among the bytes of a text passes over comments and strings as the reader of
characters does. A splice calls for strings and a string for splices: each of their loops
is right for texts of any length if all of them are for shorter ones. -/
namespace KindLift.ByteStrings
open Token Text TextBoundary TokenPlacement TriviaGaps ScanSteps WrittenTokens TokenEnds TokenTiling BytePrograms
open ByteScanner hiding rest skipTrivia string quote number run

variable {source chars tail opened : List Char} {offset start stop bound room : Nat} {c : Char} {fault : Fault}

/-! ### White space and comments -/

theorem isPrefixOf_iff {mark : List Char} : mark.isPrefixOf chars = true ↔ ∃ tail, chars = mark ++ tail := by
  rw [List.isPrefixOf_iff_prefix]
  exact exists_congr fun tail => eq_comm

theorem isPrefixOf_pair {d e : Char} : [d, e].isPrefixOf chars = true ↔ ∃ tail, chars = d :: e :: tail :=
  isPrefixOf_iff

theorem isPrefixOf_cons (d : Char) (mark : List Char) :
    (d :: mark).isPrefixOf (c :: tail) = (decide (c = d) && mark.isPrefixOf tail) := by
  rw [List.isPrefixOf, beq_eq_decide, decide_eq_decide.mpr eq_comm]

theorem closeFrames_step {frame : Frame} {inner : List Frame} {more : Nat} (outer : List Frame)
    (advanced : frame.advance c tail = .ok (inner, more)) :
    closeFrames (frame :: outer) (c :: tail) = closeFrames (inner ++ outer) (tail.drop more) := by
  rw [closeFrames, advanced]

/-- A block comment is passed over up to its end. -/
theorem follows_closeComment {enclosing : Nat} (began : At source start opened) (here : At source offset chars) :
    Follows source (closeComment start (enclosing + 1)) offset () (closeFrames [.blockComment enclosing opened] chars) := by
  induction length : chars.length using Nat.strongRecOn generalizing offset chars enclosing with
  | ind n ih =>
    subst length
    rw [closeComment_eq]
    refine (reads_startsWith here _).follows fun offset here => ?_
    by_cases opens : ['/', '*'].isPrefixOf chars = true
    · rw [if_pos opens]
      obtain ⟨tail, rfl⟩ := isPrefixOf_pair.mp opens
      refine (reads_mark here rfl).follows fun offset here => ?_
      have inner : (Frame.blockComment enclosing opened).advance '/' ('*' :: tail) = .ok ([.blockComment (enclosing + 1) opened], 1) := rfl
      rw [closeFrames_step [] inner]
      exact ih tail.length (by simp only [List.length_cons]; omega) here rfl
    rw [if_neg opens]
    refine (reads_startsWith here _).follows fun offset here => ?_
    by_cases closes : ['*', '/'].isPrefixOf chars = true
    · rw [if_pos closes]
      obtain ⟨tail, rfl⟩ := isPrefixOf_pair.mp closes
      refine (reads_mark here rfl).follows fun offset here => ?_
      cases enclosing with
      | zero =>
        have last : (Frame.blockComment 0 opened).advance '*' ('/' :: tail) = .ok ([], 1) := rfl
        rw [closeFrames_step [] last, if_pos rfl, List.append_nil, closeFrames]
        exact .done here ()
      | succ enclosing =>
        have outer : (Frame.blockComment (enclosing + 1) opened).advance '*' ('/' :: tail) = .ok ([.blockComment enclosing opened], 1) := rfl
        rw [closeFrames_step [] outer, if_neg (Nat.succ_ne_zero enclosing)]
        exact ih tail.length (by simp only [List.length_cons]; omega) here rfl
    rw [if_neg closes]
    cases chars with
    | nil =>
      refine (reads_bump_end here).follows fun offset here => ?_
      rw [closeFrames]
      exact refuses_refuse here began _
    | cons c tail =>
      refine (reads_bump here).follows fun offset here => ?_
      rw [isPrefixOf_cons] at opens closes
      have stays : (Frame.blockComment enclosing opened).advance c tail = .ok ([.blockComment enclosing opened], 0) := by
        simp only [Frame.advance, if_neg opens, if_neg closes]
      rw [closeFrames_step [] stays]
      exact ih tail.length (Nat.lt_succ_self _) here rfl

theorem follows_blockComment (began : At source start ('/' :: '*' :: tail)) :
    Follows source blockComment start () (closeFrames [.blockComment 0 ('/' :: '*' :: tail)] tail) := by
  rw [blockComment]
  refine follows_get ?_
  rw [closeComment_eq]
  refine (reads_startsWith began _).follows fun offset here => ?_
  have opens : ['/', '*'].isPrefixOf ('/' :: '*' :: tail) = true := rfl
  rw [if_pos opens]
  refine (reads_mark here rfl).follows fun offset here => ?_
  exact follows_closeComment began here

/-! White space and comments of a list of characters. -/

theorem skipTrivia_blanks_dropped (chars : List Char) :
    skipTrivia .blank chars = skipTrivia .blank (chars.dropWhile isWhiteSpace) := by
  induction chars with
  | nil => rfl
  | cons c tail ih =>
    by_cases blank : isWhiteSpace c = true
    · rw [List.dropWhile_cons_of_pos blank, skipTrivia_space blank, ih]
    · rw [List.dropWhile_cons_of_neg blank]

theorem skipTrivia_line_dropped (chars : List Char) :
    skipTrivia .lineComment chars = skipTrivia .blank (chars.dropWhile (· ≠ '\n')) := by
  induction chars with
  | nil => rfl
  | cons c tail ih =>
    by_cases feed : c = '\n'
    · rw [List.dropWhile_cons_of_neg (by simp [feed]), feed, skipTrivia_space rfl, skipTrivia, if_pos rfl]
    · rw [List.dropWhile_cons_of_pos (by simpa using feed), ← ih, skipTrivia, if_neg feed]

/-- A block comment is closed like one inside of a string, and skipping goes on behind it. -/
theorem skipTrivia_block_closed (enclosing : Nat) (opened chars : List Char) :
    skipTrivia (.blockComment enclosing opened) chars =
      (closeFrames [.blockComment enclosing opened] chars).bind (skipTrivia .blank) := by
  generalize shape : Trivia.blockComment enclosing opened = trivia
  fun_induction skipTrivia trivia chars generalizing enclosing with
  | case1 =>
    cases shape
    rw [closeFrames]
    rfl
  | case2 trivia notBlock => exact absurd shape.symm (notBlock enclosing opened)
  | case9 enclosing opened tail ih =>
    cases shape
    have inner : (Frame.blockComment enclosing opened).advance '/' ('*' :: tail) = .ok ([.blockComment (enclosing + 1) opened], 1) := rfl
    rw [closeFrames_step [] inner]
    exact ih (enclosing + 1) rfl
  | case10 opened' tail ih =>
    cases shape
    have last : (Frame.blockComment 0 opened).advance '*' ('/' :: tail) = .ok ([], 1) := rfl
    rw [closeFrames_step [] last, List.append_nil, closeFrames]
    rfl
  | case11 opened' tail outer ih =>
    cases shape
    have outer : (Frame.blockComment (outer + 1) opened).advance '*' ('/' :: tail) = .ok ([.blockComment outer opened], 1) := rfl
    rw [closeFrames_step [] outer]
    exact ih _ rfl
  | case12 enclosing opened c tail opens closes ih =>
    cases shape
    have opens : ¬ (decide (c = '/') && ['*'].isPrefixOf tail) = true := by
      rw [← isPrefixOf_cons, isPrefixOf_iff]
      rintro ⟨more, same⟩
      cases same
      exact opens _ rfl rfl
    have closes : ¬ (decide (c = '*') && ['/'].isPrefixOf tail) = true := by
      rw [← isPrefixOf_cons, isPrefixOf_iff]
      rintro ⟨more, same⟩
      cases same
      exact closes _ rfl rfl
    have stays : (Frame.blockComment enclosing opened).advance c tail = .ok ([.blockComment enclosing opened], 0) := by
      simp only [Frame.advance, if_neg opens, if_neg closes]
    rw [closeFrames_step [] stays]
    exact ih _ rfl
  | _ => cases shape

/-- White space and comments are passed over. -/
theorem follows_skipTrivia (here : At source offset chars) :
    Follows source ByteScanner.skipTrivia offset () (skipTrivia .blank chars) := by
  induction length : chars.length using Nat.strongRecOn generalizing offset chars with
  | ind n ih =>
    subst length
    rw [skipTrivia_eq, skipTrivia_blanks_dropped]
    refine (reads_eatWhile isWhiteSpace here).follows fun offset here => ?_
    have shorter := length_dropWhile_le isWhiteSpace chars
    have solid := @dropWhile_ends chars _ isWhiteSpace rfl
    generalize chars.dropWhile isWhiteSpace = left at here shorter solid
    refine (reads_startsWith here _).follows fun offset here => ?_
    by_cases line : ['/', '/'].isPrefixOf left = true
    · rw [if_pos line]
      obtain ⟨tail, rfl⟩ := isPrefixOf_pair.mp line
      have comment : skipTrivia .blank ('/' :: '/' :: tail) = skipTrivia .lineComment tail := by
        rw [skipTrivia]
        rfl
      rw [comment, skipTrivia_line_dropped]
      refine (reads_eatWhile _ here).follows fun offset here => ?_
      rw [List.dropWhile_cons_of_pos (by decide), List.dropWhile_cons_of_pos (by decide)] at here
      refine ih _ ?_ here rfl
      have := length_dropWhile_le (fun c => decide (c ≠ '\n')) tail
      simp only [List.length_cons] at shorter
      omega
    rw [if_neg line]
    refine (reads_startsWith here _).follows fun offset here => ?_
    by_cases block : ['/', '*'].isPrefixOf left = true
    · rw [if_pos block]
      obtain ⟨tail, rfl⟩ := isPrefixOf_pair.mp block
      have comment : skipTrivia .blank ('/' :: '*' :: tail) =
          (closeFrames [.blockComment 0 ('/' :: '*' :: tail)] tail).bind (skipTrivia .blank) := by
        rw [← skipTrivia_block_closed, skipTrivia]
        rfl
      rw [comment]
      refine (follows_blockComment here).bind fun chars closed offset here => ?_
      refine ih _ ?_ here rfl
      have := closeFrames_length_le closed
      simp only [List.length_cons] at shorter
      omega
    rw [if_neg block]
    have done : skipTrivia .blank left = .ok left := by
      cases left with
      | nil => rfl
      | cons c tail =>
        rw [isPrefixOf_cons, Bool.and_eq_true, not_and, decide_eq_true_eq, Bool.not_eq_true] at line block
        refine skipTrivia_done ?_ line block
        rw [solid c rfl]
        exact Bool.false_ne_true
    rw [done]
    exact .done here ()

/-! ### Frames -/

/-- What is open is closed from the inside outwards. -/
theorem closeFrames_append (inner outer : List Frame) (chars : List Char) :
    closeFrames (inner ++ outer) chars = (closeFrames inner chars).bind (closeFrames outer) := by
  fun_induction closeFrames inner chars with
  | case1 => rfl
  | case2 frame inner =>
    rw [List.cons_append, closeFrames]
    rfl
  | case3 frame inner c tail fault advanced =>
    rw [List.cons_append, closeFrames, advanced]
    rfl
  | case4 frame inner c tail opened more advanced ih =>
    rw [List.cons_append, closeFrames, advanced]
    dsimp only
    rw [← ih, List.append_assoc]

/-- A comment up to the end of its line is passed over in a splice as between tokens. -/
theorem closeFrames_line (enclosing : Nat) (opened chars : List Char) :
    closeFrames [.lineComment opened, .splice enclosing false opened] chars =
      closeFrames [.splice enclosing false opened] (chars.dropWhile (· ≠ '\n')) := by
  induction chars with
  | nil =>
    rw [List.dropWhile_nil, closeFrames, closeFrames]
    rfl
  | cons c tail ih =>
    by_cases feed : c = '\n'
    · subst feed
      have ends : (Frame.lineComment opened).advance '\n' tail = .ok ([], 0) := rfl
      have blank : (Frame.splice enclosing false opened).advance '\n' tail = .ok ([.splice enclosing false opened], 0) := rfl
      rw [List.dropWhile_cons_of_neg (by simp), closeFrames_step _ ends, closeFrames_step _ blank]
      rfl
    · have stays : (Frame.lineComment opened).advance c tail = .ok ([.lineComment opened], 0) := if_neg feed
      rw [List.dropWhile_cons_of_pos (by simpa using feed), ← ih, closeFrames_step _ stays]
      rfl

/-- White space and comments are passed over in a splice as between tokens. A quote behind
them does not stand behind a word. -/
theorem closeFrames_splice (enclosing : Nat) (glued : Bool) (opened chars : List Char) :
    closeFrames [.splice enclosing glued opened] chars = (skipTrivia .blank chars).bind fun left =>
      closeFrames [.splice enclosing (glued && left.length = chars.length) opened] left := by
  induction length : chars.length using Nat.strongRecOn generalizing glued chars with
  | ind n ih =>
    subst length
    -- What is skipped in a shorter text ends behind where this one began.
    have later {tail : List Char} (shorter : tail.length < chars.length) :
        closeFrames [.splice enclosing false opened] tail = (skipTrivia .blank tail).bind fun left =>
          closeFrames [.splice enclosing (glued && left.length = chars.length) opened] left := by
      rw [ih _ shorter false tail rfl]
      cases skipped : skipTrivia .blank tail with
      | error fault => rfl
      | ok left =>
        have bound := skipTrivia_length_le skipped
        have differs : left.length ≠ chars.length := by omega
        simp only [Except.bind, Bool.false_and, decide_eq_false differs, Bool.and_false]
    cases chars with
    | nil =>
      show _ = closeFrames _ []
      rw [closeFrames, closeFrames]
      rfl
    | cons c tail =>
      by_cases blank : isWhiteSpace c = true
      · have stays : (Frame.splice enclosing glued opened).advance c tail = .ok ([.splice enclosing false opened], 0) := if_pos blank
        rw [closeFrames_step _ stays, skipTrivia_space blank]
        exact later (Nat.lt_succ_self _)
      by_cases line : ['/', '/'].isPrefixOf (c :: tail) = true
      · obtain ⟨tail, same⟩ := isPrefixOf_pair.mp line
        cases same
        have begins : (Frame.splice enclosing glued opened).advance '/' ('/' :: tail) =
            .ok ([.lineComment opened, .splice enclosing false opened], 1) := rfl
        have comment : skipTrivia .blank ('/' :: '/' :: tail) = skipTrivia .lineComment tail := by
          rw [skipTrivia]
          rfl
        have shorter := length_dropWhile_le (fun c => decide (c ≠ '\n')) tail
        rw [closeFrames_step _ begins, comment, skipTrivia_line_dropped]
        refine (closeFrames_line enclosing opened tail).trans (later ?_)
        simp only [List.length_cons]
        omega
      by_cases block : ['/', '*'].isPrefixOf (c :: tail) = true
      · obtain ⟨tail, same⟩ := isPrefixOf_pair.mp block
        cases same
        have begins : (Frame.splice enclosing glued opened).advance '/' ('*' :: tail) =
            .ok ([.blockComment 0 ('/' :: '*' :: tail), .splice enclosing false opened], 1) := rfl
        have comment : skipTrivia .blank ('/' :: '*' :: tail) =
            (closeFrames [.blockComment 0 ('/' :: '*' :: tail)] tail).bind (skipTrivia .blank) := by
          rw [← skipTrivia_block_closed, skipTrivia]
          rfl
        rw [closeFrames_step _ begins, comment]
        refine (closeFrames_append [.blockComment 0 ('/' :: '*' :: tail)] [.splice enclosing false opened] tail).trans ?_
        cases closed : closeFrames [.blockComment 0 ('/' :: '*' :: tail)] tail with
        | error fault => rfl
        | ok left =>
          have shorter := closeFrames_length_le closed
          refine later ?_
          simp only [List.length_cons]
          omega
      rw [isPrefixOf_cons, Bool.and_eq_true, not_and, decide_eq_true_eq, Bool.not_eq_true] at line block
      rw [skipTrivia_done blank line block]
      simp only [Except.bind, decide_true, Bool.and_true]

/-- A run of quotes closes a string of three, whatever their number. -/
theorem closeFrames_quotes (spliced : Bool) (opened tail : List Char) :
    closeFrames [.tripled spliced opened] ('"' :: '"' :: '"' :: tail) = .ok (tail.dropWhile (· = '"')) := by
  induction tail with
  | nil =>
    have closes : (Frame.tripled spliced opened).advance '"' ['"', '"'] = .ok ([], 2) := rfl
    rw [closeFrames_step _ closes, List.append_nil, closeFrames]
    rfl
  | cons c tail ih =>
    by_cases more : c = '"'
    · subst more
      have stays : (Frame.tripled spliced opened).advance '"' ('"' :: '"' :: '"' :: tail) = .ok ([.tripled spliced opened], 0) := by
        simp [Frame.advance]
      rw [closeFrames_step _ stays, List.dropWhile_cons_of_pos (by simp)]
      exact ih
    · have closes : (Frame.tripled spliced opened).advance '"' ('"' :: '"' :: c :: tail) = .ok ([], 2) := by
        simp [Frame.advance, Ne.symm more]
      rw [closeFrames_step _ closes, List.append_nil, closeFrames, List.dropWhile_cons_of_neg (by simpa using more)]
      rfl

/-! ### Strings and splices -/

/-- In a gap in front of something nothing is the end of a word. -/
theorem gap_ends {gap : List Char} (blank : Gap false gap) (filled : gap ≠ []) : gap.getLast?.any isIdentPart = false := by
  have behind {front rest : List Char} {c : Char} (plain : isIdentPart c = false)
      (ih : rest ≠ [] → rest.getLast?.any isIdentPart = false) : (front ++ c :: rest).getLast?.any isIdentPart = false := by
    rw [List.getLast?_append, List.getLast?_cons]
    cases last : rest.getLast? with
    | none => simpa using plain
    | some d =>
      have nonempty : rest ≠ [] := by
        rintro rfl
        cases last
      rw [last] at ih
      simpa using ih nonempty
  induction blank with
  | nil => exact absurd rfl filled
  | space c gap blank rest ih =>
    refine @behind [] gap c ?_ ih
    by_contra part
    rw [TokenEnds.identPart_solid (Bool.not_eq_false _ ▸ part)] at blank
    cases blank
  | line body gap inLine rest ih => exact @behind ('/' :: '/' :: body) gap '\n' (by decide) ih
  | lastLine body last => cases last
  | block body gap inside rest ih =>
    have shape : '/' :: '*' :: (body ++ '*' :: '/' :: gap) = ('/' :: '*' :: (body ++ ['*'])) ++ '/' :: gap := by simp
    rw [shape]
    exact behind (by decide) ih

/-- The loops of strings and splices read what is read in their frames, in texts of fewer than
so many characters and with room for that many strings. -/
structure StringsFollow (source : List Char) (bound : Nat) : Prop where
  quoted : ∀ {room start offset : Nat} {opened chars : List Char} (interpolated : Bool), bound ≤ room → chars.length < bound →
    At source start opened → At source offset chars →
      Follows source (closeQuoted (spliceWith (ByteScanner.string room)) start interpolated) offset () (closeFrames [.quoted interpolated opened] chars)
  tripled : ∀ {room start offset : Nat} {opened chars : List Char} (interpolated : Bool), bound ≤ room → chars.length < bound →
    At source start opened → At source offset chars →
      Follows source (closeTripled (spliceWith (ByteScanner.string room)) start interpolated) offset () (closeFrames [.tripled interpolated opened] chars)
  splice : ∀ {room start offset : Nat} {opened left chars : List Char} (enclosing : Nat), bound ≤ room → chars.length < bound →
    At source start opened → source = left ++ chars → byteLength left = offset →
      Follows source (closeSplice (ByteScanner.string room) start (enclosing + 1)) offset ()
        (closeFrames [.splice enclosing (left.getLast?.any isIdentPart) opened] chars)

/-- A splice is passed over if shorter ones are. -/
theorem follows_splice (follow : StringsFollow source bound) (enough : bound ≤ room) (short : tail.length < bound)
    (here : At source offset ('$' :: '\x7b' :: tail)) :
    Follows source (spliceWith (ByteScanner.string room)) offset ()
      (closeFrames [.splice 0 false ('$' :: '\x7b' :: tail)] tail) := by
  rw [spliceWith]
  refine follows_get ((reads_mark here rfl).follows fun offset there => ?_)
  obtain ⟨left, whole, width⟩ := here.cut
  have whole' : source = (left ++ ['$', '\x7b']) ++ tail := by rw [whole, List.append_assoc]; rfl
  have goes := follow.splice 0 enough short here whole' (there.width whole')
  have brace : (left ++ ['$', '\x7b']).getLast?.any isIdentPart = false := by
    rw [List.getLast?_append]
    rfl
  rwa [brace] at goes

/-- A string is passed over if the loops do that with shorter ones. -/
theorem follows_string (follow : StringsFollow source bound) (enough : bound ≤ room) (interpolated : Bool)
    (short : tail.length < bound) (began : At source start ('"' :: tail)) :
    Follows source (ByteScanner.string (room + 1) interpolated) start () (skipString interpolated tail) := by
  rw [ByteScanner.string, stringWith]
  refine follows_get ?_
  refine (reads_startsWith began _).follows fun offset here => ?_
  by_cases three : ['"', '"', '"'].isPrefixOf ('"' :: tail) = true
  · rw [if_pos three]
    obtain ⟨left, same⟩ := isPrefixOf_iff.mp three
    obtain rfl : tail = '"' :: '"' :: left := (List.cons.inj same).2
    have moved : Reads source (move 3) offset () left := @reads_move source left offset ['"', '"', '"'] here 3 rfl
    refine moved.follows fun offset here => ?_
    rw [skipString]
    refine follow.tripled interpolated enough ?_ began here
    simp only [List.length_cons] at short
    omega
  · rw [if_neg three]
    refine (reads_bump here).follows fun offset here => ?_
    have single : ∀ left, tail ≠ '"' :: '"' :: left := by
      rintro left rfl
      exact three rfl
    rw [skipString.eq_2 _ _ single]
    exact follow.quoted interpolated enough short began here

/-- A splice in a string of single quotes, or another character that neither ends the string nor escapes. -/
theorem follows_quotedPart (follow : StringsFollow source bound) (enough : bound ≤ room) {start : Nat} (interpolated : Bool)
    (short : tail.length < bound) (began : At source start opened) (here : At source offset (c :: tail))
    (feed : c ≠ '\n') (quote : c ≠ '"') (escape : c ≠ '\\') :
    Follows source (do
      if (decide (c = '$') && interpolated && decide ((← peekAt 1) = some '\x7b')) = true then do
        spliceWith (ByteScanner.string room)
        closeQuoted (spliceWith (ByteScanner.string room)) start interpolated
      else do
        let _ ← bump
        closeQuoted (spliceWith (ByteScanner.string room)) start interpolated) offset () (closeFrames [.quoted interpolated opened] (c :: tail)) := by
  refine (reads_peekAt here 1).follows fun offset here => ?_
  have ahead : (c :: tail)[1]? = some '\x7b' ↔ ['\x7b'].isPrefixOf tail = true := by
    cases tail with
    | nil => simp
    | cons d tail => simp [@eq_comm _ d]
  simp only [ahead]
  by_cases opens : (decide (c = '$') && interpolated && ['\x7b'].isPrefixOf tail) = true
  · rw [if_pos (by simpa using opens)]
    simp only [Bool.and_eq_true, decide_eq_true_eq] at opens
    obtain ⟨⟨rfl, rfl⟩, brace⟩ := opens
    obtain ⟨tail, rfl⟩ := isPrefixOf_iff.mp brace
    have begins : (Frame.quoted true opened).advance '$' ('\x7b' :: tail) =
        .ok ([.splice 0 false ('$' :: '\x7b' :: tail), .quoted true opened], 1) := rfl
    have shorter : tail.length < bound := by
      simp only [List.length_append, List.length_cons] at short
      omega
    show Follows _ _ _ _ (closeFrames _ ('$' :: '\x7b' :: tail))
    rw [closeFrames_step _ begins]
    show Follows _ _ _ _ (closeFrames ([.splice 0 false ('$' :: '\x7b' :: tail)] ++ [.quoted true opened]) tail)
    rw [closeFrames_append]
    refine (follows_splice follow enough shorter here).bind fun left closed offset here => ?_
    exact follow.quoted true enough (Nat.lt_of_le_of_lt (closeFrames_length_le closed) shorter) began here
  · rw [if_neg (by simpa using opens)]
    have stays : (Frame.quoted interpolated opened).advance c tail = .ok ([.quoted interpolated opened], 0) := by
      simp only [Frame.advance, if_neg feed, if_neg quote, if_neg opens, if_neg escape]
    rw [closeFrames_step _ stays]
    exact (reads_bump here).follows fun offset here => follow.quoted interpolated enough short began here

/-- An escaped character of a string of single quotes. -/
theorem follows_escaped (follow : StringsFollow source bound) (enough : bound ≤ room) {start : Nat} (interpolated : Bool)
    (short : tail.length < bound) (began : At source start opened) (here : At source offset tail) :
    Follows source (do
      let _ ← bump
      closeQuoted (spliceWith (ByteScanner.string room)) start interpolated) offset ()
      (closeFrames [.quoted interpolated opened] ('\\' :: tail)) := by
  cases tail with
  | nil =>
    have stops : (Frame.quoted interpolated opened).advance '\\' [] = .error ⟨opened, .unterminatedString⟩ := by
      simp [Frame.advance]
    rw [closeFrames, stops]
    refine (reads_bump_end here).follows fun offset here => ?_
    rw [closeQuoted_eq]
    exact (reads_peek here).bind_refuses fun offset here => refuses_refuse here began _
  | cons d tail =>
    have stays : (Frame.quoted interpolated opened).advance '\\' (d :: tail) = .ok ([.quoted interpolated opened], 1) := by
      simp [Frame.advance]
    rw [closeFrames_step _ stays]
    exact (reads_bump here).follows fun offset here =>
      follow.quoted interpolated enough (Nat.lt_trans (Nat.lt_succ_self _) short) began here

/-- One character of a string of single quotes. -/
theorem follows_closeQuoted (follow : StringsFollow source bound) (enough : bound ≤ room) {start : Nat} (interpolated : Bool)
    (short : chars.length < bound + 1) (began : At source start opened) (here : At source offset chars) :
    Follows source (closeQuoted (spliceWith (ByteScanner.string room)) start interpolated) offset ()
      (closeFrames [.quoted interpolated opened] chars) := by
  rw [closeQuoted_eq]
  refine (reads_peek here).follows fun offset here => ?_
  cases chars with
  | nil =>
    rw [closeFrames]
    exact refuses_refuse here began _
  | cons c tail =>
    have shorter : tail.length < bound := Nat.lt_of_succ_lt_succ short
    dsimp only [List.head?_cons]
    split
    · rename_i absurd
      cases absurd
    · rename_i feed
      cases feed
      have stops : (Frame.quoted interpolated opened).advance '\n' tail = .error ⟨opened, .unterminatedString⟩ := rfl
      rw [closeFrames, stops]
      exact refuses_refuse here began _
    · rename_i quote
      cases quote
      have closes : (Frame.quoted interpolated opened).advance '"' tail = .ok ([], 0) := rfl
      rw [closeFrames_step _ closes, List.append_nil, closeFrames]
      exact (reads_bump here).follows fun offset here => .done here ()
    · rename_i escape
      cases escape
      exact (reads_bump here).follows fun offset here => follows_escaped follow enough interpolated shorter began here
    · rename_i found feed quote escape same
      cases same
      exact follows_quotedPart follow enough interpolated shorter began here feed quote escape

/-- One character of a string of three quotes. -/
theorem follows_closeTripled (follow : StringsFollow source bound) (enough : bound ≤ room) {start : Nat} (interpolated : Bool)
    (short : chars.length < bound + 1) (began : At source start opened) (here : At source offset chars) :
    Follows source (closeTripled (spliceWith (ByteScanner.string room)) start interpolated) offset ()
      (closeFrames [.tripled interpolated opened] chars) := by
  rw [closeTripled_eq]
  refine (reads_startsWith here _).follows fun offset here => ?_
  by_cases three : ['"', '"', '"'].isPrefixOf chars = true
  · rw [if_pos three]
    obtain ⟨tail, rfl⟩ := isPrefixOf_iff.mp three
    have moved : Reads source (move 3) offset () tail := @reads_move source tail offset ['"', '"', '"'] here 3 rfl
    refine moved.follows fun offset here => ?_
    show Follows _ _ _ _ (closeFrames _ ('"' :: '"' :: '"' :: tail))
    rw [closeFrames_quotes]
    exact reads_eatWhile _ here
  rw [if_neg three]
  refine (reads_startsWith here _).follows fun offset here => ?_
  by_cases opens : (interpolated && ['$', '\x7b'].isPrefixOf chars) = true
  · rw [if_pos opens]
    obtain ⟨rfl, brace⟩ := Bool.and_eq_true_iff.mp opens
    obtain ⟨tail, rfl⟩ := isPrefixOf_pair.mp brace
    have begins : (Frame.tripled true opened).advance '$' ('\x7b' :: tail) =
        .ok ([.splice 0 false ('$' :: '\x7b' :: tail), .tripled true opened], 1) := rfl
    have shorter : tail.length < bound := by
      simp only [List.length_cons] at short
      omega
    rw [closeFrames_step _ begins]
    show Follows _ _ _ _ (closeFrames ([.splice 0 false ('$' :: '\x7b' :: tail)] ++ [.tripled true opened]) tail)
    rw [closeFrames_append]
    refine (follows_splice follow enough shorter here).bind fun left closed offset here => ?_
    exact follow.tripled true enough (Nat.lt_of_le_of_lt (closeFrames_length_le closed) shorter) began here
  rw [if_neg opens]
  cases chars with
  | nil =>
    rw [closeFrames]
    exact (reads_bump_end here).follows fun offset here => refuses_refuse here began _
  | cons c tail =>
    have stays : (Frame.tripled interpolated opened).advance c tail = .ok ([.tripled interpolated opened], 0) := by
      rw [isPrefixOf_cons] at three opens
      have goes : ¬ (decide (c = '"') && ['"', '"'].isPrefixOf tail && !(['"', '"', '"'].isPrefixOf tail)) = true :=
        fun closes => three (Bool.and_eq_true_iff.mp closes).1
      have plain : ¬ (decide (c = '$') && interpolated && ['\x7b'].isPrefixOf tail) = true := by
        rwa [Bool.and_comm (decide _), Bool.and_assoc]
      simp only [Frame.advance, if_neg goes, if_neg plain]
    rw [closeFrames_step _ stays, List.drop_zero]
    refine (reads_bump here).follows fun offset here => ?_
    simp only [List.length_cons] at short
    exact follow.tripled interpolated enough (by omega) began here

/-- Behind white space and comments there is no more of them. -/
theorem skipTrivia_marks {trivia : Trivia} (skipped : skipTrivia trivia chars = .ok (c :: tail)) :
    isWhiteSpace c = false ∧ (decide (c = '/') && ['/'].isPrefixOf tail) = false ∧
      (decide (c = '/') && ['*'].isPrefixOf tail) = false := by
  fun_induction skipTrivia trivia chars with
  | case6 d others solid noLine noBlock =>
    cases skipped
    refine ⟨Bool.eq_false_iff.mpr solid, Bool.eq_false_iff.mpr fun mark => ?_, Bool.eq_false_iff.mpr fun mark => ?_⟩
    · rw [← isPrefixOf_cons] at mark
      obtain ⟨more, same⟩ := isPrefixOf_pair.mp mark
      cases same
      exact noLine more rfl rfl
    · rw [← isPrefixOf_cons] at mark
      obtain ⟨more, same⟩ := isPrefixOf_pair.mp mark
      cases same
      exact noBlock more rfl rfl
  | _ => simp_all

/-- A string in a splice is read like one between tokens. -/
theorem closeFrames_string (enclosing : Nat) (glued : Bool) (opened tail : List Char) :
    closeFrames [.splice enclosing glued opened] ('"' :: tail) =
      (skipString glued tail).bind (closeFrames [.splice enclosing false opened]) := by
  by_cases three : ['"', '"'].isPrefixOf tail = true
  · obtain ⟨left, rfl⟩ := isPrefixOf_pair.mp three
    have begins : (Frame.splice enclosing glued opened).advance '"' ('"' :: '"' :: left) =
        .ok ([.tripled glued ('"' :: '"' :: '"' :: left), .splice enclosing false opened], 2) := rfl
    rw [closeFrames_step _ begins]
    exact closeFrames_append [.tripled glued ('"' :: '"' :: '"' :: left)] [.splice enclosing false opened] left
  · have begins : (Frame.splice enclosing glued opened).advance '"' tail =
        .ok ([.quoted glued ('"' :: tail), .splice enclosing false opened], 0) := by
      have plain : ¬ (decide ('"' = '"') && ['"', '"'].isPrefixOf tail) = true := by simpa using three
      dsimp only [Frame.advance]
      rw [if_neg plain]
      rfl
    have single : ∀ left, tail ≠ '"' :: '"' :: left := by
      rintro left rfl
      exact three rfl
    rw [closeFrames_step _ begins, skipString.eq_2 _ _ single]
    exact closeFrames_append [.quoted glued ('"' :: tail)] [.splice enclosing false opened] tail

/-- The word in front of the place where white space and comments end. -/
theorem word_ahead {gap : List Char} (left tail : List Char) (blank : Gap false gap) :
    (left ++ gap).getLast?.any isIdentPart = (left.getLast?.any isIdentPart && tail.length = (gap ++ tail).length) := by
  by_cases none : gap = []
  · subst none
    simp
  · have differs : tail.length ≠ (gap ++ tail).length := by
      have := List.length_pos_iff.mpr none
      rw [List.length_append]
      omega
    rw [decide_eq_false differs, Bool.and_false, ← gap_ends blank none, List.getLast?_append]
    cases gap with
    | nil => exact absurd rfl none
    | cons d gap => rw [List.getLast?_cons]; rfl

/-- A string in a splice. -/
theorem follows_spliced (follow : StringsFollow source bound) (enough : bound ≤ room) {start enclosing : Nat}
    {left : List Char} (short : tail.length < bound) (began : At source start opened) (whole : source = left ++ '"' :: tail)
    (here : At source offset ('"' :: tail)) :
    Follows source (do
      ByteScanner.string (room + 1) ((← passed).getLast?.any isIdentPart)
      closeSplice (ByteScanner.string (room + 1)) start (enclosing + 1)) offset ()
      (closeFrames [.splice enclosing (left.getLast?.any isIdentPart) opened] ('"' :: tail)) := by
  refine (reads_passed here whole).follows fun offset here => ?_
  rw [closeFrames_string]
  refine (follows_string follow enough _ short here).bind fun remains closed offset there => ?_
  obtain ⟨body, rfl⟩ := skipString_suffix closed
  have whole' : source = (left ++ '"' :: body) ++ remains := by rw [whole, List.append_assoc]; rfl
  have goes := follow.splice enclosing (Nat.le_succ_of_le enough) (by rw [List.length_append] at short; omega) began whole' (there.width whole')
  have last : (left ++ '"' :: body).getLast? = some '"' := by
    rw [List.getLast?_append, List.getLast?_cons, skipString_last closed]
    rfl
  rwa [last] at goes

/-- One character of a splice, behind white space and comments. -/
theorem follows_splicePart (follow : StringsFollow source bound) (enough : bound ≤ room) {start enclosing : Nat}
    {left : List Char} (short : tail.length < bound) (began : At source start opened) (whole : source = left ++ c :: tail)
    (here : At source offset (c :: tail)) (alone : skipTrivia .blank chars = .ok (c :: tail)) :
    Follows source (do
      match some c with
      | none => refuse start .unterminatedSplice
      | some '\x7b' =>
        let _ ← bump
        closeSplice (ByteScanner.string (room + 1)) start (enclosing + 1 + 1)
      | some '\x7d' =>
        let _ ← bump
        closeSplice (ByteScanner.string (room + 1)) start enclosing
      | some '"' =>
        ByteScanner.string (room + 1) ((← passed).getLast?.any isIdentPart)
        closeSplice (ByteScanner.string (room + 1)) start (enclosing + 1)
      | some _ =>
        let _ ← bump
        closeSplice (ByteScanner.string (room + 1)) start (enclosing + 1)) offset ()
      (closeFrames [.splice enclosing (left.getLast?.any isIdentPart) opened] (c :: tail)) := by
  obtain ⟨solid, line, block⟩ := skipTrivia_marks alone
  -- Behind one more character the splice goes on.
  have later (inner : Nat) {offset : Nat} (here : At source offset tail) :
      Follows source (closeSplice (ByteScanner.string (room + 1)) start (inner + 1)) offset ()
        (closeFrames [.splice inner (isIdentPart c) opened] tail) := by
    have whole' : source = (left ++ [c]) ++ tail := by rw [whole, List.append_assoc]; rfl
    have goes := follow.splice inner (Nat.le_succ_of_le enough) short began whole' (here.width whole')
    rwa [List.getLast?_concat] at goes
  split
  · rename_i absurd
    cases absurd
  · rename_i brace
    cases brace
    have opens : (Frame.splice enclosing (left.getLast?.any isIdentPart) opened).advance '\x7b' tail =
        .ok ([.splice (enclosing + 1) false opened], 0) := rfl
    rw [closeFrames_step _ opens]
    exact (reads_bump here).follows fun offset here => later (enclosing + 1) here
  · rename_i brace
    cases brace
    refine (reads_bump here).follows fun offset here => ?_
    cases enclosing with
    | zero =>
      have closes : (Frame.splice 0 (left.getLast?.any isIdentPart) opened).advance '\x7d' tail = .ok ([], 0) := rfl
      rw [closeFrames_step _ closes, List.append_nil, closeFrames, closeSplice_eq]
      exact .done here ()
    | succ enclosing =>
      have closes : (Frame.splice (enclosing + 1) (left.getLast?.any isIdentPart) opened).advance '\x7d' tail =
          .ok ([.splice enclosing false opened], 0) := rfl
      rw [closeFrames_step _ closes]
      exact later enclosing here
  · rename_i quote
    cases quote
    exact follows_spliced follow enough short began whole here
  · rename_i opens closes quote same
    cases same
    have stays : (Frame.splice enclosing (left.getLast?.any isIdentPart) opened).advance c tail =
        .ok ([.splice enclosing (isIdentPart c) opened], 0) := by
      simp only [Frame.advance, solid, line, block, if_neg opens, if_neg closes, decide_eq_false quote, if_neg quote,
        Bool.false_and, Bool.false_eq_true, if_false]
    rw [closeFrames_step _ stays]
    exact (reads_bump here).follows fun offset here => later enclosing here

/-- White space and comments in a splice, and one character behind them. -/
theorem follows_closeSplice (follow : StringsFollow source bound) (enough : bound ≤ room) {start enclosing : Nat}
    {left : List Char} (short : chars.length < bound + 1) (began : At source start opened) (whole : source = left ++ chars)
    (width : byteLength left = offset) :
    Follows source (closeSplice (ByteScanner.string (room + 1)) start (enclosing + 1)) offset ()
      (closeFrames [.splice enclosing (left.getLast?.any isIdentPart) opened] chars) := by
  rw [closeSplice_eq, closeFrames_splice]
  refine (follows_skipTrivia (.of_cut whole width)).bind fun remains skipped offset here => ?_
  obtain ⟨gap, rfl, blank⟩ := skipTrivia_gap skipped
  rw [← List.append_assoc] at whole
  refine (reads_peek here).follows fun offset here => ?_
  cases remains with
  | nil =>
    rw [closeFrames]
    exact refuses_refuse here began _
  | cons c tail =>
    have shorter : tail.length < bound := by
      simp only [List.length_append, List.length_cons] at short
      omega
    rw [← word_ahead left _ blank]
    exact follows_splicePart follow enough shorter began whole here skipped

/-- Strings, splices and comments in them are passed over, however long they are. -/
theorem stringsFollow (source : List Char) (bound : Nat) : StringsFollow source bound := by
  induction bound with
  | zero => exact ⟨fun _ _ short => absurd short (Nat.not_lt_zero _), fun _ _ short => absurd short (Nat.not_lt_zero _),
      fun _ _ short => absurd short (Nat.not_lt_zero _)⟩
  | succ bound ih =>
    refine ⟨fun interpolated enough => follows_closeQuoted ih (Nat.le_of_succ_le enough) interpolated,
      fun interpolated enough => follows_closeTripled ih (Nat.le_of_succ_le enough) interpolated, fun enclosing enough => ?_⟩
    obtain ⟨room, rfl⟩ := Nat.exists_eq_add_of_le' (Nat.le_of_add_left_le enough)
    exact follows_closeSplice ih (Nat.le_of_succ_le_succ enough)

/-- A string is passed over where there is room for as many strings as there are characters. -/
theorem follows_string_here (interpolated : Bool) (enough : tail.length + 1 < room) (here : At source offset ('"' :: tail)) :
    Follows source (ByteScanner.string room interpolated) offset () (skipString interpolated tail) := by
  obtain ⟨room, rfl⟩ := Nat.exists_eq_add_of_lt (Nat.zero_lt_of_lt enough)
  exact follows_string (stringsFollow source (tail.length + 1)) (by omega) interpolated (Nat.lt_succ_self _) here

end KindLift.ByteStrings
