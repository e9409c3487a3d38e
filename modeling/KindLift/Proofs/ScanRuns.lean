import KindLift.Proofs.TokenCopies
import KindLift.Proofs.TokenEnds

/-! Runs of tokens. The tokens that a text begins with are read again wherever the text
that they were read from stands, if what comes behind it does not reach into them. -/
namespace KindLift.ScanRuns
open Token Text TextBoundary TokenPlacement TokenCopies TriviaGaps TokenLocality ScanSteps TokenEnds WrittenTokens

variable {chars next next' rest tail gap gap' body : List Char} {c d e : Char} {kind : TokenKind} {glued : Bool}
  {offset : Nat} {token : Token}

/-- Whether the last of the tokens is a word, which a string may follow directly. -/
def gluedAfter (glued : Bool) (tokens : List Token) : Bool := tokens.foldl (fun _ token => token.kind = .ident) glued

/-- Where the last of the tokens ends. -/
def stopAfter (offset : Nat) (tokens : List Token) : Nat := tokens.foldl (fun _ token => token.stop) offset

theorem eq_nil_of_width (nothing : byteLength chars = 0) : chars = [] := by
  by_contra nonempty
  exact Nat.ne_of_gt (byteLength_pos nonempty) nothing

theorem map_nil_append (outcome : Except ε (List α)) : outcome.map ([] ++ ·) = outcome := by
  cases outcome <;> rfl

theorem map_append (outcome : Except ε (List α)) (front : List α) (first : α) :
    (outcome.map (front ++ ·)).map (first :: ·) = outcome.map (first :: front ++ ·) := by
  cases outcome <;> rfl

theorem map_append_single (outcome : Except ε (List α)) (front : List α) (last : α) :
    (outcome.map (last :: ·)).map (front ++ ·) = outcome.map (front ++ [last] ++ ·) := by
  cases outcome with
  | error => rfl
  | ok rest => exact congrArg Except.ok (List.append_cons front last rest)

/-- The first tokens of a text are read again wherever the text that they were read from
stands, if it goes on alike. -/
theorem scanFrom_front {offset : Nat} {front rest : List Token}
    (scanned : scanFrom offset glued chars = .ok (front ++ rest)) :
    ∃ text tail, chars = text ++ tail ∧ offset + byteLength text = stopAfter offset front ∧
      (front ≠ [] → EndsSolid text) ∧
      scanFrom (stopAfter offset front) (gluedAfter glued front) tail = .ok rest ∧
      ∀ tail', Alike tail tail' → ∀ offset', ∃ front', List.Forall₂ (Carried offset offset' (byteLength text)) front front' ∧
        scanFrom offset' glued (text ++ tail') =
          (scanFrom (offset' + byteLength text) (gluedAfter glued front) tail').map (front' ++ ·) := by
  induction front generalizing offset glued chars with
  | nil =>
    refine ⟨[], chars, rfl, rfl, fun nonempty => absurd rfl nonempty, scanned, fun tail' alike offset' => ⟨[], .nil, ?_⟩⟩
    rw [byteLength_nil, Nat.add_zero, List.nil_append]
    exact (map_nil_append _).symm
  | cons token front ih =>
    obtain ⟨gap, c, body, next, rfl, skipped, read, shape, later⟩ := scanFrom_first scanned
    obtain ⟨text, tail, rfl, stop, ends, behind, again⟩ := ih later
    have lead : token.stop = offset + byteLength (gap ++ c :: body) := by
      rw [shape, Token.stop, byteLength_append, Nat.add_assoc]
    have whole : byteLength (gap ++ c :: (body ++ text)) = byteLength (gap ++ c :: body) + byteLength text := by
      rw [← List.cons_append, ← List.append_assoc, byteLength_append]
    refine ⟨gap ++ c :: (body ++ text), tail, by simp, ?_, fun _ => ?_, behind, fun tail' alike offset' => ?_⟩
    · rw [whole, ← Nat.add_assoc, ← lead, stop]
      rfl
    · cases front with
      | nil =>
        obtain rfl : text = [] := eq_nil_of_width (Nat.add_eq_left.mp stop)
        rw [List.append_nil]
        exact (readToken_ends read (by simpa using skipTrivia_solid skipped)).prepend gap
      | cons second front =>
        rw [← List.cons_append, ← List.append_assoc]
        exact (ends (List.cons_ne_nil _ _)).prepend _
    obtain ⟨front', carried, goes⟩ := again tail' alike (offset' + byteLength (gap ++ c :: body))
    have moved : (Token.mk token.kind (offset' + byteLength gap) (c :: body)).stop =
        offset' + byteLength (gap ++ c :: body) := by rw [Token.stop, byteLength_append, Nat.add_assoc]
    refine ⟨⟨token.kind, offset' + byteLength gap, c :: body⟩ :: front', .cons ?_ ?_, ?_⟩
    · refine ⟨rfl, by rw [shape], by rw [shape]; exact List.cons_ne_nil _ _, byteLength gap, by rw [shape], rfl, ?_⟩
      rw [shape, whole, byteLength_append]
      exact Nat.le_add_right _ _
    · rw [whole]
      rw [lead] at carried
      exact carried.imp fun _ _ moved => moved.back
    · have step := scanFrom_step skipped read (.refl gap) (alike.prepend text) offset'
      rw [moved, ← List.append_assoc body] at step
      rw [List.append_assoc, List.cons_append, step, goes, whole, Nat.add_assoc]
      exact map_append _ _ _


/-! ### What comes behind -/

theorem gap_plain (skipped : skipTrivia .blank (e :: gap ++ next) = .ok next) : e ≠ '"' ∧ e ≠ '.' ∧ isIdentPart e = false := by
  rcases gap_first skipped with space | rfl
  · refine ⟨?_, ?_, ?_⟩
    · rintro rfl
      exact absurd space (by decide)
    · rintro rfl
      exact absurd space (by decide)
    · by_contra part
      rw [Bool.not_eq_false] at part
      rw [identPart_solid part] at space
      cases space
  · exact ⟨by decide, by decide, by decide⟩

/-- Names and closing brackets do not go on behind them. -/
def Closing (kind : TokenKind) : Prop := kind = .ident ∨ kind = .operator ∨ ∃ bracket, kind = .closer bracket

/-- A name or a closing bracket is read as the same token in front of any character that no
name goes on with. -/
theorem readToken_closing (read : readToken glued c (body ++ next) = .ok (kind, next)) (closing : Closing kind)
    (stops : Stops e) (z : List Char) :
    readToken glued c (body ++ e :: z) = .ok (kind, e :: z) ∧ c ≠ '"' ∧ c ≠ '.' := by
  have named : kind = .ident ∨ kind = .operator → readToken glued c (body ++ e :: z) = .ok (kind, e :: z) ∧ c ≠ '"' ∧ c ≠ '.' := by
    intro name
    obtain ⟨alone, quote, -⟩ := name_cases read name
    refine ⟨readToken_stop read name stops z, quote, ?_⟩
    rintro rfl
    cases alone []
  rcases closing with name | name | ⟨bracket, rfl⟩
  · exact named (.inl name)
  · exact named (.inr name)
  · have spelled : [c] ++ body = [closingChar bracket] := by
      have spelled := (readToken_spec read).2
      rw [consumed_append] at spelled
      exact spelled
    obtain ⟨rfl, rfl⟩ := List.cons.inj spelled
    cases bracket <;> exact ⟨rfl, by decide, by decide⟩

/-- No comment begins with a token, whatever comes behind it. -/
theorem skipTrivia_stop (skipped : skipTrivia .blank (gap ++ c :: (body ++ next)) = .ok (c :: (body ++ next)))
    (stops : Stops e) (z : List Char) :
    skipTrivia .blank (gap ++ c :: (body ++ e :: z)) = .ok (c :: (body ++ e :: z)) := by
  refine skipTrivia_respaced skipped rfl (.refl gap) rfl (.inr ⟨List.cons_ne_nil _ _, ?_⟩)
  refine skipTrivia_ahead skipped fun d first => ?_
  cases body with
  | cons d body => exact .inl first
  | nil =>
    cases first
    refine .inr ⟨?_, ?_⟩ <;>
      · rintro rfl
        exact absurd stops.2 (by decide)

/-- A run of tokens that ends in a name or a closing bracket is read again in front of any
character that no name goes on with. -/
theorem scanFrom_closing {front rest : List Token} (scanned : scanFrom offset glued chars = .ok (front ++ token :: rest))
    (closing : Closing token.kind) :
    ∃ text tail, chars = text ++ tail ∧ offset + byteLength text = token.stop ∧ 
      scanFrom token.stop (token.kind = .ident) tail = .ok rest ∧
      ∀ e z, Stops e → ∀ offset', ∃ front', List.Forall₂ (Carried offset offset' (byteLength text)) (front ++ [token]) front' ∧
        scanFrom offset' glued (text ++ e :: z) =
          (scanFrom (offset' + byteLength text) (token.kind = .ident) (e :: z)).map (front' ++ ·) := by
  obtain ⟨text, tail, rfl, stop, -, behind, again⟩ := scanFrom_front scanned
  obtain ⟨gap, c, body, next, rfl, skipped, read, shape, later⟩ := scanFrom_first behind
  have width : token.stop = stopAfter offset front + byteLength (gap ++ c :: body) := by
    rw [shape, Token.stop, byteLength_append, Nat.add_assoc]
  have whole : byteLength (text ++ (gap ++ c :: body)) = byteLength text + byteLength (gap ++ c :: body) :=
    byteLength_append ..
  refine ⟨text ++ (gap ++ c :: body), next, by simp, by omega, later, fun e z stops offset' => ?_⟩
  obtain ⟨read', quote, point⟩ := readToken_closing read closing stops z
  have alike : Alike (gap ++ c :: (body ++ next)) (gap ++ c :: (body ++ e :: z)) :=
    .inr ⟨gap, c, _, _, quote, fun same => absurd same point, rfl, rfl⟩
  obtain ⟨front', carried, goes⟩ := again _ alike offset'
  have moved : (Token.mk token.kind (offset' + byteLength text + byteLength gap) (c :: body)).stop =
      offset' + byteLength (text ++ (gap ++ c :: body)) := by
    rw [whole, Token.stop, byteLength_append, ← Nat.add_assoc, ← Nat.add_assoc]
  refine ⟨front' ++ [⟨token.kind, offset' + byteLength text + byteLength gap, c :: body⟩], ?_, ?_⟩
  · rw [whole]
    refine List.rel_append (carried.imp fun _ _ moved => moved.widen (Nat.le_add_right _ _)) (.cons ?_ .nil)
    rw [← stop] at shape
    refine ⟨rfl, by rw [shape], by rw [shape]; exact List.cons_ne_nil _ _, byteLength text + byteLength gap, ?_, ?_, ?_⟩
    · rw [shape, Nat.add_assoc]
    · rw [Nat.add_assoc]
    · exact Nat.le_of_eq (by rw [shape, byteLength_append, Nat.add_assoc])
  · rw [List.append_assoc, List.append_assoc, List.cons_append, goes,
      scanFrom_cons _ gap body (skipTrivia_stop skipped stops z) read', moved]
    exact map_append_single _ _ _

/-! ### Texts that are put together -/

theorem scanFrom_failed {fault : Fault} (offset : Nat) (gap : List Char)
    (skipped : skipTrivia .blank (gap ++ c :: rest) = .ok (c :: rest))
    (read : readToken (glued && gap.isEmpty) c rest = .error fault) : scanFrom offset glued (gap ++ c :: rest) = .error fault := by
  rw [scanFrom]
  split
  · simp_all
  · simp_all
  · rename_i found
    rw [skipped] at found
    cases found
    dsimp only
    split
    · rename_i failed
      rw [consumed_append, read] at failed
      cases failed
      rfl
    · rename_i found
      rw [consumed_append, read] at found
      cases found

theorem scanFrom_unskipped {fault : Fault} (offset : Nat) (failed : skipTrivia .blank chars = .error fault) :
    scanFrom offset glued chars = .error fault := by
  rw [scanFrom]
  split <;> simp_all

/-- What is skipped in front of a text is skipped with what else stands in front of its first
token. -/
theorem scanFrom_behind (same : skipTrivia .blank (gap ++ chars) = skipTrivia .blank chars) (nonempty : gap ≠ [])
    (offset : Nat) (glued : Bool) : scanFrom offset glued (gap ++ chars) = scanFrom (offset + byteLength gap) false chars := by
  cases skipped : skipTrivia .blank chars with
  | error fault => rw [scanFrom_unskipped _ skipped, scanFrom_unskipped _ (same.trans skipped)]
  | ok rest =>
    cases rest with
    | nil => rw [scanFrom_nil _ skipped, scanFrom_nil _ (same.trans skipped)]
    | cons d tail =>
      obtain ⟨more, rfl⟩ := skipTrivia_suffix skipped
      have apart : (glued && (gap ++ more).isEmpty) = (false && more.isEmpty) := by
        cases gap with
        | nil => exact absurd rfl nonempty
        | cons e gap => exact Bool.and_false _
      rw [skipped, ← List.append_assoc] at same
      cases read : readToken (false && more.isEmpty) d tail with
      | error fault =>
        rw [← List.append_assoc, scanFrom_failed offset (gap ++ more) same (apart ▸ read), scanFrom_failed _ more skipped read]
      | ok found =>
        obtain ⟨kind, next⟩ := found
        obtain ⟨body, rfl⟩ := (readToken_spec read).1
        rw [← List.append_assoc, scanFrom_cons offset (gap ++ more) body same (apart ▸ read),
          scanFrom_cons _ more body skipped read, byteLength_append, Nat.add_assoc]

/-- White space in front of a text is skipped with what else stands in front of its first token. -/
theorem scanFrom_space (space : isWhiteSpace c = true) (offset : Nat) (glued : Bool) (chars : List Char) :
    scanFrom offset glued (c :: chars) = scanFrom (offset + byteLength [c]) false chars :=
  @scanFrom_behind chars [c] (skipTrivia_space space chars) (List.cons_ne_nil _ _) offset glued

/-- What a token does not reach: what is written behind it, or else what comes then. -/
theorem reaches_behind {lexeme : Lexeme} {pieces : List Piece} (laid : Laid (some lexeme) pieces)
    (follow : ∀ e ∈ tail.head?, ∀ last ∈ lastOf (some lexeme) pieces, last.reaches e = false) :
    ∀ e ∈ (written pieces ++ tail).head?, lexeme.reaches e = false := by
  cases pieces with
  | nil => exact fun e first => follow e first lexeme rfl
  | cons piece pieces =>
    intro e first
    refine reaches_next laid isBlank_nil e ?_
    obtain ⟨c, body, chars, -⟩ := piece.lexeme.chars_first
    cases gap : piece.gap <;> simpa [Piece.chars, chars, gap] using first

/-- Written tokens in front of other text are read as they were written. -/
theorem scanFrom_pieces {before : Option Lexeme} {pieces : List Piece} (laid : Laid before pieces)
    (follow : ∀ e ∈ tail.head?, ∀ last ∈ lastOf before pieces, last.reaches e = false) (offset : Nat) (glued : Bool) :
    scanFrom offset glued (written pieces ++ tail) =
      (scanFrom (offset + width pieces) (gluedAfter glued (place offset pieces)) tail).map (place offset pieces ++ ·) := by
  induction pieces generalizing before offset glued with
  | nil => exact (map_nil_append _).symm
  | cons piece rest ih =>
    obtain ⟨gap, -, later⟩ := laid
    obtain ⟨c, body, chars, solid, slash, read⟩ := piece.lexeme.read (reaches_behind later follow)
    have skipped : skipTrivia .blank (piece.gap ++ c :: (body ++ (written rest ++ tail))) =
        .ok (c :: (body ++ (written rest ++ tail))) := by
      rw [skipTrivia_blank gap, skipTrivia_done (by simp [solid]) (fun same => absurd same slash)
        (fun same => absurd same slash)]
    have whole : written (piece :: rest) ++ tail = piece.gap ++ c :: (body ++ (written rest ++ tail)) := by
      rw [written_cons, Piece.chars, chars]
      simp
    have token : piece.token offset = ⟨piece.lexeme.kind, offset + byteLength piece.gap, c :: body⟩ := by
      rw [Piece.token, chars]
    rw [whole, scanFrom_cons offset piece.gap body skipped (read _), ← token, Piece.token_stop, ih later follow,
      width_cons, Nat.add_assoc]
    exact map_append _ _ _

end KindLift.ScanRuns
