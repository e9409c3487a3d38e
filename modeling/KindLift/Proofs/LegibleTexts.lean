import KindLift.Proofs.CursorPlacement
import KindLift.Proofs.ParserProgress
import KindLift.Proofs.ParserSimulation
import KindLift.Proofs.ScanRuns
import KindLift.Proofs.Traversal
import KindLift.Proofs.TypeTokens

/-! Texts that a parser reads wherever they stand. Such a text is cut into tokens in front
of whatever follows it, and of these tokens the parser leaves those of what follows. What one
parser reads and what the next one reads make up what they read one after the other. -/
namespace KindLift.LegibleTexts
open Token Text TextBoundary TokenPlacement TriviaGaps ScanSteps ScanRuns WrittenTokens
open KindLift.Parser ParserLogic CursorAdvance CursorPlacement ParserProgress ParserSimulation TokenReaders TypeTokens

variable {text later : List Char} {follows behind : List Char → Prop} {e : Char} {kind : TokenKind} {name : String}
  {α β σ ρ : Type}

/-- The parser reads the text in front of what follows it, and nothing else. -/
def Legible (text : List Char) (follows : List Char → Prop) (parser : Parser α) (post : α → Prop) : Prop :=
  ∀ source before next rest, source = before ++ (text ++ next) → follows next →
    scanFrom (byteLength (before ++ text)) false next = .ok rest →
    ∃ tokens, scanFrom (byteLength before) false (text ++ next) = .ok tokens ∧ ∀ stop, Sound source ⟨tokens, stop⟩ →
      ∃ value stop', parser source ⟨tokens, stop⟩ = .ok (value, ⟨rest, stop'⟩) ∧ post value

/-- The text is a token in front of what follows it. -/
def Single (text : List Char) (kind : TokenKind) (follows : List Char → Prop) : Prop :=
  ∀ offset next, follows next → scanFrom offset false (text ++ next) =
    (scanFrom (offset + byteLength text) false next).map (⟨kind, offset, text⟩ :: ·)

/-- What follows begins with the character. -/
def Begins (e : Char) (next : List Char) : Prop := next.head? = some e

/-- What follows begins with such a token. -/
def Opens (holds : Token → Prop) (next : List Char) : Prop :=
  ∀ offset rest, scanFrom offset false next = .ok rest → ∃ token others, rest = token :: others ∧ holds token

theorem begins_cons (e : Char) (rest : List Char) : Begins e (e :: rest) := rfl

/-! ### Rules -/

section Rules
variable {parser : Parser α} {body : α → Parser β} {post post' : α → Prop} {final : β → Prop}

theorem Legible.mono (legible : Legible text follows parser post) (weaken : ∀ value, post value → post' value) :
    Legible text follows parser post' := by
  intro source before next rest whole follow scanned
  obtain ⟨tokens, read, reads⟩ := legible source before next rest whole follow scanned
  refine ⟨tokens, read, fun stop sound => ?_⟩
  obtain ⟨value, stop', ran, holds⟩ := reads stop sound
  exact ⟨value, stop', ran, weaken value holds⟩

theorem legible_pure {value : α} (holds : post value) : Legible [] follows (pure value) post :=
  fun _ _ _ rest _ _ scanned => ⟨rest, by simpa using scanned, fun stop _ => ⟨value, stop, rfl, holds⟩⟩

/-- A text in two parts, of which the parsers read one after the other. -/
theorem Legible.then [Advances parser] (first : Legible text follows parser post) (some : ∃ value, post value)
    (second : ∀ value, post value → Legible later behind (body value) final) (follow : ∀ next, behind next → follows (later ++ next)) :
    Legible (text ++ later) behind (parser >>= body) final := by
  intro source before next rest whole follow' scanned
  rw [← List.append_assoc] at scanned
  have split : source = before ++ text ++ (later ++ next) := by rw [whole]; simp
  have found : ∀ value, post value → _ := fun value holds => second value holds source (before ++ text) next rest split follow' scanned
  -- Into which tokens the second part is cut does not depend on what was read before.
  obtain ⟨value, holds⟩ := some
  obtain ⟨middle, read', -⟩ := found value holds
  obtain ⟨tokens, read, reads⟩ := first source before (later ++ next) middle (by rw [whole]; simp) (follow next follow') read'
  refine ⟨tokens, by rw [List.append_assoc]; exact read, fun stop sound => ?_⟩
  obtain ⟨value, stop', ran, holds⟩ := reads stop sound
  obtain ⟨_, again, reads'⟩ := found value holds
  cases read'.symm.trans again
  obtain ⟨result, stop'', ran', holds'⟩ := reads' stop' (forward_of inferInstance _ sound _ _ ran).sound
  exact ⟨result, stop'', (bind_ok ran).trans ran', holds'⟩

/-- Nothing more is read behind the text. -/
theorem Legible.last [Advances parser] (first : Legible text follows parser post) (some : ∃ value, post value)
    (second : ∀ value, post value → Legible [] behind (body value) final) (follow : ∀ next, behind next → follows next) :
    Legible text behind (parser >>= body) final := by
  rw [← List.append_nil text]
  exact first.then some second follow

/-- Nothing is read in front of the text. -/
theorem Legible.look [Advances parser] (first : Legible [] follows parser post) (some : ∃ value, post value)
    (second : ∀ value, post value → Legible text behind (body value) final) (follow : ∀ next, behind next → follows (text ++ next)) :
    Legible text behind (parser >>= body) final := first.then some second follow

/-- White space in front of a text is no part of it. -/
theorem Legible.space (legible : Legible text follows parser post) : Legible (' ' :: text) follows parser post := by
  intro source before next rest whole follow scanned
  obtain ⟨tokens, read, reads⟩ := legible source (before ++ [' ']) next rest (by rw [whole]; simp) follow (by simpa using scanned)
  refine ⟨tokens, ?_, reads⟩
  rw [List.cons_append, scanFrom_space rfl, ← byteLength_append]
  exact read

/-- A token is read by a parser of single tokens. -/
theorem Single.legible (single : Single text kind follows)
    (reads : ∀ source token rest stop, token.kind = kind → token.lexeme = text →
      ∃ value, parser source ⟨token :: rest, stop⟩ = .ok (value, ⟨rest, token.stop⟩) ∧ post value) :
    Legible text follows parser post := by
  intro source before next rest _ follow scanned
  rw [byteLength_append] at scanned
  refine ⟨_, by rw [single _ _ follow, scanned]; rfl, fun stop _ => ?_⟩
  obtain ⟨value, ran, holds⟩ := reads source ⟨kind, byteLength before, text⟩ rest stop rfl rfl
  exact ⟨value, _, ran, holds⟩

/-- Looking at the next token reads nothing. -/
theorem legible_glance {holds : Token → Prop}
    (reads : ∀ source token rest stop, holds token →
      ∃ value, parser source ⟨token :: rest, stop⟩ = .ok (value, ⟨token :: rest, stop⟩) ∧ post value) :
    Legible [] (Opens holds) parser post := by
  intro source before next rest _ opens scanned
  rw [List.append_nil] at scanned
  obtain ⟨token, others, rfl, found⟩ := opens _ _ scanned
  refine ⟨_, scanned, fun stop _ => ?_⟩
  obtain ⟨value, ran, holds⟩ := reads source token others stop found
  exact ⟨value, stop, ran, holds⟩

end Rules

section Loops
variable {step : σ → Parser (Step σ ρ)} {state : σ} {holds : σ → Prop} {final : ρ → Prop}

/-- The last step of a loop. -/
theorem Legible.done (legible : Legible text follows (step state) fun outcome => ∃ value, outcome = .done value ∧ final value) :
    Legible text follows (iterate step state) final := by
  intro source before next rest whole follow scanned
  obtain ⟨tokens, read, reads⟩ := legible source before next rest whole follow scanned
  refine ⟨tokens, read, fun stop sound => ?_⟩
  obtain ⟨_, stop', ran, value, rfl, found⟩ := reads stop sound
  exact ⟨value, stop', iterateFrom_done ran, found⟩

/-- A step of a loop and those behind it. -/
theorem Legible.again [Advances (step state)] [Strides (step state)]
    (first : Legible text follows (step state) fun outcome => ∃ later, outcome = .again later ∧ holds later) (some : ∃ state, holds state)
    (others : ∀ state, holds state → Legible later behind (iterate step state) final) (follow : ∀ next, behind next → follows (later ++ next)) :
    Legible (text ++ later) behind (iterate step state) final := by
  intro source before next rest whole follow' scanned
  rw [← List.append_assoc] at scanned
  have split : source = before ++ text ++ (later ++ next) := by rw [whole]; simp
  obtain ⟨other, holds'⟩ := some
  obtain ⟨middle, read', -⟩ := others other holds' source (before ++ text) next rest split follow' scanned
  obtain ⟨tokens, read, reads⟩ := first source before (later ++ next) middle (by rw [whole]; simp) (follow next follow') read'
  refine ⟨tokens, by rw [List.append_assoc]; exact read, fun stop sound => ?_⟩
  obtain ⟨_, stop', ran, other, rfl, holds'⟩ := reads stop sound
  obtain ⟨_, again, reads'⟩ := others other holds' source (before ++ text) next rest split follow' scanned
  cases read'.symm.trans again
  obtain ⟨result, stop'', ran', found⟩ := reads' stop' (forward_of inferInstance _ sound _ _ ran).sound
  have shorter : Shorter ⟨tokens, stop⟩ ⟨middle, stop'⟩ := Strides.ensures _ _ _ _ ran
  exact ⟨result, stop'', (iterateFrom_again ran shorter).trans ran', found⟩

end Loops

/-! ### Tokens -/

/-- Only a string depends on what stands right before it. -/
theorem scanFrom_glued {chars : List Char} (quote : e ≠ '"') (first : Begins e chars) (offset : Nat) (glued glued' : Bool) :
    scanFrom offset glued chars = scanFrom offset glued' chars := by
  obtain ⟨tail, rfl⟩ := List.head?_eq_some_iff.mp first
  cases skipped : skipTrivia .blank (e :: tail) with
  | error fault => rw [scanFrom_unskipped _ skipped, scanFrom_unskipped _ skipped]
  | ok rest =>
    cases rest with
    | nil => rw [scanFrom_nil _ skipped, scanFrom_nil _ skipped]
    | cons c rest =>
      obtain ⟨gap, whole⟩ := skipTrivia_suffix skipped
      have same : readToken (glued && gap.isEmpty) c rest = readToken (glued' && gap.isEmpty) c rest := by
        cases gap with
        | nil =>
          obtain ⟨rfl, rfl⟩ := List.cons.inj whole
          exact readToken_glued quote _ _ _
        | cons => rw [List.isEmpty_cons, Bool.and_false, Bool.and_false]
      rw [← whole] at skipped ⊢
      cases read : readToken (glued && gap.isEmpty) c rest with
      | error fault => rw [scanFrom_failed _ gap skipped read, scanFrom_failed _ gap skipped (same.symm.trans read)]
      | ok found =>
        obtain ⟨kind, next⟩ := found
        obtain ⟨body, rfl⟩ := (readToken_spec read).1
        rw [scanFrom_cons offset gap body skipped read, scanFrom_cons offset gap body skipped (same.symm.trans read)]

/-- A mark is a token of its own, whatever stands around it. -/
theorem single_mark (mark : ∀ next, punctuation? e next = some kind) : Single [e] kind fun _ => True := by
  intro offset next _
  have solid : ¬ isWhiteSpace e = true ∧ e ≠ '/' := by
    have mark := mark []
    unfold punctuation? at mark
    split at mark <;> first | decide | cases mark
  have read : readToken (false && ([] : List Char).isEmpty) e ([] ++ next) = .ok (kind, next) := by
    unfold readToken
    rw [List.nil_append, mark]
  have plain : ¬ kind = .ident := fun same => punctuation?_name (mark []) (.inl same)
  have skipped : skipTrivia .blank ([] ++ e :: ([] ++ next)) = .ok (e :: ([] ++ next)) :=
    skipTrivia_done solid.1 (fun same => absurd same solid.2) fun same => absurd same solid.2
  have scanned := scanFrom_cons offset [] [] skipped read
  rw [decide_eq_false plain] at scanned
  exact scanned

theorem Single.opens {next : List Char} {holds : Token → Prop} (single : Single text kind follows) (follow : follows next)
    (found : ∀ token, token.kind = kind → token.lexeme = text → holds token) : Opens holds (text ++ next) := by
  intro offset rest scanned
  rw [single offset next follow] at scanned
  obtain ⟨others, -, rfl⟩ := TokenLocality.map_eq_ok scanned
  exact ⟨_, others, rfl, found _ rfl rfl⟩

/-- A mark in front opens whatever follows. -/
theorem Begins.opens {next : List Char} {holds : Token → Prop} (begins : Begins e next) (mark : ∀ next, punctuation? e next = some kind)
    (found : ∀ token, token.kind = kind → holds token) : Opens holds next := by
  obtain ⟨rest, rfl⟩ := List.head?_eq_some_iff.mp begins
  exact (single_mark mark).opens trivial fun token same _ => found token same

theorem Opens.mono {holds holds' : Token → Prop} {next : List Char} (opens : Opens holds next) (weaken : ∀ token, holds token → holds' token) :
    Opens holds' next := by
  intro offset rest scanned
  obtain ⟨token, others, rfl, found⟩ := opens offset rest scanned
  exact ⟨token, others, rfl, weaken token found⟩

theorem Opens.space {next : List Char} {holds : Token → Prop} (opens : Opens holds next) : Opens holds (' ' :: next) := by
  intro offset rest scanned
  rw [scanFrom_space rfl] at scanned
  exact opens _ _ scanned

/-- A written token ends in front of a blank. -/
theorem single_lexeme (lexeme : Lexeme) : Single lexeme.chars lexeme.kind (Begins ' ') := by
  intro offset next follow
  have laid : Laid none [⟨[], lexeme⟩] := by simp [Laid]
  have reaches : ∀ e ∈ next.head?, ∀ last ∈ lastOf none [⟨[], lexeme⟩], last.reaches e = false := by
    intro e first last _
    rw [Option.mem_def.mp follow] at first
    cases first
    exact last.reaches_blank (.inl rfl)
  have scanned := scanFrom_pieces laid reaches offset false
  rw [scanFrom_glued (by decide) follow _ _ false] at scanned
  rw [written_cons, written_nil, List.append_nil, width_singleton] at scanned
  exact scanned

/-- The name is one token of these kinds in front of the mark. -/
def rereads (kinds : List TokenKind) (name : String) (mark : Char) : Bool :=
  ((Token.scan (name.toList ++ [mark])).toOption.bind List.head?).any fun token =>
    kinds.contains token.kind && token.span = ⟨0, byteLength name.toList⟩ && token.text = name

theorem single_rereads {kinds : List TokenKind} {mark : Char} (again : rereads kinds name mark = true) (quote : mark ≠ '"')
    (point : mark ≠ '.') : ∃ kind ∈ kinds, Single name.toList kind (Begins mark) ∧ String.ofList (unquote name.toList) = name := by
  obtain ⟨token, found, same⟩ := (Option.any_eq_true _ _).mp again
  simp only [Bool.and_eq_true, List.contains_iff_mem, decide_eq_true_eq] at same
  obtain ⟨⟨member, span⟩, text⟩ := same
  obtain ⟨tokens, scanned, first⟩ := Option.bind_eq_some_iff.mp found
  obtain ⟨others, rfl⟩ := List.head?_eq_some_iff.mp first
  rw [Traversal.toOption_eq_some_iff, scan_eq_ok_iff] at scanned
  obtain ⟨gap, c, body, next, whole, skipped, read, shape, -⟩ := scanFrom_first scanned
  rw [shape] at span text
  obtain ⟨start, stop⟩ := Span.mk.inj span
  obtain rfl : gap = [] := eq_nil_of_width (by simpa using start)
  have width : byteLength (c :: body) = byteLength name.toList := by
    rw [Token.stop, byteLength_nil, Nat.zero_add, Nat.zero_add] at stop
    exact stop
  have cut : (c :: body) ++ next = name.toList ++ [mark] := whole.symm
  obtain ⟨spelled, rfl⟩ := cut_unique cut width
  refine ⟨token.kind, member, fun offset rest follow => ?_, spelled ▸ text⟩
  obtain ⟨rest, rfl⟩ := List.head?_eq_some_iff.mp follow
  have alike : Alike [mark] (mark :: rest) := .inr ⟨[], mark, [], rest, quote, fun same => absurd same point, rfl, rfl⟩
  have ahead : (body ++ mark :: rest).head? = (body ++ [mark]).head? := by cases body <;> rfl
  have scanned := scanFrom_cons offset [] body (skipTrivia_token skipped ahead) (alike.readToken read)
  rw [scanFrom_glued quote follow _ _ false] at scanned
  rw [← spelled]
  exact scanned

/-! ### Parsers of tokens -/

theorem legible_isAt {kind : TokenKind} : Legible [] (Opens fun token => token.kind = kind) (isAt kind) (· = true) :=
  legible_glance fun _ _ _ _ same => ⟨true, isAt_here (congrArg some same), rfl⟩

theorem legible_isAt_other {kind : TokenKind} : Legible [] (Opens fun token => token.kind ≠ kind) (isAt kind) (· = false) :=
  legible_glance fun _ _ _ _ other => ⟨false, isAt_other (by simpa using other), rfl⟩

theorem legible_eats_other {kind : TokenKind} : Legible [] (Opens fun token => token.kind ≠ kind) (eats kind) (· = false) :=
  legible_glance fun _ _ _ _ other => ⟨false, eats_absent (by simpa using other), rfl⟩

theorem legible_comma : Legible [','] (fun _ => True) (eats .comma) (· = true) :=
  (single_mark fun _ => rfl).legible fun _ _ _ _ kind _ => ⟨true, eats_run kind _ _, rfl⟩

theorem legible_expect {kind : TokenKind} (mark : ∀ next, punctuation? e next = some kind) (what : String) :
    Legible [e] (fun _ => True) (expect kind what) fun token => token.kind = kind :=
  (single_mark mark).legible fun _ token _ _ kind _ => ⟨token, expect_run kind _ _ _, kind⟩

end KindLift.LegibleTexts
