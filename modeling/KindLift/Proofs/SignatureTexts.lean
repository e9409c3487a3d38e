import KindLift.Proofs.LegibleTexts
import KindLift.Proofs.TokenEdges
import KindLift.Proofs.TraitReading
import KindLift.Proofs.TypeTokens
import KindLift.Proofs.WrittenTraits

/-! The texts that a method keeps of its source. The text of a type begins and ends with a
token, and is the same tokens in front of any comma or closing bracket. The text of type
parameters can begin and end with comments. In front of a closing bracket it is the same
type parameters, unless the bracket becomes part of a comment. -/
namespace KindLift.SignatureTexts
open Token Text TextBoundary TokenPlacement TokenLocality TokenEnds TokenCopies TriviaGaps ScanSteps ScanRuns TokenEdges LegibleTexts
open KindLift.Parser ParserLogic CursorAdvance CursorPlacement BodyLayouts CoveredSpans TraitReading TypeTokens
open TraitSpans (ensures_and)
open WrittenTraits (trim_solid endsParam)

variable {source chars before x : List Char} {e : Char} {glued : Bool} {all items inside tokens tokens' rest : List Token}
  {token stop opening closing : Token} {kind : TokenKind} {ends : TokenKind → Prop} {span : Span} {low' size offset : Nat}
  {entries : List (String × ParamKind)} {left next : Cursor}

/-- The text is read over as a type in front of a comma or a closing bracket, and all of it. -/
structure TypeText (glued : Bool) (text : List Char) : Prop where
  solid : trim text = text
  read : ∀ e z, Edge e → ∀ offset, ∃ tokens, Items endsParam tokens ∧ Covers (fun _ => True) tokens ⟨offset, offset + byteLength text⟩ ∧
    scanFrom offset glued (text ++ e :: z) = (scanFrom (offset + byteLength text) false (e :: z)).map (tokens ++ ·)

/-- The bracket behind the text is no part of a comment. -/
def Closes (text : List Char) : Prop :=
  ((Token.scan (text ++ [']'])).toOption.bind List.getLast?).map Token.stop = some (byteLength (text ++ [']']))

/-- The text is read as these type parameters in front of a bracket that is there. -/
def TypeParamsText (entries : List (String × ParamKind)) (text : List Char) : Prop :=
  Closes text → ∀ offset z, ∃ tokens, AreTypeParams entries tokens ∧
    scanFrom offset false (text ++ ']' :: z) = (scanFrom (offset + byteLength text) false (']' :: z)).map (tokens ++ ·)

/-! ### Types -/

theorem forall₂_getLast? {R : α → β → Prop} {first : List α} {second : List β} (related : List.Forall₂ R first second)
    {last : α} (found : first.getLast? = some last) : ∃ last', second.getLast? = some last' ∧ R last last' := by
  rw [List.getLast?_eq_head?_reverse] at found ⊢
  have related := List.forall₂_reverse_iff.mpr related
  generalize first.reverse = first' at *
  generalize second.reverse = second' at *
  cases related with
  | nil => cases found
  | cons head _ =>
    cases found
    exact ⟨_, rfl, head⟩

/-- The tokens of a copy cover what the tokens covered. -/
theorem covers_carried (covers : Covers ends tokens span) (carried : List.Forall₂ (Carried span.start low' size) tokens tokens') :
    Covers ends tokens' ⟨low', low' + (span.stop - span.start)⟩ := by
  obtain ⟨first, leads, starts⟩ := covers.first
  obtain ⟨last, found, stops, closing⟩ := covers.last
  have width := covers.width
  obtain ⟨others, rfl⟩ := List.head?_eq_some_iff.mp leads
  obtain ⟨last', found', copied⟩ := forall₂_getLast? carried found
  cases carried with
  | cons copy _ =>
    obtain ⟨_, start, start', -⟩ := copy.place
    obtain ⟨offset, before, before', -⟩ := copied.place
    rw [Token.stop] at stops
    refine ⟨⟨_, rfl, by dsimp only; omega⟩, ⟨last', found', ?_, copied.kind ▸ closing⟩, by dsimp only; omega⟩
    rw [Token.stop, copied.lexeme]
    dsimp only
    omega

theorem sameSigns_carried {low : Nat} (carried : List.Forall₂ (Carried low low' size) tokens tokens') : SameSigns tokens tokens' := by
  induction carried with
  | nil => rfl
  | cons copy _ ih =>
    rw [SameSigns, List.map_cons, List.map_cons, show _ = _ from ih, sign, sign, copy.kind, copy.text]

theorem stopAfter_getLast? (found : tokens.getLast? = some token) (offset : Nat) : stopAfter offset tokens = token.stop := by
  obtain ⟨front, rfl⟩ := List.getLast?_eq_some_iff.mp found
  rw [stopAfter, List.foldl_append, List.foldl_cons, List.foldl_nil]

/-- What is read over up to a token that is no literal is the text of a type. -/
theorem typeText_scanned (scanned : scanFrom (byteLength before) glued chars = .ok (items ++ stop :: rest)) (plain : stop.kind ≠ .literal)
    (skims : Items endsParam items) (covers : Covers (fun _ => True) items span) :
    ∃ glued' gap text tail, chars = gap ++ (text ++ tail) ∧ span.start = byteLength (before ++ gap) ∧
      span.stop = span.start + byteLength text ∧ (glued = false → glued' = false) ∧ TypeText glued' text := by
  obtain ⟨first, leads, starts⟩ := covers.first
  obtain ⟨last, found, stops, -⟩ := covers.last
  obtain ⟨others, shape⟩ := List.head?_eq_some_iff.mp leads
  rw [shape, List.cons_append] at scanned
  obtain ⟨gap, c, body, next, rfl, skipped, read, first, later⟩ := scanFrom_first scanned
  have start : span.start = byteLength (before ++ gap) := by rw [← starts, first, byteLength_append]
  have alone : scanFrom span.start (glued && gap.isEmpty) ([] ++ c :: (body ++ next)) = .ok (items ++ stop :: rest) := by
    have width : span.start + byteLength [] = byteLength before + byteLength gap := by
      rw [start, byteLength_nil, byteLength_append, Nat.add_zero]
    rw [scanFrom_cons span.start [] body (skipTrivia_token skipped rfl) (by simpa using read), width, ← first, later, shape]
    rfl
  obtain ⟨text, tail, split, stopped, solid, behind, -⟩ := scanFrom_front alone
  obtain ⟨f, x, rfl, quote⟩ := tail_plain behind plain
  have nonempty : items ≠ [] := by simp [shape]
  have reached : stopAfter span.start items = span.stop := (stopAfter_getLast? found _).trans stops
  refine ⟨glued && gap.isEmpty, gap, text, f :: x, by rw [← split]; rfl, start, by rw [stopped, reached], by rintro rfl; rfl, ?_, ?_⟩
  · obtain ⟨front, final, rfl, white⟩ := solid nonempty
    refine trim_solid (fun d begins => ?_) (by simpa using white)
    have same : some c = some d := by
      rw [← List.head?_append_of_ne_nil _ (by simp), ← split] at begins
      exact begins
    cases same
    exact Bool.eq_false_of_not_eq_true (skipTrivia_solid skipped)
  · intro e z edge offset
    rw [split] at alone
    obtain ⟨tokens, carried, scanned⟩ := scanFrom_edge alone stopped quote edge.breaks offset z
    have width : span.stop - span.start = byteLength text := by omega
    have covered := covers_carried covers carried
    rw [width] at covered
    exact ⟨tokens, skims.same (sameSigns_carried carried), covered, by rw [scanned, scanFrom_glued edge.breaks.quote (begins_cons e z) _ _ false]⟩

/-! ### Type parameters -/

theorem trimEnd_split (chars : List Char) : ∃ space, IsSpace space ∧ chars = trimEnd chars ++ space := by
  refine ⟨(chars.reverse.takeWhile isWhiteSpace).reverse, fun c member => ?_, ?_⟩
  · exact List.all_eq_true.mp List.all_takeWhile c (List.mem_reverse.mp member)
  · rw [trimEnd, ← List.reverse_append, List.takeWhile_append_dropWhile, List.reverse_reverse]

theorem trimEnd_append {front : List Char} (solid : EndsSolid front) (gap : List Char) : trimEnd (front ++ gap) = front ++ trimEnd gap := by
  obtain ⟨body, last, rfl, white⟩ := solid
  rw [trimEnd, trimEnd, List.reverse_append, List.dropWhile_append]
  split
  · rename_i blank
    rw [List.isEmpty_iff] at blank
    simp [blank, white]
  · rw [List.reverse_append, List.reverse_reverse]

/-- White space in front of a text is skipped with what else stands in front of its first token. -/
theorem scanFrom_blanks {space : List Char} (white : IsSpace space) (offset : Nat) (chars : List Char) :
    scanFrom offset false (space ++ chars) = scanFrom (offset + byteLength space) false chars := by
  cases space with
  | nil => rfl
  | cons c space => exact scanFrom_behind (skipTrivia_blanks white chars) (List.cons_ne_nil _ _) offset false

theorem AreTypeParams.nonempty (are : AreTypeParams entries tokens) : tokens ≠ [] := by
  cases are with
  | last param => cases param <;> simp
  | more => simp

/-- The text of type parameters stands behind a bracket and is trimmed. -/
theorem typeParamsText_scanned (scanned : scanFrom offset false chars = .ok (inside ++ closing :: rest)) (closes : closing.kind = .closer .square)
    (are : AreTypeParams entries inside) :
    ∃ between tail, chars = between ++ ']' :: tail ∧ offset + byteLength between = closing.start ∧ TypeParamsText entries (trim between) := by
  obtain ⟨space, solid, white, rfl, first⟩ : ∃ space solid, IsSpace space ∧ chars = space ++ solid ∧ ∀ c ∈ solid.head?, isWhiteSpace c = false :=
    ⟨chars.takeWhile isWhiteSpace, chars.dropWhile isWhiteSpace, List.all_eq_true.mp List.all_takeWhile,
      List.takeWhile_append_dropWhile.symm, dropWhile_ends rfl⟩
  rw [scanFrom_blanks white] at scanned
  have nonempty := AreTypeParams.nonempty are
  obtain ⟨text, tail, rfl, stopped, ends, behind, again⟩ := scanFrom_front scanned
  obtain ⟨gap, c, body, x, rfl, skipped, read, place, -⟩ := scanFrom_first behind
  obtain ⟨rfl, rfl⟩ : c = ']' ∧ body = [] := by
    have spelled := (readToken_spec read).2
    rw [consumed_append, closes] at spelled
    exact List.cons.inj (show [c] ++ body = [']'] from spelled)
  have begins : ∀ c ∈ text.head?, isWhiteSpace c = false := by
    obtain ⟨front, last, rfl, -⟩ := ends nonempty
    intro c begins
    refine first c ?_
    rwa [List.head?_append_of_ne_nil _ (by simp)]
  obtain ⟨space', white', shape⟩ := trimEnd_split gap
  have trimmed : trim (space ++ (text ++ gap)) = text ++ trimEnd gap := by
    have start : ∀ c ∈ (text ++ gap).head?, isWhiteSpace c = false := by
      obtain ⟨front, last, rfl, -⟩ := ends nonempty
      rwa [List.head?_append_of_ne_nil _ (by simp)]
    rw [trim, trimStart, (dropWhile_stop white start).1, trimEnd_append (ends nonempty)]
  refine ⟨space ++ (text ++ gap), x, by simp, ?_, ?_⟩
  · rw [place]
    simp only [byteLength_append]
    omega
  rw [trimmed]
  generalize trimEnd gap = gap' at shape
  subst shape
  intro unbroken offset' z
  cases gap' with
  | nil =>
    obtain ⟨f, y, tail, quote⟩ := tail_plain behind (by simp [closes])
    rw [tail] at scanned
    obtain ⟨tokens, carried, scanned⟩ := scanFrom_edge scanned stopped quote (Edge.breaks (.inr (.inr rfl))) offset' z
    rw [List.append_nil, scanned, scanFrom_glued (by decide) (begins_cons ']' z) _ _ false]
    exact ⟨tokens, are.same (sameSigns_carried carried), rfl⟩
  | cons e gap =>
    obtain ⟨quote, point, -⟩ := gap_plain (show skipTrivia .blank (e :: (gap ++ space') ++ ']' :: x) = .ok (']' :: x) from skipped)
    have alike : ∀ z, Alike ((e :: gap ++ space') ++ ']' :: ([] ++ x)) (e :: gap ++ ']' :: z) := fun z =>
      .inr ⟨[], e, gap ++ space' ++ ']' :: x, gap ++ ']' :: z, quote, fun same => absurd same point, rfl, rfl⟩
    rcases skipTrivia_cut skipped rfl white' with goes | stuck
    · obtain ⟨tokens, carried, scanned⟩ := again _ (alike z) offset'
      have alone : skipTrivia .blank (']' :: z) = .ok (']' :: z) := skipTrivia_done (by decide) (by simp) (by simp)
      rw [List.append_assoc, scanned, scanFrom_behind ((goes .blank z rfl).trans alone.symm) (List.cons_ne_nil _ _), byteLength_append,
        Nat.add_assoc]
      exact ⟨tokens, are.same (sameSigns_carried carried), rfl⟩
    · -- The scan of the text and the bracket would end with a token of the text.
      obtain ⟨tokens, carried, scanned⟩ := again _ (alike []) 0
      rw [scanFrom_nil _ (stuck .blank rfl)] at scanned
      have whole : Token.scan (text ++ e :: gap ++ [']']) = .ok tokens := by
        rw [scan_eq_ok_iff, List.append_assoc, scanned]
        exact congrArg Except.ok (List.append_nil _)
      rw [Closes, whole] at unbroken
      obtain ⟨last, found, stops⟩ := Option.map_eq_some_iff.mp unbroken
      obtain ⟨_, _, copied⟩ := forall₂_getLast? carried.flip found
      obtain ⟨_, -, start, fits⟩ := copied.place
      rw [Token.stop, copied.lexeme, byteLength_append, byteLength_append] at stops
      have bracket : 0 < byteLength [']'] := Nat.succ_pos 0
      omega

/-! ### Parameters -/

/-- The text of the type of a parameter. Only without a name of its own, a parameter can
begin with a string that is read with the name in front of it. -/
def ParamText (param : Param) : Prop := ∃ glued, TypeText glued param.type.toList ∧ (param.name ≠ "_" → glued = false)

/-- The text that is left at a cursor. -/
theorem scanned_inside (scanned : Token.scan source = .ok all) (placed : Inside source all left) :
    ∃ before chars glued, source = before ++ chars ∧ scanFrom (byteLength before) glued chars = .ok left.rest := by
  obtain ⟨front, rfl⟩ := placed.suffix
  rw [scan_eq_ok_iff] at scanned
  obtain ⟨before, chars, rfl, width, -, behind, -⟩ := scanFrom_front scanned
  rw [← width, Nat.zero_add] at behind
  exact ⟨before, chars, _, rfl, behind⟩

/-- A name has a colon behind it. -/
theorem paramName_reads (placed : Inside source all left) : Ensures source left paramName fun name next => Inside source all next ∧
    (name ≠ "_" → ∃ colon, colon :: next.rest <:+ all ∧ colon.kind = .colon) := by
  refine ensures_and (placed.then inferInstance) ?_
  obtain ⟨rest, stop⟩ := left
  rw [paramName, ensures_bind, ensures_peek?]
  cases rest with
  | nil => exact ensures_pure.mpr fun named => absurd rfl named
  | cons word rest =>
    dsimp only [List.head?_cons]
    refine ensures_bind.mpr (ensures_secondKind?.mpr ?_)
    split
    · rename_i both
      simp only [Bool.and_eq_true, decide_eq_true_eq] at both
      obtain ⟨-, typed⟩ := both
      cases rest with
      | nil => cases typed
      | cons colon rest =>
        refine ensures_bind.mpr ?_
        rintro _ _ ⟨⟩
        refine ensures_bind.mpr ?_
        rintro _ _ ⟨⟩
        exact ensures_pure.mpr fun _ => ⟨colon, (List.suffix_cons ..).trans placed.suffix, Option.some.inj typed⟩
    · exact ensures_pure.mpr fun named => absurd rfl named

theorem param_text (scanned : Token.scan source = .ok all) (placed : Inside source all left) :
    Ensures source left param fun found next => next.rest ≠ [] → ParamText found := by
  refine ensures_then (placed.then inferInstance) fun _ middle placed => ?_
  refine ensures_then (placed.then inferInstance) fun _ middle placed => ?_
  refine ensures_then (paramName_reads placed) ?_
  rintro name middle ⟨placed, named⟩
  refine ensures_then (scanUntil_skims placed.sound) ?_
  rintro type behind ⟨skims, ends⟩
  cases type with
  | none => exact ensures_fail
  | some span =>
    refine ensures_then (skipDefault_advances.ensures source behind) fun _ next leads => ?_
    refine ensures_bind.mpr (ensures_read.mpr (ensures_pure.mpr fun more => ?_))
    obtain ⟨items, shape, skimmed⟩ := skims.items
    obtain ⟨span, same, reads⟩ := skims.covers.resolve_left (by simp)
    cases same
    obtain ⟨tokens, shape', covers⟩ := reads.tokens
    obtain rfl : items = tokens := List.append_cancel_right (shape.symm.trans shape')
    obtain ⟨stop, rest, stops⟩ : ∃ stop rest, behind.rest = stop :: rest := by
      refine List.exists_cons_of_ne_nil fun none => more ?_
      have suffix := leads.suffix
      rw [none] at suffix
      exact List.suffix_nil.mp suffix
    have plain : stop.kind ≠ .literal := by
      intro literal
      rcases ends stop (by rw [stops]; rfl) with ended | ⟨_, closes⟩
      · rw [literal] at ended
        cases ended
      · rw [literal] at closes
        cases closes
    have text : ∀ before chars glued, source = before ++ chars → scanFrom (byteLength before) glued chars = .ok middle.rest →
        ∃ glued', TypeText glued' (span.trimmed source).toList ∧ (glued = false → glued' = false) := by
      intro before chars glued whole behind
      rw [shape, stops] at behind
      obtain ⟨glued', gap, text, tail, rfl, start, stop, unglued, read⟩ := typeText_scanned behind plain skimmed covers
      have sliced : span.chars source = text := by
        have whole : source = before ++ gap ++ (text ++ tail) := by rw [whole, List.append_assoc]
        rw [Span.chars, slice?_eq_some_iff.mpr ⟨before ++ gap, tail, whole, start.symm, stop.symm⟩]
        rfl
      exact ⟨glued', by rwa [Span.trimmed, sliced, read.solid, String.toList_ofList], unglued⟩
    by_cases bare : name = "_"
    · obtain ⟨before, chars, glued, whole, behind⟩ := scanned_inside scanned placed
      obtain ⟨glued', read, -⟩ := text before chars glued whole behind
      exact ⟨glued', read, fun named => absurd bare named⟩
    · obtain ⟨colon, suffix, kind⟩ := named bare
      obtain ⟨before, chars, whole, -, behind⟩ := CoveredSpans.scanned_behind scanned suffix
      obtain ⟨glued', read, unglued⟩ := text before chars _ whole behind
      exact ⟨glued', read, fun _ => unglued (by simp [kind])⟩

theorem params_text (scanned : Token.scan source = .ok all) (placed : Inside source all left) :
    Ensures source left params fun found next => next.rest ≠ [] → ∀ param ∈ found, ParamText param := by
  refine ensures_iterate (fun seen current => Inside source all current ∧ ∀ param ∈ seen, ParamText param) ⟨placed, by simp⟩ ?_
  rintro seen current ⟨placed, known⟩
  simp only [ensures_bind, ensures_isAt]
  split
  · exact ensures_pure.mpr fun _ => known
  · refine ensures_then (ensures_and (placed.then param_advances) (param_text scanned placed)) ?_
    rintro found middle ⟨placed, text⟩
    refine ensures_then (ensures_and (placed.then (eats_advances _)) (eats_reads placed.sound _)) ?_
    rintro comma next ⟨placed', eaten⟩
    have all : middle.rest ≠ [] → ∀ param ∈ seen ++ [found], ParamText param := fun more =>
      List.forall_mem_append.mpr ⟨known, List.forall_mem_singleton.mpr (text more)⟩
    cases eaten with
    | read shape => exact ensures_pure.mpr ⟨placed', all (by simp [shape])⟩
    | absent still => exact ensures_pure.mpr (still ▸ all)

theorem paramList_text (scanned : Token.scan source = .ok all) (placed : Inside source all left) :
    Ensures source left paramList fun found _ => (∀ param ∈ found.params, ParamText param) ∧ (found.isUsing = true → found.isImplicit = true) := by
  refine ensures_then (placed.then inferInstance) fun opening middle placed => ?_
  refine ensures_then (placed.then inferInstance) fun isUsing middle placed => ?_
  have marked : Ensures source middle (implicitMark isUsing) fun isImplicit _ => isUsing = true → isImplicit = true := by
    cases isUsing with
    | true => exact ensures_pure.mpr fun _ => rfl
    | false =>
      intro _ _ _ no
      cases no
  refine ensures_then (ensures_and (placed.then inferInstance) marked) ?_
  rintro isImplicit middle ⟨placed, marked⟩
  refine ensures_then (ensures_and (placed.then inferInstance) (params_text scanned placed)) ?_
  rintro params middle ⟨placed, text⟩
  refine ensures_then (expect_reads placed.sound _ _) ?_
  rintro closing next ⟨shape, _⟩
  exact ensures_pure.mpr ⟨text (by simp [shape]), marked⟩

/-! ### Methods -/

/-- What a method keeps of its source can be read again. -/
structure Readable (method : Method) : Prop where
  bare : method.typeParamsText = none → method.typeParams = []
  typeParams : ∀ text ∈ method.typeParamsText, TypeParamsText (method.typeParams.map entry) text.toList
  types : ∀ list ∈ method.params, ∀ param ∈ list.params, ParamText param
  marks : ∀ list ∈ method.params, list.isUsing = true → list.isImplicit = true

theorem paramLists_text (scanned : Token.scan source = .ok all) (placed : Inside source all left) :
    Ensures source left paramLists fun found _ =>
      ∀ list ∈ found, (∀ param ∈ list.params, ParamText param) ∧ (list.isUsing = true → list.isImplicit = true) := by
  refine ensures_iterate (fun seen current => Inside source all current ∧
    ∀ list ∈ seen, (∀ param ∈ list.params, ParamText param) ∧ (list.isUsing = true → list.isImplicit = true)) ⟨placed, by simp⟩ ?_
  rintro seen current ⟨placed, known⟩
  simp only [ensures_bind, ensures_isAt]
  split
  · refine ensures_then (ensures_and (placed.then paramList_advances) (paramList_text scanned placed)) ?_
    rintro list next ⟨placed, text⟩
    exact ensures_pure.mpr ⟨placed, List.forall_mem_append.mpr ⟨known, List.forall_mem_singleton.mpr text⟩⟩
  · exact ensures_pure.mpr known

theorem methodTypeParams_text (scanned : Token.scan source = .ok all) (placed : Inside source all left) :
    Ensures source left methodTypeParams fun found _ => (found.2 = none → found.1 = []) ∧
      ∀ text ∈ found.2, TypeParamsText (found.1.map entry) text.toList := by
  simp only [methodTypeParams, ensures_bind, ensures_isAt]
  split
  · refine ensures_then (typeParams_reads placed.sound) ?_
    rintro ⟨found, span⟩ next ⟨sound, opening, inside, closing, shape, opens, closes, are, rfl⟩
    simp only [groupText, ensures_bind, ensures_read, ensures_pure]
    refine ⟨by simp, ?_⟩
    rintro _ ⟨⟩
    have suffix := placed.suffix
    rw [shape] at suffix
    obtain ⟨before, chars, whole, width, behind⟩ := CoveredSpans.scanned_behind scanned suffix
    rw [decide_eq_false (by simp [opens])] at behind
    obtain ⟨between, tail, rfl, start, text⟩ := typeParamsText_scanned behind closes are
    have opened := took_middle placed.sound (show left.rest = [] ++ opening :: (inside ++ closing :: next.rest) from shape)
    have closed := took_middle placed.sound (show left.rest = (opening :: inside) ++ closing :: next.rest from shape)
    have first := opener_stop opened.stands opens
    have last := closer_stop closed.stands closes
    have low : (opening.span.cover closing.span).interior.start = byteLength before := by
      show min opening.start closing.start + 1 = _
      omega
    have high : (opening.span.cover closing.span).interior.stop = byteLength before + byteLength between := by
      show max opening.stop closing.stop - 1 = _
      omega
    have sliced : (opening.span.cover closing.span).interior.chars source = between := by
      rw [Span.chars, low, high, slice?_eq_some_iff.mpr ⟨before, ']' :: tail, whole, rfl, rfl⟩]
      rfl
    rwa [Span.trimmed, sliced, String.toList_ofList]
  · exact ensures_pure.mpr ⟨fun _ => rfl, by simp⟩

theorem method_readable (scanned : Token.scan source = .ok all) (placed : Inside source all left) :
    Ensures source left method fun found _ => Readable found.1 := by
  refine ensures_then (placed.then inferInstance) fun keyword middle placed => ?_
  refine ensures_then (placed.then inferInstance) fun name middle placed => ?_
  refine ensures_then (ensures_and (placed.then inferInstance) (methodTypeParams_text scanned placed)) ?_
  rintro typeParams middle ⟨placed, bare, text⟩
  refine ensures_then (paramLists_text scanned placed) fun lists middle texts => ?_
  refine ensures_then (fun _ _ _ => trivial) fun result middle (_ : True) => ?_
  refine ensures_bind.mpr (ensures_lastStop.mpr ?_)
  refine ensures_then (fun _ _ _ => trivial) fun isAbstract next (_ : True) => ensures_pure.mpr ?_
  exact ⟨bare, text, fun list member => (texts list member).1, fun list member => (texts list member).2⟩

theorem traitStatement_readable (scanned : Token.scan source = .ok all) (placed : Inside source all left) {seen : TraitMembers}
    (known : ∀ method ∈ seen.methods, Readable method) :
    Ensures source left (traitStatement seen) fun members _ => ∀ method ∈ members.methods, Readable method := by
  refine ensures_then (placed.then inferInstance) fun mods middle placed => ?_
  refine ensures_bind.mpr (ensures_peekKind?.mpr ?_)
  split
  · refine ensures_then (method_readable scanned placed) ?_
    rintro ⟨method, isAbstract⟩ next readable
    refine ensures_pure.mpr ?_
    cases isAbstract with
    | true => exact List.forall_mem_append.mpr ⟨known, List.forall_mem_singleton.mpr readable⟩
    | false => exact known
  · exact ensures_then (fun _ _ _ => trivial) fun _ _ (_ : True) => ensures_pure.mpr known
  · exact ensures_then (fun _ _ _ => trivial) fun _ _ (_ : True) => ensures_pure.mpr known

theorem traitBody_readable (scanned : Token.scan source = .ok all) (placed : Inside source all left) :
    Ensures source left traitBody fun found _ => ∀ method ∈ found.1.methods, Readable method := by
  refine ensures_then (placed.then inferInstance) fun openBrace begun placed => ?_
  refine ensures_iterate (fun seen current => Inside source all current ∧ ∀ method ∈ seen.methods, Readable method) ⟨placed, by simp⟩ ?_
  rintro seen current ⟨placed, known⟩
  refine ensures_then (placed.then inferInstance) fun closed middle placed => ?_
  split
  · exact ensures_pure.mpr known
  · refine ensures_then (ensures_and (placed.then inferInstance) (traitStatement_readable scanned placed known)) fun later next found => ?_
    exact ensures_pure.mpr found

/-- The abstract methods of the traits of a source can be read again. -/
theorem interface_readable (scanned : Token.scan source = .ok all) {trait : Interface} (read : ReadOff source all trait) :
    ∀ method ∈ trait.methods, Readable method := by
  obtain ⟨left, next, placed, ran⟩ := read
  refine (?_ : Ensures source left interface fun trait _ => ∀ method ∈ trait.methods, Readable method) _ _ ran
  refine ensures_then (placed.then inferInstance) fun keyword middle placed => ?_
  refine ensures_then (placed.then inferInstance) fun name middle placed => ?_
  refine ensures_then (placed.then inferInstance) fun typeParams middle placed => ?_
  refine ensures_then (placed.then inferInstance) fun _ middle placed => ?_
  refine ensures_then (placed.then inferInstance) fun parents middle placed => ?_
  have bodied : Ensures source middle optionalTraitBody fun found _ => ∀ method ∈ found.1.methods, Readable method := by
    simp only [optionalTraitBody, ensures_bind, ensures_isAt]
    split
    · exact ensures_then (traitBody_readable scanned placed) fun found _ known => ensures_pure.mpr known
    · exact ensures_pure.mpr (by simp)
  refine ensures_then bodied fun found _ known => ?_
  exact ensures_bind.mpr (ensures_lastStop.mpr (ensures_pure.mpr known))

end KindLift.SignatureTexts
