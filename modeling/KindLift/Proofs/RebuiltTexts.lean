import KindLift.Proofs.RebuiltBodies
import KindLift.Proofs.ScanRuns
import KindLift.Service.Template

/-! The text of a body in which the heads of the result types are replaced. What stands
between the heads is read as before, and each head is read as one word. -/
namespace KindLift.RebuiltTexts
open Token Text TextBoundary TokenPlacement TokenCopies TriviaGaps TokenLocality ScanSteps TokenEnds ScanRuns WrittenTokens
open BodyLayouts RebuiltBodies

variable {source chars before next rest gap gap' body : List Char} {offset : Nat} {glued : Bool} {c : Char}
  {layout : Layout} {closing : Token} {after : List Token} {spans : List Span} {span : Span} {head : List Token}

/-! ### Colons -/

theorem operatorKind_colon {lexeme : List Char} (colon : operatorKind lexeme = .colon) : lexeme = [':'] := by
  unfold operatorKind at colon
  split at colon <;> first
    | rfl
    | cases colon

theorem wordKind_colon {lexeme : List Char} : wordKind lexeme ≠ .colon := by
  unfold wordKind
  split
  · simp
  · split <;> simp

theorem punctuation?_colon : punctuation? c rest ≠ some .colon := by
  unfold punctuation?
  split
  case h_9 => split <;> simp
  all_goals simp

/-- A colon is one character, and no operator character comes behind it. -/
theorem readToken_colon (read : readToken glued c (body ++ next) = .ok (.colon, next)) :
    c = ':' ∧ body = [] ∧ ∀ e ∈ next.head?, isOperatorChar e = false := by
  unfold Token.readToken at read
  split at read
  · rename_i found
    rw [(Prod.mk.inj (Except.ok.inj read)).1] at found
    exact absurd found punctuation?_colon
  split at read
  · obtain ⟨_, _, same⟩ := map_eq_ok read
    cases same
  split at read
  · obtain ⟨_, _, same⟩ := map_eq_ok read
    cases same
  split at read
  · split at read <;> cases read
  split at read
  · cases read
  split at read
  · exact absurd (Prod.mk.inj (Except.ok.inj read)).1 wordKind_colon
  split at read
  · obtain ⟨colon, dropped⟩ := Prod.mk.inj (Except.ok.inj read)
    have spelled := operatorKind_colon colon
    rw [takeWhile_eq_consumed, dropped, consumed_append] at spelled
    obtain ⟨rfl, rfl⟩ := List.cons.inj spelled
    exact ⟨rfl, rfl, dropWhile_ends dropped⟩
  · cases read

/-! ### The word in the place of a head -/

theorem skipTrivia_before {e : Char} (skipped : skipTrivia .blank (gap ++ next) = .ok next) (nonempty : next ≠ [])
    (respaced : Respaced gap gap') (solid : isWhiteSpace e = false) (slash : e ≠ '/') (rest : List Char) :
    skipTrivia .blank (gap' ++ e :: rest) = .ok (e :: rest) := by
  refine skipTrivia_respaced skipped rfl respaced rfl (.inr ⟨nonempty, ?_⟩)
  exact skipTrivia_done (by simp [solid]) (fun same => absurd same slash) fun same => absurd same slash

theorem scanFrom_colon (skipped : skipTrivia .blank (gap ++ next) = .ok next) (nonempty : next ≠ [])
    (stop : ∀ e ∈ rest.head?, isOperatorChar e = false) (offset : Nat) :
    scanFrom offset glued (gap ++ ':' :: rest) =
      (scanFrom (offset + byteLength gap + byteLength [':']) false rest).map (⟨.colon, offset + byteLength gap, [':']⟩ :: ·) :=
  scanFrom_cons offset gap [] (@skipTrivia_before _ _ _ ':' skipped nonempty (.refl gap) (by decide) (by decide) rest)
    (readToken_operator (List.forall_mem_singleton.mpr rfl) stop _)

/-- The word `F`, read in front of a character that no word goes on with. -/
theorem scanFrom_effect (skipped : skipTrivia .blank (gap ++ next) = .ok next) (nonempty : next ≠ [])
    (stop : ∀ e ∈ rest.head?, isIdentPart e = false) (offset : Nat) :
    scanFrom offset glued (gap ++ 'F' :: rest) =
      (scanFrom (offset + byteLength (gap ++ ['F'])) true rest).map (⟨.ident, offset + byteLength gap, ['F']⟩ :: ·) := by
  have read := @readToken_word 'F' [] rest (by decide) (by simp) stop (glued && gap.isEmpty)
  have scanned := scanFrom_cons offset gap []
    (@skipTrivia_before _ _ _ 'F' skipped nonempty (.refl gap) (by decide) (by decide) rest) read
  have kind : wordKind ['F'] = .ident := by decide
  rw [List.nil_append, kind] at scanned
  rw [scanned, Token.stop, byteLength_append, Nat.add_assoc]
  rfl

/-- The text goes on alike behind lines that are moved in. -/
theorem respaced_alike (respaced : Respaced gap gap') (rest rest' : List Char) :
    Alike (gap ++ '\x7d' :: rest) (gap' ++ '\x7d' :: rest') := by
  induction respaced with
  | nil => exact .inr ⟨[], '\x7d', rest, rest', by decide, fun same => absurd same (by decide), rfl, rfl⟩
  | keep c _ ih => exact ih.prepend [c]
  | line => exact .inr ⟨[], '\n', _, _, by decide, fun same => absurd same (by decide), rfl, rfl⟩

/-- The tokens of a head and the text that they cover. -/
theorem scanFrom_head {rest : List Token} (scanned : scanFrom offset glued chars = .ok (head ++ rest)) (spanned : HeadAt head span) :
    ∃ gap text tail, chars = gap ++ (text ++ tail) ∧ text ≠ [] ∧ span.start = offset + byteLength gap ∧
      span.stop = offset + byteLength (gap ++ text) ∧
      skipTrivia .blank (gap ++ (text ++ tail)) = .ok (text ++ tail) ∧ scanFrom span.stop true tail = .ok rest := by
  obtain ⟨first, leads, starts⟩ := spanned.first
  obtain ⟨last, ends, stops, ident⟩ := spanned.last
  obtain ⟨others, rfl⟩ := List.head?_eq_some_iff.mp leads
  obtain ⟨text, tail, rfl, width, -, behind, -⟩ := scanFrom_front scanned
  obtain ⟨gap, c, body, next, shape, skipped, -, token, -⟩ := scanFrom_first (List.cons_append .. ▸ scanned)
  obtain ⟨front, split⟩ := List.getLast?_eq_some_iff.mp ends
  have reached : stopAfter offset (first :: others) = span.stop := by
    rw [split, stopAfter, List.foldl_append, List.foldl_cons, List.foldl_nil, stops]
  have flagged : gluedAfter glued (first :: others) = true := by
    rw [split, gluedAfter, List.foldl_append, List.foldl_cons, List.foldl_nil, ident]
    rfl
  rw [reached, flagged] at behind
  rw [reached] at width
  have start : span.start = offset + byteLength gap := by rw [← starts, token]
  have wide := spanned.width
  obtain ⟨front, rfl⟩ := cuts_nested shape.symm (by omega)
  rw [byteLength_append] at width
  have nonempty : front ≠ [] := by
    rintro rfl
    rw [byteLength_nil] at width
    omega
  have later : front ++ tail = c :: (body ++ next) := by
    rw [List.append_assoc, List.append_cancel_left_eq] at shape
    exact shape
  refine ⟨gap, front, tail, List.append_assoc .., nonempty, start, by rw [byteLength_append, width], ?_, behind⟩
  rw [later]
  exact skipped

/-- In front of an opening bracket no word goes on. -/
theorem plain_before_square {bracket : Token} {others : List Token} (scanned : scanFrom offset glued chars = .ok (bracket :: others))
    (square : bracket.kind = .opener .square) : ∀ e ∈ chars.head?, isIdentPart e = false := by
  obtain ⟨gap, c, body, next, rfl, skipped, read, -, -⟩ := scanFrom_first scanned
  intro e first
  cases gap with
  | nil =>
    cases first
    have spelled := (readToken_spec read).2
    rw [square] at spelled
    obtain ⟨rfl, -⟩ := List.cons.inj spelled
    rfl
  | cons d gap =>
    cases first
    exact (gap_plain skipped).2.2

/-! ### The text as a whole -/

/-- The text of a body with `F` in the place of the heads, cut in front of the white space
and the comments at its end, which may be moved in. -/
structure Retold (source chars : List Char) (glued : Bool) (layout : Layout) (front gap : List Char) : Prop where
  ends : front = [] ∨ EndsSolid front
  blank : ∀ rest, skipTrivia .blank (gap ++ '\x7d' :: rest) = .ok ('\x7d' :: rest)
  first : ∀ gap', Respaced gap gap' → (front ++ (gap' ++ ['\x7d'])).head? = chars.head?
  again : ∀ before gap', Respaced gap gap' → ∃ tokens',
    Rebuilt source (before ++ (front ++ (gap' ++ ['\x7d']))) "F"
      [⟨.closer .brace, byteLength (before ++ (front ++ gap')), ['\x7d']⟩] layout tokens' ∧
    scanFrom (byteLength before) glued (front ++ (gap' ++ ['\x7d'])) = .ok tokens'

theorem slice?_between (before middle after : List Char) :
    slice? (before ++ (middle ++ after)) (byteLength before) (byteLength before + byteLength middle) = some middle :=
  slice?_eq_some_iff.mpr ⟨before, after, rfl, rfl, rfl⟩

/-- Behind the last head the text is what it was. -/
theorem substitute_rescanned_last {front : List Token} (whole : source = before ++ chars)
    (scanned : scanFrom (byteLength before) glued chars = .ok (front ++ closing :: after)) (closer : closing.kind = .closer .brace) :
    ∃ text gap, Template.substitute source ['F'] (byteLength before) closing.start [] = some (text ++ gap) ∧
      Retold source chars glued (.last front) text gap := by
  obtain ⟨text, tail, rfl, stop, ends, behind, again⟩ := scanFrom_front scanned
  obtain ⟨gap, c, body, next, rfl, skipped, read, shape, -⟩ := scanFrom_first behind
  have spelled := (readToken_spec read).2
  rw [closer, consumed_append] at spelled
  obtain ⟨rfl, rfl⟩ := List.cons.inj (show c :: body = ['\x7d'] from spelled)
  have blank : ∀ gap', Respaced gap gap' → ∀ rest, skipTrivia .blank (gap' ++ '\x7d' :: rest) = .ok ('\x7d' :: rest) :=
    fun gap' respaced => skipTrivia_before skipped (List.cons_ne_nil _ _) respaced (by decide) (by decide)
  refine ⟨text, gap, ?_, ?_, blank gap (.refl gap), ?_, ?_⟩
  · have start : closing.start = byteLength before + byteLength (text ++ gap) := by
      rw [shape, byteLength_append, ← Nat.add_assoc, stop]
    rw [Template.substitute, whole, start, ← List.append_assoc text]
    exact slice?_between _ _ _
  · cases front with
    | nil => exact .inl (eq_nil_of_width (Nat.add_eq_left.mp stop))
    | cons token front => exact .inr (ends (List.cons_ne_nil _ _))
  · intro gap' respaced
    exact ((respaced_alike respaced next []).prepend text).head
  · intro other gap' respaced
    obtain ⟨front', carried, goes⟩ := again _ (respaced_alike respaced next []) (byteLength other)
    refine ⟨_, .last ⟨before, text, _, other, _, whole, rfl, rfl, rfl, rfl⟩ carried, ?_⟩
    have closes := scanFrom_cons (byteLength other + byteLength text) gap' [] (blank gap' respaced [])
      (readToken_mark rfl (gluedAfter glued front && gap'.isEmpty))
    rw [List.nil_append] at closes
    rw [goes, closes, scanFrom_nil _ rfl, byteLength_append, byteLength_append, ← Nat.add_assoc]
    rfl

/-- The text of a body whose heads are replaced is read as the body is laid out. -/
theorem substitute_rescanned (whole : source = before ++ chars)
    (scanned : scanFrom (byteLength before) glued chars = .ok (layout.tokens ++ closing :: after))
    (fits : layout.Fits (closing :: after)) (closer : closing.kind = .closer .brace) (heads : List.Forall₂ HeadAt layout.heads spans) :
    ∃ front gap, Template.substitute source ['F'] (byteLength before) closing.start spans = some (front ++ gap) ∧
      Retold source chars glued layout front gap := by
  induction layout generalizing before glued chars spans with
  | last front =>
    cases heads
    exact substitute_rescanned_last whole scanned closer
  | method tokens colon head rest ih =>
    obtain ⟨isColon, -, ⟨bracket, others, opens, square⟩, fits⟩ := fits
    cases heads with | @cons _ span _ spans spanned heads => ?_
    rw [Layout.tokens, List.append_assoc, List.cons_append, List.append_assoc] at scanned
    obtain ⟨text, tail, rfl, stop, ends, behind, again⟩ := scanFrom_front scanned
    obtain ⟨lead, c, body, next, rfl, skipped, read, shape, later⟩ := scanFrom_first behind
    rw [isColon] at read
    obtain ⟨rfl, rfl, symbol⟩ := readToken_colon read
    obtain ⟨blank, name, tail, rfl, nonempty, starts, stops, skipped', behind'⟩ := scanFrom_head later spanned
    have named : name ++ tail ≠ [] := by simp [nonempty]
    have begun : span.start = byteLength before + byteLength (text ++ (lead ++ ':' :: blank)) := by
      rw [starts, shape, Token.stop]
      simp only [byteLength_append, byteLength_cons, byteLength_nil]
      omega
    have reached : span.stop = byteLength (before ++ (text ++ (lead ++ ':' :: (blank ++ name)))) := by
      rw [stops, shape, Token.stop]
      simp only [byteLength_append, byteLength_cons, byteLength_nil]
      omega
    rw [reached] at behind'
    obtain ⟨front, gap, substituted, retold⟩ := ih (by rw [whole]; simp) behind' fits heads
    refine ⟨text ++ (lead ++ ':' :: (blank ++ 'F' :: front)), gap, ?_, .inr ?_, retold.blank, ?_, ?_⟩
    · have sliced : slice? source (byteLength before) span.start = some (text ++ (lead ++ ':' :: blank)) := by
        rw [begun, whole]
        refine slice?_eq_some_iff.mpr ⟨before, name ++ tail, by simp, rfl, rfl⟩
      rw [Template.substitute, sliced, reached, substituted]
      simp
    · have mark : EndsSolid ('F' :: front) := by
        rcases retold.ends with rfl | ends
        · exact ⟨[], 'F', rfl, by decide⟩
        · exact ends.cons 'F'
      have longer := mark.prepend (text ++ (lead ++ ':' :: blank))
      simpa using longer
    · intro gap' _
      cases text <;> cases lead <;> rfl
    · intro other gap' respaced
      have plain : ∀ e ∈ (front ++ (gap' ++ ['\x7d'])).head?, isIdentPart e = false := by
        rw [retold.first gap' respaced]
        exact plain_before_square (opens ▸ behind') square
      obtain ⟨tokens', rebuilt, rescanned⟩ := retold.again (other ++ (text ++ (lead ++ ':' :: (blank ++ ['F'])))) gap' respaced
      have joined : other ++ (text ++ (lead ++ ':' :: (blank ++ 'F' :: front)) ++ (gap' ++ ['\x7d'])) =
          other ++ (text ++ (lead ++ ':' :: (blank ++ ['F']))) ++ (front ++ (gap' ++ ['\x7d'])) := by simp
      have closes : other ++ (text ++ (lead ++ ':' :: (blank ++ 'F' :: front)) ++ gap') =
          other ++ (text ++ (lead ++ ':' :: (blank ++ ['F']))) ++ (front ++ gap') := by simp
      have after : ∀ e ∈ (blank ++ 'F' :: (front ++ (gap' ++ ['\x7d']))).head?, isOperatorChar e = false := by
        cases blank with
        | nil =>
          rintro e ⟨⟩
          decide
        | cons d blank => exact symbol
      -- The tokens in front of the colon, the colon and the word, one after the other.
      obtain ⟨front', carried, goes⟩ := again (lead ++ ':' :: (blank ++ 'F' :: (front ++ (gap' ++ ['\x7d']))))
        (.inr ⟨lead, ':', _, _, by decide, fun same => absurd same (by decide), rfl, rfl⟩) (byteLength other)
      have colons := @scanFrom_colon _ _ _ (gluedAfter glued tokens) skipped (List.cons_ne_nil _ _) after
        (byteLength other + byteLength text)
      have words := @scanFrom_effect _ (front ++ (gap' ++ ['\x7d'])) _ false skipped' named plain
        (byteLength other + byteLength text + byteLength lead + byteLength [':'])
      have place : byteLength other + byteLength text + byteLength lead + byteLength [':'] + byteLength (blank ++ ['F']) =
          byteLength (other ++ (text ++ (lead ++ ':' :: (blank ++ ['F'])))) := by
        simp only [byteLength_append, byteLength_cons, byteLength_nil]
        omega
      rw [place, rescanned] at words
      refine ⟨front' ++ (⟨.colon, byteLength other + byteLength text + byteLength lead, [':']⟩ ::
        ⟨.ident, byteLength other + byteLength text + byteLength lead + byteLength [':'] + byteLength blank, ['F']⟩ :: tokens'),
        ?_, ?_⟩
      · rw [joined, closes]
        refine .method ⟨before, text, _, other, lead ++ ':' :: (blank ++ 'F' :: (front ++ (gap' ++ ['\x7d']))), whole, by simp,
          rfl, rfl, rfl⟩ carried isColon.symm (by rw [shape]) rfl rfl rfl rebuilt
      · rw [List.append_assoc, List.append_assoc, List.cons_append, List.append_assoc, List.cons_append, goes, colons,
          words]
        rfl

/-! ### A blank last line -/

theorem lastLine_behind (feed : '\n' ∈ chars) : ∃ front, chars = front ++ '\n' :: lastLine chars := by
  have whole := @List.takeWhile_append_dropWhile _ (fun c => decide (c ≠ '\n')) chars.reverse
  cases back : chars.reverse.dropWhile (fun c => decide (c ≠ '\n')) with
  | nil =>
    rw [back, List.append_nil] at whole
    have inline := List.all_eq_true.mp (@List.all_takeWhile _ (fun c => decide (c ≠ '\n')) chars.reverse)
    rw [whole] at inline
    exact absurd (inline '\n' (List.mem_reverse.mpr feed)) (by simp)
  | cons d rest =>
    obtain rfl : d = '\n' := by simpa using head_dropWhile_false back
    refine ⟨rest.reverse, ?_⟩
    rw [back] at whole
    have turned := congrArg List.reverse whole
    rw [List.reverse_append, List.reverse_reverse, List.reverse_cons, List.append_assoc] at turned
    exact turned.symm

theorem respaced_emptied {line : List Char} (space : IsSpace line) : Respaced ('\n' :: line) ['\n'] := by
  have emptied := @Respaced.line line [] [] [] space (List.forall_mem_nil _) .nil
  rw [List.append_nil] at emptied
  exact emptied

/-- A last line of blanks is part of what the text ends with behind its last token. -/
theorem emptyBlankLastLine_gap {front : List Char} (ends : front = [] ∨ EndsSolid front) (gap : List Char) :
    ∃ gap', Template.emptyBlankLastLine (front ++ gap) = front ++ gap' ∧ Respaced gap gap' := by
  unfold Template.emptyBlankLastLine
  split
  · rename_i both
    obtain ⟨feed, blank⟩ := Bool.and_eq_true_iff.mp both
    obtain ⟨lead, shape⟩ := lastLine_behind (List.contains_iff_mem.mp feed)
    have space : IsSpace (lastLine (front ++ gap)) := List.all_eq_true.mp blank
    generalize lastLine (front ++ gap) = line at *
    have taken : (front ++ gap).take ((front ++ gap).length - line.length) = lead ++ ['\n'] := by
      rw [shape, List.append_cons, List.length_append, Nat.add_sub_cancel, List.take_left]
    rw [taken]
    rcases List.append_eq_append_iff.mp shape with ⟨middle, rfl, split⟩ | ⟨middle, rfl, split⟩
    · refine ⟨middle ++ ['\n'], List.append_assoc .., ?_⟩
      rw [split]
      exact (Respaced.refl middle).append (respaced_emptied space)
    · cases middle with
      | nil =>
        rw [List.nil_append] at split
        refine ⟨['\n'], by simp, ?_⟩
        rw [← split]
        exact respaced_emptied space
      | cons d middle =>
        -- The text in front would end in white space.
        obtain ⟨rfl, rest⟩ := List.cons.inj split
        obtain ⟨text, last, same, solid⟩ := ends.resolve_left (by simp)
        have listed : last ∈ '\n' :: middle := by
          have found := congrArg List.getLast? same
          rw [List.getLast?_append, List.getLast?_append] at found
          have := List.mem_of_getLast? (l := '\n' :: middle) (a := last) (by simpa using found)
          exact this
        rcases List.mem_cons.mp listed with rfl | inside
        · cases solid
        · rw [space last (rest ▸ List.mem_append_left _ inside)] at solid
          cases solid
  · exact ⟨gap, rfl, .refl gap⟩

end KindLift.RebuiltTexts
