import KindLift.Proofs.LineBreaks

/-! Tokens in front of a comma or a closing bracket. A token that something else than a
string follows in its text is the same token in front of one of these marks, whatever it is,
and so is a run of tokens that ends in it. -/
namespace KindLift.TokenEdges
open Token Text TextBoundary TokenPlacement TokenLocality TokenEnds TokenCopies TriviaGaps ScanSteps ScanRuns

variable {chars rest next body gap u v x z wanted : List Char} {c d e f : Char} {kind : TokenKind} {glued : Bool} {offset : Nat}
  {token : Token} {front tokens others : List Token}

/-- No token goes on with the character, and no literal is told by it. -/
def Breaks (e : Char) : Prop :=
  Stops e ∧ e ∉ ['"', '\'', '.', '/', '*', '\x7b', '-', '+', '_'] ∧ e.isDigit = false ∧ e.isAlphanum = false

instance : Decidable (Stops e) := inferInstanceAs (Decidable (_ ∧ _))

instance : Decidable (Breaks e) := inferInstanceAs (Decidable (_ ∧ _))

theorem Breaks.stops (breaks : Breaks e) : Stops e := breaks.1

theorem Breaks.other (breaks : Breaks e) : e ∉ ['"', '\'', '.', '/', '*', '\x7b', '-', '+', '_'] ∧ e.isDigit = false ∧ e.isAlphanum = false :=
  breaks.2

theorem Breaks.quote (breaks : Breaks e) : e ≠ '"' := fun same => breaks.other.1 (same ▸ List.mem_cons_self)

/-- Inside of a string nothing is told by the character in front of it. -/
def Foreign (e : Char) : Prop := e ∉ ['"', '/', '*', '\x7b']

theorem Foreign.quote (foreign : Foreign e) : e ≠ '"' := fun same => foreign (same ▸ List.mem_cons_self)

theorem Breaks.foreign (breaks : Breaks e) : Foreign e := by
  have other := breaks.other.1
  simp only [List.mem_cons, List.not_mem_nil, or_false, not_or] at other
  simp [Foreign, other]

/-- A mark that no token goes on with. -/
def Edge (e : Char) : Prop := e = ',' ∨ e = ')' ∨ e = ']'

theorem Edge.breaks (edge : Edge e) : Breaks e := by
  rcases edge with rfl | rfl | rfl <;> decide

/-! ### Literals -/

theorem isPrefixOf_replaced (foreign : f ∉ wanted) (foreign' : e ∉ wanted) (u x z : List Char) :
    wanted.isPrefixOf (u ++ f :: x) = wanted.isPrefixOf (u ++ e :: z) := by
  induction wanted generalizing u with
  | nil => simp
  | cons first others ih =>
    obtain ⟨differs, foreign⟩ := List.ne_and_not_mem_of_not_mem_cons foreign
    obtain ⟨differs', foreign'⟩ := List.ne_and_not_mem_of_not_mem_cons foreign'
    cases u with
    | nil =>
      have absent : (first == f) = false := beq_eq_false_iff_ne.mpr differs.symm
      have absent' : (first == e) = false := beq_eq_false_iff_ne.mpr differs'.symm
      simp only [List.nil_append, List.isPrefixOf, absent, absent', Bool.false_and]
    | cons d u => rw [List.cons_append, List.cons_append, List.isPrefixOf, List.isPrefixOf, ih foreign foreign' u]

theorem isPrefixOf_first (differs : d ≠ e) (wanted z : List Char) : (d :: wanted).isPrefixOf (e :: z) = false := by
  rw [List.isPrefixOf, beq_eq_false_iff_ne.mpr differs, Bool.false_and]

/-- A step that reads a single character does not depend on the one behind it. -/
theorem advance_single {frame frame' : Frame} {inner : List Frame} (alike : shape frame = shape frame')
    (advanced : frame.advance c (f :: x) = .ok (inner, 0)) (plain : f ≠ '"') (foreign : Foreign e) (z : List Char) :
    stepShape (frame'.advance c (e :: z)) = some (inner.map shape, 0) := by
  unfold Foreign at foreign
  simp only [List.mem_cons, List.not_mem_nil, or_false, not_or, ← ne_eq] at foreign
  obtain ⟨quote, slash, star, brace⟩ := foreign
  have quotes' := isPrefixOf_first quote.symm ['"'] z
  have slashes := isPrefixOf_first slash.symm [] z
  have stars := isPrefixOf_first star.symm [] z
  have braces := isPrefixOf_first brace.symm [] z
  have quotes := isPrefixOf_first plain.symm ['"'] x
  cases frame <;> cases frame' <;> simp only [shape, reduceCtorEq, Frame.quoted.injEq, Frame.tripled.injEq,
    Frame.splice.injEq, Frame.blockComment.injEq, and_true] at alike
  case quoted.quoted =>
    subst alike
    simp only [Frame.advance, braces, Bool.and_false] at advanced ⊢
    repeat' split at advanced
    all_goals cases advanced
    all_goals simp_all [stepShape, Except.toOption, shape]
  case tripled.tripled =>
    subst alike
    simp only [Frame.advance, braces, quotes, quotes', Bool.and_false, Bool.false_and] at advanced ⊢
    repeat' split at advanced
    all_goals cases advanced
    all_goals simp_all [stepShape, Except.toOption, shape]
  case splice.splice enclosing glued _ _ _ _ =>
    obtain ⟨rfl, rfl⟩ := alike
    simp only [Frame.advance, slashes, stars, quotes, quotes', Bool.and_false] at advanced ⊢
    cases enclosing
    all_goals
    repeat' split at advanced
    all_goals cases advanced
    all_goals simp_all [stepShape, Except.toOption, shape]
  case lineComment.lineComment =>
    simp only [Frame.advance] at advanced ⊢
    split at advanced <;> cases advanced <;> simp_all [stepShape, Except.toOption, shape]
  case blockComment.blockComment enclosing _ _ _ =>
    subst alike
    simp only [Frame.advance, slashes, stars, Bool.and_false] at advanced ⊢
    cases enclosing
    all_goals
    repeat' split at advanced
    all_goals cases advanced
    all_goals simp_all [stepShape, Except.toOption, shape]

/-- A step in a frame that stays in front of the edge is the same in front of another one. -/
theorem advance_edge {frame frame' : Frame} {inner : List Frame} {more : Nat} (alike : shape frame = shape frame')
    (advanced : frame.advance c (u ++ f :: x) = .ok (inner, more)) (inside : more ≤ u.length) (plain : f ≠ '"') (foreign : Foreign e)
    (z : List Char) : stepShape (frame'.advance c (u ++ e :: z)) = some (inner.map shape, more) := by
  cases u with
  | nil =>
    obtain rfl : more = 0 := Nat.le_zero.mp inside
    exact advance_single alike advanced plain foreign z
  | cons d u =>
    have quote := foreign.quote
    have two : ['"', '"'].isPrefixOf (d :: u ++ e :: z) = ['"', '"'].isPrefixOf (d :: u ++ f :: x) :=
      isPrefixOf_replaced (by simpa using quote) (by simpa using plain) (d :: u) z x
    have three : ['"', '"', '"'].isPrefixOf (d :: u ++ e :: z) = ['"', '"', '"'].isPrefixOf (d :: u ++ f :: x) :=
      isPrefixOf_replaced (by simpa using quote) (by simpa using plain) (d :: u) z x
    have single : ∀ wanted, [wanted].isPrefixOf (d :: u ++ e :: z) = [wanted].isPrefixOf (d :: u ++ f :: x) := by
      intro wanted
      simp [List.isPrefixOf]
    have same : stepShape (frame'.advance c (d :: u ++ e :: z)) = stepShape (frame.advance c (d :: u ++ f :: x)) := by
      cases frame <;> cases frame' <;> simp only [shape, reduceCtorEq, Frame.quoted.injEq, Frame.tripled.injEq,
        Frame.splice.injEq, Frame.blockComment.injEq, and_true] at alike
      case quoted.quoted =>
        subst alike
        simp only [Frame.advance, single, apply_ite stepShape]
        rfl
      case tripled.tripled =>
        subst alike
        simp only [Frame.advance, single, two, three, apply_ite stepShape]
        rfl
      case splice.splice enclosing glued _ _ _ _ =>
        obtain ⟨rfl, rfl⟩ := alike
        cases enclosing <;>
        · simp only [Frame.advance, two, single, apply_ite stepShape]
          rfl
      case lineComment.lineComment =>
        simp only [Frame.advance, apply_ite stepShape]
        rfl
      case blockComment.blockComment enclosing _ _ _ =>
        subst alike
        cases enclosing <;>
        · simp only [Frame.advance, single, apply_ite stepShape]
          rfl
    rw [same, advanced]
    rfl

theorem closeFrames_edge {frames frames' : List Frame} (closed : closeFrames frames chars = .ok (v ++ f :: x))
    (whole : chars = u ++ f :: x) (alike : frames.map shape = frames'.map shape) (plain : f ≠ '"') (foreign : Foreign e) (z : List Char) :
    closeFrames frames' (u ++ e :: z) = .ok (v ++ e :: z) := by
  fun_induction closeFrames frames chars generalizing u frames' with
  | case1 rest =>
    rw [List.map_nil, eq_comm, List.map_eq_nil_iff] at alike
    rw [Except.ok.injEq] at closed
    rw [closed, List.append_cancel_right_eq] at whole
    rw [alike, whole, closeFrames]
  | case2 => cases closed
  | case3 => cases closed
  | case4 frame outer d rest inner more advanced ih =>
    cases frames' with
    | nil => cases alike
    | cons frame' outer' =>
      rw [List.map_cons, List.map_cons, List.cons.injEq] at alike
      have bound := closeFrames_length_le closed
      rw [List.length_append, List.length_cons, List.length_drop] at bound
      cases u with
      | nil =>
        cases whole
        omega
      | cons d' u =>
        rw [List.cons_append, List.cons.injEq] at whole
        obtain ⟨rfl, rfl⟩ := whole
        rw [List.length_append, List.length_cons] at bound
        have inside : more ≤ u.length := by omega
        have same := advance_edge alike.1 advanced inside plain foreign z
        cases advanced' : frame'.advance d (u ++ e :: z) with
        | error fault =>
          rw [advanced'] at same
          cases same
        | ok found =>
          obtain ⟨inner', more'⟩ := found
          rw [advanced'] at same
          simp only [stepShape, Except.toOption, Option.map_some, Option.some.injEq, Prod.mk.injEq] at same
          obtain ⟨shapes, rfl⟩ := same
          have frames : (inner ++ outer).map shape = (inner' ++ outer').map shape := by
            rw [List.map_append, List.map_append, shapes, alike.2]
          rw [List.cons_append, closeFrames, advanced']
          simp only [List.drop_append_of_le_length inside]
          exact ih closed (List.drop_append_of_le_length inside) frames

theorem skipString_edge (read : skipString glued (body ++ f :: x) = .ok (v ++ f :: x)) (plain : f ≠ '"') (foreign : Foreign e) (z : List Char) :
    skipString glued (body ++ e :: z) = .ok (v ++ e :: z) := by
  by_cases two : ∃ rest, body = '"' :: '"' :: rest
  · obtain ⟨rest, rfl⟩ := two
    simp only [List.cons_append, skipString] at read ⊢
    refine closeFrames_edge (u := rest) read rfl ?_ plain foreign z
    rfl
  · have other : ∀ d, d ≠ '"' → ∀ z tail, body ++ d :: z ≠ '"' :: '"' :: tail := by
      intro d differs z tail same
      rcases body with _ | ⟨first, _ | ⟨second, rest⟩⟩
      · exact differs (List.cons.inj same).1
      · exact differs (List.cons.inj (List.cons.inj same).2).1
      · cases same
        exact two ⟨rest, rfl⟩
    rw [skipString.eq_2 _ _ (other f plain x)] at read
    rw [skipString.eq_2 _ _ (other e foreign.quote z)]
    refine closeFrames_edge read rfl ?_ plain foreign z
    rfl

/-- What is passed over up to a mark inside of the text does not depend on how it goes on. -/
theorem dropWhile_inside {p : Char → Bool} (dropped : (body ++ next).dropWhile p = d :: next) (z : List Char) :
    (body ++ z).dropWhile p = d :: z := by
  have suffix := List.dropWhile_suffix (l := body ++ next) p
  have taken := @List.takeWhile_append_dropWhile _ p (body ++ next)
  have all := List.all_eq_true.mp (@List.all_takeWhile _ p (body ++ next))
  have stops := head_dropWhile_false dropped
  rw [dropped, List.append_cons, List.append_cancel_right_eq] at taken
  rw [← taken, List.append_assoc, List.singleton_append]
  exact (dropWhile_stop all (by rintro _ ⟨⟩; exact stops)).1

/-- What stands in front of the edge, or else the edge, is no part of the run. -/
theorem stop_edge {p : Char → Bool} (dropped : (body ++ (v ++ f :: x)).dropWhile p = v ++ f :: x) (stops : p e = false)
    (z : List Char) : (body ++ (v ++ e :: z)).dropWhile p = v ++ e :: z ∧ (body ++ (v ++ e :: z)).takeWhile p = body := by
  refine dropWhile_stop (run_of_dropWhile dropped) ?_
  cases v with
  | nil =>
    rintro _ ⟨⟩
    exact stops
  | cons d v =>
    rintro _ ⟨⟩
    exact head_dropWhile_false dropped

theorem skipQuote_edge (read : skipQuote (body ++ (v ++ f :: x)) = .ok (v ++ f :: x)) (breaks : Breaks e) (z : List Char) :
    skipQuote (body ++ (v ++ e :: z)) = .ok (v ++ e :: z) := by
  have longer := skipQuote_length_lt read
  rw [List.length_append] at longer
  obtain _ | ⟨d, body⟩ := body
  · simp at longer
  by_cases escaped : d = '\\'
  · subst escaped
    rw [List.cons_append, skipQuote.eq_1] at read ⊢
    split at read
    · rename_i tail dropped
      cases read
      have again := @dropWhile_inside (v ++ f :: x) ('\\' :: body) '\'' _ dropped (v ++ e :: z)
      rw [← List.cons_append, again]
      rfl
    · cases read
  by_cases closes : ∃ rest, body = '\'' :: rest
  · obtain ⟨rest, rfl⟩ := closes
    rw [List.cons_append, List.cons_append, skipQuote.eq_2 _ _ escaped] at read ⊢
    rw [Except.ok.injEq, List.append_left_eq_self] at read
    rw [read]
    rfl
  -- What stands behind the text would close the literal, and belong to it.
  have open' : ∀ tail, body ++ (v ++ f :: x) = '\'' :: tail → False := by
    intro tail same
    cases body with
    | nil =>
      rw [List.nil_append] at same
      rw [List.cons_append, List.nil_append, same, skipQuote.eq_2 _ _ escaped, Except.ok.injEq] at read
      exact absurd (congrArg List.length read) (by simp)
    | cons first body =>
      cases same
      exact closes ⟨body, rfl⟩
  have open'' : ∀ tail, body ++ (v ++ e :: z) = '\'' :: tail → False := by
    intro tail same
    cases body with
    | nil =>
      cases v with
      | nil =>
        cases same
        exact absurd breaks.other.1 (by decide)
      | cons first v =>
        cases same
        exact open' _ rfl
    | cons first body =>
      cases same
      exact closes ⟨body, rfl⟩
  rw [List.cons_append, skipQuote.eq_3 _ _ escaped open'] at read
  rw [List.cons_append, skipQuote.eq_3 _ _ escaped open'']
  split at read
  · rename_i starts
    rw [Except.ok.injEq, ← List.cons_append] at read
    rw [if_pos starts, ← List.cons_append]
    exact congrArg Except.ok (stop_edge read breaks.stops.1 z).1
  · cases read

theorem skipNumber_edge {previous : Char} (read : skipNumber previous (body ++ (v ++ f :: x)) = v ++ f :: x) (breaks : Breaks e)
    (z : List Char) : skipNumber previous (body ++ (v ++ e :: z)) = v ++ e :: z := by
  have foreign := breaks.other
  simp only [List.mem_cons, List.not_mem_nil, or_false, not_or] at foreign
  have edged : ∀ previous, skipNumber previous (e :: z) = e :: z := fun previous => by simp [skipNumber, foreign]
  -- A digit goes on with any number.
  have digits : ∀ previous, f.isDigit = true → skipNumber previous (f :: x) ≠ f :: x := by
    intro previous digit same
    rw [skipNumber, if_pos (by simp [Char.isAlphanum, digit])] at same
    have shorter := skipNumber_length_le f x
    rw [same, List.length_cons] at shorter
    omega
  induction body generalizing previous with
  | nil =>
    cases v with
    | nil => exact edged previous
    | cons d v =>
      rw [List.nil_append, List.cons_append, skipNumber] at read ⊢
      have ends : ¬ (d.isAlphanum || decide (d = '_') || ((decide (d = '-') || decide (d = '+')) && (decide (previous = 'e') || decide (previous = 'E'))) ||
          (decide (d = '.') && (v ++ f :: x).head?.any Char.isDigit)) = true := by
        intro goes
        rw [if_pos goes] at read
        have shorter := skipNumber_length_le d (v ++ f :: x)
        rw [read, List.length_cons] at shorter
        omega
      rw [if_neg]
      cases v with
      | nil =>
        simp only [Bool.or_eq_true, not_or] at ends
        simp [ends, foreign.2.1]
      | cons => exact ends
  | cons d body ih =>
    rw [List.cons_append, skipNumber] at read ⊢
    have goes : (d.isAlphanum || decide (d = '_') || ((decide (d = '-') || decide (d = '+')) && (decide (previous = 'e') || decide (previous = 'E'))) ||
        (decide (d = '.') && (body ++ (v ++ f :: x)).head?.any Char.isDigit)) = true := by
      by_contra stopped
      rw [if_neg stopped] at read
      exact absurd (congrArg List.length read) (by simp; omega)
    rw [if_pos goes] at read
    rw [if_pos]
    · exact ih read
    · cases body with
      | cons => exact goes
      | nil =>
        cases v with
        | cons => exact goes
        | nil =>
          -- A point is followed by a digit of the number.
          have digit : f.isDigit = false := by
            by_contra digit
            exact digits d (Bool.not_eq_false _ ▸ digit) read
          simpa [digit, foreign.2.1] using goes

/-! ### Tokens -/

/-- A mark that stands for itself is one whatever comes behind it, and so is what is none. -/
theorem punctuation?_edge (read : readToken glued c (body ++ (v ++ f :: x)) = .ok (kind, v ++ f :: x)) (breaks : Breaks e) (z : List Char) :
    punctuation? c (body ++ (v ++ e :: z)) = punctuation? c (body ++ (v ++ f :: x)) := by
  rw [← List.append_assoc, ← List.append_assoc] at *
  cases whole : body ++ v with
  | cons d behind => rfl
  | nil =>
    obtain ⟨rfl, rfl⟩ := List.append_eq_nil_iff.mp whole
    by_cases point : c = '.'
    · subst point
      have digit : f.isDigit = false := by
        by_contra digit
        rw [Bool.not_eq_false] at digit
        have number : readToken glued '.' (f :: x) = .ok (.literal, skipNumber '.' (f :: x)) := by
          simp [readToken, punctuation?, digit]
        have same := (Prod.mk.inj (Except.ok.inj (number.symm.trans read))).2
        rw [skipNumber, if_pos (by simp [Char.isAlphanum, digit])] at same
        have shorter := skipNumber_length_le f x
        rw [same, List.nil_append, List.length_cons] at shorter
        omega
      simp [punctuation?, digit, breaks.other.2.1]
    · unfold punctuation?
      split <;> simp_all

/-- A token of a text that no string follows directly is the same token in front of a comma
or a closing bracket. -/
theorem readToken_edge (read : readToken glued c (body ++ (v ++ f :: x)) = .ok (kind, v ++ f :: x)) (plain : f ≠ '"')
    (breaks : Breaks e) (z : List Char) : readToken glued c (body ++ (v ++ e :: z)) = .ok (kind, v ++ e :: z) := by
  have alone := punctuation?_edge read breaks z
  unfold readToken at read ⊢
  rw [alone]
  cases found : punctuation? c (body ++ (v ++ f :: x)) with
  | some kind =>
    simp only [found, Except.ok.injEq, Prod.mk.injEq, List.append_left_eq_self] at read ⊢
    exact read
  | none =>
    simp only [found] at read ⊢
    split at read
    · rename_i string
      obtain ⟨rest, skipped, same⟩ := map_eq_ok read
      cases same
      rw [← List.append_assoc] at skipped ⊢
      rw [if_pos string, skipString_edge skipped plain breaks.foreign]
      rfl
    rename_i string
    rw [if_neg string]
    split at read
    · rename_i tick
      obtain ⟨rest, skipped, same⟩ := map_eq_ok read
      cases same
      rw [if_pos tick, skipQuote_edge skipped breaks]
      rfl
    rename_i tick
    rw [if_neg tick]
    split at read
    · rename_i quoted
      split at read
      · rename_i tail dropped
        cases read
        rw [if_pos quoted, dropWhile_inside dropped]
        rfl
      · cases read
    rename_i quoted
    rw [if_neg quoted]
    split at read
    · rename_i number
      obtain ⟨rfl, skipped⟩ := Prod.mk.inj (Except.ok.inj read)
      rw [if_pos number, skipNumber_edge skipped breaks]
    rename_i number
    rw [if_neg number]
    split at read
    · rename_i word
      obtain ⟨same, skipped⟩ := Prod.mk.inj (Except.ok.inj read)
      have again : skipWord c (body ++ (v ++ e :: z)) = v ++ e :: z := by
        cases v with
        | nil => exact skipWord_stop skipped breaks.stops z
        | cons d v => exact @skipWord_local d body [] (v ++ f :: x) c skipped (v ++ e :: z)
      rw [skipped, consumed_append] at same
      rw [if_pos word, again, consumed_append, same]
    rename_i word
    rw [if_neg word]
    split at read
    · rename_i symbol
      obtain ⟨same, dropped⟩ := Prod.mk.inj (Except.ok.inj read)
      obtain ⟨dropped', taken'⟩ := stop_edge dropped breaks.stops.2 z
      rw [takeWhile_eq_consumed, dropped, consumed_append] at same
      rw [if_pos symbol, dropped', taken', same]
    · cases read

/-- A run of tokens that no string follows directly is read again in front of a comma or a
closing bracket. -/
theorem scanFrom_edge {front rest : List Token} (scanned : scanFrom offset glued (u ++ f :: x) = .ok (front ++ rest))
    (ends : offset + byteLength u = stopAfter offset front) (plain : f ≠ '"') (breaks : Breaks e) (offset' : Nat) (z : List Char) :
    ∃ front', List.Forall₂ (Carried offset offset' (byteLength u)) front front' ∧
      scanFrom offset' glued (u ++ e :: z) =
        (scanFrom (offset' + byteLength u) (gluedAfter glued front) (e :: z)).map (front' ++ ·) := by
  induction front generalizing offset glued u offset' with
  | nil =>
    obtain rfl : u = [] := eq_nil_of_width (Nat.add_eq_left.mp ends)
    exact ⟨[], .nil, (map_nil_append _).symm⟩
  | cons token front ih =>
    obtain ⟨gap, c, body, next, whole, skipped, read, shape, later⟩ := scanFrom_first scanned
    have lead : token.stop = offset + byteLength (gap ++ c :: body) := by
      rw [shape, Token.stop, byteLength_append, Nat.add_assoc]
    obtain ⟨text, _, -, forward, -⟩ := scanFrom_front later
    replace ends : offset + byteLength u = stopAfter token.stop front := ends
    have split : u ++ f :: x = gap ++ c :: body ++ next := by
      rw [whole, List.append_assoc, List.cons_append]
    obtain ⟨v, rfl⟩ := cuts_nested split.symm (by omega)
    rw [List.append_assoc, List.append_cancel_left_eq] at split
    subst next
    have width : byteLength (gap ++ c :: body ++ v) = byteLength (gap ++ c :: body) + byteLength v := byteLength_append ..
    obtain ⟨front', carried, goes⟩ := ih later (by omega) (offset' + byteLength (gap ++ c :: body))
    have ahead : skipTrivia .blank (gap ++ c :: (body ++ (v ++ e :: z))) = .ok (c :: (body ++ (v ++ e :: z))) := by
      refine skipTrivia_respaced skipped rfl (.refl gap) rfl (.inr ⟨List.cons_ne_nil _ _, skipTrivia_ahead skipped fun d first => ?_⟩)
      rw [← List.append_assoc] at first ⊢
      cases inside : body ++ v with
      | cons => exact .inl (by rw [inside] at first; exact first)
      | nil =>
        rw [inside] at first
        cases first
        refine .inr ⟨?_, ?_⟩ <;>
          · rintro rfl
            exact absurd breaks.other.1 (by decide)
    have moved : (Token.mk token.kind (offset' + byteLength gap) (c :: body)).stop = offset' + byteLength (gap ++ c :: body) := by
      rw [Token.stop, byteLength_append, Nat.add_assoc]
    refine ⟨⟨token.kind, offset' + byteLength gap, c :: body⟩ :: front', .cons ?_ ?_, ?_⟩
    · refine ⟨rfl, by rw [shape], by rw [shape]; exact List.cons_ne_nil _ _, byteLength gap, by rw [shape], rfl, ?_⟩
      rw [shape, width, byteLength_append]
      exact Nat.le_add_right _ _
    · rw [width]
      rw [lead] at carried
      exact carried.imp fun _ _ moved => moved.back
    · rw [List.append_assoc, List.append_assoc, List.cons_append, scanFrom_cons offset' gap body ahead (readToken_edge read plain breaks z),
        moved, goes, width, Nat.add_assoc]
      exact map_append _ _ _

/-- What is written in front of a token that is no literal begins with no quotation mark. -/
theorem tail_plain (scanned : scanFrom offset glued chars = .ok (token :: others)) (other : token.kind ≠ .literal) :
    ∃ f x, chars = f :: x ∧ f ≠ '"' := by
  obtain ⟨gap, c, body, next, rfl, skipped, read, -⟩ := scanFrom_first scanned
  cases gap with
  | cons d gap => exact ⟨d, _, rfl, (gap_plain skipped).1⟩
  | nil =>
    refine ⟨c, _, rfl, ?_⟩
    rintro rfl
    obtain ⟨_, -, same⟩ := map_eq_ok (show (skipString _ _).map (TokenKind.literal, ·) = .ok (token.kind, next) from read)
    exact other (Prod.mk.inj same).1.symm

/-! ### Gaps -/

/-- A mark does not reach into the white space behind a text. -/
theorem mark_inside {space : List Char} (whole : gap ++ space = c :: d :: chars) (white : IsSpace space)
    (first : isWhiteSpace c = false) (second : isWhiteSpace d = false) : ∃ inside, gap = c :: d :: inside ∧ chars = inside ++ space := by
  have solid : ∀ {c}, isWhiteSpace c = false → c ∉ space := fun solid member => by
    rw [white _ member] at solid
    cases solid
  obtain _ | ⟨_, _ | ⟨_, inside⟩⟩ := gap
  · exact absurd (show c ∈ space by rw [List.nil_append] at whole; rw [whole]; exact List.mem_cons_self) (solid first)
  · cases whole
    exact absurd List.mem_cons_self (solid second)
  · cases whole
    exact ⟨inside, rfl, rfl⟩

/-- The gap is passed over in front of a bracket, or else a comment goes on over the bracket. -/
def Cut (trivia : Trivia) (gap : List Char) : Prop :=
  (∀ trivia' z, triviaShape trivia = triviaShape trivia' → skipTrivia trivia' (gap ++ ']' :: z) = .ok (']' :: z)) ∨
    ∀ trivia', triviaShape trivia = triviaShape trivia' → skipTrivia trivia' (gap ++ [']']) = .ok []

/-- A gap that begins with what is passed over. -/
theorem Cut.step {trivia later : Trivia} (cut : Cut later gap) (front : List Char)
    (goes : ∀ trivia', triviaShape trivia = triviaShape trivia' → ∀ z, ∃ later', triviaShape later = triviaShape later' ∧
      skipTrivia trivia' (front ++ (gap ++ ']' :: z)) = skipTrivia later' (gap ++ ']' :: z)) : Cut trivia (front ++ gap) := by
  refine cut.imp (fun again trivia' z alike => ?_) fun again trivia' alike => ?_
  · obtain ⟨later', same, step⟩ := goes trivia' alike z
    rw [List.append_assoc, step, again later' z same]
  · obtain ⟨later', same, step⟩ := goes trivia' alike []
    rw [List.append_assoc, step, again later' same]

/-- A bracket is no part of a gap. -/
theorem cut_nil : Cut .blank [] := by
  refine .inl fun trivia' z alike => ?_
  obtain rfl := shape_blank alike
  exact skipTrivia_done (by decide) (by simp) (by simp)

/-- A line comment goes on over a bracket. -/
theorem cut_line : Cut .lineComment [] := by
  refine .inr fun trivia' alike => ?_
  obtain rfl := shape_line alike
  rfl

/-- A character of a block comment begins no mark with the bracket behind it. -/
theorem cut_inside {enclosing : Nat} {opened : List Char} (cut : Cut (.blockComment enclosing opened) gap)
    (opens : ∀ tail, d = '/' → gap ++ chars = '*' :: tail → False) (closes : ∀ tail, d = '*' → gap ++ chars = '/' :: tail → False) :
    Cut (.blockComment enclosing opened) (d :: gap) := by
  refine cut.step [d] fun _ alike z => ?_
  obtain ⟨opened', rfl⟩ := shape_block alike
  refine ⟨.blockComment enclosing opened', rfl, skipTrivia_inside (fun tail first same => ?_) fun tail first same => ?_⟩ <;> cases gap <;> cases same
  · exact opens _ first rfl
  · exact closes _ first rfl

/-- A gap without the white space at its end is a gap, unless a comment goes on behind it. -/
theorem skipTrivia_cut {trivia : Trivia} {space : List Char} (skipped : skipTrivia trivia chars = .ok (']' :: x))
    (whole : chars = (gap ++ space) ++ ']' :: x) (white : IsSpace space) : Cut trivia gap := by
  fun_induction skipTrivia trivia chars generalizing gap with
  | case1 => cases skipped
  | case2 => cases skipped
  | case3 d rest blank ih =>
    cases gap with
    | nil => exact cut_nil
    | cons e gap =>
      obtain ⟨rfl, rfl⟩ := List.cons.inj whole
      refine (ih skipped rfl).step [d] fun _ alike z => ?_
      obtain rfl := shape_blank alike
      exact ⟨.blank, rfl, skipTrivia_space blank _⟩
  | case4 tail _ ih =>
    obtain ⟨later, split, behind⟩ := @skipped_front _ _ (gap ++ space) ['/', '/'] _ skipped whole
    obtain ⟨inside, rfl, rfl⟩ := mark_inside split white (by decide) (by decide)
    refine (ih skipped behind).step ['/', '/'] fun _ alike z => ?_
    obtain rfl := shape_blank alike
    exact ⟨.lineComment, rfl, rfl⟩
  | case5 tail _ ih =>
    obtain ⟨later, split, behind⟩ := @skipped_front _ _ (gap ++ space) ['/', '*'] _ skipped whole
    obtain ⟨inside, rfl, rfl⟩ := mark_inside split white (by decide) (by decide)
    refine (ih skipped behind).step ['/', '*'] fun _ alike z => ?_
    obtain rfl := shape_blank alike
    exact ⟨.blockComment 0 ('/' :: '*' :: (inside ++ ']' :: z)), rfl, rfl⟩
  | case6 d rest solid noLine noBlock =>
    rw [Except.ok.injEq] at skipped
    rw [skipped, List.self_eq_append_left, List.append_eq_nil_iff] at whole
    obtain ⟨rfl, rfl⟩ := whole
    exact cut_nil
  | case7 rest ih =>
    cases gap with
    | nil => exact cut_line
    | cons e gap =>
      obtain ⟨rfl, rfl⟩ := List.cons.inj whole
      refine (ih skipped rfl).step ['\n'] fun _ alike z => ?_
      obtain rfl := shape_line alike
      exact ⟨.blank, rfl, rfl⟩
  | case8 d rest other ih =>
    cases gap with
    | nil => exact cut_line
    | cons e gap =>
      obtain ⟨rfl, rfl⟩ := List.cons.inj whole
      refine (ih skipped rfl).step [d] fun _ alike z => ?_
      obtain rfl := shape_line alike
      refine ⟨.lineComment, rfl, ?_⟩
      rw [List.singleton_append, skipTrivia, if_neg other]
  | case9 enclosing opened tail ih =>
    obtain ⟨later, split, behind⟩ := @skipped_front _ _ (gap ++ space) ['/', '*'] _ skipped whole
    obtain ⟨inside, rfl, rfl⟩ := mark_inside split white (by decide) (by decide)
    refine (ih skipped behind).step ['/', '*'] fun _ alike z => ?_
    obtain ⟨opened', rfl⟩ := shape_block alike
    exact ⟨.blockComment _ opened', rfl, rfl⟩
  | case10 opened tail ih =>
    obtain ⟨later, split, behind⟩ := @skipped_front _ _ (gap ++ space) ['*', '/'] _ skipped whole
    obtain ⟨inside, rfl, rfl⟩ := mark_inside split white (by decide) (by decide)
    refine (ih skipped behind).step ['*', '/'] fun _ alike z => ?_
    obtain ⟨opened', rfl⟩ := shape_block alike
    exact ⟨.blank, rfl, rfl⟩
  | case11 opened tail outer ih =>
    obtain ⟨later, split, behind⟩ := @skipped_front _ _ (gap ++ space) ['*', '/'] _ skipped whole
    obtain ⟨inside, rfl, rfl⟩ := mark_inside split white (by decide) (by decide)
    refine (ih skipped behind).step ['*', '/'] fun _ alike z => ?_
    obtain ⟨opened', rfl⟩ := shape_block alike
    exact ⟨.blockComment _ opened', rfl, rfl⟩
  | case12 enclosing opened d tail opens closes ih =>
    cases gap with
    | nil =>
      -- The white space does not end the comment, and the bracket is behind it.
      have inside : skipTrivia (.blockComment enclosing opened) (space ++ ']' :: x) = .ok (']' :: x) := by
        rw [List.nil_append] at whole
        rw [← whole, skipTrivia_inside (fun _ first => opens _ first) (fun _ first => closes _ first)]
        exact skipped
      rw [skipTrivia_comment white] at inside
      exact absurd (comment_length_lt inside) (Nat.lt_irrefl _)
    | cons e gap =>
      obtain ⟨rfl, rfl⟩ := List.cons.inj whole
      exact cut_inside (ih skipped rfl) (fun _ first same => opens _ first ((List.append_assoc _ _ _).trans same))
        (fun _ first same => closes _ first ((List.append_assoc _ _ _).trans same))

end KindLift.TokenEdges
