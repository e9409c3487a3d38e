import KindLift.Proofs.TriviaGaps

/-! Reading a token does not look behind the character that follows it, unless that
is a quotation mark, or a point that may be followed by a digit. So whatever comes
after that character can be replaced. -/
namespace KindLift.TokenLocality
open Token Text TokenPlacement TriviaGaps

variable {c d : Char} {u v x : List Char}

theorem edge_ne (edge : isIdentStart c = true) (special : isIdentStart d = false) : c ≠ d := by
  rintro rfl
  rw [edge] at special
  cases special

theorem isPrefixOf_local {wanted : List Char} (foreign : c ∉ wanted) (u x y : List Char) :
    wanted.isPrefixOf (u ++ c :: x) = wanted.isPrefixOf (u ++ c :: y) := by
  induction wanted generalizing u with
  | nil => simp
  | cons first others ih =>
    rw [List.mem_cons, not_or] at foreign
    have other : (first == c) = false := beq_eq_false_iff_ne.mpr (Ne.symm foreign.1)
    cases u with
    | nil => rw [List.nil_append, List.nil_append, List.isPrefixOf, List.isPrefixOf, other,
        Bool.false_and, Bool.false_and]
    | cons e u => rw [List.cons_append, List.cons_append, List.isPrefixOf, List.isPrefixOf, ih foreign.2 u]

theorem isPrefixOf_single (wanted : Char) (u x y : List Char) :
    [wanted].isPrefixOf (u ++ c :: x) = [wanted].isPrefixOf (u ++ c :: y) := by
  cases u <;> simp [List.isPrefixOf]

/-- The frame without where it began. -/
def shape : Frame → Frame
  | .quoted spliced _ => .quoted spliced []
  | .tripled spliced _ => .tripled spliced []
  | .splice enclosing glued _ => .splice enclosing glued []
  | .lineComment _ => .lineComment []
  | .blockComment enclosing _ => .blockComment enclosing []

/-- What a step in a frame comes to, without where the frames began. -/
def stepShape (step : Except Fault (List Frame × Nat)) : Option (List Frame × Nat) :=
  step.toOption.map fun found => (found.1.map shape, found.2)

theorem advance_local (quote : c ≠ '"') {frame frame' : Frame}
    (alike : shape frame = shape frame') (d : Char) (u x y : List Char) :
    stepShape (frame.advance d (u ++ c :: x)) = stepShape (frame'.advance d (u ++ c :: y)) := by
  have braces := @isPrefixOf_single c '\x7b' u x y
  have line := @isPrefixOf_single c '/' u x y
  have block := @isPrefixOf_single c '*' u x y
  have two : ['"', '"'].isPrefixOf (u ++ c :: x) = ['"', '"'].isPrefixOf (u ++ c :: y) :=
    isPrefixOf_local (by simpa using quote) u x y
  have three : ['"', '"', '"'].isPrefixOf (u ++ c :: x) = ['"', '"', '"'].isPrefixOf (u ++ c :: y) :=
    isPrefixOf_local (by simpa using quote) u x y
  have empty : (u ++ c :: x).isEmpty = (u ++ c :: y).isEmpty := by cases u <;> rfl
  cases frame <;> cases frame' <;> simp only [shape, reduceCtorEq, Frame.quoted.injEq, Frame.tripled.injEq,
    Frame.splice.injEq, Frame.blockComment.injEq, and_true] at alike
  case quoted.quoted =>
    subst alike
    simp only [Frame.advance, braces, empty, apply_ite stepShape]
    rfl
  case tripled.tripled =>
    subst alike
    simp only [Frame.advance, braces, two, three, apply_ite stepShape]
    rfl
  case splice.splice enclosing glued _ _ _ _ =>
    obtain ⟨rfl, rfl⟩ := alike
    cases enclosing with
    | zero =>
      simp only [Frame.advance, two, line, block, apply_ite stepShape]
      rfl
    | succ =>
      simp only [Frame.advance, two, line, block, apply_ite stepShape]
      rfl
  case lineComment.lineComment =>
    simp only [Frame.advance, apply_ite stepShape]
    rfl
  case blockComment.blockComment enclosing _ _ _ =>
    subst alike
    cases enclosing with
    | zero =>
      simp only [Frame.advance, line, block, apply_ite stepShape]
      rfl
    | succ =>
      simp only [Frame.advance, line, block, apply_ite stepShape]
      rfl

/-- What is left ends in the edge and what follows it. -/
theorem suffix_edge {tail : List Char} (whole : tail <:+ u ++ c :: x) (long : x.length < tail.length) :
    ∃ v, tail = v ++ c :: x ∧ v <:+ u := by
  obtain ⟨front, same⟩ := whole
  rcases List.append_eq_append_iff.mp same with ⟨middle, rfl, rest⟩ | ⟨middle, rfl, rest⟩
  · exact ⟨middle, rest, List.suffix_append _ _⟩
  · have length := congrArg List.length rest
    rw [List.length_cons, List.length_append] at length
    cases middle with
    | nil => exact ⟨[], rest.symm, List.nil_suffix⟩
    | cons e middle =>
      rw [List.length_cons] at length
      omega

theorem closeFrames_local (quote : c ≠ '"') {frames frames' : List Frame} {chars : List Char}
    (closed : closeFrames frames chars = .ok (v ++ c :: x)) (whole : chars = u ++ c :: x)
    (alike : frames.map shape = frames'.map shape) (y : List Char) :
    closeFrames frames' (u ++ c :: y) = .ok (v ++ c :: y) := by
  fun_induction closeFrames frames chars generalizing u frames' with
  | case1 rest =>
    rw [List.map_nil, eq_comm, List.map_eq_nil_iff] at alike
    subst alike
    rw [Except.ok.injEq] at closed
    rw [closed, List.append_cancel_right_eq] at whole
    rw [closeFrames, whole]
  | case2 => cases closed
  | case3 => cases closed
  | case4 =>
    rename_i frame outer d rest inner more advanced ih
    cases frames' with
    | nil => cases alike
    | cons frame' outer' =>
      rw [List.map_cons, List.map_cons, List.cons.injEq] at alike
      have bound := closeFrames_length_le closed
      rw [List.length_append, List.length_cons, List.length_drop] at bound
      cases u with
      | nil =>
        cases whole
        omega
      | cons e u =>
        rw [List.cons_append, List.cons.injEq] at whole
        obtain ⟨rfl, rfl⟩ := whole
        rw [List.length_append, List.length_cons] at bound
        have same := advance_local quote alike.1 d u x y
        rw [advanced] at same
        cases advanced' : frame'.advance d (u ++ c :: y) with
        | error fault =>
          rw [advanced'] at same
          cases same
        | ok found =>
          obtain ⟨inner', more'⟩ := found
          rw [advanced'] at same
          simp only [stepShape, Except.toOption, Option.map_some, Option.some.injEq, Prod.mk.injEq] at same
          obtain ⟨shapes, rfl⟩ := same
          have inside : more ≤ u.length := by omega
          have dropped : (u ++ c :: y).drop more = u.drop more ++ c :: y :=
            List.drop_append_of_le_length inside
          have frames : (inner ++ outer).map shape = (inner' ++ outer').map shape := by
            rw [List.map_append, List.map_append, shapes, alike.2]
          rw [List.cons_append, closeFrames, advanced']
          simp only [dropped]
          exact ih closed (List.drop_append_of_le_length inside) frames

theorem dropWhile_local {p : Char → Bool} (dropped : (u ++ c :: x).dropWhile p = v ++ c :: x) (y : List Char) :
    (u ++ c :: y).dropWhile p = v ++ c :: y := by
  rw [List.dropWhile_append] at dropped ⊢
  split at dropped
  · rename_i all
    rw [if_pos all]
    by_cases hit : p c
    · rw [List.dropWhile_cons_of_pos hit] at dropped
      have shorter := (List.dropWhile_suffix p (l := x)).length_le
      rw [dropped, List.length_append, List.length_cons] at shorter
      omega
    · rw [List.dropWhile_cons_of_neg hit] at dropped ⊢
      have empty : v = [] := by simpa using dropped
      rw [empty, List.nil_append]
  · rename_i some
    rw [if_neg some]
    rw [List.append_cancel_right_eq] at dropped
    rw [dropped]

theorem skipString_local (quote : c ≠ '"') {spliced : Bool}
    (read : skipString spliced (u ++ c :: x) = .ok (v ++ c :: x)) (y : List Char) :
    skipString spliced (u ++ c :: y) = .ok (v ++ c :: y) := by
  by_cases two : ∃ rest, u = '"' :: '"' :: rest
  · obtain ⟨rest, rfl⟩ := two
    simp only [List.cons_append, skipString] at read ⊢
    refine closeFrames_local (u := rest) quote read rfl ?_ y
    rfl
  · have other : ∀ z tail : List Char, u ++ c :: z ≠ '"' :: '"' :: tail := by
      intro z tail same
      rcases u with _ | ⟨d, _ | ⟨e, u⟩⟩
      · exact quote (List.cons.inj same).1
      · exact quote (List.cons.inj (List.cons.inj same).2).1
      · cases same
        exact two ⟨u, rfl⟩
    rw [skipString.eq_2 spliced _ (other x)] at read
    rw [skipString.eq_2 spliced _ (other y)]
    refine closeFrames_local quote read rfl ?_ y
    rfl

theorem identPart_of_start (edge : isIdentStart c = true) : isIdentPart c = true := by
  unfold isIdentStart at edge
  unfold isIdentPart isAlphanumeric
  cases letter : isAlphabetic c with
  | true => rfl
  | false =>
    rw [letter, Bool.false_or] at edge
    rw [Bool.or_assoc, edge, Bool.or_true]

/-- No operator goes on with a part of a word. -/
theorem not_operator_of_part (part : isIdentPart c = true) : isOperatorChar c = false := by
  by_contra symbol
  rw [Bool.not_eq_false] at symbol
  rw [isOperatorChar, Bool.or_eq_true] at symbol
  rcases symbol with listed | foreign
  · have outside : "!#%&*+-/:<=>?@\\^|~".toList.all (fun e => !isIdentPart e) = true := by decide
    have found := List.all_eq_true.mp outside c (List.contains_iff_mem.mp listed)
    rw [part] at found
    cases found
  · simp only [Bool.and_eq_true, Bool.not_eq_true'] at foreign
    rw [isIdentPart, foreign.1.2, Bool.false_or, Bool.or_eq_true, decide_eq_true_eq, decide_eq_true_eq] at part
    rcases part with rfl | rfl <;> exact absurd foreign.1.1 (by decide)

/-- A quote is followed by a character of the literal at least. -/
theorem skipQuote_length_lt {chars rest : List Char} (read : skipQuote chars = .ok rest) : rest.length < chars.length := by
  unfold skipQuote at read
  split at read
  · rename_i tail
    split at read
    · rename_i shape
      cases read
      have bound := length_dropWhile_le (fun c => c ≠ '\'' && c ≠ '\n') ('\\' :: tail)
      rw [shape, List.length_cons] at bound
      omega
    · cases read
  · cases read
    simp only [List.length_cons]
    omega
  · rename_i first tail _ _
    split at read
    · rename_i starts
      cases read
      rw [List.dropWhile_cons_of_pos (identPart_of_start starts)]
      exact Nat.lt_succ_of_le (length_dropWhile_le _ _)
    · cases read
  · cases read

theorem skipQuote_local (read : skipQuote (u ++ c :: x) = .ok (v ++ c :: x)) (y : List Char) :
    skipQuote (u ++ c :: y) = .ok (v ++ c :: y) := by
  have longer := skipQuote_length_lt read
  rw [List.length_append, List.length_append, Nat.add_lt_add_iff_right] at longer
  obtain _ | ⟨d, u⟩ := u
  · cases longer
  by_cases escaped : d = '\\'
  · subst escaped
    rw [List.cons_append, skipQuote.eq_1] at read ⊢
    split at read
    · rename_i tail dropped
      rw [Except.ok.injEq] at read
      subst read
      rw [← List.cons_append, @dropWhile_local c ('\\' :: u) ('\'' :: v) x _ dropped y]
      rfl
    · cases read
  by_cases closes : ∃ rest, u = '\'' :: rest
  · obtain ⟨rest, rfl⟩ := closes
    rw [List.cons_append, List.cons_append, skipQuote.eq_2 _ _ escaped] at read ⊢
    rw [Except.ok.injEq, List.append_cancel_right_eq] at read
    rw [read]
  have open' : ∀ z tail, u ++ c :: z = '\'' :: tail → False := by
    intro z tail same
    cases u with
    | nil =>
      -- The edge would close the literal.
      cases same
      rw [List.cons_append, List.nil_append, skipQuote.eq_2 _ _ escaped, Except.ok.injEq] at read
      exact absurd (congrArg List.length read) (by simp; omega)
    | cons e u =>
      cases same
      exact closes ⟨u, rfl⟩
  rw [List.cons_append, skipQuote.eq_3 _ _ escaped (open' _)] at read ⊢
  split at read
  · rename_i starts
    rw [Except.ok.injEq, ← List.cons_append] at read
    rw [if_pos starts, ← List.cons_append, dropWhile_local read y]
  · cases read

theorem skipNumber_local {y : List Char} (point : c = '.' → x.head?.any Char.isDigit = y.head?.any Char.isDigit)
    {previous : Char} (read : skipNumber previous (u ++ c :: x) = v ++ c :: x) :
    skipNumber previous (u ++ c :: y) = v ++ c :: y := by
  induction u generalizing previous with
  | nil =>
    have fraction : (decide (c = '.') && x.head?.any Char.isDigit) = (decide (c = '.') && y.head?.any Char.isDigit) := by
      by_cases dot : c = '.'
      · rw [point dot]
      · rw [decide_eq_false dot, Bool.false_and, Bool.false_and]
    simp only [List.nil_append, skipNumber, fraction] at read ⊢
    split at read
    · have bound := skipNumber_length_le c x
      rw [read, List.length_append, List.length_cons] at bound
      omega
    · rename_i stops
      have empty : v = [] := by simpa using read
      rw [if_neg stops, empty, List.nil_append]
  | cons d u ih =>
    have ahead : (u ++ c :: x).head? = (u ++ c :: y).head? := by cases u <;> rfl
    simp only [List.cons_append, skipNumber, ahead] at read ⊢
    split at read
    · rename_i goes
      rw [if_pos goes]
      exact ih read
    · rename_i stops
      rw [← List.cons_append, List.append_cancel_right_eq] at read
      rw [if_neg stops, ← read, List.cons_append]

theorem consumed_local (front v y : List Char) (c : Char) :
    consumed (front ++ v ++ c :: y) (v ++ c :: y) = front := by
  rw [List.append_assoc, consumed_append]

theorem takeWhile_eq_consumed (p : Char → Bool) (chars : List Char) :
    chars.takeWhile p = consumed chars (chars.dropWhile p) := by
  have whole := @List.takeWhile_append_dropWhile _ p chars
  calc chars.takeWhile p = consumed (chars.takeWhile p ++ chars.dropWhile p) (chars.dropWhile p) :=
        (consumed_append _ _).symm
    _ = consumed chars (chars.dropWhile p) := by rw [whole]

/-- Both ends of what a reader has consumed can be told from the front part. -/
theorem consumed_edge (suffix : v ++ c :: x <:+ u ++ c :: x) (y : List Char) :
    consumed (u ++ c :: x) (v ++ c :: x) = consumed (u ++ c :: y) (v ++ c :: y) := by
  obtain ⟨w, same, ⟨front, rfl⟩⟩ := suffix_edge suffix (by simp; omega)
  rw [List.append_cancel_right_eq] at same
  subst same
  rw [consumed_local, consumed_local]

theorem takeWhile_local {p : Char → Bool} (dropped : (u ++ c :: x).dropWhile p = v ++ c :: x) (y : List Char) :
    (u ++ c :: x).takeWhile p = (u ++ c :: y).takeWhile p := by
  rw [takeWhile_eq_consumed, takeWhile_eq_consumed, dropWhile_local dropped y, dropped]
  exact consumed_edge (dropped ▸ List.dropWhile_suffix p) y

theorem skipWord_local {first : Char}
    (read : skipWord first (u ++ c :: x) = v ++ c :: x) (y : List Char) :
    skipWord first (u ++ c :: y) = v ++ c :: y := by
  have long : x.length < ((u ++ c :: x).dropWhile isIdentPart).length := by
    have bound : (skipWord first (u ++ c :: x)).length ≤ ((u ++ c :: x).dropWhile isIdentPart).length := by
      unfold skipWord
      split
      · exact length_dropWhile_le _ _
      · exact Nat.le_refl _
    rw [read, List.length_append, List.length_cons] at bound
    omega
  obtain ⟨w, dropped, -⟩ := suffix_edge (List.dropWhile_suffix isIdentPart) long
  unfold skipWord at read ⊢
  rw [← takeWhile_local dropped y, dropWhile_local dropped y]
  rw [dropped] at read
  split at read
  · rename_i under
    rw [if_pos under]
    exact dropWhile_local read y
  · rename_i plain
    rw [if_neg plain]
    rw [List.append_cancel_right_eq] at read
    rw [read]

theorem map_eq_ok {outcome : Except ε α} {f : α → β} {result : β} (mapped : outcome.map f = .ok result) :
    ∃ value, outcome = .ok value ∧ f value = result := by
  cases outcome with
  | error error => cases mapped
  | ok value =>
    cases mapped
    exact ⟨value, rfl, rfl⟩

/-- A token is read alike, if a string in its place is. -/
theorem readToken_alike {y : List Char} {glued : Bool} {kind : TokenKind}
    (string : skipString glued (u ++ c :: x) = .ok (v ++ c :: x) → skipString glued (u ++ c :: y) = .ok (v ++ c :: y))
    (point : c = '.' → x.head?.any Char.isDigit = y.head?.any Char.isDigit)
    (read : readToken glued d (u ++ c :: x) = .ok (kind, v ++ c :: x)) :
    readToken glued d (u ++ c :: y) = .ok (kind, v ++ c :: y) := by
  have ahead : (u ++ c :: x).head? = (u ++ c :: y).head? := by cases u <;> rfl
  have punctuation : punctuation? d (u ++ c :: x) = punctuation? d (u ++ c :: y) := by
    unfold punctuation?
    rw [ahead]
  unfold readToken at read ⊢
  rw [punctuation] at read
  cases found : punctuation? d (u ++ c :: y) with
  | some kind =>
    simp only [found, Except.ok.injEq, Prod.mk.injEq, List.append_cancel_right_eq] at read ⊢
    exact read
  | none =>
    simp only [found] at read ⊢
    split at read
    · rename_i quote
      rw [if_pos quote]
      obtain ⟨rest, skipped, same⟩ := map_eq_ok read
      cases same
      rw [string skipped]
      rfl
    rename_i quote
    rw [if_neg quote]
    split at read
    · rename_i tick
      rw [if_pos tick]
      obtain ⟨rest, skipped, same⟩ := map_eq_ok read
      cases same
      rw [skipQuote_local skipped y]
      rfl
    rename_i tick
    rw [if_neg tick]
    split at read
    · rename_i back
      rw [if_pos back]
      split at read
      · rename_i tail dropped
        simp only [Except.ok.injEq, Prod.mk.injEq] at read
        obtain ⟨rfl, rfl⟩ := read
        rw [@dropWhile_local c u ('\x60' :: v) x _ dropped y]
        rfl
      · cases read
    rename_i back
    rw [if_neg back]
    split at read
    · rename_i number
      rw [if_pos number]
      simp only [Except.ok.injEq, Prod.mk.injEq] at read ⊢
      exact ⟨read.1, skipNumber_local point read.2⟩
    rename_i number
    rw [if_neg number]
    split at read
    · rename_i word
      rw [if_pos word]
      simp only [Except.ok.injEq, Prod.mk.injEq] at read ⊢
      obtain ⟨rfl, skipped⟩ := read
      have suffix : v ++ c :: x <:+ u ++ c :: x := skipped ▸ skipWord_suffix d _
      rw [skipWord_local skipped y, skipped, consumed_edge suffix y]
      exact ⟨rfl, rfl⟩
    rename_i word
    rw [if_neg word]
    split at read
    · rename_i symbol
      rw [if_pos symbol]
      simp only [Except.ok.injEq, Prod.mk.injEq] at read ⊢
      exact ⟨takeWhile_local read.2 y ▸ read.1, dropWhile_local read.2 y⟩
    · cases read

/-- Reading a token can be repeated with other text behind the edge. -/
theorem readToken_local {y : List Char} (quote : c ≠ '"')
    (point : c = '.' → x.head?.any Char.isDigit = y.head?.any Char.isDigit) {glued : Bool} {kind : TokenKind}
    (read : readToken glued d (u ++ c :: x) = .ok (kind, v ++ c :: x)) :
    readToken glued d (u ++ c :: y) = .ok (kind, v ++ c :: y) :=
  readToken_alike (fun skipped => skipString_local quote skipped y) point read

end KindLift.TokenLocality
