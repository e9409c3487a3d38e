import KindLift.Proofs.CursorAdvance
import KindLift.Proofs.TokenPlacement

/-! A parser that is given tokens in order leaves tokens in order, and every span
it makes of them lies between the last token read before it and the last token it
has read itself. -/
namespace KindLift.CursorPlacement
open KindLift.Parser Text TextBoundary TokenPlacement ParserLogic CursorAdvance

/-- The tokens still to be read stand in order behind the last one read. -/
structure Sound (source : List Char) (cursor : Cursor) : Prop where
  cut : Cut source cursor.lastStop
  ordered : InOrder source cursor.lastStop cursor.rest

/-- The cursor is moved forward. -/
structure Moves (source : List Char) (cursor next : Cursor) : Prop where
  sound : Sound source next
  forward : cursor.lastStop ≤ next.lastStop

/-- The span addresses characters of the source between two offsets. -/
structure Within (source : List Char) (low high : Nat) (span : Span) : Prop where
  first : Cut source span.start
  last : Cut source span.stop
  low_le : low ≤ span.start
  ordered : span.start ≤ span.stop
  le_high : span.stop ≤ high

/-- The token is the first of those still to be read, and the last one read after. -/
structure Took (source : List Char) (cursor : Cursor) (token : Token) (next : Cursor) : Prop where
  stands : Stands source token
  low_le : cursor.lastStop ≤ token.start
  stop : next.lastStop = token.stop
  sound : Sound source next

/-- The parser moves the cursor forward, wherever it is. -/
def Forward (source : List Char) (parser : Parser α) : Prop :=
  ∀ cursor, Sound source cursor → Ensures source cursor parser fun _ next => Moves source cursor next

variable {source : List Char} {cursor middle next : Cursor} {token : Token} {span other : Span}

theorem Moves.refl (sound : Sound source cursor) : Moves source cursor cursor :=
  ⟨sound, Nat.le_refl _⟩

theorem Moves.trans (first : Moves source cursor middle) (second : Moves source middle next) :
    Moves source cursor next :=
  ⟨second.sound, Nat.le_trans first.forward second.forward⟩

theorem Took.lt (took : Took source cursor token next) : token.start < next.lastStop := by
  rw [took.stop]
  exact start_lt_stop took.stands

theorem Took.moves (took : Took source cursor token next) : Moves source cursor next :=
  ⟨took.sound, Nat.le_trans took.low_le (Nat.le_of_lt took.lt)⟩

theorem Took.within (took : Took source cursor token next) :
    Within source cursor.lastStop next.lastStop token.span :=
  ⟨start_cut took.stands, stop_cut took.stands, took.low_le,
    Nat.le_of_lt (start_lt_stop took.stands), Nat.le_of_eq took.stop.symm⟩

theorem Within.widen (within : Within source low high span) (below : low' ≤ low)
    (above : high ≤ high') : Within source low' high' span :=
  ⟨within.first, within.last, Nat.le_trans below within.low_le, within.ordered,
    Nat.le_trans within.le_high above⟩

theorem Within.after (within : Within source middle.lastStop high span)
    (moved : Moves source cursor middle) : Within source cursor.lastStop high span :=
  within.widen moved.forward (Nat.le_refl _)

theorem Within.before (within : Within source low middle.lastStop span)
    (moved : Moves source middle next) : Within source low next.lastStop span :=
  within.widen (Nat.le_refl _) moved.forward

theorem cut_min (first : Cut source a) (second : Cut source b) : Cut source (min a b) := by
  rcases Nat.le_total a b with order | order
  · rwa [Nat.min_eq_left order]
  · rwa [Nat.min_eq_right order]

theorem cut_max (first : Cut source a) (second : Cut source b) : Cut source (max a b) := by
  rcases Nat.le_total a b with order | order
  · rwa [Nat.max_eq_right order]
  · rwa [Nat.max_eq_left order]

theorem Within.cover (left : Within source low high span) (right : Within source low high other) :
    Within source low high (span.cover other) := by
  refine ⟨cut_min left.first right.first, cut_max left.last right.last, ?_, ?_, ?_⟩
  · exact Nat.le_min.mpr ⟨left.low_le, right.low_le⟩
  · exact Nat.le_trans (Nat.min_le_left _ _) (Nat.le_trans left.ordered (Nat.le_max_left _ _))
  · exact Nat.max_le.mpr ⟨left.le_high, right.le_high⟩

/-- A token in the middle of tokens in order stands behind those before it and in
front of those after it. -/
theorem inOrder_middle {front rest : List Token}
    (ordered : InOrder source low (front ++ token :: rest)) :
    low ≤ token.start ∧ Stands source token ∧ InOrder source token.stop rest := by
  induction front generalizing low with
  | nil => exact ordered
  | cons first others ih =>
    obtain ⟨order, stands, later⟩ := ordered
    obtain ⟨above, found⟩ := ih later
    have width := start_lt_stop stands
    exact ⟨by omega, found⟩

/-- Reading up to a token and the token itself. -/
theorem took_middle {front rest : List Token} (sound : Sound source cursor)
    (shape : cursor.rest = front ++ token :: rest) :
    Took source cursor token ⟨rest, token.stop⟩ := by
  have ordered := sound.ordered
  rw [shape] at ordered
  obtain ⟨above, stands, later⟩ := inOrder_middle ordered
  exact ⟨stands, above, rfl, stop_cut stands, later⟩

/-- The first token to be read ends no later than any other. -/
theorem first_stop_le {first : Token} {front later rest : List Token} (sound : Sound source cursor)
    (shape : cursor.rest = first :: later) (split : cursor.rest = front ++ token :: rest) :
    first.stop ≤ token.stop := by
  rw [shape] at split
  cases front with
  | nil =>
    cases split
    exact Nat.le_refl _
  | cons head others =>
    obtain ⟨rfl, tail⟩ := List.cons.inj split
    have ordered := sound.ordered
    rw [shape] at ordered
    have later := ordered.2.2
    rw [tail] at later
    obtain ⟨above, stands, -⟩ := inOrder_middle later
    exact Nat.le_trans above (Nat.le_of_lt (start_lt_stop stands))

/-- What is left of tokens in order behind one of them is in order again. -/
theorem forward_of {parser : Parser α} (advances : Advances parser) : Forward source parser := by
  intro cursor sound
  refine ensures_mono (advances.ensures source cursor) ?_
  rintro _ ⟨rest, stop⟩ (rfl | ⟨front, token, shape, rfl⟩)
  · exact .refl sound
  · exact (took_middle sound shape).moves

theorem bump_spec (sound : Sound source cursor) :
    Ensures source cursor bump fun taken next => taken = cursor.rest.head? ∧
      Moves source cursor next ∧ ∀ token ∈ taken, Took source cursor token next := by
  simp only [bump, ensures_bind, ensures_get]
  cases shape : cursor.rest with
  | nil =>
    rw [ensures_pure]
    exact ⟨rfl, .refl sound, by simp⟩
  | cons token rest =>
    simp only [ensures_bind, ensures_set, ensures_pure]
    have took := took_middle sound (show cursor.rest = [] ++ token :: rest from shape)
    refine ⟨rfl, took.moves, ?_⟩
    intro found same
    cases same
    exact took

theorem eat?_spec (kind : TokenKind) (sound : Sound source cursor) :
    Ensures source cursor (eat? kind) fun taken next =>
      Moves source cursor next ∧ ∀ token ∈ taken, Took source cursor token next ∧ token.kind = kind := by
  simp only [eat?, ensures_bind, ensures_isAt, decide_eq_true_eq]
  split
  · rename_i here
    refine ensures_mono (bump_spec sound) ?_
    rintro taken next ⟨rfl, moved, took⟩
    refine ⟨moved, ?_⟩
    intro token same
    rw [same, Option.map_some, Option.some.injEq] at here
    exact ⟨took token same, here⟩
  · rw [ensures_pure]
    exact ⟨.refl sound, by simp⟩

theorem expect_spec (kind : TokenKind) (what : String) (sound : Sound source cursor) :
    Ensures source cursor (expect kind what) fun token next =>
      Took source cursor token next ∧ token.kind = kind := by
  refine ensures_then (eat?_spec kind sound) ?_
  rintro taken next ⟨moved, took⟩
  cases taken with
  | none => exact ensures_fail
  | some token =>
    rw [ensures_pure]
    exact took token rfl

theorem name?_spec (sound : Sound source cursor) :
    Ensures source cursor name? fun taken next =>
      Moves source cursor next ∧ ∀ token ∈ taken, Took source cursor token next := by
  simp only [name?, ensures_bind, ensures_peek?]
  split
  · split
    · refine ensures_mono (bump_spec sound) ?_
      rintro taken next ⟨-, moved, took⟩
      exact ⟨moved, took⟩
    · rw [ensures_pure]
      exact ⟨.refl sound, by simp⟩
  · rw [ensures_pure]
    exact ⟨.refl sound, by simp⟩

theorem expectName_spec (what : String) (sound : Sound source cursor) :
    Ensures source cursor (expectName what) fun token next => Took source cursor token next := by
  refine ensures_then (name?_spec sound) ?_
  rintro taken next ⟨moved, took⟩
  cases taken with
  | none => exact ensures_fail
  | some token =>
    rw [ensures_pure]
    exact took token rfl

theorem skipGroup_spec (sound : Sound source cursor) :
    Ensures source cursor skipGroup fun span next =>
      Moves source cursor next ∧ Within source cursor.lastStop next.lastStop span := by
  simp only [skipGroup, ensures_bind, ensures_get]
  split
  · exact ensures_fail
  · rename_i opening later shape
    split
    · exact ensures_throw
    · rename_i closing rest split
      simp only [ensures_bind, ensures_set, ensures_pure]
      obtain ⟨front, whole⟩ := splitGroup?_shape split
      have closed := took_middle sound whole
      have opened := took_middle sound (show cursor.rest = [] ++ opening :: later from shape)
      have enclosed := opened.within.widen (Nat.le_refl _) (first_stop_le sound shape whole)
      exact ⟨closed.moves, enclosed.cover closed.within⟩

/-- The span of what is read over lies between the cursors. -/
theorem scanUntil_spec (stops : TokenKind → Bool) (sound : Sound source cursor) :
    Ensures source cursor (scanUntil stops) fun seen next => Moves source cursor next ∧
      ∀ span ∈ seen, Within source cursor.lastStop next.lastStop span := by
  refine ensures_iterate (fun seen current => Moves source cursor current ∧
    ∀ span ∈ seen, Within source cursor.lastStop current.lastStop span)
    ⟨.refl sound, by simp⟩ ?_
  rintro seen current ⟨moved, within⟩
  simp only [scanStep, ensures_bind, ensures_peek?]
  split
  · rw [ensures_pure]
    exact ⟨moved, within⟩
  rename_i token shape
  split
  · rw [ensures_pure]
    exact ⟨moved, within⟩
  have extend : ∀ span next, Moves source current next →
      Within source current.lastStop next.lastStop span → Moves source cursor next ∧
      ∀ found ∈ seen.elim (some span) fun before => some (before.cover span),
        Within source cursor.lastStop next.lastStop found := by
    intro span next later inside
    refine ⟨moved.trans later, ?_⟩
    cases seen with
    | none =>
      rintro found same
      cases same
      exact inside.after moved
    | some before =>
      rintro found same
      cases same
      exact ((within before rfl).before later).cover (inside.after moved)
  split
  · refine ensures_then (skipGroup_spec moved.sound) ?_
    rintro span next ⟨later, inside⟩
    rw [ensures_pure]
    cases seen <;> exact extend span next later inside
  · rw [ensures_pure]
    exact ⟨moved, within⟩
  · refine ensures_then (bump_spec moved.sound) ?_
    rintro taken next ⟨same, later, took⟩
    rw [ensures_pure]
    have inside := (took token (same.trans shape)).within
    cases seen <;> exact extend token.span next later inside

/-- The next token begins at a boundary of the source. -/
theorem here_spec (sound : Sound source cursor) :
    Ensures source cursor here fun offset next => next = cursor ∧ Cut source offset := by
  simp only [here, ensures_bind, ensures_peek?]
  split
  · rename_i token shape
    rw [ensures_pure]
    cases rest : cursor.rest with
    | nil => simp [rest] at shape
    | cons first later =>
      rw [rest, List.head?_cons, Option.some.injEq] at shape
      subst shape
      have took := took_middle sound (show cursor.rest = [] ++ first :: later from rest)
      exact ⟨rfl, start_cut took.stands⟩
  · rw [ensures_bind, ensures_read, ensures_pure]
    exact ⟨rfl, source, [], (List.append_nil source).symm, rfl⟩

/-- The opening brace of a body is the next token. -/
theorem openBody_spec (sound : Sound source cursor) :
    Ensures source cursor openBody fun openBrace next => Moves source cursor next ∧
      cursor.lastStop ≤ openBrace ∧ Cut source (openBrace + 1) ∧ openBrace + 1 ≤ next.lastStop := by
  refine ensures_then (expect_spec _ _ sound) ?_
  rintro brace middle ⟨took, kind⟩
  refine ensures_then (forward_of skipSelfType_advances _ took.sound) ?_
  intro _ next moved
  rw [ensures_pure]
  have width := opener_stop took.stands kind
  refine ⟨took.moves.trans moved, took.low_le, ?_, ?_⟩
  · rw [← width]
    exact stop_cut took.stands
  · rw [← width, ← took.stop]
    exact moved.forward

/-- The closing brace of a body is the last token read. -/
theorem closeBody?_spec (openBrace : Nat) (sound : Sound source cursor) :
    Ensures source cursor (closeBody? openBrace) fun closed next => Moves source cursor next ∧
      ∀ body ∈ closed, body.openBrace = openBrace ∧ Cut source body.closeBrace ∧
        cursor.lastStop ≤ body.closeBrace ∧ body.closeBrace + 1 = next.lastStop := by
  refine ensures_then (forward_of (eatAll_advances .semi) _ sound) ?_
  intro _ middle moved
  simp only [ensures_bind, ensures_peek?]
  split
  · exact ensures_throw
  rename_i token shape
  split
  · rename_i kind
    refine ensures_then (bump_spec moved.sound) ?_
    rintro taken next ⟨same, later, took⟩
    rw [ensures_pure]
    have took := took token (same.trans shape)
    refine ⟨moved.trans later, ?_⟩
    intro body found
    cases found
    refine ⟨rfl, start_cut took.stands, Nat.le_trans moved.forward took.low_le, ?_⟩
    rw [took.stop, closer_stop took.stands kind]
  · rw [ensures_pure]
    exact ⟨moved, by simp⟩

theorem path_spec (what : String) (sound : Sound source cursor) :
    Ensures source cursor (path what) fun found next => Moves source cursor next ∧
      Within source cursor.lastStop next.lastStop found.2 := by
  refine ensures_then (expectName_spec what sound) ?_
  intro first middle took
  refine ensures_iterate (fun state current => Moves source cursor current ∧
    Within source cursor.lastStop current.lastStop state.2) ⟨took.moves, took.within⟩ ?_
  rintro ⟨name, span⟩ current ⟨moved, within⟩
  simp only [pathStep, ensures_bind, ensures_isAt, ensures_secondKind?]
  split
  · refine ensures_then (forward_of bump_advances _ moved.sound) ?_
    intro _ afterDot dotted
    refine ensures_then (expectName_spec what dotted.sound) ?_
    intro segment next named
    rw [ensures_pure]
    have forward := dotted.trans named.moves
    exact ⟨moved.trans forward,
      (within.before forward).cover (named.within.after (moved.trans dotted))⟩
  · rw [ensures_pure]
    exact ⟨moved, within⟩

end KindLift.CursorPlacement
