import KindLift.Proofs.TokenPlacement

/-! White space and comments between tokens. What is skipped in front of a token
does not depend on the token, nor on how the lines it is spread over are moved in. -/
namespace KindLift.TriviaGaps
open Token Text TokenPlacement

variable {c d : Char} {chars rest next next' gap gap' front tail : List Char} {trivia trivia' : Trivia}

/-- Nothing but white space. -/
def IsSpace (chars : List Char) : Prop := ∀ c ∈ chars, isWhiteSpace c = true

/-- The same text, but for white space at the beginning of lines. -/
inductive Respaced : List Char → List Char → Prop where
  | nil : Respaced [] []
  | keep (c : Char) {chars others : List Char} (rest : Respaced chars others) : Respaced (c :: chars) (c :: others)
  | line {lead lead' chars others : List Char} (space : IsSpace lead) (space' : IsSpace lead')
      (rest : Respaced chars others) : Respaced ('\n' :: (lead ++ chars)) ('\n' :: (lead' ++ others))

theorem Respaced.refl (chars : List Char) : Respaced chars chars := by
  induction chars with
  | nil => exact .nil
  | cons c chars ih => exact .keep c ih

theorem Respaced.append {chars others chars' others' : List Char} (first : Respaced chars others)
    (second : Respaced chars' others') : Respaced (chars ++ chars') (others ++ others') := by
  induction first with
  | nil => exact second
  | keep c rest ih => exact .keep c ih
  | line space space' rest ih =>
    rw [List.cons_append, List.cons_append, List.append_assoc, List.append_assoc]
    exact .line space space' ih

/-- Both texts begin with the same character; white space may have changed behind a
line feed. -/
theorem Respaced.cons (respaced : Respaced (c :: chars) rest) :
    ∃ lead lead' others others', chars = lead ++ others ∧ rest = c :: (lead' ++ others') ∧ IsSpace lead ∧ IsSpace lead' ∧
      Respaced others others' ∧ (c ≠ '\n' → lead = [] ∧ lead' = []) := by
  cases respaced with
  | keep _ later => exact ⟨[], [], _, _, rfl, rfl, by simp [IsSpace], by simp [IsSpace], later, fun _ => ⟨rfl, rfl⟩⟩
  | line space space' later => exact ⟨_, _, _, _, rfl, rfl, space, space', later, fun other => absurd rfl other⟩

/-- A character that ends no line is followed by the same characters. -/
theorem Respaced.cons_inline (respaced : Respaced (c :: chars) rest) (inline : c ≠ '\n') :
    ∃ others, rest = c :: others ∧ Respaced chars others := by
  obtain ⟨_, _, others, others', rfl, rfl, -, -, later, same⟩ := respaced.cons
  obtain ⟨rfl, rfl⟩ := same inline
  exact ⟨others', rfl, later⟩

/-- Trivia without where a comment began. -/
def triviaShape : Trivia → Trivia
  | .blockComment enclosing _ => .blockComment enclosing []
  | other => other

theorem skipTrivia_space (blank : isWhiteSpace d = true) (rest : List Char) :
    skipTrivia .blank (d :: rest) = skipTrivia .blank rest := by
  rw [skipTrivia.eq_def]
  simp [blank]

theorem isPrefixOf_false (differs : ∀ tail, rest ≠ d :: tail) : [d].isPrefixOf rest = false := by
  cases rest with
  | nil => rfl
  | cons e rest =>
    have other : d ≠ e := fun same => differs rest (congrArg (· :: rest) same.symm)
    rw [List.isPrefixOf, beq_eq_false_iff_ne.mpr other, Bool.false_and]

/-- Skipping ends at a character that begins neither white space nor a comment. -/
theorem skipTrivia_done (solid : ¬ isWhiteSpace d = true) (line : d = '/' → ['/'].isPrefixOf rest = false)
    (block : d = '/' → ['*'].isPrefixOf rest = false) : skipTrivia .blank (d :: rest) = .ok (d :: rest) := by
  rw [skipTrivia.eq_def]
  dsimp only
  rw [if_neg solid]
  split
  · cases line rfl
  · cases block rfl
  · rfl

theorem skipTrivia_solid (skipped : skipTrivia trivia chars = .ok (c :: tail)) : ¬ isWhiteSpace c = true := by
  fun_induction Token.skipTrivia trivia chars with
  | case6 =>
    cases skipped
    assumption
  | _ => simp_all

/-- A gap begins with white space or with a comment. -/
theorem gap_first (skipped : skipTrivia .blank (c :: gap ++ next) = .ok next) : isWhiteSpace c = true ∨ c = '/' := by
  by_contra neither
  rw [not_or] at neither
  rw [List.cons_append, skipTrivia_done neither.1 (fun same => absurd same neither.2) (fun same => absurd same neither.2),
    Except.ok.injEq, ← List.cons_append, List.append_left_eq_self] at skipped
  cases skipped

/-- White space is skipped between tokens. -/
theorem skipTrivia_blanks {lead : List Char} (space : IsSpace lead) (rest : List Char) :
    skipTrivia .blank (lead ++ rest) = skipTrivia .blank rest := by
  induction lead with
  | nil => rfl
  | cons d lead ih =>
    obtain ⟨first, others⟩ := List.forall_mem_cons.mp space
    rw [List.cons_append, skipTrivia_space first, ih others]

/-- A character inside of a block comment that is no part of a mark. -/
theorem skipTrivia_inside {enclosing : Nat} {opened : List Char} (opens : ∀ tail, d = '/' → rest ≠ '*' :: tail)
    (closes : ∀ tail, d = '*' → rest ≠ '/' :: tail) :
    skipTrivia (.blockComment enclosing opened) (d :: rest) = skipTrivia (.blockComment enclosing opened) rest := by
  rw [skipTrivia]
  · rintro tail rfl same
    exact opens tail rfl same
  · rintro tail rfl same
    exact closes tail rfl same

/-- White space is skipped inside of a block comment. -/
theorem skipTrivia_comment {lead : List Char} {enclosing : Nat} {opened : List Char} (space : IsSpace lead)
    (rest : List Char) : skipTrivia (.blockComment enclosing opened) (lead ++ rest) =
      skipTrivia (.blockComment enclosing opened) rest := by
  induction lead with
  | nil => rfl
  | cons d lead ih =>
    obtain ⟨first, others⟩ := List.forall_mem_cons.mp space
    have mark : d ≠ '/' ∧ d ≠ '*' := by constructor <;> rintro rfl <;> exact absurd first (by decide)
    rw [List.cons_append, skipTrivia_inside (fun _ same => absurd same mark.1) (fun _ same => absurd same mark.2),
      ih others]

/-- What is read first is part of the gap when the end of the gap is what is left. -/
theorem skipped_front (skipped : skipTrivia trivia rest = .ok next) (whole : front ++ rest = gap ++ next) :
    ∃ later, gap = front ++ later ∧ rest = later ++ next := by
  obtain ⟨later, rfl⟩ := skipTrivia_suffix skipped
  rw [← List.append_assoc, List.append_cancel_right_eq] at whole
  exact ⟨later, whole.symm, rfl⟩

/-- The marks that comments begin and end with are no line feeds. -/
theorem Respaced.mark (respaced : Respaced (c :: d :: chars) rest) (first : c ≠ '\n') (second : d ≠ '\n') :
    ∃ others, rest = c :: d :: others ∧ Respaced chars others := by
  obtain ⟨_, rfl, behind⟩ := respaced.cons_inline first
  obtain ⟨others, rfl, kept⟩ := behind.cons_inline second
  exact ⟨others, rfl, kept⟩

/-- A block comment is not over before anything of it was read. -/
theorem comment_length_lt {enclosing : Nat} {opened : List Char}
    (skipped : skipTrivia (.blockComment enclosing opened) chars = .ok next) : next.length < chars.length := by
  cases chars with
  | nil => cases skipped
  | cons c rest =>
    refine Nat.lt_succ_of_le ?_
    unfold skipTrivia at skipped
    split at skipped
    · exact Nat.le_succ_of_le (skipTrivia_length_le skipped)
    · split at skipped <;> exact Nat.le_succ_of_le (skipTrivia_length_le skipped)
    · exact skipTrivia_length_le skipped

/-! ### Gaps whose lines are moved in -/

theorem shape_blank (alike : triviaShape .blank = triviaShape trivia') : trivia' = .blank := by
  cases trivia' <;> simp_all [triviaShape]

theorem shape_line (alike : triviaShape .lineComment = triviaShape trivia') : trivia' = .lineComment := by
  cases trivia' <;> simp_all [triviaShape]

theorem shape_block {enclosing : Nat} {opened : List Char} (alike : triviaShape (.blockComment enclosing opened) = triviaShape trivia') :
    ∃ opened', trivia' = .blockComment enclosing opened' := by
  cases trivia' <;> simp_all [triviaShape]

/-- However the lines of the gap are moved in, it is skipped in front of the rest. -/
def Skips (trivia : Trivia) (gap next' : List Char) : Prop :=
  ∀ gap' trivia', Respaced gap gap' → triviaShape trivia = triviaShape trivia' → skipTrivia trivia' (gap' ++ next') = .ok next'

theorem Skips.space (blank : isWhiteSpace d = true) (skips : Skips .blank gap next') : Skips .blank (d :: gap) next' := by
  intro gap' trivia' respaced alike
  obtain rfl := shape_blank alike
  obtain ⟨lead, lead', others, others', rfl, rfl, space, space', kept, -⟩ := respaced.cons
  rw [List.cons_append, List.append_assoc, skipTrivia_space blank, skipTrivia_blanks space', ← skipTrivia_blanks space, ← List.append_assoc]
  exact skips _ _ ((Respaced.refl lead).append kept) rfl

/-- A mark that a comment begins or ends with. -/
theorem Skips.mark {later : Trivia} (first : c ≠ '\n') (second : d ≠ '\n') (skips : Skips later gap next')
    (goes : ∀ trivia', triviaShape trivia = triviaShape trivia' → ∀ rest, ∃ later', triviaShape later = triviaShape later' ∧
      skipTrivia trivia' (c :: d :: rest) = skipTrivia later' rest) : Skips trivia (c :: d :: gap) next' := by
  intro gap' trivia' respaced alike
  obtain ⟨others, rfl, kept⟩ := respaced.mark first second
  obtain ⟨later', same, step⟩ := goes trivia' alike (others ++ next')
  exact step.trans (skips others later' kept same)

theorem Skips.lineFeed (skips : Skips .blank gap next') : Skips .lineComment ('\n' :: gap) next' := by
  intro gap' trivia' respaced alike
  obtain rfl := shape_line alike
  obtain ⟨lead, lead', others, others', rfl, rfl, space, space', kept, -⟩ := respaced.cons
  rw [List.cons_append, skipTrivia, if_pos rfl, List.append_assoc, skipTrivia_blanks space', ← skipTrivia_blanks space, ← List.append_assoc]
  exact skips _ _ ((Respaced.refl lead).append kept) rfl

theorem Skips.line (other : d ≠ '\n') (skips : Skips .lineComment gap next') : Skips .lineComment (d :: gap) next' := by
  intro gap' trivia' respaced alike
  obtain rfl := shape_line alike
  obtain ⟨others, rfl, kept⟩ := respaced.cons_inline other
  rw [List.cons_append, skipTrivia, if_neg other]
  exact skips _ _ kept rfl

/-- A character of a block comment that begins no mark, neither here nor moved in. -/
theorem Skips.inside {enclosing : Nat} {opened : List Char} (skips : Skips (.blockComment enclosing opened) gap next')
    (open' : ∀ tail, d = '/' → gap ++ next = '*' :: tail → False) (close : ∀ tail, d = '*' → gap ++ next = '/' :: tail → False)
    (filled : gap ≠ []) : Skips (.blockComment enclosing opened) (d :: gap) next' := by
  intro gap' trivia' respaced alike
  obtain ⟨opened', rfl⟩ := shape_block alike
  obtain ⟨lead, lead', others, others', rfl, rfl, space, space', kept, inline⟩ := respaced.cons
  have first : d ≠ '\n' → ∀ e tail, lead' ++ others' ++ next' = e :: tail → ∃ tail', lead ++ others ++ next = e :: tail' := by
    intro other e tail same
    obtain ⟨rfl, rfl⟩ := inline other
    cases kept with
    | nil => exact absurd rfl filled
    | keep c =>
      cases same
      exact ⟨_, rfl⟩
    | line =>
      cases same
      exact ⟨_, rfl⟩
  rw [List.cons_append, skipTrivia_inside, List.append_assoc, skipTrivia_comment space', ← skipTrivia_comment space, ← List.append_assoc]
  · exact skips _ _ ((Respaced.refl lead).append kept) rfl
  · rintro tail' rfl same
    obtain ⟨_, starts⟩ := first (by decide) _ _ same
    exact open' _ rfl starts
  · rintro tail' rfl same
    obtain ⟨_, starts⟩ := first (by decide) _ _ same
    exact close _ rfl starts

/-- The gap in front of a token is skipped whatever the token is, and however the lines
of the gap are moved in. The same goes for the gap at the end of the text. -/
theorem skipTrivia_skips (skipped : skipTrivia trivia chars = .ok next) (whole : chars = gap ++ next)
    (ends : next = [] ∧ next' = [] ∨ next ≠ [] ∧ skipTrivia .blank next' = .ok next') : Skips trivia gap next' := by
  fun_induction skipTrivia trivia chars generalizing gap with
  | case1 => cases skipped
  | case2 trivia other =>
    obtain ⟨rfl, rfl⟩ := List.append_eq_nil_iff.mp whole.symm
    obtain ⟨-, rfl⟩ := ends.resolve_right fun both => both.1 rfl
    rintro _ (_ | _ | _) ⟨⟩ alike
    · rfl
    · rfl
    · cases trivia <;> simp only [triviaShape, reduceCtorEq] at alike
      exact (other _ _ rfl).elim
  | case3 d rest blank ih =>
    obtain ⟨later, rfl, behind⟩ := @skipped_front _ _ gap [d] _ skipped whole
    exact (ih skipped behind).space blank
  | case4 tail _ ih =>
    obtain ⟨later, rfl, behind⟩ := @skipped_front _ _ gap ['/', '/'] _ skipped whole
    refine (ih skipped behind).mark (by decide) (by decide) fun _ alike _ => ?_
    obtain rfl := shape_blank alike
    exact ⟨.lineComment, rfl, rfl⟩
  | case5 tail _ ih =>
    obtain ⟨later, rfl, behind⟩ := @skipped_front _ _ gap ['/', '*'] _ skipped whole
    refine (ih skipped behind).mark (by decide) (by decide) fun _ alike rest => ?_
    obtain rfl := shape_blank alike
    exact ⟨.blockComment 0 ('/' :: '*' :: rest), rfl, rfl⟩
  | case6 d rest solid noLine noBlock =>
    rw [Except.ok.injEq] at skipped
    subst skipped
    cases List.self_eq_append_left.mp whole
    rintro _ trivia' ⟨⟩ alike
    obtain rfl := shape_blank alike
    exact (ends.resolve_left fun both => List.cons_ne_nil _ _ both.1).2
  | case7 rest ih =>
    obtain ⟨later, rfl, behind⟩ := @skipped_front _ _ gap ['\n'] _ skipped whole
    exact (ih skipped behind).lineFeed
  | case8 d rest other ih =>
    obtain ⟨later, rfl, behind⟩ := @skipped_front _ _ gap [d] _ skipped whole
    exact (ih skipped behind).line other
  | case9 enclosing opened tail ih =>
    obtain ⟨later, rfl, behind⟩ := @skipped_front _ _ gap ['/', '*'] _ skipped whole
    refine (ih skipped behind).mark (by decide) (by decide) fun _ alike _ => ?_
    obtain ⟨opened', rfl⟩ := shape_block alike
    exact ⟨.blockComment _ opened', rfl, rfl⟩
  | case10 opened tail ih =>
    obtain ⟨later, rfl, behind⟩ := @skipped_front _ _ gap ['*', '/'] _ skipped whole
    refine (ih skipped behind).mark (by decide) (by decide) fun _ alike _ => ?_
    obtain ⟨opened', rfl⟩ := shape_block alike
    exact ⟨.blank, rfl, rfl⟩
  | case11 opened tail outer ih =>
    obtain ⟨later, rfl, behind⟩ := @skipped_front _ _ gap ['*', '/'] _ skipped whole
    refine (ih skipped behind).mark (by decide) (by decide) fun _ alike _ => ?_
    obtain ⟨opened', rfl⟩ := shape_block alike
    exact ⟨.blockComment _ opened', rfl, rfl⟩
  | case12 enclosing opened d tail opens closes ih =>
    obtain ⟨later, rfl, behind⟩ := @skipped_front _ _ gap [d] _ skipped whole
    refine (ih skipped behind).inside (fun _ same starts => opens _ same (behind.trans starts)) (fun _ same starts => closes _ same (behind.trans starts)) ?_
    rintro rfl
    rw [behind] at skipped
    exact absurd (comment_length_lt skipped) (Nat.lt_irrefl _)

/-- So is it with the lines moved in. -/
theorem skipTrivia_respaced (skipped : skipTrivia trivia chars = .ok next) (whole : chars = gap ++ next)
    (respaced : Respaced gap gap') (alike : triviaShape trivia = triviaShape trivia')
    (ends : next = [] ∧ next' = [] ∨ next ≠ [] ∧ skipTrivia .blank next' = .ok next') :
    skipTrivia trivia' (gap' ++ next') = .ok next' :=
  skipTrivia_skips skipped whole ends gap' trivia' respaced alike

end KindLift.TriviaGaps
