import KindLift.Decl.Trait
import KindLift.Proofs.QualifiedHeader

/-! Modifiers and type parameters over two aligned lists of tokens. What is behind
the name of a definition is covered, so type parameters are of the same kinds. -/
namespace KindLift.QualifiedTypeParams
open KindLift.Parser Token ParserLogic ParserProgress ParserSimulation TokenReaders QualifiedTokens QualifiedCursor QualifiedHeader

variable {marked : Token → Bool} {place : Nat → Nat} {source source' : List Char} {left right : Cursor}
  {token other : Token}

theorem skipSquare_agree (tied : Tied marked place left right) :
    Agree source source' left right skipSquare skipSquare fun _ left' _ right' => Tied marked place left' right' := by
  simp only [skipSquare, agree_isAt, tied.head]
  split
  · exact (skipGroup_agree tied).then fun _ _ _ _ tied => agree_pure.mpr tied
  · exact agree_pure.mpr tied

theorem annotation_agree (tied : Tied marked place left right)
    (sign : left.rest.head?.map Token.kind = some .atSign) :
    Agree source source' left right annotation annotation fun _ left' _ right' => Tied marked place left' right' := by
  refine (bump_tied tied sign (by simp)).then fun _ _ _ _ tied => ?_
  refine (path_agree tied _).then fun _ _ _ _ both => ?_
  exact (skipSquare_agree both.1).then fun _ _ _ _ tied => skipGroups_agree tied .paren

/-- Two tokens that are read as one word are followed by the same kind of token, or
by a bracket and a point. -/
theorem Reads.follow {rest others : List Token} {stop stop' : Nat}
    (reads : Reads marked place token ⟨rest, stop⟩ other ⟨others, stop'⟩) :
    others.head?.map Token.kind = rest.head?.map Token.kind ∨
      rest.head?.map Token.kind = some (.opener .square) ∧ others.head?.map Token.kind = some .dot := by
  rcases reads with ⟨-, tied⟩ | ⟨-, -, -, pending⟩
  · exact .inl tied.tied.head
  · exact .inr ⟨pending.1, pending.head_right⟩

theorem getElem?_one {tokens rest : List Token} (shape : tokens = token :: rest) : tokens[1]? = rest.head? := by
  rw [shape, List.getElem?_cons_succ, List.head?_eq_getElem?]

theorem modifierStep_agree (near : Near marked place left right) (seen : Modifiers) :
    Agree source source' left right (modifierStep seen) (modifierStep seen) fun outcome left' outcome' right' =>
      outcome' = outcome ∧ Near marked place left' right' := by
  simp only [modifierStep, agree_peek?]
  rcases near with tied | pending
  · rcases reads_next tied with ⟨empty, empty'⟩ | ⟨token, rest, other, others, shape, shape', reads⟩
    · rw [empty, empty']
      exact agree_pure.mpr ⟨rfl, .inl tied⟩
    · have head : left.rest.head? = some token := by rw [shape]; rfl
      have head' : right.rest.head? = some other := by rw [shape']; rfl
      have kind : left.rest.head?.map Token.kind = some token.kind := by rw [head]; rfl
      have bumped : ∀ later : Step Modifiers Modifiers, Agree source source' left right (bump >>= fun _ => pure later)
          (bump >>= fun _ => pure later) fun outcome left' outcome' right' =>
            outcome' = outcome ∧ Near marked place left' right' :=
        fun later => (bump_near tied).then fun _ _ _ _ near => agree_pure.mpr ⟨rfl, near⟩
      have restricted : left.rest.head?.map Token.kind ≠ some .ident →
          Agree source source' left right (bump >>= fun _ => skipSquare >>= fun _ => pure (Step.again seen))
            (bump >>= fun _ => skipSquare >>= fun _ => pure (Step.again seen)) fun outcome left' outcome' right' =>
              (outcome' : Step Modifiers Modifiers) = outcome ∧ Near marked place left' right' := by
        intro noWord
        refine (bump_tied tied kind fun same => noWord (same ▸ kind)).then fun _ _ _ _ tied => ?_
        exact (skipSquare_agree tied).then fun _ _ _ _ tied => agree_pure.mpr ⟨rfl, .inl tied⟩
      rw [head, head']
      dsimp only
      rw [reads.kind, reads.text]
      split
      · rename_i isSign
        rw [isSign] at kind
        exact (annotation_agree tied kind).then fun _ _ _ _ tied => agree_pure.mpr ⟨rfl, .inl tied⟩
      · exact bumped _
      · exact bumped _
      · exact bumped _
      · exact bumped _
      · exact bumped _
      · exact bumped _
      · rename_i isPrivate
        exact restricted (by rw [kind, isPrivate]; simp)
      · rename_i isProtected
        exact restricted (by rw [kind, isProtected]; simp)
      · rename_i isCase
        rw [isCase] at kind
        simp only [agree_secondKind?, tied.second kind (by simp)]
        split
        · exact bumped _
        · exact bumped _
        · exact agree_pure.mpr ⟨rfl, .inl tied⟩
      · simp only [agree_secondKind?, getElem?_one shape, getElem?_one shape']
        rcases Reads.follow reads with same | ⟨square, point⟩
        · rw [same]
          split
          · split
            · exact bumped _
            · exact agree_pure.mpr ⟨rfl, .inl tied⟩
          · exact agree_pure.mpr ⟨rfl, .inl tied⟩
        · rw [square, point]
          exact agree_pure.mpr ⟨rfl, .inl tied⟩
      · exact agree_pure.mpr ⟨rfl, .inl tied⟩
  · obtain ⟨token, head, square⟩ := Option.map_eq_some_iff.mp pending.1
    obtain ⟨dot, head', point⟩ := Option.map_eq_some_iff.mp pending.head_right
    simp only [head, head', square, point]
    exact agree_pure.mpr ⟨rfl, .inr pending⟩

theorem modifiers_agree (near : Near marked place left right) :
    Agree source source' left right modifiers modifiers fun a left' b right' =>
      b = a ∧ Near marked place left' right' := by
  refine agree_iterate_step inferInstance (fun a left b right => b = a ∧ Near marked place left right) ⟨rfl, near⟩ ?_
  rintro _ left seen right ⟨rfl, near⟩
  refine (modifierStep_agree near seen).mono ?_
  rintro _ left' outcome right' ⟨rfl, near⟩
  cases outcome <;> exact ⟨rfl, near⟩

section TypeParameters

/-- No bracket closes the one that has been opened. -/
def Unclosed (cursor : Cursor) : Prop := closeAll .square [] cursor.rest = none

theorem bump_unclosed (unclosed : Unclosed left) (head : left.rest.head? = some token) (plain : IsPlain token.kind) :
    Ensures source left bump fun _ left' => Unclosed left' := by
  obtain ⟨_ | ⟨first, rest⟩, stop⟩ := left
  · cases head
  · cases head
    intro a left' ran
    cases ran
    rw [Unclosed, closeAll_plain plain] at unclosed
    exact Option.map_eq_none_iff.mp unclosed

theorem eats_unclosed (unclosed : Unclosed left) (kind : TokenKind) (plain : IsPlain kind) :
    Ensures source left (eats kind) fun _ left' => Unclosed left' := by
  simp only [eats, eat?, ensures_bind, ensures_isAt]
  split
  · rename_i found
    obtain ⟨token, head, rfl⟩ := Option.map_eq_some_iff.mp (of_decide_eq_true found)
    exact ensures_mono (bump_unclosed unclosed head plain) fun _ _ kept => ensures_pure.mpr kept
  · simp only [ensures_pure]
    exact unclosed

theorem skipGroup_unclosed (unclosed : Unclosed left) : Ensures source left skipGroup fun _ left' => Unclosed left' := by
  simp only [skipGroup, ensures_bind, ensures_get]
  split
  · exact ensures_fail
  · split
    · exact ensures_throw
    · rename_i opening rest shape closing after split
      simp only [ensures_bind, ensures_set, ensures_pure]
      simp only [splitGroup?, Option.bind_eq_bind, Option.bind_eq_some_iff, Option.pure_def, Option.some.injEq,
        Prod.mk.injEq] at split
      obtain ⟨last, closed, -, -, -, rfl⟩ := split
      rw [Unclosed, closeAll_group closed] at unclosed
      exact Option.map_eq_none_iff.mp unclosed

theorem scanUntil_unclosed (unclosed : Unclosed left) (stops : TokenKind → Bool) :
    Ensures source left (scanUntil stops) fun _ left' => Unclosed left' := by
  refine ensures_iterate (fun _ cursor => Unclosed cursor) unclosed ?_
  intro seen cursor unclosed
  simp only [scanStep, ensures_bind, ensures_peek?]
  split
  · exact ensures_pure.mpr unclosed
  · rename_i token head
    split
    · exact ensures_pure.mpr unclosed
    · split
      · exact ensures_then (skipGroup_unclosed unclosed) fun _ _ kept => ensures_pure.mpr kept
      · exact ensures_pure.mpr unclosed
      · rename_i noOpener noCloser
        exact ensures_then (bump_unclosed unclosed head ⟨noOpener, noCloser⟩) fun _ _ kept => ensures_pure.mpr kept

theorem skipVariance_unclosed (unclosed : Unclosed left) :
    Ensures source left skipVariance fun _ left' => Unclosed left' := by
  simp only [skipVariance, ensures_bind, ensures_peek?]
  split
  · rename_i token head
    split
    · rename_i isMark
      refine ensures_then (bump_unclosed unclosed head ?_) fun _ _ kept => ensures_pure.mpr kept
      simp only [Bool.and_eq_true, decide_eq_true_eq] at isMark
      rw [isMark.1]
      exact ⟨by simp, by simp⟩
    · exact ensures_pure.mpr unclosed
  · exact ensures_pure.mpr unclosed

theorem typeParamName_unclosed (unclosed : Unclosed left) :
    Ensures source left typeParamName fun _ left' => Unclosed left' := by
  simp only [typeParamName, ensures_bind, ensures_peek?]
  split
  · rename_i token head
    split
    · rename_i isName
      refine ensures_then (bump_unclosed unclosed head ?_) fun _ _ kept => ensures_pure.mpr kept
      simp only [Bool.or_eq_true, decide_eq_true_eq] at isName
      rcases isName with isName | isName <;> rw [isName] <;> exact ⟨by simp, by simp⟩
    · exact ensures_fail
  · exact ensures_fail

theorem typeParam_unclosed (unclosed : Unclosed left) : Ensures source left typeParam fun _ left' => Unclosed left' := by
  refine ensures_then (skipVariance_unclosed unclosed) fun _ left unclosed => ?_
  refine ensures_then here_stays fun start left' same => ?_
  subst same
  refine ensures_then (typeParamName_unclosed unclosed) fun name left unclosed => ?_
  have bracketed : Ensures source left typeParamKind fun _ left' => Unclosed left' := by
    simp only [typeParamKind, ensures_bind, ensures_isAt]
    split
    · exact ensures_then (skipGroup_unclosed unclosed) fun _ _ kept => ensures_pure.mpr kept
    · exact ensures_pure.mpr unclosed
  refine ensures_then bracketed fun kind left unclosed => ?_
  refine ensures_then (scanUntil_unclosed unclosed _) fun _ left unclosed => ?_
  simp only [ensures_bind, ensures_lastStop, ensures_pure]
  exact unclosed

/-- Type parameters end in a closing bracket. -/
theorem typeParamStep_unclosed (unclosed : Unclosed left) (opening : Token) (params : List TypeParam) :
    Ensures source left (typeParamStep opening params) fun outcome left' =>
      match outcome with
      | .again _ => Unclosed left'
      | .done _ => False := by
  refine ensures_then (typeParam_unclosed unclosed) fun param left unclosed => ?_
  refine ensures_then (eats_unclosed unclosed .comma ⟨by simp, by simp⟩) fun eaten left unclosed => ?_
  split
  · exact ensures_pure.mpr unclosed
  · simp only [expect, eat?, ensures_bind, ensures_isAt]
    split
    · rename_i found
      obtain ⟨_ | ⟨⟨_, start, lexeme⟩, rest⟩, stop⟩ := left
      · cases found
      · rw [decide_eq_true_eq] at found
        cases found
        cases unclosed
    · exact ensures_pure.mpr ensures_fail

theorem typeParams_unclosed (unclosed : Unclosed left) (opening : Token) :
    Ensures source left (iterate (typeParamStep opening) []) fun _ _ => False := by
  refine ensures_iterate (fun _ cursor => Unclosed cursor) unclosed ?_
  intro params left unclosed
  refine ensures_mono (typeParamStep_unclosed unclosed opening params) ?_
  intro outcome left' kept
  cases outcome <;> exact kept

/-- The cursors are tied inside brackets, up to whose end nothing is qualified. -/
def Inside (marked : Token → Bool) (place : Nat → Nat) (left right : Cursor) : Prop :=
  right.lastStop = place left.lastStop ∧ ∃ covered index, Aligned marked place covered left.rest right.rest ∧
    closeAll .square [] left.rest = some index ∧ index < covered

theorem Inside.tied (inside : Inside marked place left right) : Tied marked place left right := by
  obtain ⟨stop, covered, index, aligned, -⟩ := inside
  exact ⟨stop, covered, aligned⟩

/-- Inside brackets the next token is the same, and so it is behind it. -/
theorem Inside.next (inside : Inside marked place left right) : ∃ token rest other others,
    left.rest = token :: rest ∧ right.rest = other :: others ∧ Moved place token other ∧
      (IsPlain token.kind → Inside marked place ⟨rest, token.stop⟩ ⟨others, other.stop⟩) ∧
      Tied marked place ⟨rest, token.stop⟩ ⟨others, other.stop⟩ := by
  obtain ⟨-, covered, index, aligned, closed, bound⟩ := inside
  obtain ⟨tokens, stop⟩ := left
  obtain ⟨tokens', stop'⟩ := right
  cases aligned with
  | nil => cases closed
  | @same token other after _ rest others unmarked moved covers later =>
    refine ⟨token, rest, other, others, rfl, rfl, moved, ?_, moved.stop, after, later⟩
    intro plain
    rw [closeAll_plain plain] at closed
    obtain ⟨found, inner, rfl⟩ := Option.map_eq_some_iff.mp closed
    exact ⟨moved.stop, after, found, later, inner, by omega⟩
  | word => cases bound

theorem skipGroup_inside (inside : Inside marked place left right) :
    Agree source source' left right skipGroup skipGroup fun _ left' _ right' => Inside marked place left' right' := by
  obtain ⟨token, rest, other, others, shape, shape', -⟩ := inside.next
  obtain ⟨-, covered, index, aligned, closed, bound⟩ := inside
  have alike := splitGroup?_alike aligned
  rw [skipGroup, agree_get]
  cases split : Token.splitGroup? left.rest with
  | none =>
    rw [shape] at split ⊢
    dsimp only
    rw [split]
    exact agree_throw_left
  | some found =>
    obtain ⟨closing, after⟩ := found
    rw [split] at alike
    cases split' : Token.splitGroup? right.rest with
    | none =>
      rw [split'] at alike
      cases alike
    | some found' =>
      obtain ⟨closing', after'⟩ := found'
      obtain ⟨moved, later, more, aligned'⟩ := splitGroup?_aligned aligned split split'
      have kept : Inside marked place ⟨after, closing.stop⟩ ⟨after', closing'.stop⟩ := by
        simp only [splitGroup?, Option.bind_eq_bind, Option.bind_eq_some_iff, Option.pure_def, Option.some.injEq,
          Prod.mk.injEq] at split
        obtain ⟨last, group, _, here, -, rfl⟩ := split
        obtain ⟨within, -⟩ := List.getElem?_eq_some_iff.mp here
        rw [closeAll_group group] at closed
        obtain ⟨found, inner, rfl⟩ := Option.map_eq_some_iff.mp closed
        rw [List.length_drop] at more
        exact ⟨moved.stop, later, found, aligned', inner, by omega⟩
      rw [shape] at split ⊢
      rw [shape'] at split' ⊢
      dsimp only
      rw [split, split']
      exact agree_of_ok rfl rfl kept

theorem scanUntil_inside (inside : Inside marked place left right) (stops : TokenKind → Bool) :
    Agree source source' left right (scanUntil stops) (scanUntil stops) fun _ left' _ right' =>
      Inside marked place left' right' := by
  refine agree_iterate_step inferInstance (fun _ left _ right => Inside marked place left right) inside ?_
  intro seen left seen' right inside
  obtain ⟨token, rest, other, others, shape, shape', moved, pass, -⟩ := inside.next
  have head : left.rest.head? = some token := by rw [shape]; rfl
  have head' : right.rest.head? = some other := by rw [shape']; rfl
  simp only [scanStep, agree_peek?, head, head', moved.kind]
  split
  · exact agree_pure.mpr inside
  · split
    · exact (skipGroup_inside inside).then fun _ _ _ _ kept => agree_pure.mpr kept
    · exact agree_pure.mpr inside
    · rename_i noOpener noCloser
      simp only [agree_bump shape shape', agree_pure]
      exact pass ⟨noOpener, noCloser⟩

theorem skipVariance_inside (inside : Inside marked place left right) :
    Agree source source' left right skipVariance skipVariance fun _ left' _ right' =>
      Inside marked place left' right' := by
  obtain ⟨token, rest, other, others, shape, shape', moved, pass, -⟩ := inside.next
  have head : left.rest.head? = some token := by rw [shape]; rfl
  have head' : right.rest.head? = some other := by rw [shape']; rfl
  simp only [skipVariance, agree_peek?, head, head', moved.kind, moved.text]
  split
  · rename_i isMark
    simp only [Bool.and_eq_true, decide_eq_true_eq] at isMark
    simp only [agree_bump shape shape', agree_pure]
    exact pass (isMark.1 ▸ ⟨by simp, by simp⟩)
  · exact agree_pure.mpr inside

theorem typeParamName_inside (inside : Inside marked place left right) :
    Agree source source' left right typeParamName typeParamName fun _ left' _ right' =>
      Inside marked place left' right' := by
  obtain ⟨token, rest, other, others, shape, shape', moved, pass, -⟩ := inside.next
  have head : left.rest.head? = some token := by rw [shape]; rfl
  have head' : right.rest.head? = some other := by rw [shape']; rfl
  simp only [typeParamName, agree_peek?, head, head', moved.kind]
  split
  · rename_i isName
    simp only [Bool.or_eq_true, decide_eq_true_eq] at isName
    simp only [agree_bump shape shape', agree_pure]
    rcases isName with isName | isName <;> exact pass (isName ▸ ⟨by simp, by simp⟩)
  · exact agree_fail_left

theorem typeParamKind_inside (inside : Inside marked place left right) :
    Agree source source' left right typeParamKind typeParamKind fun a left' b right' =>
      b = a ∧ Inside marked place left' right' := by
  simp only [typeParamKind, agree_isAt, inside.tied.head]
  split
  · exact (skipGroup_inside inside).then fun _ _ _ _ kept => agree_pure.mpr ⟨rfl, kept⟩
  · exact agree_pure.mpr ⟨rfl, inside⟩

theorem typeParam_inside (inside : Inside marked place left right) :
    Agree source source' left right typeParam typeParam fun a left' b right' =>
      b.kind = a.kind ∧ Inside marked place left' right' := by
  refine (skipVariance_inside inside).then fun _ left _ right inside => ?_
  refine agree_here fun start start' => ?_
  refine (typeParamName_inside inside).then fun name left name' right inside => ?_
  refine (typeParamKind_inside inside).then ?_
  rintro kind left _ right ⟨rfl, inside⟩
  refine (scanUntil_inside inside _).then fun _ left _ right inside => ?_
  simp only [agree_lastStop, agree_pure, true_and]
  exact inside

/-- A comma is read on both sides or on neither. -/
theorem eats_inside (inside : Inside marked place left right) (kind : TokenKind) (plain : IsPlain kind) :
    Agree source source' left right (eats kind) (eats kind) fun a left' b right' =>
      b = a ∧ Inside marked place left' right' := by
  obtain ⟨token, rest, other, others, shape, shape', moved, pass, -⟩ := inside.next
  have head : left.rest.head? = some token := by rw [shape]; rfl
  simp only [eats, eat?, bind_assoc, agree_isAt, inside.tied.head]
  split
  · rename_i found
    rw [head, Option.map_some, decide_eq_true_eq, Option.some.injEq] at found
    rw [agree_bump shape shape']
    exact agree_pure.mpr ⟨rfl, pass (found ▸ plain)⟩
  · exact agree_pure.mpr ⟨rfl, inside⟩

/-- The kinds of type parameters. -/
def paramKinds (params : List TypeParam) : List ParamKind := params.map TypeParam.kind

theorem typeParamStep_inside (inside : Inside marked place left right) (opening opening' : Token)
    {params params' : List TypeParam} (alike : paramKinds params' = paramKinds params) :
    Agree source source' left right (typeParamStep opening params) (typeParamStep opening' params')
      fun outcome left' outcome' right' =>
        match outcome, outcome' with
        | .again a, .again b => paramKinds b = paramKinds a ∧ Inside marked place left' right'
        | .done a, .done b => paramKinds b.1 = paramKinds a.1 ∧ Tied marked place left' right'
        | _, _ => False := by
  refine (typeParam_inside inside).then ?_
  rintro param left param' right ⟨kind, inside⟩
  have more : paramKinds (params' ++ [param']) = paramKinds (params ++ [param]) := by
    simp only [paramKinds, List.map_append, List.map_cons, List.map_nil, kind] at alike ⊢
    rw [alike]
  refine (eats_inside inside .comma ⟨by simp, by simp⟩).then ?_
  rintro eaten left _ right ⟨rfl, inside⟩
  split
  · exact agree_pure.mpr ⟨more, inside⟩
  · refine (expect_agree inside.tied (.closer .square) (by simp) _).then ?_
    rintro closing left closing' right ⟨-, -, tied⟩
    exact agree_pure.mpr ⟨more, tied.tied⟩

/-- The cursors are tied, and a bracket group they are at is covered. -/
def Covers (marked : Token → Bool) (place : Nat → Nat) (left right : Cursor) : Prop :=
  right.lastStop = place left.lastStop ∧ ∃ covered, Aligned marked place covered left.rest right.rest ∧
    (AtSquare left → ∀ last, groupEnd? left.rest = some last → last < covered)

theorem Covers.tied (covers : Covers marked place left right) : Tied marked place left right := by
  obtain ⟨stop, covered, aligned, -⟩ := covers
  exact ⟨stop, covered, aligned⟩

/-- A definition covers its name and the brackets behind the name. -/
theorem expectName_defined {keyword : Token} (tied : TiedBehind marked place keyword left right) {word : Keyword}
    (isWord : keyword.kind = .keyword word) (defines : word.isDefinition = true) (what : String) :
    Agree source source' left right (expectName what) (expectName what) fun a left' b right' =>
      Moved place a b ∧ Covers marked place left' right' := by
  obtain ⟨-, covered, bound, aligned⟩ := tied
  obtain ⟨tokens, stop⟩ := left
  obtain ⟨tokens', stop'⟩ := right
  rw [definedBehind, isWord] at bound
  simp only [expectName, name?, bind_assoc, agree_peek?]
  cases aligned with
  | nil => exact agree_fail_left
  | @same token other after _ rest others unmarked moved covers later =>
    dsimp only [List.head?]
    rw [moved.isName]
    split
    · rename_i isName
      rw [agree_bump rfl rfl]
      refine agree_pure.mpr ⟨moved, moved.stop, after, later, ?_⟩
      intro square last closed
      obtain ⟨bracket, head, isSquare⟩ := Option.map_eq_some_iff.mp square
      cases rest with
      | nil => cases head
      | cons first rest =>
        cases head
        simp only [TypeRef.definedTokens, defines, isName, Bool.and_self, if_true, isSquare] at bound
        dsimp only at closed
        rw [closed] at bound
        dsimp only at bound
        omega
    · exact agree_fail_left
  | @word token qualifier dot other rest others qualifies bracket _ later =>
    have isName : token.isName = true := by rw [Token.isName, qualifies.ident]; rfl
    dsimp only at bound
    rw [TypeRef.definedTokens.eq_def] at bound
    simp only [defines, isName, Bool.and_self, if_true] at bound
    split at bound
    · split at bound
      · split at bound <;> omega
      · omega
    · omega

theorem typeParams_agree (covers : Covers marked place left right) :
    Agree source source' left right typeParams typeParams fun a left' b right' =>
      paramKinds b.1 = paramKinds a.1 ∧ Tied marked place left' right' := by
  have opened : Agree source source' left right (expect (.opener .square) "`[`") (expect (.opener .square) "`[`")
      fun _ left' _ right' => Unclosed left' ∨ Inside marked place left' right' := by
    obtain ⟨-, covered, aligned, bound⟩ := covers
    obtain ⟨tokens, stop⟩ := left
    obtain ⟨tokens', stop'⟩ := right
    simp only [expect, eat?, bind_assoc, agree_isAt, aligned.head_kind]
    split
    · rename_i isSquare
      have square : tokens.head?.map Token.kind = some (.opener .square) := of_decide_eq_true isSquare
      cases aligned with
      | nil => cases square
      | @same token other after _ rest others unmarked moved covers later =>
        rw [agree_bump rfl rfl]
        refine agree_pure.mpr ?_
        cases closed : closeAll .square [] rest with
        | none => exact .inl closed
        | some index =>
          have group : groupEnd? (token :: rest) = some (index + 1) := by
            rw [groupEnd?, Option.some.inj square]
            dsimp only
            rw [closed, Option.map_some]
          have inside := bound square _ group
          exact .inr ⟨moved.stop, after, index, later, closed, by omega⟩
      | word qualifies =>
        have isIdent := Option.some.inj square
        rw [qualifies.ident] at isIdent
        cases isIdent
    · exact agree_fail_left
  refine opened.then fun opening left opening' right both => ?_
  rcases both with unclosed | inside
  · intro a left' ran
    exact (typeParams_unclosed unclosed opening a left' ran).elim
  · refine agree_iterate_step inferInstance (fun a left b right => paramKinds b = paramKinds a ∧ Inside marked place left right)
      ⟨rfl, inside⟩ ?_
    rintro params left params' right ⟨alike, inside⟩
    refine (typeParamStep_inside inside opening opening' alike).mono ?_
    intro outcome left' outcome' right' kept
    cases outcome <;> cases outcome' <;> exact kept

end TypeParameters

end KindLift.QualifiedTypeParams
