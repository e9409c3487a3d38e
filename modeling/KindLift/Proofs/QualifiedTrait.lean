import KindLift.Proofs.QualifiedTypeParams

/-! Traits over two aligned lists of tokens: they have the same name and the same
kinds of type parameters, and end at the same token. -/
namespace KindLift.QualifiedTrait
open KindLift.Parser ParserLogic ParserProgress ParserSimulation QualifiedTokens QualifiedCursor QualifiedHeader QualifiedTypeParams

variable {marked : Token → Bool} {place : Nat → Nat} {source source' : List Char} {left right : Cursor}
  {token other : Token}

theorem parentArgs_agree (tied : Tied marked place left right) (span span' : Span) :
    Agree source source' left right (parentArgs span) (parentArgs span') fun _ left' _ right' =>
      Tied marked place left' right' := by
  refine agree_iterate_step inferInstance (fun _ left _ right => Tied marked place left right) tied ?_
  intro span left span' right tied
  simp only [agree_isAt, tied.head]
  split
  · exact (skipGroup_agree tied).then fun _ _ _ _ tied => agree_pure.mpr tied
  · exact agree_pure.mpr tied

theorem parentTypeArgs_agree (tied : Tied marked place left right) (span span' : Span) :
    Agree source source' left right (parentTypeArgs span) (parentTypeArgs span') fun _ left' _ right' =>
      Tied marked place left' right' := by
  simp only [parentTypeArgs, agree_isAt, tied.head]
  split
  · refine (skipGroup_agree tied).then fun _ _ _ _ tied => ?_
    simp only [groupText, bind_assoc, pure_bind, agree_read, agree_pure]
    exact tied
  · exact agree_pure.mpr tied

theorem parent_agree (tied : Tied marked place left right) :
    Agree source source' left right parent parent fun _ left' _ right' => Tied marked place left' right' := by
  refine (path_agree tied _).then fun name left name' right both => ?_
  refine (parentTypeArgs_agree both.1 _ _).then fun args left args' right tied => ?_
  exact (parentArgs_agree tied _ _).then fun _ _ _ _ tied => agree_pure.mpr tied

theorem parents_agree (tied : Tied marked place left right) :
    Agree source source' left right parents parents fun _ left' _ right' => Tied marked place left' right' := by
  refine agree_iterate_step inferInstance (fun _ left _ right => Tied marked place left right) tied ?_
  intro parents left parents' right tied
  refine (parent_agree tied).then fun found left found' right tied => ?_
  refine (eats_agree tied (.keyword .withKw) (by simp)).then ?_
  rintro eaten left _ right ⟨rfl, tied⟩
  split
  · exact agree_pure.mpr tied
  · refine (eats_agree tied .comma (by simp)).then ?_
    rintro eaten left _ right ⟨rfl, tied⟩
    split <;> exact agree_pure.mpr tied

theorem extendsClause_agree (tied : Tied marked place left right) :
    Agree source source' left right extendsClause extendsClause fun _ left' _ right' =>
      Tied marked place left' right' := by
  refine (eats_agree tied (.keyword .extendsKw) (by simp)).then ?_
  rintro eaten left _ right ⟨rfl, tied⟩
  split
  · exact parents_agree tied
  · exact agree_pure.mpr tied

theorem skipValVar_agree (near : Near marked place left right) :
    Agree source source' left right skipValVar skipValVar fun _ left' _ right' => Near marked place left' right' := by
  simp only [skipValVar, agree_isAt, near.isAt (.keyword .valKw) (by simp) (by simp),
    near.isAt (.keyword .varKw) (by simp) (by simp)]
  split
  · rename_i found
    have tied := near.tied fun square => by simp [show left.rest.head?.map Token.kind = _ from square] at found
    exact (bump_near tied).then fun _ _ _ _ near => agree_pure.mpr near
  · exact agree_pure.mpr near

theorem paramName_agree (near : Near marked place left right) :
    Agree source source' left right paramName paramName fun _ left' _ right' => Near marked place left' right' := by
  simp only [paramName, agree_peek?]
  rcases near with tied | pending
  · rcases reads_next tied with ⟨empty, empty'⟩ | ⟨token, rest, other, others, shape, shape', reads⟩
    · rw [empty, empty']
      exact agree_pure.mpr tied.near
    · have head : left.rest.head? = some token := by rw [shape]; rfl
      have head' : right.rest.head? = some other := by rw [shape']; rfl
      rw [head, head']
      simp only [agree_secondKind?, getElem?_one shape, getElem?_one shape', reads.kind]
      rcases reads with ⟨moved, behind⟩ | ⟨-, -, -, pending⟩
      · rw [behind.tied.head]
        split
        · rw [agree_bump shape shape']
          exact (bump_near behind.tied).then fun _ _ _ _ near => agree_pure.mpr near
        · exact agree_pure.mpr tied.near
      · simp only [show rest.head?.map Token.kind = _ from pending.1, show others.head?.map Token.kind = _ from
          pending.head_right, Option.some.injEq, reduceCtorEq, decide_false, Bool.and_false, Bool.false_eq_true, if_false]
        exact agree_pure.mpr tied.near
  · obtain ⟨token, head, square⟩ := Option.map_eq_some_iff.mp pending.1
    obtain ⟨dot, head', point⟩ := Option.map_eq_some_iff.mp pending.head_right
    simp only [head, head', square, point, agree_secondKind?, reduceCtorEq, decide_false, Bool.or_self,
      Bool.false_and, Bool.false_eq_true, if_false]
    exact agree_pure.mpr (.inr pending)

theorem skipDefault_agree (tied : Tied marked place left right) :
    Agree source source' left right skipDefault skipDefault fun _ left' _ right' => Tied marked place left' right' := by
  refine (eats_agree tied .equals (by simp)).then ?_
  rintro eaten left _ right ⟨rfl, tied⟩
  split
  · exact (scanUntil_agree tied.near rfl rfl rfl).then fun _ _ _ _ both => agree_pure.mpr both.2
  · exact agree_pure.mpr tied

theorem param_agree (near : Near marked place left right) :
    Agree source source' left right param param fun _ left' _ right' => Tied marked place left' right' := by
  refine (modifiers_agree near).then ?_
  rintro mods left _ right ⟨-, near⟩
  refine (skipValVar_agree near).then fun _ left _ right near => ?_
  refine (paramName_agree near).then fun name left name' right near => ?_
  refine (scanUntil_agree near rfl rfl rfl).then ?_
  rintro type left type' right ⟨same, tied⟩
  cases type with
  | none => exact agree_fail_left
  | some span =>
    cases type' with
    | none => cases same
    | some span' =>
      refine (skipDefault_agree tied).then fun _ left _ right tied => ?_
      simp only [agree_read, agree_pure]
      exact tied

theorem usingMark_agree (tied : Tied marked place left right) :
    Agree source source' left right usingMark usingMark fun a left' b right' =>
      b = a ∧ Near marked place left' right' := by
  simp only [usingMark, agree_peek?]
  rcases reads_next tied with ⟨empty, empty'⟩ | ⟨token, rest, other, others, shape, shape', reads⟩
  · rw [empty, empty']
    exact agree_pure.mpr ⟨rfl, tied.near⟩
  · have head : left.rest.head? = some token := by rw [shape]; rfl
    have head' : right.rest.head? = some other := by rw [shape']; rfl
    simp only [head, head', reads.kind, reads.text]
    split
    · exact (bump_near tied).then fun _ _ _ _ near => agree_pure.mpr ⟨rfl, near⟩
    · exact agree_pure.mpr ⟨rfl, tied.near⟩

theorem implicitMark_agree (near : Near marked place left right) (isUsing : Bool) :
    Agree source source' left right (implicitMark isUsing) (implicitMark isUsing) fun _ left' _ right' =>
      Near marked place left' right' := by
  unfold implicitMark
  split
  · exact agree_pure.mpr near
  · rcases near with tied | pending
    · exact (eats_agree tied (.keyword .implicitKw) (by simp)).mono fun _ _ _ _ both => both.2.near
    · refine (eats_pending pending (.keyword .implicitKw) (by simp) (by simp)).mono ?_
      rintro _ _ _ _ ⟨-, -, rfl, rfl⟩
      exact .inr pending

theorem params_agree (near : Near marked place left right) :
    Agree source source' left right params params fun _ left' _ right' => Tied marked place left' right' := by
  refine agree_iterate_step inferInstance (fun _ left _ right => Near marked place left right) near ?_
  intro params left params' right near
  simp only [agree_isAt, near.isAt (.closer .paren) (by simp) (by simp)]
  split
  · rename_i found
    refine agree_pure.mpr (near.tied fun square => ?_)
    rw [show left.rest.head?.map Token.kind = _ from square] at found
    cases found
  · refine (param_agree near).then fun found left found' right tied => ?_
    refine (eats_agree tied .comma (by simp)).then ?_
    rintro eaten left _ right ⟨rfl, tied⟩
    split
    · exact agree_pure.mpr tied.near
    · exact agree_pure.mpr tied

theorem paramList_agree (tied : Tied marked place left right) :
    Agree source source' left right paramList paramList fun _ left' _ right' => Tied marked place left' right' := by
  refine (expect_agree tied (.opener .paren) (by simp) _).then ?_
  rintro opening left opening' right ⟨-, -, tied⟩
  refine (usingMark_agree tied.tied).then ?_
  rintro isUsing left _ right ⟨rfl, near⟩
  refine (implicitMark_agree near _).then fun _ left _ right near => ?_
  refine (params_agree near).then fun _ left _ right tied => ?_
  refine (expect_agree tied (.closer .paren) (by simp) _).then ?_
  rintro closing left closing' right ⟨-, -, tied⟩
  exact agree_pure.mpr tied.tied

theorem paramLists_agree (tied : Tied marked place left right) :
    Agree source source' left right paramLists paramLists fun _ left' _ right' => Tied marked place left' right' := by
  refine agree_iterate_step inferInstance (fun _ left _ right => Tied marked place left right) tied ?_
  intro lists left lists' right tied
  simp only [agree_isAt, tied.head]
  split
  · exact (paramList_agree tied).then fun _ _ _ _ tied => agree_pure.mpr tied
  · exact agree_pure.mpr tied

theorem resultArg_agree (tied : Tied marked place left right) :
    Agree source source' left right resultArg resultArg fun _ left' _ right' => Tied marked place left' right' := by
  simp only [resultArg, agree_isAt, tied.head]
  split
  · refine (skipGroup_agree tied).then fun _ _ _ _ tied => ?_
    simp only [groupText, bind_assoc, pure_bind, agree_read, agree_pure]
    exact tied
  · exact agree_pure.mpr tied

theorem namedResult_agree (tied : Tied marked place left right) (start start' : Nat) :
    Agree source source' left right (namedResult start) (namedResult start') fun _ left' _ right' =>
      Tied marked place left' right' := by
  refine (path_agree tied _).then fun name left name' right both => ?_
  refine (resultArg_agree both.1).then fun arg left arg' right tied => ?_
  refine (scanUntil_agree tied.near rfl rfl rfl).then fun more left more' right both => ?_
  simp only [agree_lastStop, agree_read, agree_pure]
  exact both.2

theorem otherResult_agree (tied : Tied marked place left right) (start start' : Nat) :
    Agree source source' left right (otherResult start) (otherResult start') fun _ left' _ right' =>
      Tied marked place left' right' := by
  refine (scanUntil_agree tied.near rfl rfl rfl).then ?_
  rintro span left span' right ⟨same, tied⟩
  cases span with
  | none => exact agree_fail_left
  | some span =>
    cases span' with
    | none => cases same
    | some span' =>
      simp only [agree_read, agree_pure]
      exact tied

theorem resultType_agree (tied : Tied marked place left right) :
    Agree source source' left right resultType resultType fun _ left' _ right' => Tied marked place left' right' := by
  refine agree_here fun start start' => ?_
  simp only [agree_peekKind?, tied.head]
  split
  · exact namedResult_agree tied _ _
  · exact otherResult_agree tied _ _

theorem methodTypeParams_agree (covers : Covers marked place left right) :
    Agree source source' left right methodTypeParams methodTypeParams fun _ left' _ right' =>
      Tied marked place left' right' := by
  simp only [methodTypeParams, agree_isAt, covers.tied.head]
  split
  · refine (typeParams_agree covers).then fun _ _ _ _ both => ?_
    simp only [groupText, bind_assoc, pure_bind, agree_read, agree_pure]
    exact both.2
  · exact agree_pure.mpr covers.tied

theorem methodResult_agree (tied : Tied marked place left right) :
    Agree source source' left right methodResult methodResult fun _ left' _ right' =>
      Tied marked place left' right' := by
  refine (eats_agree tied .colon (by simp)).then ?_
  rintro eaten left _ right ⟨rfl, tied⟩
  split
  · exact (resultType_agree tied).then fun _ _ _ _ tied => agree_pure.mpr tied
  · exact agree_pure.mpr tied

theorem methodBody_agree (tied : Tied marked place left right) :
    Agree source source' left right methodBody methodBody fun _ left' _ right' => Tied marked place left' right' := by
  simp only [methodBody, agree_peekKind?, tied.head]
  split
  · refine (bump_near tied).then fun _ _ _ _ near => ?_
    exact (skipStatement_agree near).then fun _ _ _ _ tied => agree_pure.mpr tied
  · exact (skipGroup_agree tied).then fun _ _ _ _ tied => agree_pure.mpr tied
  · exact agree_pure.mpr tied

theorem method_agree (tied : Tied marked place left right) :
    Agree source source' left right method method fun _ left' _ right' => Tied marked place left' right' := by
  refine (expect_agree tied (.keyword .defKw) (by simp) _).then ?_
  rintro keyword left keyword' right ⟨isDef, -, tied⟩
  refine (expectName_defined tied isDef rfl _).then fun name left name' right both => ?_
  refine (methodTypeParams_agree both.2).then fun params left params' right tied => ?_
  refine (paramLists_agree tied).then fun lists left lists' right tied => ?_
  refine (methodResult_agree tied).then fun result left result' right tied => ?_
  simp only [agree_lastStop]
  exact (methodBody_agree tied).then fun _ _ _ _ tied => agree_pure.mpr tied

/-- A statement of a trait is read to the same place, unless it is an import that
ends in a qualified word. -/
theorem traitStatement_agree (near : Near marked place left right) (seen seen' : TraitMembers) :
    Agree source source' left right (traitStatement seen) (traitStatement seen') fun _ left' _ right' =>
      Near marked place left' right' := by
  refine (modifiers_agree near).then ?_
  rintro mods left _ right ⟨-, near⟩
  have skipped : Agree source source' left right
      (skipStatement >>= fun _ => pure { seen with hasConcrete := true })
      (skipStatement >>= fun _ => pure { seen' with hasConcrete := true }) fun _ left' _ right' =>
        Near marked place left' right' :=
    (skipStatement_agree near).then fun _ _ _ _ tied => agree_pure.mpr tied.near
  simp only [agree_peekKind?]
  rcases near with tied | pending
  · rw [tied.head]
    split
    · exact (method_agree tied).then fun _ _ _ _ tied => agree_pure.mpr tied.near
    · exact (importClauses_agree tied).then fun _ _ _ _ both => agree_pure.mpr both.1
    · exact skipped
  · rw [show left.rest.head?.map Token.kind = _ from pending.1, pending.head_right]
    exact skipped

theorem traitBody_agree (tied : Tied marked place left right) :
    Agree source source' left right traitBody traitBody fun a left' b right' =>
      MovedBody place a.2 b.2 ∧ Tied marked place left' right' := by
  refine (openBody_agree tied).then ?_
  rintro openBrace left _ right ⟨rfl, tied⟩
  refine agree_iterate_step ?_ (fun _ left _ right => Near marked place left right) tied.near ?_
  · refine fun seen => strides_in_body fun source cursor token here => ?_
    exact goes_of_shorter (shorter_then (traitStatement_shorter here seen) inferInstance)
  intro seen left seen' right near
  refine (closeBody?_agree near openBrace).then ?_
  rintro (_ | body) left (_ | body') right closed
  · exact (traitStatement_agree closed seen seen').then fun _ _ _ _ near => agree_pure.mpr near
  · exact closed.elim
  · exact closed.elim
  · exact agree_pure.mpr closed

theorem optionalTraitBody_agree (tied : Tied marked place left right) :
    Agree source source' left right optionalTraitBody optionalTraitBody fun _ left' _ right' =>
      Tied marked place left' right' := by
  simp only [optionalTraitBody, agree_isAt, tied.head]
  split
  · exact (traitBody_agree tied).then fun _ _ _ _ both => agree_pure.mpr both.2
  · exact agree_pure.mpr tied

theorem traitTypeParams_agree (covers : Covers marked place left right) :
    Agree source source' left right traitTypeParams traitTypeParams fun a left' b right' =>
      paramKinds b.1 = paramKinds a.1 ∧ Tied marked place left' right' := by
  simp only [traitTypeParams, agree_isAt, covers.tied.head]
  split
  · exact (typeParams_agree covers).then fun _ _ _ _ both => agree_pure.mpr both
  · exact agree_pure.mpr ⟨rfl, covers.tied⟩

/-- The same span, moved. -/
def MovedSpan (place : Nat → Nat) (span span' : Span) : Prop :=
  span'.start = place span.start ∧ span'.stop = place span.stop

/-- An interface of the same name and kinds, moved as a whole. -/
structure MovedInterface (place : Nat → Nat) (interface interface' : Interface) : Prop where
  name : interface'.name = interface.name
  kinds : paramKinds interface'.typeParams = paramKinds interface.typeParams
  span : MovedSpan place interface.span interface'.span

theorem interface_agree (tied : Tied marked place left right) :
    Agree source source' left right interface interface fun a left' b right' =>
      MovedInterface place a b ∧ Tied marked place left' right' := by
  refine (expect_agree tied (.keyword .traitKw) (by simp) _).then ?_
  rintro keyword left keyword' right ⟨isTrait, moved, tied⟩
  refine (expectName_defined tied isTrait rfl _).then ?_
  rintro name left name' right ⟨named, covers⟩
  refine (traitTypeParams_agree covers).then ?_
  rintro params left params' right ⟨kinds, tied⟩
  refine (skipGroups_agree tied .paren).then fun _ left _ right tied => ?_
  refine (extendsClause_agree tied).then fun _ left _ right tied => ?_
  refine (optionalTraitBody_agree tied).then fun members left members' right tied => ?_
  simp only [agree_lastStop]
  exact agree_pure.mpr ⟨⟨named.text, kinds, moved.start, tied.1⟩, tied⟩

end KindLift.QualifiedTrait
