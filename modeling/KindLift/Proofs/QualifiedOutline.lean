import KindLift.Decl.Outline
import KindLift.Proofs.QualifiedTrait
import Mathlib.Data.List.Forall2

/-! Outlines over two aligned lists of tokens. They have the same package, the same
imports and the same declarations, each moved as a whole. -/
namespace KindLift.QualifiedOutline
open KindLift.Parser ParserLogic ParserProgress ParserSimulation TokenReaders QualifiedTokens QualifiedCursor QualifiedHeader QualifiedTypeParams
open QualifiedTrait

variable {marked : Token → Bool} {place : Nat → Nat} {source source' : List Char} {left right : Cursor}
  {token other : Token}

theorem name?_near (near : Near marked place left right) :
    Agree source source' left right name? name? fun a left' b right' =>
      b.map Token.text = a.map Token.text ∧ Near marked place left' right' := by
  rcases near with tied | pending
  · refine (name?_agree tied).mono ?_
    rintro (_ | token) left' (_ | other) right' ⟨reads, -⟩
    · exact ⟨rfl, .inl reads⟩
    · exact reads.elim
    · exact reads.elim
    · exact ⟨congrArg some reads.text, reads.near⟩
  · obtain ⟨token, head, square⟩ := Option.map_eq_some_iff.mp pending.1
    obtain ⟨dot, head', point⟩ := Option.map_eq_some_iff.mp pending.head_right
    simp only [name?, agree_peek?, head, head', Token.isName, square, point, reduceCtorEq, decide_false,
      Bool.or_self, Bool.false_eq_true, if_false]
    exact agree_pure.mpr ⟨rfl, .inr pending⟩

/-- A definition whose inside does not matter is read to the same place. -/
theorem namedStatement_agree (tied : Tied marked place left right) :
    Agree source source' left right namedStatement namedStatement fun a left' b right' =>
      b.map Token.text = a.map Token.text ∧ Tied marked place left' right' := by
  refine (bump_near tied).then fun _ left _ right near => ?_
  refine (name?_near near).then ?_
  rintro name left name' right ⟨same, near⟩
  exact (skipRest_agree near).then fun _ _ _ _ tied => agree_pure.mpr ⟨same, tied⟩

/-- The nested interfaces are the same, each moved. -/
def MovedNested (place : Nat → Nat) (nested nested' : List Interface) : Prop :=
  List.Forall₂ (MovedInterface place) nested nested'

theorem addMember_nested (seen : HolderMembers) (name : Option Token) (kind : MemberKind) (isImplicit : Bool)
    (span : Span) : (seen.addMember name kind isImplicit span).nested = seen.nested := by
  cases name <;> rfl

theorem holderStatement_agree (near : Near marked place left right) (start start' : Nat) {seen seen' : HolderMembers}
    (alike : MovedNested place seen.nested seen'.nested) :
    Agree source source' left right (holderStatement start seen) (holderStatement start' seen')
      fun a left' b right' => MovedNested place a.nested b.nested ∧ Near marked place left' right' := by
  refine (modifiers_agree near).then ?_
  rintro mods left _ right ⟨rfl, near⟩
  have skipped : Agree source source' left right (skipStatement >>= fun _ => pure seen)
      (skipStatement >>= fun _ => pure seen') fun a left' b right' =>
        MovedNested place a.nested b.nested ∧ Near marked place left' right' :=
    (skipStatement_agree near).then fun _ _ _ _ tied => agree_pure.mpr ⟨alike, tied.near⟩
  simp only [agree_peekKind?]
  rcases near with tied | pending
  · rw [tied.head]
    split
    · refine (interface_agree tied).then ?_
      rintro nested left nested' right ⟨moved, tied⟩
      simp only [agree_lastStop]
      exact agree_pure.mpr ⟨List.rel_append alike (.cons moved .nil), tied.near⟩
    · exact (importClauses_agree tied).then fun _ _ _ _ both => agree_pure.mpr ⟨alike, both.1⟩
    · split
      · refine (namedStatement_agree tied).then ?_
        rintro name left name' right ⟨-, tied⟩
        simp only [agree_lastStop]
        refine agree_pure.mpr ⟨?_, tied.near⟩
        rw [addMember_nested, addMember_nested]
        exact alike
      · exact skipped
    · exact skipped
  · rw [show left.rest.head?.map Token.kind = _ from pending.1, pending.head_right]
    exact skipped

theorem holderBody_agree (tied : Tied marked place left right) :
    Agree source source' left right holderBody holderBody fun a left' b right' =>
      MovedNested place a.1.nested b.1.nested ∧ MovedBody place a.2 b.2 ∧ Tied marked place left' right' := by
  refine (openBody_agree tied).then ?_
  rintro openBrace left _ right ⟨rfl, tied⟩
  refine agree_iterate_step ?_ (fun a left b right => MovedNested place a.nested b.nested ∧ Near marked place left right)
    ⟨.nil, tied.near⟩ ?_
  · refine fun seen => strides_in_body fun source cursor token here => ?_
    refine ensures_then here_stays fun start next same => ?_
    subst same
    exact goes_of_shorter (shorter_then (holderStatement_shorter here start seen) inferInstance)
  rintro seen left seen' right ⟨alike, near⟩
  refine (closeBody?_agree near openBrace).then ?_
  rintro (_ | body) left (_ | body') right closed
  · refine agree_here fun start start' => ?_
    exact (holderStatement_agree closed _ _ alike).then fun _ _ _ _ both => agree_pure.mpr both
  · exact closed.elim
  · exact closed.elim
  · exact agree_pure.mpr ⟨alike, closed⟩

/-- An object of the same name with the same nested interfaces, its body moved. -/
structure MovedHolder (place : Nat → Nat) (holder holder' : Holder) : Prop where
  name : holder'.name = holder.name
  nested : MovedNested place holder.nested holder'.nested
  body : Option.Rel (MovedBody place) holder.body holder'.body

theorem optionalHolderBody_agree (tied : Tied marked place left right) :
    Agree source source' left right optionalHolderBody optionalHolderBody fun a left' b right' =>
      MovedNested place a.1.nested b.1.nested ∧ Option.Rel (MovedBody place) a.2 b.2 ∧
        Tied marked place left' right' := by
  simp only [optionalHolderBody, agree_isAt, tied.head]
  split
  · refine (holderBody_agree tied).then ?_
    rintro ⟨members, body⟩ left ⟨members', body'⟩ right ⟨alike, moved, tied⟩
    exact agree_pure.mpr ⟨alike, .some moved, tied⟩
  · exact agree_pure.mpr ⟨.nil, .none, tied⟩

theorem holder_agree (tied : Tied marked place left right) :
    Agree source source' left right holder holder fun a left' b right' =>
      MovedHolder place a b ∧ Tied marked place left' right' := by
  refine (expect_agree tied (.keyword .objectKw) (by simp) _).then ?_
  rintro keyword left keyword' right ⟨isObject, -, tied⟩
  refine (expectName_defined tied isObject rfl _).then ?_
  rintro name left name' right ⟨named, covers⟩
  refine (extendsClause_agree covers.tied).then fun _ left _ right tied => ?_
  refine (optionalHolderBody_agree tied).then ?_
  rintro ⟨members, body⟩ left ⟨members', body'⟩ right ⟨alike, moved, tied⟩
  simp only [agree_lastStop]
  exact agree_pure.mpr ⟨⟨named.text, alike, moved⟩, tied⟩

/-- A declaration of the same name, moved. -/
inductive MovedDecl (place : Nat → Nat) : Decl → Decl → Prop where
  | interface (moved : MovedInterface place a b) : MovedDecl place (.interface a) (.interface b)
  | holder (moved : MovedHolder place a b) : MovedDecl place (.holder a) (.holder b)
  | other (same : b.name = a.name) : MovedDecl place (.other a) (.other b)

theorem opaqueDecl_agree (tied : Tied marked place left right) (word : Keyword) (mods : Modifiers) :
    Agree source source' left right (opaqueDecl word mods) (opaqueDecl word mods) fun a left' b right' =>
      b.name = a.name ∧ Tied marked place left' right' := by
  refine (expect_agree tied (.keyword word) (by simp) _).then ?_
  rintro first left first' right ⟨-, -, tied⟩
  refine (name?_near tied.tied.near).then ?_
  rintro name left name' right ⟨same, near⟩
  refine (skipRest_agree near).then fun _ left _ right tied => ?_
  simp only [agree_lastStop]
  exact agree_pure.mpr ⟨same, tied⟩

theorem packageObject_agree (tied : Tied marked place left right) :
    Agree source source' left right packageObject packageObject fun a left' b right' =>
      b.name = a.name ∧ Tied marked place left' right' := by
  refine (expect_agree tied (.keyword .packageKw) (by simp) _).then ?_
  rintro first left first' right ⟨-, -, tied⟩
  refine (bump_near tied.tied).then fun _ left _ right near => ?_
  refine (name?_near near).then ?_
  rintro name left name' right ⟨same, near⟩
  refine (skipRest_agree near).then fun _ left _ right tied => ?_
  simp only [agree_lastStop]
  exact agree_pure.mpr ⟨same, tied⟩

theorem modifiedDecl_agree (near : Near marked place left right) :
    Agree source source' left right modifiedDecl modifiedDecl fun a left' b right' =>
      MovedDecl place a b ∧ Tied marked place left' right' := by
  refine (modifiers_agree near).then ?_
  rintro mods left _ right ⟨rfl, near⟩
  simp only [agree_peekKind?]
  rcases near with tied | pending
  · rw [tied.head]
    split
    · exact (interface_agree tied).then fun _ _ _ _ both => agree_pure.mpr ⟨.interface both.1, both.2⟩
    · split
      · exact (holder_agree tied).then fun _ _ _ _ both => agree_pure.mpr ⟨.holder both.1, both.2⟩
      · split
        · exact (opaqueDecl_agree tied _ _).then fun _ _ _ _ both => agree_pure.mpr ⟨.other both.1, both.2⟩
        · exact agree_fail_left
    · exact agree_fail_left
  · rw [show left.rest.head?.map Token.kind = _ from pending.1]
    exact agree_fail_left

theorem topLevel_agree (tied : Tied marked place left right) :
    Agree source source' left right topLevel topLevel fun a left' b right' =>
      MovedDecl place a b ∧ Tied marked place left' right' := by
  simp only [topLevel, agree_isAt, tied.head]
  split
  · exact (packageObject_agree tied).then fun _ _ _ _ both => agree_pure.mpr ⟨.other both.1, both.2⟩
  · exact modifiedDecl_agree tied.near

theorem modifiers_square (square : AtSquare left) : modifiers source left = .ok (⟨false, false⟩, left) := by
  obtain ⟨_ | ⟨⟨_, start, lexeme⟩, rest⟩, stop⟩ := left
  · cases square
  · cases square
    show iterateFrom modifierStep _ source _ = _
    rw [iterateFrom]
    rfl

/-- No declaration begins with a bracket. -/
theorem topLevel_square (square : AtSquare left) : Ensures source left topLevel fun _ _ => False := by
  have head : left.rest.head?.map Token.kind = some (.opener .square) := square
  have noPackage : left.rest.head?.map Token.kind ≠ some (.keyword .packageKw) := by rw [head]; simp
  have peeked : peekKind? source left = .ok (some (.opener .square), left) := by rw [← head]; rfl
  intro decl next ran
  rw [topLevel, bind_ok (isAt_other noPackage), if_neg (by simp), modifiedDecl, bind_ok (modifiers_square square),
    bind_ok peeked] at ran
  exact fail_ne_ok ran

theorem outlineStep_square (square : AtSquare left) (seen : Outline) :
    Ensures source left (outlineStep seen) fun _ _ => False := by
  have head : left.rest.head?.map Token.kind = some (.opener .square) := square
  have noSemi : left.rest.head?.map Token.kind ≠ some .semi := by rw [head]; simp
  have noImport : left.rest.head?.map Token.kind ≠ some (.keyword .importKw) := by rw [head]; simp
  have noPackage : left.rest.head?.map Token.kind ≠ some (.keyword .packageKw) := by rw [head]; simp
  obtain ⟨token, first, -⟩ := Option.map_eq_some_iff.mp head
  have noClause : atPackageClause source left = .ok (false, left) := by
    rw [atPackageClause, bind_ok (isAt_other noPackage)]
    rfl
  intro outcome left' ran
  rw [outlineStep, bind_ok (eatAll_stays noSemi), bind_ok (peek?_at first), if_neg (by simp), bind_ok noClause, if_neg (by simp),
    bind_ok (isAt_other noImport), if_neg (by simp)] at ran
  have never : Ensures source left (topLevel >>= fun decl =>
      pure (Step.again { seen with decls := seen.decls ++ [decl] } : Step Outline Outline)) fun _ _ => False :=
    ensures_then (topLevel_square square) fun _ _ never => never.elim
  exact never outcome left' ran

/-- The same package, imports and declarations, each declaration moved. -/
structure MovedOutline (place : Nat → Nat) (outline outline' : Outline) : Prop where
  package : outline'.package.map PackageClause.name = outline.package.map PackageClause.name
  imports : outline'.imports.map importNames = outline.imports.map importNames
  decls : List.Forall₂ (MovedDecl place) outline.decls outline'.decls

theorem Forall₂.isEmpty_eq {R : α → β → Prop} {items : List α} {items' : List β} (related : List.Forall₂ R items items') :
    items'.isEmpty = items.isEmpty := by
  cases related <;> rfl

theorem outlineStep_agree (tied : Tied marked place left right) {seen seen' : Outline}
    (alike : MovedOutline place seen seen') :
    Agree source source' left right (outlineStep seen) (outlineStep seen') fun outcome left' outcome' right' =>
      match outcome, outcome' with
      | .again a, .again b => Near marked place left' right' ∧ (MovedOutline place a b ∨ AtSquare left')
      | .done a, .done b => MovedOutline place a b
      | _, _ => False := by
  refine (eatAll_agree tied .semi (by simp)).then fun _ left _ right tied => ?_
  have ended : right.rest.head?.isNone = left.rest.head?.isNone := by
    rw [← @Option.isNone_map _ _ Token.kind, tied.head, Option.isNone_map]
  simp only [agree_peek?, ended]
  split
  · exact agree_pure.mpr alike
  refine (atPackageClause_agree tied).then ?_
  rintro atPackage _ _ _ ⟨rfl, rfl, rfl⟩
  split
  · rw [Forall₂.isEmpty_eq alike.decls]
    split
    · refine (packageClause_agree tied alike.package).then ?_
      rintro clause left clause' right ⟨tied, same⟩
      refine agree_pure.mpr ⟨tied.near, same.imp_left fun same => ?_⟩
      exact ⟨congrArg some same, alike.imports, alike.decls⟩
    · exact agree_fail_left
  simp only [agree_isAt, tied.head]
  split
  · refine (importClauses_agree tied).then ?_
    rintro clauses left clauses' right ⟨near, same⟩
    refine agree_pure.mpr ⟨near, same.imp_left fun same => ⟨alike.package, ?_, alike.decls⟩⟩
    rw [List.map_append, List.map_append, alike.imports, same]
  · refine (topLevel_agree tied).then ?_
    rintro decl left decl' right ⟨moved, tied⟩
    exact agree_pure.mpr ⟨tied.near, .inl ⟨alike.package, alike.imports, List.rel_append alike.decls (.cons moved .nil)⟩⟩

theorem outline_agree (tied : Tied marked place left right) :
    Agree source source' left right outline outline fun a _ b _ => MovedOutline place a b := by
  refine agree_iterate_step inferInstance (fun a left b right =>
    Near marked place left right ∧ (MovedOutline place a b ∨ AtSquare left)) ⟨tied.near, .inl ⟨rfl, rfl, .nil⟩⟩ ?_
  rintro seen left seen' right ⟨near, alike⟩
  by_cases square : AtSquare left
  · intro outcome left' ran
    exact (outlineStep_square square seen outcome left' ran).elim
  · refine (outlineStep_agree (near.tied square) (alike.resolve_right square)).mono ?_
    intro outcome left' outcome' right' kept
    cases outcome <;> cases outcome' <;> exact kept

end KindLift.QualifiedOutline
