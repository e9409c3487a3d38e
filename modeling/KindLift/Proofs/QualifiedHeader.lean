import KindLift.Decl.Header
import KindLift.Proofs.QualifiedCursor

/-! Package and import clauses over two aligned lists of tokens. A clause reads
the same unless it ends in a word that is qualified now; such a clause is followed
by a bracket. -/
namespace KindLift.QualifiedHeader
open KindLift.Parser ParserLogic ParserProgress ParserSimulation TokenReaders QualifiedTokens QualifiedCursor

variable {marked : Token → Bool} {place : Nat → Nat} {source source' : List Char} {left right : Cursor}
  {token other : Token}

theorem importAlias_agree (tied : Tied marked place left right) :
    Agree source source' left right importAlias importAlias fun a left' b right' =>
      b = a ∧ Near marked place left' right' := by
  refine (bump_agree tied).then ?_
  rintro (_ | token) left' (_ | other) right' reads
  · exact agree_fail_left
  · exact reads.elim
  · exact reads.elim
  · dsimp only
    rw [Reads.kind reads]
    split
    · exact agree_pure.mpr ⟨reads.text, reads.near⟩
    · exact agree_fail_left

/-- There is no new name in brackets. -/
theorem importAlias_square (square : AtSquare left) : Ensures source left importAlias fun _ _ => False := by
  obtain ⟨_ | ⟨⟨_, start, lexeme⟩, rest⟩, stop⟩ := left
  · cases square
  · cases square
    intro a left' ran
    rw [importAlias, bind_ok (bump_run _ _ _)] at ran
    exact fail_ne_ok ran

/-- Brackets are not read as a new name. -/
theorem importRename_square (square : AtSquare left) :
    Ensures source left importRename fun a left' => a = none ∧ left' = left := by
  obtain ⟨_ | ⟨⟨_, start, lexeme⟩, rest⟩, stop⟩ := left
  · cases square
  · cases square
    intro a left' ran
    cases ran
    exact ⟨rfl, rfl⟩

theorem importRename_agree (near : Near marked place left right) :
    Agree source source' left right importRename importRename fun a left' b right' =>
      b = a ∧ Near marked place left' right' := by
  simp only [importRename, agree_peek?]
  rcases near with tied | pending
  · rcases reads_next tied with ⟨empty, empty'⟩ | ⟨token, rest, other, others, shape, shape', reads⟩
    · rw [empty, empty']
      exact agree_pure.mpr ⟨rfl, .inl tied⟩
    · have head : left.rest.head? = some token := by rw [shape]; rfl
      have head' : right.rest.head? = some other := by rw [shape']; rfl
      rw [head, head']
      dsimp only
      rw [reads.kind, reads.text]
      split
      · refine ((bump_agree tied).and_left bump_head).then ?_
        rintro (_ | token) left' (_ | other) right' ⟨reads, -⟩
        · exact (importAlias_agree reads).then fun a left' b right' both => agree_pure.mpr ⟨by rw [both.1], both.2⟩
        · exact reads.elim
        · exact reads.elim
        · rcases reads.near with tied | pending
          · exact (importAlias_agree tied).then fun a left' b right' both => agree_pure.mpr ⟨by rw [both.1], both.2⟩
          · intro a left' ran
            obtain ⟨_, _, ran, -⟩ := bind_eq_ok ran
            exact (importAlias_square pending.1 _ _ ran).elim
      · exact agree_pure.mpr ⟨rfl, .inl tied⟩
  · obtain ⟨token, head, square⟩ := Option.map_eq_some_iff.mp pending.1
    obtain ⟨dot, head', point⟩ := Option.map_eq_some_iff.mp pending.head_right
    simp only [head, head', square, point, reduceCtorEq, decide_false, Bool.false_and, Bool.or_self,
      Bool.false_eq_true, if_false]
    exact agree_pure.mpr ⟨rfl, .inr pending⟩

theorem Reads.isWildcard {left right : Cursor} (reads : Reads marked place token left other right) :
    isWildcard other = isWildcard token := by
  rw [Parser.isWildcard, Parser.isWildcard, reads.kind, reads.text]

theorem Reads.isName {left right : Cursor} (reads : Reads marked place token left other right) :
    other.isName = token.isName := by
  rw [Token.isName, Token.isName, reads.kind]

theorem importSelector_agree (tied : Tied marked place left right) {next next' : Cursor}
    (reads : Reads marked place token next other next') :
    Agree source source' left right (importSelector token) (importSelector other) fun a left' b right' =>
      b = a ∧ Near marked place left' right' := by
  unfold importSelector
  rw [Reads.isWildcard reads, Reads.isName reads, reads.text]
  split
  · exact (bump_near tied).then fun _ _ _ _ near => agree_pure.mpr ⟨rfl, near⟩
  · split
    · refine (bump_near tied).then fun _ _ _ _ near => ?_
      exact (importRename_agree near).then fun a left' b right' both => agree_pure.mpr ⟨by rw [both.1], both.2⟩
    · exact agree_fail_left

/-- Selectors are not followed by brackets. -/
theorem selectorEnd_agree (near : Near marked place left right) :
    Agree source source' left right selectorEnd selectorEnd fun _ left' _ right' =>
      Tied marked place left' right' := by
  rcases near with tied | pending
  · refine (eats_agree tied .comma (by simp)).then ?_
    rintro a left' b right' ⟨rfl, tied⟩
    simp only [agree_isAt, tied.head]
    split
    · exact agree_pure.mpr tied
    · exact agree_fail_left
  · intro a left' ran
    have noComma : left.rest.head?.map Token.kind ≠ some .comma := by rw [pending.1]; simp
    have noBrace : left.rest.head?.map Token.kind ≠ some (.closer .brace) := by rw [pending.1]; simp
    rw [selectorEnd, bind_ok (eats_absent noComma), bind_ok (isAt_other noBrace)] at ran
    exact absurd ran fail_ne_ok

theorem importSelectors_agree (tied : Tied marked place left right) :
    Agree source source' left right importSelectors importSelectors fun a left' b right' =>
      b = a ∧ Tied marked place left' right' := by
  refine agree_iterate_step ?_ (fun a left b right => b = a ∧ Tied marked place left right) ⟨rfl, tied⟩ ?_
  · refine fun _ => .peek inferInstance fun source cursor token here => ?_
    dsimp only
    split
    · exact bump_goes here inferInstance
    · exact goes_of_shorter (shorter_then (importSelector_shorter here) inferInstance)
  rintro selectors left _ right ⟨rfl, tied⟩
  simp only [agree_peek?]
  rcases reads_next tied with ⟨empty, empty'⟩ | ⟨token, rest, other, others, shape, shape', reads⟩
  · rw [empty]
    exact agree_fail_left
  · have head : left.rest.head? = some token := by rw [shape]; rfl
    have head' : right.rest.head? = some other := by rw [shape']; rfl
    rw [head, head']
    dsimp only
    rw [reads.kind]
    split
    · rename_i isBrace
      have first : left.rest.head?.map Token.kind = some (.closer .brace) := by rw [head, ← isBrace]; rfl
      exact (bump_tied tied first (by simp)).then fun _ _ _ _ tied => agree_pure.mpr ⟨rfl, tied⟩
    · refine (importSelector_agree tied reads).then ?_
      rintro selector left' _ right' ⟨rfl, near⟩
      exact (selectorEnd_agree near).then fun _ _ _ _ tied => agree_pure.mpr ⟨rfl, tied⟩

/-- What follows a point in an import path reads the same. -/
theorem importPart_agree (tied : Tied marked place left right) (segments : List String) :
    Agree source source' left right (importPart segments) (importPart segments) fun outcome left' outcome' right' =>
      outcome' = outcome ∧ Near marked place left' right' := by
  simp only [importPart, agree_peek?]
  rcases reads_next tied with ⟨empty, empty'⟩ | ⟨token, rest, other, others, shape, shape', reads⟩
  · rw [empty]
    exact agree_fail_left
  · have head : left.rest.head? = some token := by rw [shape]; rfl
    have head' : right.rest.head? = some other := by rw [shape']; rfl
    rw [head, head']
    dsimp only
    rw [reads.kind, Reads.isWildcard reads, reads.text]
    split
    · exact (bump_near tied).then fun _ _ _ _ near => agree_pure.mpr ⟨rfl, near⟩
    split
    · exact (bump_near tied).then fun _ _ _ _ near => agree_pure.mpr ⟨rfl, near⟩
    split
    · refine (bump_near tied).then fun _ _ _ _ near => ?_
      exact (importRename_agree near).then fun a left' b right' both => agree_pure.mpr ⟨by rw [both.1], both.2⟩
    split
    · rename_i isBrace
      have first : left.rest.head?.map Token.kind = some (.opener .brace) := by rw [head, ← isBrace]; rfl
      refine (bump_tied tied first (by simp)).then fun _ _ _ _ tied => ?_
      exact (importSelectors_agree tied).then fun a left' b right' both => agree_pure.mpr ⟨by rw [both.1], .inl both.2⟩
    · exact agree_fail_left

/-- A point and a word are a further segment. -/
theorem importStep_pass {dot : Token} {others : List Token} {stop : Nat} (point : dot.kind = .dot)
    (isIdent : other.kind = .ident) (segments : List String) :
    importStep segments source ⟨dot :: other :: others, stop⟩ =
      .ok (.again (segments ++ [other.text]), ⟨others, other.stop⟩) := by
  obtain ⟨_, start, lexeme⟩ := dot
  obtain ⟨_, start', lexeme'⟩ := other
  cases point
  cases isIdent
  rfl

theorem importPath_agree (near : Near marked place left right) (segments : List String) :
    Agree source source' left right (iterate importStep segments) (iterate importStep segments)
      fun a left' b right' => Near marked place left' right' ∧ (b = a ∨ AtSquare left') := by
  refine agree_iterate_near inferInstance (fun segments left segments' => segments' = segments ∨ AtSquare left) near
    (.inl rfl) ?_ ?_
  · intro segments left segments' right pending alike
    obtain ⟨dot, other, others, shape, point, isIdent, tied⟩ := pending.tied
    obtain ⟨tokens, stop⟩ := right
    subst shape
    exact ⟨_, _, tied, .inr pending.1, iterateFrom_again (importStep_pass point isIdent segments')
      (Nat.lt_trans (Nat.lt_succ_self _) (Nat.lt_succ_self _))⟩
  · intro segments left segments' right tied alike
    refine ((eats_agree tied .dot (by simp)).and_left eats_square).then ?_
    rintro eaten left' _ right' ⟨⟨rfl, tied'⟩, stays⟩
    cases eaten with
    | true =>
      have same : segments' = segments := alike.resolve_right fun square => Bool.noConfusion (stays (by simp) square).1
      subst same
      refine (importPart_agree tied' segments').mono ?_
      rintro _ left' outcome right' ⟨rfl, near⟩
      cases outcome with
      | again segments => exact ⟨near, .inl rfl⟩
      | done result => exact ⟨near, .inl rfl⟩
    | false =>
      refine ((importRename_agree (.inl tied')).and_left fun _ _ ran => ran).then ?_
      rintro rename next _ next' ⟨⟨rfl, near⟩, ran⟩
      refine agree_pure.mpr ⟨near, ?_⟩
      rcases alike with rfl | square
      · exact .inl rfl
      · obtain ⟨-, rfl⟩ := stays (by simp) square
        obtain ⟨-, rfl⟩ := importRename_square square _ _ ran
        exact .inr square

/-- What an import makes visible. -/
def importNames (clause : Import) : DottedName × List Selector := (clause.path, clause.selectors)

theorem importClause_agree (tied : Tied marked place left right) (start start' : Nat) :
    Agree source source' left right (importClause start) (importClause start') fun a left' b right' =>
      Near marked place left' right' ∧ (importNames b = importNames a ∨ AtSquare left') := by
  refine (expectName_agree tied _).then fun first left first' right reads => ?_
  rw [reads.text]
  refine (importPath_agree reads.near _).then ?_
  rintro ⟨segments, selectors⟩ left' ⟨segments', selectors'⟩ right' ⟨near, alike⟩
  simp only [agree_lastStop]
  refine agree_pure.mpr ⟨near, alike.imp_left ?_⟩
  intro same
  cases same
  rfl

theorem importClauses_agree (tied : Tied marked place left right) :
    Agree source source' left right importClauses importClauses fun a left' b right' =>
      Near marked place left' right' ∧ (b.map importNames = a.map importNames ∨ AtSquare left') := by
  refine (expect_agree tied (.keyword .importKw) (by simp) _).then ?_
  rintro keyword left keyword' right ⟨-, -, tied⟩
  refine agree_iterate_step (fun ⟨_, _⟩ => inferInstance) (fun a left b right =>
    b.2.map importNames = a.2.map importNames ∧ Tied marked place left right) ⟨rfl, tied.tied⟩ ?_
  rintro ⟨start, clauses⟩ left ⟨start', clauses'⟩ right ⟨alike, tied⟩
  refine (importClause_agree tied start start').then ?_
  rintro clause left clause' right ⟨near, same⟩
  have more : importNames clause' = importNames clause →
      (clauses' ++ [clause']).map importNames = (clauses ++ [clause]).map importNames := by
    intro same
    dsimp only at alike
    rw [List.map_append, List.map_append, alike, List.map_singleton, List.map_singleton, same]
  rcases near with tied | pending
  · refine ((eats_agree tied .comma (by simp)).and_left eats_square).then ?_
    rintro eaten left' _ right' ⟨⟨rfl, tied'⟩, stays⟩
    cases eaten with
    | true =>
      have names := more (same.resolve_right fun square => Bool.noConfusion (stays (by simp) square).1)
      exact agree_here fun _ _ => agree_pure.mpr ⟨names, tied'⟩
    | false =>
      refine agree_pure.mpr ⟨.inl tied', same.imp more fun square => ?_⟩
      exact (stays (by simp) square).2 ▸ square
  · refine (eats_pending pending .comma (by simp) (by simp)).then ?_
    rintro _ _ _ _ ⟨rfl, rfl, rfl, rfl⟩
    exact agree_pure.mpr ⟨.inr pending, .inr pending.1⟩

theorem refuseBlock_agree (tied : Tied marked place left right) :
    Agree source source' left right refuseBlock refuseBlock fun _ left' _ right' =>
      left' = left ∧ right' = right := by
  simp only [refuseBlock, agree_isAt, tied.head]
  split
  · exact agree_fail_left
  · exact agree_pure.mpr ⟨rfl, rfl⟩

theorem packageClause_agree (tied : Tied marked place left right) {outer outer' : Option PackageClause}
    (alike : outer'.map PackageClause.name = outer.map PackageClause.name) :
    Agree source source' left right (packageClause outer) (packageClause outer') fun a left' b right' =>
      Tied marked place left' right' ∧ (b.name = a.name ∨ AtSquare left') := by
  refine (expect_agree tied (.keyword .packageKw) (by simp) _).then ?_
  rintro keyword left keyword' right ⟨-, -, tied⟩
  refine (path_agree tied.tied _).then ?_
  rintro ⟨name, span⟩ left ⟨name', span'⟩ right ⟨tied, same⟩
  refine (refuseBlock_agree tied).then ?_
  rintro _ _ _ _ ⟨rfl, rfl⟩
  refine agree_pure.mpr ⟨tied, same.imp_left ?_⟩
  rintro rfl
  cases outer with
  | none =>
    cases outer' with
    | none => rfl
    | some clause' => cases alike
  | some clause =>
    cases outer' with
    | none => cases alike
    | some clause' =>
      have same : clause'.name = clause.name := Option.some.inj alike
      simp only [nestClause, same]

theorem atPackageClause_agree (tied : Tied marked place left right) :
    Agree source source' left right atPackageClause atPackageClause fun a left' b right' =>
      b = a ∧ left' = left ∧ right' = right := by
  simp only [atPackageClause, agree_isAt, agree_secondKind?, agree_pure, tied.head, and_self, and_true]
  by_cases atPackage : left.rest.head?.map Token.kind = some (.keyword .packageKw)
  · rw [tied.second atPackage (by simp)]
  · simp only [atPackage, decide_false, Bool.false_and]

end KindLift.QualifiedHeader
