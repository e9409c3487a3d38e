import KindLift.Proofs.SeamParsers

/-! The parsers for statements, traits and objects, in front of a seam. What is read in
braces is the same in both texts, whatever comes behind the closing one. A statement at the
end of a body is the same when another one is added behind it. -/
namespace KindLift.SeamBodies
open KindLift.Parser ParserLogic CursorAdvance ParserProgress ParserSimulation TokenReaders SeamLogic SeamParsers
open BracketBalance TokenFronts
open BalancedParsers (Balances Encloses iterate_closes bodyStep_encloses again_encloses)
open IndentedTexts (spell)
open StretchLogic (Steps)

variable {good : Seam → Prop} {seam : Seam} {left right left' right' : Cursor} {token token' : Token} {tokens tokens' : List Token}
  {source : List Char}

/-! ### Modifiers -/

/-- The token begins an annotation or is a modifier, if one of the second kind comes behind it. -/
def modifies (token : Token) (second : Option TokenKind) : Bool :=
  match token.kind with
  | .atSign | .keyword .overrideKw | .keyword .sealedKw | .keyword .abstractKw | .keyword .finalKw | .keyword .lazyKw
  | .keyword .implicitKw | .keyword .privateKw | .keyword .protectedKw => true
  | .keyword .caseKw => second = some (.keyword .classKw) || second = some (.keyword .objectKw)
  | .ident =>
    match second with
    | some (.keyword word) => softModifiers.contains token.text && word.isDefinition
    | _ => false
  | _ => false

theorem modifies_of_spell (same : spell token' = spell token) (second : Option TokenKind) : modifies token' second = modifies token second := by
  unfold modifies
  rw [kind_of_spell same, text_of_spell same]

/-- Nothing is read in front of what is no modifier. -/
theorem modifierStep_stays {seen : Modifiers} (first : left.rest.head? = some token)
    (plain : modifies token (left.rest[1]?.map Token.kind) = false) : modifierStep seen source left = .ok (.done seen, left) := by
  have second : secondKind? source left = .ok (left.rest[1]?.map Token.kind, left) := rfl
  generalize left.rest[1]?.map Token.kind = next at plain second
  rw [modifierStep, bind_ok (peek?_at first)]
  unfold modifies at plain
  cases kind : token.kind with
  | keyword word =>
    rw [kind] at plain
    cases word with
    | caseKw =>
      simp only [Bool.or_eq_false_iff, decide_eq_false_iff_not] at plain
      simp only [kind]
      rw [bind_ok second]
      split
      · exact absurd rfl plain.1
      · exact absurd rfl plain.2
      · rfl
    | overrideKw | sealedKw | abstractKw | finalKw | lazyKw | implicitKw | privateKw | protectedKw => cases plain
    | _ => simp only [kind]; rfl
  | ident =>
    simp only [kind] at plain ⊢
    rw [bind_ok second]
    split
    · exact (congrFun (congrFun (if_neg (Bool.eq_false_iff.mp plain)) _) _).trans rfl
    · rfl
  | atSign =>
    rw [kind] at plain
    cases plain
  | _ => simp only [kind]; rfl

/-- Behind a modifier there may be another one. -/
theorem modifierStep_again {seen : Modifiers} (first : left.rest.head? = some token)
    (more : modifies token (left.rest[1]?.map Token.kind) = true) :
    Ensures source left (modifierStep seen) fun outcome next => (∃ later, outcome = .again later) ∧ Shorter left next := by
  have asks : ∀ {α : Type} {parser : Parser α} {seen : Modifiers} {cursor : Cursor}, Ensures source cursor
      (parser >>= fun _ => (pure (.again seen) : Parser (Step Modifiers Modifiers))) fun outcome _ => ∃ later, outcome = .again later :=
    ensures_bind.mpr fun _ _ _ => ensures_pure.mpr ⟨_, rfl⟩
  have second : secondKind? source left = .ok (left.rest[1]?.map Token.kind, left) := rfl
  generalize left.rest[1]?.map Token.kind = next at more second
  suffices again : Ensures source left (modifierStep seen) fun outcome _ => ∃ later, outcome = .again later by
    intro outcome after ran
    obtain ⟨later, rfl⟩ := again _ _ ran
    exact ⟨⟨later, rfl⟩, (modifierStep_strides seen).ensures source left _ _ ran⟩
  intro outcome after ran
  rw [modifierStep, bind_ok (peek?_at first)] at ran
  unfold modifies at more
  cases kind : token.kind with
  | keyword word =>
    rw [kind] at more
    simp only [kind] at ran
    cases word with
    | caseKw =>
      simp only [Bool.or_eq_true, decide_eq_true_eq] at more
      dsimp only at ran
      rw [bind_ok second] at ran
      rcases more with rfl | rfl <;> exact asks _ _ ran
    | overrideKw | sealedKw | abstractKw | finalKw | lazyKw | implicitKw => exact asks _ _ ran
    | privateKw | protectedKw => exact ensures_bind.mpr (fun _ _ _ => asks) _ _ ran
    | _ => cases more
  | ident =>
    simp only [kind] at more ran
    rw [bind_ok second] at ran
    split at more
    · dsimp only at ran
      rw [if_pos more] at ran
      exact asks _ _ ran
    · cases more
  | atSign =>
    simp only [kind] at ran
    exact asks _ _ ran
  | _ =>
    rw [kind] at more
    cases more

/-- The last step of modifiers reads nothing. -/
theorem modifierStep_done {seen mods : Modifiers} (ran : modifierStep seen source left = .ok (.done mods, left')) :
    mods = seen ∧ left' = left := by
  cases first : left.rest.head? with
  | none =>
    rw [modifierStep, bind_ok (show peek? source left = .ok (none, left) by rw [← first]; rfl)] at ran
    cases ran
    exact ⟨rfl, rfl⟩
  | some token =>
    cases plain : modifies token (left.rest[1]?.map Token.kind) with
    | true =>
      obtain ⟨⟨later, again⟩, -⟩ := modifierStep_again first plain _ _ ran
      cases again
    | false =>
      cases (modifierStep_stays first plain).symm.trans ran
      exact ⟨rfl, rfl⟩

/-- The kind of the second token in front of a flat seam. -/
theorem second_front {rest rest' : List Token} (flat : Flat seam) (later : ∀ stop stop', seam.Along ⟨rest, stop⟩ ⟨rest', stop'⟩) :
    (token' :: rest')[1]?.map Token.kind = (token :: rest)[1]?.map Token.kind := by
  rw [List.getElem?_cons_succ, List.getElem?_cons_succ, ← List.head?_eq_getElem?, ← List.head?_eq_getElem?]
  exact (later 0 0).kind flat

theorem modifierStep_meets (seen : Modifiers) : Meets Flat (modifierStep seen) (modifierStep seen) (Steps Eq Eq) := by
  intro seam flat left right along inside
  obtain ⟨token, rest, token', rest', shape, shape', same, later⟩ := along.front inside
  have calm : Calm seam := .inl flat
  have second := @second_front _ token token' _ _ flat later
  have done : Mirrors Calm (pure (.done seen) : Parser (Step Modifiers Modifiers)) (pure (.done seen)) (Steps Eq Eq) := .pure (.done rfl)
  have more : ∀ {seen : Modifiers}, Meets Calm (bump >>= fun _ => (pure (.again seen) : Parser (Step Modifiers Modifiers)))
      (bump >>= fun _ => (pure (.again seen) : Parser (Step Modifiers Modifiers))) (Steps Eq Eq) := .bumped (.pure (.again rfl))
  have squared : Meets Calm (bump >>= fun _ => skipSquare >>= fun _ => (pure (.again seen) : Parser (Step Modifiers Modifiers)))
      (bump >>= fun _ => skipSquare >>= fun _ => (pure (.again seen) : Parser (Step Modifiers Modifiers))) (Steps Eq Eq) :=
    .bumped (skipSquare_mirrors.then fun _ _ _ => .pure (.again rfl))
  have annotated : Meets Calm ( annotation >>= fun _ => (pure (.again seen) : Parser (Step Modifiers Modifiers)))
      ( annotation >>= fun _ => (pure (.again seen) : Parser (Step Modifiers Modifiers))) (Steps Eq Eq) := by
    unfold annotation
    simp only [bind_assoc]
    refine .bumped ((path_mirrors _).then fun _ _ _ => skipSquare_mirrors.then fun _ _ _ => ?_)
    exact skipGroups_mirrors.then fun _ _ _ => .pure (.again rfl)
  rw [modifierStep, follows_peek?, shape, shape', List.head?_cons, List.head?_cons]
  dsimp only
  rw [kind_of_spell same, text_of_spell same]
  split
  · exact annotated seam calm left right along inside
  iterate 6 exact more seam calm left right along inside
  iterate 2 exact squared seam calm left right along inside
  · rw [follows_secondKind?, shape, shape', second]
    split
    · exact more seam calm left right along inside
    · exact more seam calm left right along inside
    · exact done seam calm left right along
  · rw [follows_secondKind?, shape, shape', second]
    split
    · exact follows_choice (fun _ => more seam calm left right along inside) fun _ => done seam calm left right along
    · exact done seam calm left right along
  · exact done seam calm left right along

theorem modifies_eq (plain : ¬ Looks token.kind) (second second' : Option TokenKind) : modifies token second' = modifies token second := by
  unfold modifies
  cases kind : token.kind with
  | ident => exact absurd (.inl kind) plain
  | keyword word =>
    cases word with
    | caseKw => exact absurd (.inr (.inr (.inr (.inl kind)))) plain
    | _ => rfl
  | _ => rfl

/-- At a flush seam there is no other modifier in the second text. -/
theorem modifies_flush (flush : Flush seam) (first : seam.back.head? = some token)
    (plain : modifies token (seam.back[1]?.map Token.kind) = false) : modifies token (seam.back'[1]?.map Token.kind) = false := by
  by_cases looks : Looks token.kind
  · rcases flush.second token first looks with alike | ⟨ends, added⟩
    · rw [alike, plain]
    · have firm := flush.firm token first
      rw [ends] at plain firm
      unfold modifies at plain ⊢
      rcases looks with kind | kind | kind | kind | kind <;> rw [kind] at plain ⊢
      · rcases added with added | added <;> rw [added]
        · exact Bool.and_false _
        · exact Bool.and_eq_false_imp.mpr fun soft => absurd added (firm kind soft rfl)
      · rcases added with added | added <;> rw [added] <;> rfl
  · rw [modifies_eq looks, plain]

theorem modifierStep_mirrors (seen : Modifiers) : Mirrors Flush (modifierStep seen) (modifierStep seen) (Steps Eq Eq) := by
  refine .cut (fun seam flush => modifierStep_meets seen seam flush.toFlat) fun seam flush left right along ends ends' => ?_
  cases twins : seam.back.head? with
  | none =>
    have head : seam.back'.head? = none := by simpa [twins] using flush.head
    rw [modifierStep, follows_peek?, ends, ends', twins, head]
    exact follows_pure ⟨.done rfl, along⟩
  | some token =>
    obtain ⟨token', head, same⟩ : ∃ token', seam.back'.head? = some token' ∧ spell token' = spell token := by
      have head := flush.head
      rwa [twins, Option.map_some, Option.map_eq_some_iff] at head
    have first : left.rest.head? = some token := by rw [ends, twins]
    cases plain : modifies token (left.rest[1]?.map Token.kind) with
    | true => exact follows_over (by rw [ends]) (ensures_mono (modifierStep_again first plain) fun _ _ => And.right)
    | false =>
      intro outcome next ran _
      cases (modifierStep_stays first plain).symm.trans ran
      rw [ends] at plain
      have plain' : modifies token' (right.rest[1]?.map Token.kind) = false := by
        rw [ends', modifies_of_spell same]
        exact modifies_flush flush twins plain
      exact ⟨_, right, modifierStep_stays (by rw [ends', head]) plain', .done rfl, along⟩

theorem modifiers_mirrors : Mirrors Flush modifiers modifiers Eq := by
  refine .iterate Eq ?_ rfl
  rintro seen _ rfl
  exact modifierStep_mirrors seen

/-- In front of what is no modifier the modifiers end. -/
theorem modifiers_stays (first : left.rest.head? = some token) (plain : modifies token (left.rest[1]?.map Token.kind) = false) :
    modifiers source left = .ok (⟨false, false⟩, left) := iterateFrom_done (modifierStep_stays first plain)

/-- A soft modifier in front of a definition is read. -/
theorem modifierStep_soft {seen : Modifiers} {rest : List Token} {stop : Nat} {word : Keyword} (named : token.kind = .ident)
    (soft : softModifiers.contains token.text = true) (second : rest.head?.map Token.kind = some (.keyword word))
    (defines : word.isDefinition = true) :
    modifierStep seen source ⟨token :: rest, stop⟩ = .ok (.again seen, ⟨rest, token.stop⟩) := by
  have looked : secondKind? source ⟨token :: rest, stop⟩ = .ok (some (.keyword word), ⟨token :: rest, stop⟩) := by
    rw [← second, List.head?_eq_getElem?]
    rfl
  rw [modifierStep, bind_ok (peek?_run token rest stop)]
  simp only [named]
  rw [bind_ok looked]
  simp only [soft, defines, Bool.and_self, if_true]
  rfl

/-- Modifiers that end at a flat seam may go on behind it in the second text. -/
theorem modifiers_reach {seen mods : Modifiers} {stop : Nat} (flat : Flat seam) (along : seam.Along left right)
    (ran : iterateFrom modifierStep seen seam.source left = .ok (mods, ⟨seam.back, stop⟩)) :
    ∃ stop', iterateFrom modifierStep seen seam.other right = iterateFrom modifierStep mods seam.other ⟨seam.back', stop'⟩ := by
  generalize whole : (mods, (⟨seam.back, stop⟩ : Cursor)) = result at ran
  fun_induction iterateFrom modifierStep seen seam.source left generalizing right with
  | case1 => cases ran
  | case2 seen left value next stepped =>
    cases ran
    cases whole
    obtain ⟨rfl, rfl⟩ := modifierStep_done stepped
    obtain ⟨tokens', stop'⟩ := right
    obtain rfl : tokens' = seam.back' := along.ends (Nat.le_refl _)
    exact ⟨stop', rfl⟩
  | case3 seen left later next stepped shorter ih =>
    cases whole
    have suffix := ((Advances.again modifierStep_advances : Advances (Parser.iterate modifierStep later)).ensures seam.source next _ _ ran).suffix
    have inside : seam.back.length ≤ next.rest.length := suffix.length_le
    have before : seam.back.length < left.rest.length := Nat.lt_of_le_of_lt inside shorter
    obtain ⟨_, next', run, outcome, along'⟩ := modifierStep_meets seen seam flat left right along before _ _ stepped inside
    cases outcome with | again same => ?_
    cases same
    have shorter' : Shorter right next' := by
      have length := along.length
      have length' := along'.length
      show next'.rest.length < right.rest.length
      omega
    obtain ⟨stop', reached⟩ := ih along' ran
    exact ⟨stop', (iterateFrom_again run shorter').trans reached⟩
  | case4 => cases ran

/-- A word at the end of a body may be a modifier of the trait that comes next in the second text. -/
theorem modifiers_loose {mods : Modifiers} {cursor : Cursor} (along : seam.Along left right)
    (ran : modifiers seam.source left = .ok (mods, cursor)) (shape : cursor.rest = token :: seam.back) (named : token.kind = .ident)
    (soft : softModifiers.contains token.text = true) (ends : seam.back.head?.map Token.kind = some (.closer .brace))
    (trait : seam.back'.head?.map Token.kind = some (.keyword .traitKw)) :
    ∃ mods' stop, modifiers seam.other right = .ok (mods', ⟨seam.back', stop⟩) := by
  obtain ⟨tokens, stop⟩ := cursor
  obtain rfl : tokens = [token] ++ seam.back := shape
  obtain ⟨pre, whole⟩ := (modifiers_advances.ensures _ _ _ _ ran).suffix
  obtain ⟨front', alike, along'⟩ := along.recut whole.symm
  obtain ⟨token', rfl, same⟩ := List.map_eq_singleton_iff.mp alike
  have flat : Flat ⟨seam.source, seam.other, [token] ++ seam.back, [token'] ++ seam.back'⟩ := by
    refine ⟨congrArg some same, fun _ _ _ => .inr ⟨?_, .inr ?_⟩⟩
    · rwa [List.head?_eq_getElem?] at ends
    · rwa [List.head?_eq_getElem?] at trait
  obtain ⟨stop', reached⟩ := modifiers_reach flat along' ran
  have again : modifierStep mods seam.other ⟨[token'] ++ seam.back', stop'⟩ = .ok (.again mods, ⟨seam.back', token'.stop⟩) :=
    modifierStep_soft ((kind_of_spell same).trans named) (by rwa [text_of_spell same]) trait rfl
  obtain ⟨first, head, kind⟩ := Option.map_eq_some_iff.mp trait
  have last : modifierStep mods seam.other ⟨seam.back', token'.stop⟩ = .ok (.done mods, ⟨seam.back', token'.stop⟩) :=
    modifierStep_stays head (by simp only [modifies, kind])
  exact ⟨mods, token'.stop, reached.trans ((iterateFrom_again again (Nat.lt_succ_self _)).trans (iterateFrom_done last))⟩

/-! ### Statements -/

theorem skipRest_mirrors : Mirrors Closing skipRest skipRest Either := by
  refine .again Either (fun _ => .then inferInstance fun kind => by split <;> infer_instance) (fun _ _ _ => ?_) trivial
  have more : Meets Closing (bump >>= fun _ => (pure (.again ()) : Parser (Step Unit Unit)))
      (bump >>= fun _ => (pure (.again ()) : Parser (Step Unit Unit))) (Steps Either Either) := .bumped (.pure (.again trivial))
  have done : Mirrors Closing (pure (.done ()) : Parser (Step Unit Unit)) (pure (.done ()) : Parser (Step Unit Unit))
      (Steps Either Either) := .pure (.done trivial)
  refine .cut (.peekingKind fun kind => ?_) fun seam closing left right along ends ends' => ?_
  · split
    · contradiction
    · exact done.meets
    · exact Mirrors.meets .fail
    · exact .bumped done
    · exact done.meets
    · exact Mirrors.meets (skipGroup_mirrors.then fun _ _ _ => .pure (.again trivial))
    · exact .choice (fun _ => done.meets) fun _ => more
    · exact more
  · -- At the seam nothing is read in the first text.
    have stays := done seam closing left right along
    rw [follows_peekKind?]
    rcases closing with flush | ⟨closes, added⟩
    · rw [along.kind flush.toFlat]
      cases head : left.rest.head? with
      | none => exact stays
      | some token =>
        have bumped : ∀ {first second : Parser (Step Unit Unit)}, Advances first → Follows seam left right (bump >>= fun _ => first) second
            fun a left' b right' => Steps Either Either a b ∧ seam.Along left' right' := fun _ =>
          follows_over (by rw [ends]) (shorter_then (bump_shorter head) fun _ => inferInstance)
        rw [Option.map_some]
        split
        · contradiction
        · exact stays
        · exact fun _ _ ran => absurd ran fail_ne_ok
        · exact bumped inferInstance
        · exact stays
        · exact follows_over (by rw [ends]) (Takes.ensures _ _)
        · exact follows_choice (fun _ => stays) fun _ => bumped inferInstance
        · exact bumped inferInstance
    · rw [ends, ends', closes]
      rcases added with added | added
      all_goals
        rw [added]
        exact stays

/-- A statement is read where it begins in front of the seam, or there is none. -/
theorem skipStatement_mirrors : Mirrors Closing skipStatement skipStatement Either := by
  refine .cut (.peekingKind fun kind => ?_) fun seam closing left right along ends ends' => ?_
  · split
    · contradiction
    · exact Mirrors.meets (skipGroup_mirrors.then fun _ _ _ => skipRest_mirrors)
    · exact Mirrors.meets .fail
    · exact .bumped skipRest_mirrors
  · cases head : left.rest.head? with
    | none =>
      have head' : right.rest.head?.map Token.kind = none := by
        rcases closing with flush | ⟨closes, -⟩
        · rw [along.kind flush.toFlat, head, Option.map_none]
        · rw [← ends, head] at closes
          cases closes
      rw [skipStatement, follows_peekKind?, head', head, Option.map_none]
      exact follows_pure ⟨trivial, along⟩
    | some token => exact follows_over (by rw [ends]) (skipStatement_shorter head)

theorem bump_closing : Mirrors Closing bump bump Twins := by
  refine .cut bump_meets fun seam closing left right along ends ends' => ?_
  rcases closing with flush | ⟨closes, -⟩
  · exact bump_mirrors seam flush left right along
  · obtain ⟨token, head, -⟩ := Option.map_eq_some_iff.mp closes
    exact follows_over (by rw [ends]) (bump_shorter (by rw [ends, head]))

theorem namedStatement_mirrors : Mirrors Closing namedStatement namedStatement Twins := by
  refine bump_closing.then fun _ _ _ => (name?_mirrors.on fun _ => Closing.quiet).then fun _ _ same => ?_
  exact skipRest_mirrors.then fun _ _ _ => .pure same

/-! ### Parameters -/

theorem skipValVar_mirrors : Mirrors Flush skipValVar skipValVar Either := by
  refine (isAt_mirrors _).then ?_
  rintro isVal _ rfl
  refine (isAt_mirrors _).then ?_
  rintro isVar _ rfl
  exact .choice (fun _ => bump_mirrors.then fun _ _ _ => .pure trivial) fun _ => .pure trivial

theorem paramName_mirrors : Mirrors Flush paramName paramName Either := by
  intro seam flush left right along
  rw [paramName, follows_peek?]
  have second := fun token => @Seam.Along.second _ _ _ token along flush.toFlat
  have twins := twins_of_map (along.head flush.toFlat)
  generalize left.rest.head? = first, right.rest.head? = first' at twins second
  have unnamed : Mirrors Flush (pure "_" : Parser String) (pure "_" : Parser String) Either := .pure trivial
  cases twins with
  | none => exact unnamed seam flush left right along
  | @some token token' same =>
    dsimp only
    rw [follows_secondKind?, kind_of_spell same]
    have colon : (decide (token.kind = .ident) || decide (token.kind = .underscore)) = true →
        (right.rest[1]?.map Token.kind = some .colon ↔ left.rest[1]?.map Token.kind = some .colon) := by
      intro word
      have looks : Looks token.kind := by
        rcases Bool.or_eq_true_iff.mp word with kind | kind <;> simp [of_decide_eq_true kind, Looks]
      rcases second token rfl looks with alike | ⟨ends, added | added⟩
      · rw [alike]
      all_goals simp [ends, added]
    have named : Mirrors Flush (bump >>= fun _ => bump >>= fun _ => (pure token.text : Parser String))
        (bump >>= fun _ => bump >>= fun _ => (pure token'.text : Parser String)) Either :=
      bump_mirrors.then fun _ _ _ => bump_mirrors.then fun _ _ _ => .pure trivial
    by_cases word : (decide (token.kind = .ident) || decide (token.kind = .underscore)) = true
    · rw [word, Bool.true_and, Bool.true_and, decide_eq_decide.mpr (colon word)]
      exact follows_choice (fun _ => named seam flush left right along) fun _ => unnamed seam flush left right along
    · rw [Bool.not_eq_true] at word
      rw [word, Bool.false_and, Bool.false_and]
      exact unnamed seam flush left right along

theorem skipDefault_mirrors : Mirrors Flush skipDefault skipDefault Either :=
  .eating (flush_asks _) ((scanUntil_mirrors _).then fun _ _ _ => .pure trivial) (.pure trivial)

theorem param_mirrors : Mirrors Flush param param Either := by
  refine modifiers_mirrors.before (fun _ => .then inferInstance fun _ => .then inferInstance fun _ =>
    .then inferInstance fun type => by cases type <;> infer_instance) fun _ _ _ => ?_
  refine skipValVar_mirrors.before (fun _ => .then inferInstance fun _ =>
    .then inferInstance fun type => by cases type <;> infer_instance) fun _ _ _ => ?_
  refine paramName_mirrors.before (fun _ =>
    .then inferInstance fun type => by cases type <;> infer_instance) fun _ _ _ => ?_
  refine (scanUntil_mirrors _).before (fun type => by cases type <;> infer_instance) fun type type' both => ?_
  cases type with
  | none => exact .fail
  | some span =>
    obtain ⟨span', rfl⟩ := Option.isSome_iff_exists.mp (show type'.isSome = true from both)
    exact skipDefault_mirrors.then fun _ _ _ => read_mirrors.then fun _ _ _ => .pure trivial

theorem usingMark_mirrors : Mirrors Flush usingMark usingMark Eq := by
  refine looking (.pure rfl) fun token token' same => ?_
  dsimp only
  rw [kind_of_spell same, text_of_spell same]
  exact .choice (fun _ => bump_mirrors.then fun _ _ _ => .pure rfl) fun _ => .pure rfl

theorem implicitMark_mirrors (isUsing : Bool) : Mirrors Flush (implicitMark isUsing) (implicitMark isUsing) Eq :=
  .choice (fun _ => .pure rfl) fun _ => eats_mirrors _

theorem params_mirrors : Mirrors Flush params params Either := by
  refine .iterate Either (fun _ _ _ => (isAt_mirrors _).then ?_) trivial
  rintro closes _ rfl
  refine .choice (fun _ => .pure (.done trivial)) fun _ => param_mirrors.then fun _ _ _ => ?_
  exact .eating (flush_asks _) (.pure (.again trivial)) (.pure (.done trivial))

theorem paramList_mirrors : Mirrors Flush paramList paramList Either := by
  refine (expect_mirrors _ _).then fun _ _ _ => usingMark_mirrors.then ?_
  rintro isUsing _ rfl
  refine (implicitMark_mirrors isUsing).then fun _ _ _ => params_mirrors.then fun _ _ _ => ?_
  exact (expect_mirrors _ _).then fun _ _ _ => .pure trivial

theorem paramLists_mirrors : Mirrors Flush paramLists paramLists Either := by
  refine .iterate Either (fun _ _ _ => (isAt_mirrors _).then ?_) trivial
  rintro opens _ rfl
  exact .choice (fun _ => paramList_mirrors.then fun _ _ _ => .pure (.again trivial)) fun _ => .pure (.done trivial)

/-! ### Methods -/

/-- What a result type tells: its head, and whether it is applied. -/
def resultGist (result : ResultType) : String × Bool := (result.head, result.arg.isSome)

theorem resultArg_mirrors : Mirrors Flush resultArg resultArg BothSome :=
  group_mirrors (flush_asks _) (fun _ _ => (groupText_mirrors _ _).then fun _ _ _ => .pure rfl) (.pure rfl)

theorem namedResult_mirrors (start start' : Nat) :
    Mirrors Flush (namedResult start) (namedResult start') fun a b => resultGist b = resultGist a := by
  refine ((path_mirrors _).on fun _ flush => (Flush.quiet flush).calm).then fun name name' named => ?_
  refine resultArg_mirrors.then fun arg arg' applied => (scanUntil_mirrors _).then fun more more' goes => ?_
  refine lastStop_mirrors.then fun _ _ _ => read_mirrors.then fun _ _ _ => .pure ?_
  have applied' : (if more'.isSome = true then none else arg').isSome = (if more.isSome = true then none else arg).isSome := by
    rw [show more'.isSome = more.isSome from goes]
    split
    · rfl
    · exact applied
  rw [resultGist, resultGist]
  exact Prod.ext (by rw [named]) applied'

theorem otherResult_mirrors (start start' : Nat) :
    Mirrors Flush (otherResult start) (otherResult start') fun a b => resultGist b = resultGist a := by
  refine (scanUntil_mirrors _).before (fun type => by cases type <;> infer_instance) fun type type' both => ?_
  cases type with
  | none => exact .fail
  | some span =>
    obtain ⟨span', rfl⟩ := Option.isSome_iff_exists.mp (show type'.isSome = true from both)
    exact read_mirrors.then fun _ _ _ => .pure rfl

theorem resultType_mirrors : Mirrors Flush resultType resultType fun a b => resultGist b = resultGist a := by
  refine here_mirrors.then fun _ _ _ => lookingKind fun kind => ?_
  exact .choice (fun _ => namedResult_mirrors _ _) fun _ => otherResult_mirrors _ _

theorem methodTypeParams_mirrors : Mirrors Flush methodTypeParams methodTypeParams Either :=
  .option (flush_asks _) (fun source cursor _ => Takes.ensures source cursor)
    (typeParams_mirrors.then fun _ _ _ => (groupText_mirrors _ _).then fun _ _ _ => .pure trivial) (.pure trivial)

theorem methodResult_mirrors : Mirrors Flush methodResult methodResult fun a b => b.map resultGist = a.map resultGist :=
  .eating (flush_asks _) (resultType_mirrors.then fun _ _ same => .pure (congrArg some same)) (.pure rfl)

theorem methodBody_mirrors : Mirrors Flush methodBody methodBody Eq := by
  refine lookingKind fun kind => ?_
  split
  · exact bump_mirrors.then fun _ _ _ => (skipStatement_mirrors.on fun _ => .inl).then fun _ _ _ => .pure rfl
  · exact skipGroup_mirrors.then fun _ _ _ => .pure rfl
  · exact .pure rfl

/-- What the rule looks at in a method. -/
def methodGist (method : Method) : Option (String × Bool) := method.result.map resultGist

theorem method_mirrors : Mirrors Flush method method fun a b => methodGist b.1 = methodGist a.1 ∧ b.2 = a.2 := by
  refine (expect_mirrors _ _).then fun _ _ _ => (expectName_mirrors _).then fun _ _ _ => ?_
  refine methodTypeParams_mirrors.then fun _ _ _ => paramLists_mirrors.then fun _ _ _ => ?_
  refine methodResult_mirrors.then fun _ _ same => lastStop_mirrors.then fun _ _ _ => ?_
  exact methodBody_mirrors.then fun _ _ abstract => .pure ⟨same, abstract.symm⟩

/-! ### Bodies -/

/-- One more statement, or the end of a body. -/
def bodyStep (statement : σ → Parser σ) (openBrace : Nat) (seen : σ) : Parser (Step σ (σ × Body)) := do
  match ← closeBody? openBrace with
  | some body => return .done (seen, body)
  | none => return .again (← statement seen)

/-- The statements between braces. -/
def bodyOf (statement : σ → Parser σ) (none : σ) : Parser (σ × Body) := do
  let openBrace ← openBody
  iterate (bodyStep statement openBrace) none

theorem traitBody_eq : traitBody = bodyOf traitStatement ⟨[], false⟩ := rfl

theorem holderBody_eq : holderBody = bodyOf (fun seen => here >>= fun start => holderStatement start seen) ⟨[], []⟩ := by
  refine congrArg (openBody >>= ·) (funext fun openBrace => congrArg (iterate · _) (funext fun seen => ?_))
  refine congrArg (closeBody? openBrace >>= ·) (funext fun found => ?_)
  cases found with
  | none => exact (bind_assoc here _ _).symm
  | some body => rfl

instance bodyStep_advances {statement : σ → Parser σ} [∀ seen, Advances (statement seen)] (openBrace : Nat) (seen : σ) :
    Advances (bodyStep statement openBrace seen) := by
  refine .then inferInstance fun found => ?_
  split <;> infer_instance

theorem closeBody?_mirrors (openBrace openBrace' : Nat) :
    Mirrors Flush (closeBody? openBrace) (closeBody? openBrace') BothSome := by
  refine (eatAll_mirrors (flush_asks .semi)).before (fun _ => .then inferInstance fun first => by cases first <;> infer_instance)
    fun _ _ _ => looking .throw fun token token' same => ?_
  dsimp only
  rw [kind_of_spell same]
  exact .choice (fun _ => bump_mirrors.then fun _ _ _ => .pure rfl) fun _ => .pure rfl

/-- The end of a body that is read is the end in both texts. -/
theorem closeBody?_ends {openBrace : Nat} {body : Body} (openBrace' : Nat) (along : seam.Along left right)
    (closed : closeBody? openBrace seam.source left = .ok (some body, left')) (inside : seam.back.length ≤ left'.rest.length) :
    ∃ body' right', closeBody? openBrace' seam.other right = .ok (some body', right') ∧ seam.Along left' right' := by
  obtain ⟨⟨_, stop⟩, closing, ate, rfl, kind, -⟩ := closeBody?_some closed
  have suffix := (eatAll_advances .semi).ensures seam.source left _ _ ate |>.suffix
  obtain ⟨front, shape⟩ := along.behind (.trans (List.suffix_cons _ _) suffix) inside
  obtain ⟨_, ⟨tokens', stop'⟩, ate', -, along'⟩ := (eatAll_mirrors (flush_asks .semi)).recut along ate
    (show closing :: left'.rest = (closing :: front) ++ seam.back from congrArg (closing :: ·) shape) fun front' alike =>
      @flush_at _ _ left'.rest _ _ alike (by rw [shape]; rfl) inside (by simp [kind, Looks])
  obtain ⟨closing', rest', rfl, same, later⟩ := along'.next rfl inside
  exact ⟨_, _, closeBody?_closes ate' ((kind_of_spell same).trans kind), later _ _⟩

/-- The self type of a body in front of the seam is the same in both texts. -/
theorem skipSelfType_follows {front : List Token} (along : seam.Along left right)
    (skipped : skipSelfType seam.source left = .ok ((), left')) (shape : left'.rest = front ++ seam.back) (matched : Matched front)
    (halts : Halts seam.back') : ∃ right', skipSelfType seam.other right = .ok ((), right') ∧ seam.Along left' right' := by
  obtain ⟨all, all', whole, whole', alike⟩ := id along
  rcases skipSelfType_cases skipped with ⟨arrow, found⟩ | ⟨absent, rfl⟩
  · rw [whole] at found
    obtain ⟨index, arrow', rest, found'⟩ := selfType?_front (kinds_of_spells alike) found (by rw [shape]; simp)
    exact ⟨_, skipSelfType_run (whole' ▸ found'), _, _, rest, rfl, by rw [List.map_drop, List.map_drop, alike]⟩
  · obtain rfl := List.append_cancel_right (whole.symm.trans shape)
    rw [whole] at absent
    exact ⟨right, skipSelfType_stays (whole' ▸ selfType?_absent (kinds_of_spells alike) matched absent halts), along⟩

theorem bodyStep_mirrors {statement : σ → Parser σ} {kept : σ → σ → Prop} [∀ seen, Advances (statement seen)]
    (mirrors : ∀ seen seen', kept seen seen' → Mirrors Flush (statement seen) (statement seen') kept) (openBrace openBrace' : Nat)
    (seen seen' : σ) (keeps : kept seen seen') : Mirrors Flush (bodyStep statement openBrace seen) (bodyStep statement openBrace' seen')
      (Steps kept fun a b => kept a.1 b.1) := by
  refine (closeBody?_mirrors openBrace openBrace').before (fun found => by cases found <;> infer_instance) fun found found' both => ?_
  cases found with
  | none =>
    obtain rfl : found' = none := Option.isSome_eq_false_iff.mp both |> Option.isNone_iff_eq_none.mp
    exact (mirrors seen seen' keeps).then fun _ _ keeps => .pure (.again keeps)
  | some body =>
    obtain ⟨body', rfl⟩ := Option.isSome_iff_exists.mp (show found'.isSome = true from both)
    exact .pure (.done keeps)

theorem bodyStep_ends {statement : σ → Parser σ} {kept : σ → σ → Prop} (openBrace openBrace' : Nat) (seen seen' : σ)
    (keeps : kept seen seen') (seam : Seam) (left right : Cursor) (along : seam.Along left right) (result : σ × Body) (left' : Cursor)
    (ended : bodyStep statement openBrace seen seam.source left = .ok (.done result, left'))
    (inside : seam.back.length ≤ left'.rest.length) : ∃ result' right',
      bodyStep statement openBrace' seen' seam.other right = .ok (.done result', right') ∧ kept result.1 result'.1 ∧
        seam.Along left' right' := by
  obtain ⟨found, middle, closed, ended⟩ := bind_eq_ok ended
  cases found with
  | none =>
    obtain ⟨_, _, -, ended⟩ := bind_eq_ok ended
    cases ended
  | some body =>
    cases ended
    obtain ⟨body', right', closed', along'⟩ := closeBody?_ends openBrace' along closed inside
    exact ⟨(seen', body'), right', (bind_ok closed').trans rfl, keeps, along'⟩

/-- Statements that are the same in front of flush seams make bodies that are the same wherever
the seam is. -/
theorem body_mirrors {statement : σ → Parser σ} {kept : σ → σ → Prop} [∀ seen, Advances (statement seen)]
    [∀ seen, Balances (statement seen)] (mirrors : ∀ seen seen', kept seen seen' → Mirrors Flush (statement seen) (statement seen') kept)
    {none : σ} (start : kept none none) :
    Mirrors good (bodyOf statement none) (bodyOf statement none) fun a b => kept a.1 b.1 := by
  intro seam _ left right along result left' ran inside
  obtain ⟨openBrace, begun, opened, ran⟩ := bind_eq_ok ran
  obtain ⟨brace, inner, expected, opened⟩ := bind_eq_ok opened
  obtain ⟨_, _, skipped, opened⟩ := bind_eq_ok opened
  cases opened
  obtain ⟨shape, kind, -⟩ := expect_some expected
  have encloses : ∀ source cursor seen, Ensures source cursor (bodyStep statement brace.start seen) (Encloses .brace cursor) :=
    fun source cursor seen => bodyStep_encloses brace.start fun _ _ => again_encloses inferInstance
  obtain ⟨front, closing, rest, matched, closes⟩ := iterate_closes encloses _ _ ran
  obtain ⟨header, headed⟩ := (skipSelfType_advances.ensures _ _ _ _ skipped).suffix
  have suffix : left'.rest <:+ inner.rest := ⟨header ++ (front ++ [closing]), by rw [← headed, rest]; simp⟩
  obtain ⟨brace', rest', expected', same, later⟩ := along.next shape (Nat.le_trans inside suffix.length_le)
  obtain ⟨middle, ends⟩ := (later inner.lastStop brace'.stop).behind suffix inside
  -- The self type is looked for in front of the closing brace only.
  have cut : inner.rest = (header ++ front) ++ (closing :: middle ++ seam.back) := by rw [← headed, rest, ends]; simp
  obtain ⟨_, alike, along'⟩ := (later inner.lastStop brace'.stop).recut cut
  obtain ⟨closing', middle', rfl, same', -⟩ := List.map_eq_cons_iff.mp alike
  obtain ⟨begun', skipped', along'⟩ := skipSelfType_follows along' skipped (by rw [rest, ends]; rfl) matched
    ⟨closing', middle' ++ seam.back', rfl, .inl ((kind_of_spell same').trans closes)⟩
  have loop : Mirrors Any (iterate (bodyStep statement brace.start) none) (iterate (bodyStep statement brace'.start) none)
      fun a b => kept a.1 b.1 :=
    .enclosed kept encloses (bodyStep_mirrors mirrors _ _) (bodyStep_ends _ _) start
  obtain ⟨result', right', run, relates, along''⟩ := loop seam trivial begun begun' (along'.extend alike) result left' ran inside
  obtain ⟨tokens, stop⟩ := right
  cases expected'
  exact ⟨result', right', (bind_ok (openBody_run ((kind_of_spell same).trans kind) skipped')).trans run, relates, along''⟩

/-! ### Traits -/

/-- What the rule looks at in the members of a trait. -/
def traitGist (members : TraitMembers) : List (Option (String × Bool)) × Bool := (members.methods.map methodGist, members.hasConcrete)

theorem traitStatement_mirrors (seen seen' : TraitMembers) (same : traitGist seen' = traitGist seen) :
    Mirrors Flush (traitStatement seen) (traitStatement seen') fun a b => traitGist b = traitGist a := by
  obtain ⟨methods, concrete⟩ := Prod.mk.inj same
  refine modifiers_mirrors.before (fun _ => .then inferInstance fun kind => by split <;> infer_instance) fun _ _ _ => ?_
  refine lookingKind fun kind => ?_
  split
  · refine method_mirrors.then ?_
    rintro ⟨method, abstract⟩ ⟨method', _⟩ ⟨gist, rfl⟩
    refine .pure ?_
    dsimp only [TraitMembers.addMethod]
    split
    · exact Prod.ext (by simp [traitGist, methods, gist]) concrete
    · exact Prod.ext methods rfl
  · exact (importClauses_mirrors.on fun _ => Flush.quiet).then fun _ _ _ => .pure same
  · exact (skipStatement_mirrors.on fun _ => .inl).then fun _ _ _ => .pure (Prod.ext methods rfl)

theorem traitBody_mirrors : Mirrors good traitBody traitBody fun a b => traitGist b.1 = traitGist a.1 := by
  rw [traitBody_eq]
  exact body_mirrors traitStatement_mirrors rfl

instance openBody_takes : Takes openBody := .then inferInstance inferInstance

instance traitBody_takes : Takes traitBody := by
  rw [traitBody_eq]
  exact .then inferInstance inferInstance

theorem optionalTraitBody_mirrors : Mirrors Quiet optionalTraitBody optionalTraitBody fun a b => traitGist b.1 = traitGist a.1 :=
  .option (quiet_asks (.inl rfl)) (fun source cursor _ => Takes.ensures source cursor)
    (traitBody_mirrors.then fun _ _ same => .pure same) (.pure rfl)

/-- What the rule looks at in a trait. -/
def interfaceGist (interface : Interface) :
    String × List (String × ParamKind) × List DottedName × List (Option (String × Bool)) × Bool :=
  (interface.name, interface.typeParams.map typeParamGist, interface.parents.map Parent.name,
    interface.methods.map methodGist, interface.hasConcreteMembers)

/-- A trait is the same when something other than a body is added behind it. -/
theorem interface_mirrors : Mirrors Quiet interface interface fun a b => interfaceGist b = interfaceGist a := by
  refine (expect_mirrors _ _).then fun _ _ _ => (expectName_mirrors _).then fun name name' named => ?_
  refine traitTypeParams_mirrors.then fun params params' same => ?_
  refine (skipGroups_mirrors.on fun _ => Quiet.calm).then fun _ _ _ => ?_
  refine (extendsClause_mirrors.on fun _ => Quiet.calm).then fun parents parents' others => ?_
  refine optionalTraitBody_mirrors.then fun body body' members => lastStop_mirrors.then fun _ _ _ => .pure ?_
  obtain ⟨methods, concrete⟩ := Prod.mk.inj members
  dsimp only [interfaceGist]
  rw [text_of_spell named, same, others, methods, concrete]

/-! ### Objects -/

/-- What is read behind the modifiers of a statement, which begins with a token of the kind. -/
def holderRest (start : Nat) (seen : HolderMembers) (mods : Modifiers) : Option TokenKind → Parser HolderMembers
  | some (.keyword .traitKw) => do
    let nested ← interface
    let member : Member := ⟨nested.name, .interface, mods.isImplicit, ⟨start, ← lastStop⟩⟩
    return ⟨seen.members ++ [member], seen.nested ++ [nested]⟩
  | some (.keyword .importKw) => do
    let _ ← importClauses
    return seen
  | some (.keyword word) =>
    match memberKind? word with
    | some kind => do
      let name ← namedStatement
      let span : Span := ⟨start, ← lastStop⟩
      return seen.addMember name kind mods.isImplicit span
    | none => do
      skipStatement
      return seen
  | _ => do
    skipStatement
    return seen

theorem holderStatement_eq (start : Nat) (seen : HolderMembers) :
    holderStatement start seen = modifiers >>= fun mods => peekKind? >>= holderRest start seen mods := by
  refine congrArg (modifiers >>= ·) (funext fun mods => congrArg (peekKind? >>= ·) (funext fun kind => ?_))
  unfold holderRest
  rfl

/-- The names of the members. -/
def memberNames (members : HolderMembers) : List String := members.members.map Member.name

variable {seen seen' : HolderMembers} {before : List String}

theorem memberNames_append (same : memberNames seen' = before ++ memberNames seen) {member member' : Member}
    {nested nested' : List Interface} (named : member'.name = member.name) :
    memberNames ⟨seen'.members ++ [member'], nested'⟩ = before ++ memberNames ⟨seen.members ++ [member], nested⟩ := by
  simp only [memberNames, List.map_append, List.map_singleton, named] at same ⊢
  rw [same, List.append_assoc]

theorem addMember_names (same : memberNames seen' = before ++ memberNames seen) {name name' : Option Token} (twins : Twins name name')
    (kind : MemberKind) (implicit implicit' : Bool) (span span' : Span) :
    memberNames (seen'.addMember name' kind implicit' span') = before ++ memberNames (seen.addMember name kind implicit span) := by
  cases twins with
  | none => exact same
  | some alike => exact memberNames_append same (text_of_spell alike)

instance holderRest_advances (start : Nat) (mods : Modifiers) (kind : Option TokenKind) : Advances (holderRest start seen mods kind) := by
  unfold holderRest
  split
  · infer_instance
  · infer_instance
  · split <;> infer_instance
  · infer_instance

/-- The end of a statement is the same where another statement comes behind it. -/
theorem holderRest_mirrors (start start' : Nat) (same : memberNames seen' = before ++ memberNames seen) (mods mods' : Modifiers)
    (kind : Option TokenKind) : Mirrors Closing (holderRest start seen mods kind) (holderRest start' seen' mods' kind)
      fun a b => memberNames b = before ++ memberNames a := by
  have skipped : Mirrors Closing (skipStatement >>= fun _ => (pure seen : Parser HolderMembers))
      (skipStatement >>= fun _ => (pure seen' : Parser HolderMembers)) fun a b => memberNames b = before ++ memberNames a :=
    skipStatement_mirrors.then fun _ _ _ => .pure same
  unfold holderRest
  split
  · refine (interface_mirrors.on fun _ => Closing.quiet).then fun nested nested' gist => lastStop_mirrors.then fun _ _ _ => .pure ?_
    exact memberNames_append same (Prod.mk.inj gist).1
  · exact (importClauses_mirrors.on fun _ => Closing.quiet).then fun _ _ _ => .pure same
  · split
    · refine namedStatement_mirrors.then fun name name' twins => lastStop_mirrors.then fun _ _ _ => .pure ?_
      exact addMember_names same twins _ _ _ _ _
    · exact skipped
  · exact skipped

theorem holderStatement_mirrors (start start' : Nat) (same : memberNames seen' = before ++ memberNames seen) :
    Mirrors Flush (holderStatement start seen) (holderStatement start' seen') fun a b => memberNames b = before ++ memberNames a := by
  rw [holderStatement_eq, holderStatement_eq]
  exact modifiers_mirrors.then fun mods mods' _ => lookingKind fun kind =>
    (holderRest_mirrors start start' same mods mods' kind).on fun _ => .inl

/-- Modifiers do not end in front of the end of a body. -/
theorem holderRest_fails {source : List Char} {start : Nat} {mods : Modifiers} {result : HolderMembers × Cursor}
    (ends : left.rest.head?.map Token.kind = some (.closer .brace)) :
    (peekKind? >>= holderRest start seen mods) source left ≠ .ok result := by
  intro ran
  obtain ⟨kind, _, looked, ran⟩ := bind_eq_ok ran
  cases looked
  rw [ends] at ran
  obtain ⟨_, _, skipped, -⟩ := bind_eq_ok ran
  obtain ⟨kind, _, looked, skipped⟩ := bind_eq_ok skipped
  cases looked
  rw [ends] at skipped
  exact fail_ne_ok skipped

/-- The statement at the cursor ends with a word that is a modifier of the trait behind the seam. -/
def Loose (seam : Seam) (left : Cursor) : Prop :=
  ∃ mods cursor token, modifiers seam.source left = .ok (mods, cursor) ∧ cursor.rest = token :: seam.back ∧ token.kind = .ident ∧
    softModifiers.contains token.text = true ∧ seam.back'.head?.map Token.kind = some (.keyword .traitKw)

/-- A statement at the end of a body is the same where another one is added behind it. -/
theorem holderStatement_follows (start start' : Nat) (same : memberNames seen' = memberNames seen) (closing : Closing seam)
    (along : seam.Along left right) (firm : ¬ Loose seam left) :
    Follows seam left right (holderStatement start seen) (holderStatement start' seen')
      fun a left' b right' => memberNames b = memberNames a ∧ seam.Along left' right' := by
  rw [holderStatement_eq, holderStatement_eq]
  refine modifiers_mirrors.met along (fun mods cursor ran front front' alike shape result next later inside => ?_)
    fun mods mods' left right _ along => ?_
  · rcases closing with flush | ⟨closes, added⟩
    · exact flush.back alike
    cases front with
    | nil => exact absurd later (holderRest_fails (by rw [shape]; exact closes))
    | cons token more =>
      obtain ⟨token', more', rfl, spelled, others⟩ := List.map_eq_cons_iff.mp alike
      cases more with
      | nil =>
        obtain rfl := List.map_eq_nil_iff.mp others
        refine ⟨⟨congrArg some spelled, fun _ _ _ => .inr ⟨?_, ?_⟩⟩, ?_⟩
        · rwa [List.head?_eq_getElem?] at closes
        · rwa [List.head?_eq_getElem?] at added
        · rintro _ ⟨⟩ word soft - trait
          exact firm ⟨mods, cursor, token, ran, shape, word, soft, by rwa [List.head?_eq_getElem?]⟩
      | cons next more =>
        obtain ⟨next', more', rfl, spelled', -⟩ := List.map_eq_cons_iff.mp others
        exact flush_of_second (congrArg some spelled) fun _ _ _ => congrArg some (kind_of_spell spelled')
  · have rest : Mirrors Closing (peekKind? >>= holderRest start seen mods) (peekKind? >>= holderRest start' seen' mods')
        fun a b => memberNames b = memberNames a := by
      refine .cut (.peekingKind fun kind => (@holderRest_mirrors _ _ [] start start' same mods mods' _).meets) ?_
      intro seam closing left right along ends ends'
      rcases closing with flush | ⟨closes, -⟩
      · exact lookingKind (fun kind => (@holderRest_mirrors _ _ [] start start' same mods mods' kind).on fun _ => .inl) seam flush left right along
      · exact fun _ _ ran => absurd ran (holderRest_fails (by rw [ends]; exact closes))
    exact rest seam closing left right along

theorem holderBody_mirrors : Mirrors good holderBody holderBody fun a b => memberNames b.1 = memberNames a.1 := by
  rw [holderBody_eq]
  exact @body_mirrors _ _ _ (fun a b => memberNames b = memberNames a) _ _
    (fun seen seen' same => here_mirrors.then fun start start' _ => @holderStatement_mirrors _ _ [] start start' same) _ rfl

instance holderBody_takes : Takes holderBody := by
  rw [holderBody_eq]
  exact .then inferInstance inferInstance

theorem optionalHolderBody_mirrors :
    Mirrors Flush optionalHolderBody optionalHolderBody fun a b => memberNames b.1 = memberNames a.1 :=
  .option (flush_asks _) (fun source cursor _ => Takes.ensures source cursor)
    (holderBody_mirrors.then fun _ _ same => .pure same) (.pure rfl)

/-- What the rule looks at in an object. -/
def holderGist (holder : Holder) : String × List String := (holder.name, holder.members.map Member.name)

theorem holder_mirrors : Mirrors Flush holder holder fun a b => holderGist b = holderGist a := by
  refine (expect_mirrors _ _).then fun _ _ _ => (expectName_mirrors _).then fun name name' named => ?_
  refine (extendsClause_mirrors.on fun _ flush => (Flush.quiet flush).calm).then fun _ _ _ => ?_
  refine optionalHolderBody_mirrors.then fun body body' members => lastStop_mirrors.then fun _ _ _ => .pure ?_
  exact Prod.ext (text_of_spell named) members

/-! ### Declarations -/

/-- Both declare the same for the rule. -/
inductive SameDecl : Decl → Decl → Prop where
  | interface {a b : Interface} (same : interfaceGist b = interfaceGist a) : SameDecl (.interface a) (.interface b)
  | holder {a b : Holder} (same : holderGist b = holderGist a) : SameDecl (.holder a) (.holder b)
  | other (a b : OpaqueDecl) : SameDecl (.other a) (.other b)

theorem opaqueDecl_mirrors (keyword : Keyword) (mods mods' : Modifiers) :
    Mirrors Flush (opaqueDecl keyword mods) (opaqueDecl keyword mods') Either := by
  refine (expect_mirrors _ _).then fun _ _ _ => (name?_mirrors.on fun _ => Flush.quiet).then fun _ _ _ => ?_
  exact (skipRest_mirrors.on fun _ => .inl).then fun _ _ _ => lastStop_mirrors.then fun _ _ _ => .pure trivial

theorem packageObject_mirrors : Mirrors Flush packageObject packageObject Either := by
  refine (expect_mirrors _ _).then fun _ _ _ => bump_mirrors.then fun _ _ _ => ?_
  refine (name?_mirrors.on fun _ => Flush.quiet).then fun _ _ _ => ?_
  exact (skipRest_mirrors.on fun _ => .inl).then fun _ _ _ => lastStop_mirrors.then fun _ _ _ => .pure trivial

theorem modifiedDecl_mirrors : Mirrors Flush modifiedDecl modifiedDecl SameDecl := by
  refine modifiers_mirrors.before (fun _ => .then inferInstance fun kind => by split <;> infer_instance) ?_
  rintro mods _ rfl
  refine lookingKind fun kind => ?_
  split
  · exact (interface_mirrors.on fun _ => Flush.quiet).then fun _ _ same => .pure (.interface same)
  · refine .choice (fun _ => holder_mirrors.then fun _ _ same => .pure (.holder same)) fun _ => ?_
    exact .choice (fun _ => (opaqueDecl_mirrors _ _ _).then fun _ _ _ => .pure (.other _ _)) fun _ => .fail
  · exact .fail

theorem topLevel_mirrors : Mirrors Flush topLevel topLevel SameDecl := by
  refine (isAt_mirrors _).then ?_
  rintro package _ rfl
  exact .choice (fun _ => packageObject_mirrors.then fun _ _ _ => .pure (.other _ _)) fun _ => modifiedDecl_mirrors

end KindLift.SeamBodies
