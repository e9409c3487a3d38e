import KindLift.Proofs.SeamBodies

/-! Objects to which members are added, either at the end of the body or as a body. What is
added is a body of an object by itself. The object keeps its members then, and the added ones
come behind them. -/
namespace KindLift.GrownObjects
open KindLift.Parser ParserLogic CursorAdvance ParserProgress ParserSimulation TokenReaders TokenFronts SeamLogic SeamParsers SeamBodies
open BalancedParsers (Encloses iterate_closes bodyStep_encloses again_encloses)
open IndentedTexts (spell)

abbrev Word : Type := TokenKind × List Char

variable {seam : Seam} {left right left' right' : Cursor} {source other : List Char} {seen seen' : HolderMembers}
  {tokens rest front front' : List Token} {names : List String} {words : List Word} {stop : Nat}

/-- One statement of the body of an object. -/
def memberStatement (seen : HolderMembers) : Parser HolderMembers := here >>= fun start => holderStatement start seen

def memberStep : Nat → HolderMembers → Parser (Step HolderMembers (HolderMembers × Body)) := bodyStep memberStatement

def openingWord : Word := (.opener .brace, ['\x7b'])

def closingWord : Word := (.closer .brace, ['\x7d'])

/-- Words that begin with a definition and make up the body of an object with members of
these names. -/
structure Entries (names : List String) (words : List Word) : Prop where
  first : words.head?.map Prod.fst = some (.keyword .implicitKw) ∨ words.head?.map Prod.fst = some (.keyword .traitKw)
  read : ∃ source opening tokens closing stop members body stop', tokens.map spell = words ∧
    spell opening = openingWord ∧ spell closing = closingWord ∧
    holderBody source ⟨opening :: (tokens ++ [closing]), stop⟩ = .ok ((members, body), ⟨[], stop'⟩) ∧ memberNames members = names

theorem holderBody_steps : holderBody = openBody >>= fun openBrace => iterate (memberStep openBrace) ⟨[], []⟩ := holderBody_eq

instance memberStatement_advances (seen : HolderMembers) : Advances (memberStatement seen) := .then inferInstance inferInstance

instance memberStatement_balances (seen : HolderMembers) : BalancedParsers.Balances (memberStatement seen) := .then inferInstance inferInstance

instance memberStep_advances (openBrace : Nat) (seen : HolderMembers) : Advances (memberStep openBrace seen) :=
  bodyStep_advances openBrace seen

theorem memberStep_encloses (openBrace : Nat) : ∀ source cursor seen, Ensures source cursor (memberStep openBrace seen) (Encloses .brace cursor) :=
  fun _ _ _ => bodyStep_encloses openBrace fun _ _ => again_encloses inferInstance

/-! ### Where words begin -/

theorem head_of_spell (same : tokens.map spell = words) : tokens.head?.map Token.kind = words.head?.map Prod.fst := by
  subst same
  cases tokens <;> rfl

theorem selfType?_keyword {word : Keyword} (head : tokens.head?.map Token.kind = some (.keyword word)) : selfType? tokens = none := by
  match tokens with
  | [] => rfl
  | [_] => rfl
  | first :: second :: rest =>
    have kind : first.kind = .keyword word := Option.some.inj head
    simp [selfType?, kind]

theorem Entries.keyword (entries : Entries names words) (same : tokens.map spell = words) (behind : List Token) :
    ∃ word, (tokens ++ behind).head?.map Token.kind = some (.keyword word) := by
  have head := head_of_spell same
  cases tokens with
  | nil =>
    rcases entries.first with first | first <;>
      · rw [first] at head
        cases head
  | cons token tokens =>
    rcases entries.first with first | first <;>
      · rw [first] at head
        exact ⟨_, head⟩

/-- No self type goes on into the words. -/
theorem Entries.halts (entries : Entries names words) (same : tokens.map spell = words) (behind : List Token) : Halts (tokens ++ behind) := by
  have head := head_of_spell same
  cases tokens with
  | nil => rcases entries.first with first | first <;> simp [first] at head
  | cons token tokens =>
    refine ⟨token, tokens ++ behind, rfl, .inr ?_⟩
    rcases entries.first with first | first <;>
      · rw [first] at head
        exact ⟨_, Option.some.inj head, rfl⟩

/-! ### Members behind others -/

theorem memberLoop_mirrors {before : List String} (openBrace openBrace' : Nat) (same : memberNames seen' = before ++ memberNames seen) :
    Mirrors Any (iterate (memberStep openBrace) seen) (iterate (memberStep openBrace') seen')
      fun a b => memberNames b.1 = before ++ memberNames a.1 := by
  refine .enclosed (fun a b => memberNames b = before ++ memberNames a) (memberStep_encloses _) (bodyStep_mirrors ?_ _ _)
    (bodyStep_ends _ _) same
  exact fun _ _ same => here_mirrors.then fun _ _ _ => holderStatement_mirrors _ _ same

/-- The end of a body of its own. -/
theorem Entries.loop (entries : Entries names words) (same : tokens.map spell = words) {closing : Token}
    (closes : spell closing = closingWord) : ∃ source tokens' closing' openBrace stop members body stop',
      (tokens ++ [closing]).map spell = (tokens' ++ [closing']).map spell ∧
      iterate (memberStep openBrace) ⟨[], []⟩ source ⟨tokens' ++ [closing'], stop⟩ = .ok ((members, body), ⟨[], stop'⟩) ∧
      memberNames members = names := by
  obtain ⟨source, opening, tokens', closing', stop, members, body, last, alike, opens, closes', ran, named⟩ := entries.read
  obtain ⟨word, head⟩ := entries.keyword alike [closing']
  rw [holderBody_steps, bind_ok (openBody_run (congrArg Prod.fst opens) (skipSelfType_stays (selfType?_keyword head)))] at ran
  exact ⟨source, tokens', closing', _, _, members, body, last, by simp [alike, same, closes, closes'], ran, named⟩

/-- Behind other members the words are read as they are read alone. -/
theorem Entries.behind (entries : Entries names words) (same : tokens.map spell = words) {closing : Token}
    (closes : spell closing = closingWord) (other : List Char) (openBrace : Nat) (seen : HolderMembers) (rest : List Token) (stop : Nat) :
    ∃ members body stop', iterateFrom (memberStep openBrace) seen other ⟨tokens ++ closing :: rest, stop⟩ =
      .ok ((members, body), ⟨rest, stop'⟩) ∧ memberNames members = memberNames seen ++ names := by
  obtain ⟨source, tokens', closing', openBrace', stop', members, body, last, alike, ran, rfl⟩ := entries.loop same closes
  have start : memberNames seen = memberNames seen ++ memberNames ⟨[], []⟩ := (List.append_nil _).symm
  obtain ⟨⟨members', body'⟩, last', run, names⟩ := (memberLoop_mirrors openBrace' openBrace start).whole ran alike other rest trivial stop
  exact ⟨members', body', last', by rw [List.append_cons]; exact run, names⟩

/-- A statement in front of the end of a body, and the statements behind it. -/
theorem memberRest_mirrors {before : List String} (openBrace openBrace' start start' : Nat) (mods mods' : Modifiers)
    (same : memberNames seen' = before ++ memberNames seen) :
    Mirrors Any ((peekKind? >>= holderRest start seen mods) >>= iterate (memberStep openBrace))
      ((peekKind? >>= holderRest start' seen' mods') >>= iterate (memberStep openBrace'))
      fun a b => memberNames b.1 = before ++ memberNames a.1 := by
  have first : Mirrors Flush (peekKind? >>= holderRest start seen mods) (peekKind? >>= holderRest start' seen' mods')
      fun a b => memberNames b = before ++ memberNames a :=
    lookingKind fun kind => (holderRest_mirrors start start' same mods mods' kind).on fun _ => .inl
  intro seam _ left right along
  refine first.met along (fun later cursor _ front front' alike shape result next ran inside => ?_) fun later later' _ _ same along =>
    memberLoop_mirrors _ _ same seam trivial _ _ along
  -- The statement ends in front of a closing brace that is in front of the seam.
  obtain ⟨inner, token, ends, -, kind⟩ := iterate_closes (memberStep_encloses openBrace) _ _ ran
  exact flush_before alike (shape.symm.trans ends) inside (by simp [kind, Looks])

/-- A statement begins where the cursor is. -/
theorem memberStatement_at (seen : HolderMembers) (source : List Char) (cursor : Cursor) :
    ∃ start, memberStatement seen source cursor = holderStatement start seen source cursor := by
  obtain ⟨start, begins⟩ := here_run source cursor
  exact ⟨start, bind_ok begins⟩

/-- A step of a body that begins with a keyword reads a statement. -/
theorem memberStep_keyword {openBrace : Nat} {outcome : Step HolderMembers (HolderMembers × Body)} {word : Keyword}
    (head : left.rest.head?.map Token.kind = some (.keyword word)) (ran : memberStep openBrace seen source left = .ok (outcome, left')) :
    ∃ later, outcome = .again later ∧ memberStatement seen source left = .ok (later, left') := by
  obtain ⟨token, first, kind⟩ := Option.map_eq_some_iff.mp head
  have stays : closeBody? openBrace source left = .ok (none, left) := by
    rw [closeBody?, bind_ok (eatAll_stays (by rw [head]; simp)), bind_ok (peek?_at first)]
    dsimp only
    rw [if_neg (by simp [kind])]
    rfl
  rw [memberStep, bodyStep, bind_ok stays] at ran
  obtain ⟨later, _, read, ran⟩ := bind_eq_ok ran
  cases ran
  exact ⟨later, rfl, read⟩

/-- Where the modifiers of a statement have been read, the words go on with a trait. -/
theorem Entries.resumed (entries : Entries names words) (same : tokens.map spell = words) {closing : Token}
    (closes : spell closing = closingWord) (trait : tokens.head?.map Token.kind = some (.keyword .traitKw)) (other : List Char)
    (openBrace start : Nat) (mods : Modifiers) (seen : HolderMembers) (rest : List Token) (stop : Nat) :
    ∃ members body stop', ((peekKind? >>= holderRest start seen mods) >>= iterate (memberStep openBrace)) other
      ⟨tokens ++ closing :: rest, stop⟩ = .ok ((members, body), ⟨rest, stop'⟩) ∧ memberNames members = memberNames seen ++ names := by
  obtain ⟨source, tokens', closing', openBrace', stop', members, body, last, alike, ran, rfl⟩ := entries.loop same closes
  have head : (tokens' ++ [closing']).head?.map Token.kind = some (.keyword .traitKw) := by
    have kinds := kinds_of_spells alike.symm
    rw [← List.head?_map, kinds, List.head?_map, List.head?_append, Option.map_or, trait]
    rfl
  obtain ⟨token, first, kind⟩ := Option.map_eq_some_iff.mp head
  -- Alone the words are read from the modifiers on, which there are none of.
  obtain ⟨start', begun⟩ : ∃ start', ((peekKind? >>= holderRest start' ⟨[], []⟩ ⟨false, false⟩) >>= iterate (memberStep openBrace')) source
      ⟨tokens' ++ [closing'], stop'⟩ = .ok ((members, body), ⟨[], last⟩) := by
    replace ran : iterateFrom (memberStep openBrace') ⟨[], []⟩ source ⟨tokens' ++ [closing'], stop'⟩ = .ok ((members, body), ⟨[], last⟩) := ran
    rw [iterateFrom] at ran
    split at ran
    · cases ran
    · rename_i stepped
      obtain ⟨later, again, -⟩ := memberStep_keyword head stepped
      cases again
    · rename_i stepped
      obtain ⟨later, again, read⟩ := memberStep_keyword head stepped
      cases again
      split at ran
      · obtain ⟨start', same⟩ := memberStatement_at ⟨[], []⟩ source ⟨tokens' ++ [closing'], stop'⟩
        rw [same, holderStatement_eq, bind_ok (modifiers_stays first (by simp only [modifies, kind]))] at read
        exact ⟨start', (bind_ok read).trans ran⟩
      · cases ran
  have none : memberNames seen = memberNames seen ++ memberNames ⟨[], []⟩ := (List.append_nil _).symm
  obtain ⟨⟨members', body'⟩, last', run, names⟩ :=
    (memberRest_mirrors openBrace' openBrace start' start ⟨false, false⟩ mods none).whole begun alike other rest trivial stop
  exact ⟨members', body', last', by rw [List.append_cons]; exact run, names⟩

/-- In braces the words are a body. -/
theorem Entries.filled (entries : Entries names words) (same : tokens.map spell = words) {opening closing : Token}
    (opens : spell opening = openingWord) (closes : spell closing = closingWord) (other : List Char) (rest : List Token) (stop : Nat) :
    ∃ members body stop', holderBody other ⟨opening :: (tokens ++ closing :: rest), stop⟩ = .ok ((members, body), ⟨rest, stop'⟩) ∧
      memberNames members = names := by
  obtain ⟨word, head⟩ := entries.keyword same (closing :: rest)
  obtain ⟨members, body, stop', ran, added⟩ := entries.behind same closes other opening.start ⟨[], []⟩ rest opening.stop
  refine ⟨members, body, stop', ?_, added⟩
  rw [holderBody_steps, bind_ok (openBody_run (congrArg Prod.fst opens) (skipSelfType_stays (selfType?_keyword head)))]
  exact ran

/-! ### Members at the end of a body -/

/-- A step may begin at the semicolons in front of it. -/
theorem iterateFrom_skip {step : σ → Parser (Step σ ρ)} {state : σ} {result : ρ × Cursor}
    (same : step state source left = step state source right) (fewer : right.rest.length ≤ left.rest.length)
    (ran : iterateFrom step state source right = .ok result) : iterateFrom step state source left = .ok result := by
  rw [iterateFrom] at ran ⊢
  rw [same]
  split
  · rename_i failed
    rw [failed] at ran
    cases ran
  · rename_i done
    rw [done] at ran
    exact ran
  · rename_i later next again
    rw [again] at ran
    dsimp only at ran
    split at ran
    · rename_i shorter
      rw [if_pos (Nat.lt_of_lt_of_le shorter fewer)]
      exact ran
    · cases ran

theorem memberStatement_follows (same : memberNames seen' = memberNames seen) (closing : Closing seam)
    (firm : ¬ Loose seam left) (along : seam.Along left right) :
    Follows seam left right (memberStatement seen) (memberStatement seen')
      fun a left' b right' => memberNames b = memberNames a ∧ seam.Along left' right' := by
  intro members left' ran inside
  obtain ⟨start, same'⟩ := memberStatement_at seen seam.source left
  obtain ⟨start', same''⟩ := memberStatement_at seen' seam.other right
  rw [same'] at ran
  rw [same'']
  exact holderStatement_follows start start' same closing along firm members left' ran inside

/-- Semicolons in front of a step do not matter. -/
theorem memberStep_semis {openBrace : Nat} (ate : eatAll .semi source left = .ok ((), right)) (other : right.rest.head?.map Token.kind ≠ some .semi) :
    memberStep openBrace seen source left = memberStep openBrace seen source right := by
  rw [memberStep, bodyStep, closeBody?, bind_assoc, bind_ok ate, bind_assoc, bind_ok (eatAll_stays other)]

/-- What goes on behind a step. -/
theorem iterateFrom_then {step : σ → Parser (Step σ ρ)} {state later : σ} {result : ρ × Cursor}
    (stepped : step state source left = .ok (.again later, left')) (shorter : Shorter left left')
    (ran : iterateFrom step later source left' = .ok result) : iterateFrom step state source left = .ok result :=
  (iterateFrom_again stepped shorter).trans ran

/-- A word at the end of a body is a statement by itself. -/
theorem loose_statement {mods : Modifiers} {cursor : Cursor} {token : Token} {members : HolderMembers}
    (ran : modifiers source left = .ok (mods, cursor)) (shape : cursor.rest = token :: rest) (named : token.kind = .ident)
    (ends : rest.head?.map Token.kind = some (.closer .brace)) (read : memberStatement seen source left = .ok (members, left')) :
    members = seen ∧ left'.rest = rest := by
  obtain ⟨tokens, stop⟩ := cursor
  obtain rfl : tokens = token :: rest := shape
  obtain ⟨start, same⟩ := memberStatement_at seen source left
  have peeked : peekKind? source ⟨token :: rest, stop⟩ = .ok (some .ident, ⟨token :: rest, stop⟩) := by rw [← named]; rfl
  have last : skipRest source ⟨rest, token.stop⟩ = .ok ((), ⟨rest, token.stop⟩) := by
    refine iterateFrom_done ?_
    rw [bind_ok (show peekKind? source ⟨rest, token.stop⟩ = .ok (some (.closer .brace), ⟨rest, token.stop⟩) by rw [← ends]; rfl)]
    rfl
  have skipped : skipStatement source ⟨token :: rest, stop⟩ = .ok ((), ⟨rest, token.stop⟩) := by
    rw [skipStatement, bind_ok peeked]
    dsimp only
    rw [bind_ok (bump_run token rest stop), last]
  have rest' : holderRest start seen mods (some .ident) = skipStatement >>= fun _ => pure seen := rfl
  rw [same, holderStatement_eq, bind_ok ran, bind_ok peeked, rest', bind_ok skipped] at read
  cases read
  exact ⟨rfl, rfl⟩

/-- Where the body of an object ends in the first text, the words are read in the second one. -/
theorem Entries.extends (entries : Entries names words) {added : List Token} (same : added.map spell = words) {ending closing : Token}
    (back : seam.back = ending :: left'.rest) (back' : seam.back' = added ++ closing :: rest) (ends : ending.kind = .closer .brace)
    (closes : spell closing = closingWord) (openBrace openBrace' : Nat) {members : HolderMembers} {body : Body}
    (along : seam.Along left right) (kept : memberNames seen' = memberNames seen)
    (ran : iterateFrom (memberStep openBrace) seen seam.source left = .ok ((members, body), left')) :
    ∃ members' body' stop, iterateFrom (memberStep openBrace') seen' seam.other right = .ok ((members', body'), ⟨rest, stop⟩) ∧
      memberNames members' = memberNames members ++ names := by
  have begins : seam.back'.head?.map Token.kind = words.head?.map Prod.fst := by
    rw [← head_of_spell same, back']
    cases added with
    | nil => rcases entries.first with first | first <;> simp [← same] at first
    | cons => rfl
  have atEnd : seam.back.head?.map Token.kind = some (.closer .brace) := by rw [back, List.head?_cons, Option.map_some, ends]
  have closingSeam : Closing seam := .inr ⟨atEnd, by rw [begins]; exact entries.first⟩
  have semis : Mirrors Quiet (eatAll .semi) (eatAll .semi) Either := eatAll_mirrors (quiet_asks (.inr rfl))
  generalize whole : (members, body) = result at ran
  fun_induction iterateFrom (memberStep openBrace) seen seam.source left generalizing seen' right with
  | case1 => cases ran
  | case2 seen left value next stepped =>
    -- The end of the first body is the seam.
    cases ran
    subst whole
    obtain ⟨found, middle, closed, ended⟩ := bind_eq_ok stepped
    cases found with
    | none =>
      obtain ⟨_, _, -, ended⟩ := bind_eq_ok ended
      cases ended
    | some found =>
      cases ended
      obtain ⟨middle, last, ate, shape, -, -⟩ := closeBody?_some closed
      have inside : seam.back.length ≤ middle.rest.length := by rw [shape, back]; exact Nat.le_refl _
      obtain ⟨_, right', ate', -, along'⟩ := semis seam closingSeam.quiet left right along _ _ ate inside
      obtain ⟨tokens', stop⟩ := right'
      obtain rfl : tokens' = added ++ closing :: rest := (along'.ends (by rw [shape, back]; exact Nat.le_refl _)).trans back'
      obtain ⟨members', body', stop', run, all⟩ := entries.behind same closes seam.other openBrace' seen' rest stop
      have solid : (added ++ closing :: rest).head?.map Token.kind ≠ some .semi := by
        rw [← back', begins]
        rcases entries.first with first | first <;> simp [first]
      refine ⟨members', body', stop', iterateFrom_skip (memberStep_semis ate' solid) ?_ run, by rw [all, kept]⟩
      exact ((eatAll_advances .semi).ensures _ _ _ _ ate').suffix.length_le
  | case3 seen left later next stepped shorter ih =>
    obtain ⟨found, middle, closed, again⟩ := bind_eq_ok stepped
    cases found with
    | some found => cases again
    | none =>
      obtain ⟨_, _, read, again⟩ := bind_eq_ok again
      cases again
      obtain ⟨ate, token, first, other⟩ := closeBody?_none closed
      -- What is left is read up to the end of the body, so that the statement ends in front of the seam.
      obtain ⟨front, last, shape, -, -⟩ := iterate_closes (memberStep_encloses openBrace) _ _ ran
      have inside : seam.back.length ≤ next.rest.length := by
        rw [shape, back]
        simp
      have suffix := (((memberStatement_advances seen).ensures _ _ _ _ read).suffix).length_le
      obtain ⟨_, right', ate', -, along'⟩ := semis seam closingSeam.quiet left right along _ _ ate (Nat.le_trans inside suffix)
      have stays : closeBody? openBrace' seam.other right = .ok (none, right') := by
        rcases along_cases along' with ⟨token, _, token', _, here, here', alike, -⟩ | ⟨here, -⟩
        · rw [here] at first
          cases first
          rw [closeBody?, bind_ok ate', bind_ok (peek?_at (by rw [here', List.head?_cons]))]
          dsimp only
          rw [if_neg (by rw [kind_of_spell alike]; exact other)]
          rfl
        · rw [here, back] at first
          cases first
          exact absurd ends other
      by_cases loose : Loose seam middle
      · obtain ⟨mods, cursor, word, modified, ahead, named, soft, trait⟩ := loose
        obtain ⟨rfl, reached⟩ := loose_statement modified ahead named atEnd read
        -- In the second text the word is a modifier of what is added.
        obtain ⟨mods', stop, modified'⟩ := modifiers_loose along' modified ahead named soft atEnd trait
        rw [back'] at modified'
        obtain ⟨start', same'⟩ := memberStatement_at seen' seam.other right'
        obtain ⟨members', body', stop', run, all⟩ := entries.resumed same closes (by rwa [head_of_spell same, ← begins]) seam.other openBrace'
          start' mods' seen' rest stop
        obtain ⟨later', next', read', run⟩ := bind_eq_ok run
        have stepped' : memberStep openBrace' seen' seam.other right = .ok (.again later', next') := by
          rw [memberStep, bodyStep, bind_ok stays]
          refine (bind_ok (show memberStatement seen' seam.other right' = .ok (later', next') from ?_)).trans rfl
          rw [same', holderStatement_eq, bind_ok modified', read']
        have shorter' : Shorter right next' := by
          have advances : Advances (peekKind? >>= holderRest start' seen' mods') := .then inferInstance inferInstance
          have taken : next'.rest.length ≤ (added ++ closing :: rest).length := (advances.ensures _ _ _ _ read').suffix.length_le
          have word := (modifiers_advances.ensures _ _ _ _ modified).suffix.length_le
          have semis := ((eatAll_advances .semi).ensures _ _ _ _ ate').suffix.length_le
          have length := along'.length
          rw [ahead, List.length_cons] at word
          rw [back'] at length
          show next'.rest.length < right.rest.length
          omega
        have closed : memberStep openBrace later seam.source next = .ok (.done (later, ⟨openBrace, ending.start⟩), ⟨left'.rest, ending.stop⟩) := by
          obtain ⟨tokens, stop⟩ := next
          obtain rfl : tokens = ending :: left'.rest := reached.trans back
          rw [memberStep, bodyStep, bind_ok (closeBody?_closes (eatAll_stays (by simp [ends])) ends)]
          rfl
        refine ⟨members', body', stop', iterateFrom_then stepped' shorter' run, ?_⟩
        obtain ⟨same, -⟩ := Prod.mk.inj (Except.ok.inj ((iterateFrom_done closed).symm.trans ran))
        obtain ⟨rfl, -⟩ := Prod.mk.inj (same.trans whole.symm)
        rw [all, kept]
      · obtain ⟨later', next', read', kept', behind⟩ := memberStatement_follows kept closingSeam loose along' _ _ read inside
        have stepped' : memberStep openBrace' seen' seam.other right = .ok (.again later', next') := by
          rw [memberStep, bodyStep, bind_ok stays]
          exact (bind_ok read').trans rfl
        have shorter' : Shorter right next' := by
          have length := along.length
          have length' := behind.length
          show next'.rest.length < right.rest.length
          omega
        rw [iterateFrom_again stepped' shorter']
        exact ih behind kept' ran
  | case4 => cases ran

end KindLift.GrownObjects
