import KindLift.Proofs.ParserSimulation

/-! What the parsers for single tokens do. A token of the kind that is looked for is read,
one of another kind is left where it is, and what has been read was the first token. -/
namespace KindLift.TokenReaders
open KindLift.Parser ParserLogic ParserSimulation

variable {source : List Char} {cursor left next : Cursor} {token : Token} {kind : TokenKind}

/-! ### The first token is the one that is looked for -/

theorem peek?_at (first : cursor.rest.head? = some token) : peek? source cursor = .ok (some token, cursor) := by
  rw [← first]
  rfl

theorem peek?_run (token : Token) (rest : List Token) (stop : Nat) :
    peek? source ⟨token :: rest, stop⟩ = .ok (some token, ⟨token :: rest, stop⟩) := rfl

theorem bump_run (token : Token) (rest : List Token) (stop : Nat) :
    bump source ⟨token :: rest, stop⟩ = .ok (some token, ⟨rest, token.stop⟩) := rfl

theorem isAt_here (first : cursor.rest.head?.map Token.kind = some kind) : isAt kind source cursor = .ok (true, cursor) := by
  show Except.ok (decide _, cursor) = _
  rw [decide_eq_true first]

theorem eat?_run (same : token.kind = kind) (rest : List Token) (stop : Nat) :
    eat? kind source ⟨token :: rest, stop⟩ = .ok (some token, ⟨rest, token.stop⟩) := by
  have here : isAt kind source ⟨token :: rest, stop⟩ = .ok (true, ⟨token :: rest, stop⟩) := isAt_here (congrArg some same)
  rw [eat?, bind_ok here]
  rfl

theorem eats_run (same : token.kind = kind) (rest : List Token) (stop : Nat) :
    eats kind source ⟨token :: rest, stop⟩ = .ok (true, ⟨rest, token.stop⟩) := by
  rw [eats, bind_ok (eat?_run same rest stop)]
  rfl

theorem expect_run (same : token.kind = kind) (what : String) (rest : List Token) (stop : Nat) :
    expect kind what source ⟨token :: rest, stop⟩ = .ok (token, ⟨rest, token.stop⟩) := by
  rw [expect, bind_ok (eat?_run same rest stop)]
  rfl

theorem expectName_run (name : token.isName = true) (what : String) (rest : List Token) (stop : Nat) :
    expectName what source ⟨token :: rest, stop⟩ = .ok (token, ⟨rest, token.stop⟩) := by
  have named : name? source ⟨token :: rest, stop⟩ = .ok (some token, ⟨rest, token.stop⟩) := by
    show (if token.isName then bump else pure none) source _ = _
    rw [if_pos name]
    rfl
  rw [expectName, bind_ok named]
  rfl

/-! ### It is another one -/

theorem isAt_other (other : cursor.rest.head?.map Token.kind ≠ some kind) : isAt kind source cursor = .ok (false, cursor) := by
  show Except.ok (decide _, cursor) = _
  rw [decide_eq_false other]

theorem eats_absent (other : cursor.rest.head?.map Token.kind ≠ some kind) : eats kind source cursor = .ok (false, cursor) := by
  have nothing : eat? kind source cursor = .ok (none, cursor) := by
    rw [eat?, bind_ok (isAt_other other)]
    rfl
  exact (bind_ok nothing).trans rfl

theorem eatAll_stays (other : cursor.rest.head?.map Token.kind ≠ some kind) : eatAll kind source cursor = .ok ((), cursor) := by
  refine iterateFrom_done ?_
  rw [bind_ok (eats_absent other)]
  rfl

/-! ### What was read -/

/-- Looking where the next token begins reads nothing. -/
theorem here_stays : Ensures source left here fun _ left' => left' = left := by
  simp only [here, ensures_bind, ensures_peek?]
  split
  · exact ensures_pure.mpr rfl
  · simp only [ensures_bind, ensures_read, ensures_pure]

theorem eat?_some (ran : eat? kind source left = .ok (some token, next)) :
    left.rest = token :: next.rest ∧ token.kind = kind ∧ next.lastStop = token.stop := by
  obtain ⟨tokens, stop⟩ := left
  obtain ⟨here, _, looked, ate⟩ := bind_eq_ok ran
  cases looked
  split at ate
  · rename_i same
    cases tokens with
    | nil => cases same
    | cons token rest =>
      cases ate
      exact ⟨rfl, by simpa using same, rfl⟩
  · cases ate

/-- A token that was read is of its kind. -/
theorem eats_true (ran : eats kind source left = .ok (true, next)) :
    ∃ token, left.rest = token :: next.rest ∧ token.kind = kind ∧ next.lastStop = token.stop := by
  obtain ⟨taken, middle, ate, ends⟩ := bind_eq_ok ran
  obtain ⟨found, rfl⟩ := Prod.mk.inj (Except.ok.inj ends)
  obtain ⟨token, rfl⟩ := Option.isSome_iff_exists.mp found
  exact ⟨token, eat?_some ate⟩

/-- A token that is not there is not read. -/
theorem eats_false (ran : eats kind source left = .ok (false, next)) : next = left := by
  obtain ⟨taken, middle, ate, ends⟩ := bind_eq_ok ran
  obtain ⟨absent, rfl⟩ := Prod.mk.inj (Except.ok.inj ends)
  obtain rfl : taken = none := by simpa using absent
  obtain ⟨here, _, looked, ate⟩ := bind_eq_ok ate
  cases looked
  split at ate
  · rename_i same
    obtain ⟨tokens, stop⟩ := left
    cases tokens with
    | nil => cases same
    | cons => cases ate
  · cases ate
    rfl

theorem expect_some {what : String} (ran : expect kind what source left = .ok (token, next)) :
    left.rest = token :: next.rest ∧ token.kind = kind ∧ next.lastStop = token.stop := by
  obtain ⟨taken, middle, ate, ends⟩ := bind_eq_ok ran
  cases taken with
  | none => exact absurd ends fail_ne_ok
  | some taken =>
    cases ends
    exact eat?_some ate

theorem expectName_some {what : String} (ran : expectName what source left = .ok (token, next)) :
    left.rest = token :: next.rest ∧ token.isName = true ∧ next.lastStop = token.stop := by
  obtain ⟨taken, middle, read, ends⟩ := bind_eq_ok ran
  cases taken with
  | none => exact absurd ends fail_ne_ok
  | some taken =>
    cases ends
    obtain ⟨tokens, stop⟩ := left
    obtain ⟨first, _, peeked, read⟩ := bind_eq_ok read
    cases peeked
    cases tokens with
    | nil => cases read
    | cons first rest =>
      dsimp only [List.head?_cons] at read
      split at read
      · rename_i named
        cases read
        exact ⟨rfl, named, rfl⟩
      · cases read

/-! ### Bodies -/

theorem skipSelfType_cases (ran : skipSelfType source left = .ok ((), next)) :
    (∃ arrow, selfType? left.rest = some (arrow, next.rest)) ∨ selfType? left.rest = none ∧ next = left := by
  obtain ⟨_, _, looked, ran⟩ := bind_eq_ok ran
  cases looked
  cases found : selfType? left.rest with
  | none =>
    rw [found] at ran
    cases ran
    exact .inr ⟨rfl, rfl⟩
  | some pair =>
    rw [found] at ran
    cases ran
    exact .inl ⟨pair.1, rfl⟩

theorem skipSelfType_run {arrow : Token} {rest : List Token} (found : selfType? left.rest = some (arrow, rest)) :
    skipSelfType source left = .ok ((), ⟨rest, arrow.stop⟩) := by
  have looked : (get : Parser Cursor) source left = .ok (left, left) := rfl
  rw [skipSelfType, bind_ok looked, found]
  rfl

theorem skipSelfType_stays (absent : selfType? left.rest = none) : skipSelfType source left = .ok ((), left) := by
  have looked : (get : Parser Cursor) source left = .ok (left, left) := rfl
  rw [skipSelfType, bind_ok looked, absent]
  rfl

theorem openBody_run {brace : Token} {rest : List Token} {stop : Nat} (kind : brace.kind = .opener .brace)
    (skipped : skipSelfType source ⟨rest, brace.stop⟩ = .ok ((), next)) :
    openBody source ⟨brace :: rest, stop⟩ = .ok (brace.start, next) := by
  rw [openBody, bind_ok (expect_run kind _ rest stop), bind_ok skipped]
  rfl

/-- The end of a body is read as some semicolons and a brace. -/
theorem closeBody?_some {openBrace : Nat} {body : Body} (ran : closeBody? openBrace source left = .ok (some body, next)) :
    ∃ middle closing, eatAll .semi source left = .ok ((), middle) ∧ middle.rest = closing :: next.rest ∧
      closing.kind = .closer .brace ∧ body = ⟨openBrace, closing.start⟩ := by
  obtain ⟨_, ⟨tokens, stop⟩, ate, ran⟩ := bind_eq_ok ran
  obtain ⟨first, _, peeked, ran⟩ := bind_eq_ok ran
  cases peeked
  cases tokens with
  | nil => cases ran
  | cons closing rest =>
    simp only [List.head?_cons] at ran
    split at ran
    · rename_i kind
      cases ran
      exact ⟨_, closing, ate, rfl, kind, rfl⟩
    · cases ran

theorem closeBody?_none {openBrace : Nat} (ran : closeBody? openBrace source left = .ok (none, next)) :
    eatAll .semi source left = .ok ((), next) ∧ ∃ token, next.rest.head? = some token ∧ token.kind ≠ .closer .brace := by
  obtain ⟨_, middle, ate, ran⟩ := bind_eq_ok ran
  obtain ⟨first, _, peeked, ran⟩ := bind_eq_ok ran
  cases peeked
  cases first : middle.rest.head? with
  | none =>
    rw [first] at ran
    cases ran
  | some token =>
    rw [first] at ran
    dsimp only at ran
    split at ran
    · obtain ⟨_, _, -, ran⟩ := bind_eq_ok ran
      cases ran
    · rename_i kind
      cases ran
      exact ⟨ate, token, first, kind⟩

theorem closeBody?_closes {openBrace : Nat} {closing : Token} {rest : List Token} {stop : Nat} (ate : eatAll .semi source left = .ok ((), ⟨closing :: rest, stop⟩))
    (kind : closing.kind = .closer .brace) :
    closeBody? openBrace source left = .ok (some ⟨openBrace, closing.start⟩, ⟨rest, closing.stop⟩) := by
  rw [closeBody?, bind_ok ate, bind_ok (peek?_run closing rest stop)]
  dsimp only
  rw [if_pos kind]
  rfl

end KindLift.TokenReaders
