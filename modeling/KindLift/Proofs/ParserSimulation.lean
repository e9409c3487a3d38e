import KindLift.Proofs.ParserProgress

/-! A logic of two parses side by side. `Agree` says that the second parser succeeds
whenever the first one does, and how the results and the cursors of the two are related
then; nothing is said when the first one fails. -/
namespace KindLift.ParserSimulation
open KindLift.Parser ParserLogic ParserProgress

/-- When the first parser succeeds from its cursor, so does the second one from its own,
and the results and the cursors they leave satisfy `post`. -/
def Agree (source source' : List Char) (left right : Cursor) (first : Parser α) (second : Parser β)
    (post : α → Cursor → β → Cursor → Prop) : Prop :=
  ∀ a left', first source left = .ok (a, left') →
    ∃ b right', second source' right = .ok (b, right') ∧ post a left' b right'

variable {source source' : List Char} {left right : Cursor}

section Rules

variable {first : Parser α} {second : Parser β} {body : α → Parser γ} {body' : β → Parser δ}
  {post middle : α → Cursor → β → Cursor → Prop} {final : γ → Cursor → δ → Cursor → Prop}

@[simp] theorem agree_pure {a : α} {b : β} :
    Agree source source' left right (pure a) (pure b) post ↔ post a left b right := by
  constructor
  · intro agreed
    obtain ⟨b', right', run, holds⟩ := agreed a left rfl
    cases run
    exact holds
  · rintro holds _ _ ⟨⟩
    exact ⟨b, right, rfl, holds⟩

/-- First one pair of parsers, then another from where they have stopped. -/
theorem Agree.then (agreed : Agree source source' left right first second middle)
    (rest : ∀ a left' b right', middle a left' b right' →
      Agree source source' left' right' (body a) (body' b) final) :
    Agree source source' left right (first >>= body) (second >>= body') final := by
  intro c left'' ran
  obtain ⟨a, left', ran, later⟩ := bind_eq_ok ran
  obtain ⟨b, right', run, holds⟩ := agreed a left' ran
  obtain ⟨d, right'', run', holds'⟩ := rest a left' b right' holds c left'' later
  exact ⟨d, right'', (bind_ok run).trans run', holds'⟩

theorem Agree.mono {weak : α → Cursor → β → Cursor → Prop} (agreed : Agree source source' left right first second post)
    (weaken : ∀ a left' b right', post a left' b right' → weak a left' b right') :
    Agree source source' left right first second weak := by
  intro a left' ran
  obtain ⟨b, right', run, holds⟩ := agreed a left' ran
  exact ⟨b, right', run, weaken a left' b right' holds⟩

theorem agree_of_ok {a : α} {b : β} {left' right' : Cursor} (ran : first source left = .ok (a, left'))
    (ran' : second source' right = .ok (b, right')) (holds : post a left' b right') :
    Agree source source' left right first second post := by
  intro _ _ same
  rw [ran] at same
  cases same
  exact ⟨b, right', ran', holds⟩

/-- What is known of the first parser alone may be used. -/
theorem Agree.and_left {known : α → Cursor → Prop} (agreed : Agree source source' left right first second post)
    (ensured : Ensures source left first known) :
    Agree source source' left right first second fun a left' b right' => post a left' b right' ∧ known a left' := by
  intro a left' ran
  obtain ⟨b, right', run, holds⟩ := agreed a left' ran
  exact ⟨b, right', run, holds, ensured a left' ran⟩

@[simp] theorem agree_throw_left {fault : SyntaxFault} : Agree source source' left right (throw fault) second post := by
  rintro _ _ ⟨⟩

@[simp] theorem agree_fail_left {cause : ParseCause} : Agree source source' left right (fail cause) second post :=
  fun _ _ ran => absurd ran fail_ne_ok

/-! Parsers that only look go on where they are. -/

theorem agree_get {body : Cursor → Parser γ} {body' : Cursor → Parser δ} :
    Agree source source' left right (get >>= body) (get >>= body') final ↔
      Agree source source' left right (body left) (body' right) final := Iff.rfl

theorem agree_read {body : List Char → Parser γ} {body' : List Char → Parser δ} :
    Agree source source' left right (read >>= body) (read >>= body') final ↔
      Agree source source' left right (body source) (body' source') final := Iff.rfl

theorem agree_peek? {body : Option Token → Parser γ} {body' : Option Token → Parser δ} :
    Agree source source' left right (peek? >>= body) (peek? >>= body') final ↔
      Agree source source' left right (body left.rest.head?) (body' right.rest.head?) final := Iff.rfl

theorem agree_peekKind? {body : Option TokenKind → Parser γ} {body' : Option TokenKind → Parser δ} :
    Agree source source' left right (peekKind? >>= body) (peekKind? >>= body') final ↔
      Agree source source' left right (body (left.rest.head?.map Token.kind)) (body' (right.rest.head?.map Token.kind)) final :=
  Iff.rfl

theorem agree_secondKind? {body : Option TokenKind → Parser γ} {body' : Option TokenKind → Parser δ} :
    Agree source source' left right (secondKind? >>= body) (secondKind? >>= body') final ↔
      Agree source source' left right (body (left.rest[1]?.map Token.kind)) (body' (right.rest[1]?.map Token.kind)) final :=
  Iff.rfl

theorem agree_lastStop {body : Nat → Parser γ} {body' : Nat → Parser δ} :
    Agree source source' left right (lastStop >>= body) (lastStop >>= body') final ↔
      Agree source source' left right (body left.lastStop) (body' right.lastStop) final := Iff.rfl

theorem agree_isAt {kind kind' : TokenKind} {body : Bool → Parser γ} {body' : Bool → Parser δ} :
    Agree source source' left right (isAt kind >>= body) (isAt kind' >>= body') final ↔
      Agree source source' left right (body (decide (left.rest.head?.map Token.kind = some kind)))
        (body' (decide (right.rest.head?.map Token.kind = some kind'))) final := Iff.rfl

/-- Where the next token begins may differ. -/
theorem agree_here {body : Nat → Parser γ} {body' : Nat → Parser δ}
    (goes : ∀ start start', Agree source source' left right (body start) (body' start') final) :
    Agree source source' left right (here >>= body) (here >>= body') final := by
  have looks : ∀ source cursor, ∃ start, here source cursor = .ok (start, cursor) := by
    intro source cursor
    cases shape : cursor.rest.head? with
    | none => exact ⟨_, bind_ok (show peek? source cursor = .ok (none, cursor) by rw [← shape]; rfl)⟩
    | some token => exact ⟨token.start, bind_ok (show peek? source cursor = .ok (some token, cursor) by rw [← shape]; rfl)⟩
  obtain ⟨start, ran⟩ := looks source left
  obtain ⟨start', run⟩ := looks source' right
  intro c left' whole
  rw [bind_ok ran] at whole
  rw [bind_ok run]
  exact goes start start' c left' whole

end Rules

section Iteration

variable {step : σ → Parser (Step σ ρ)} {step' : τ → Parser (Step τ π)} {state : σ} {state' : τ}

theorem iterateFrom_again {cursor next : Cursor} {later : σ} (stepped : step state source cursor = .ok (.again later, next))
    (shorter : Shorter cursor next) : iterateFrom step state source cursor = iterateFrom step later source next := by
  rw [iterateFrom, stepped]
  exact if_pos shorter

theorem iterateFrom_done {cursor next : Cursor} {value : ρ} (stepped : step state source cursor = .ok (.done value, next)) :
    iterateFrom step state source cursor = .ok (value, next) := by
  rw [iterateFrom, stepped]

theorem iterateFrom_error {cursor : Cursor} {fault : SyntaxFault} (stepped : step state source cursor = .error fault) :
    iterateFrom step state source cursor = .error fault := by
  rw [iterateFrom, stepped]

/-- Every step of the first parser is answered by the second one, which may take
any number of steps for it. -/
theorem agree_iterate {post : ρ → Cursor → π → Cursor → Prop}
    (invariant : σ → Cursor → τ → Cursor → Prop) (start : invariant state left state' right)
    (answered : ∀ state left state' right, invariant state left state' right →
      ∀ outcome next, step state source left = .ok (outcome, next) →
        match outcome with
        | .again later => ∃ later' next', invariant later next later' next' ∧
            iterateFrom step' state' source' right = iterateFrom step' later' source' next'
        | .done a => ∃ b right', iterateFrom step' state' source' right = .ok (b, right') ∧ post a next b right') :
    Agree source source' left right (iterate step state) (iterate step' state') post := by
  intro a left' ran
  replace ran : iterateFrom step state source left = .ok (a, left') := ran
  show ∃ b right', iterateFrom step' state' source' right = .ok (b, right') ∧ _
  fun_induction iterateFrom step state source left generalizing state' right with
  | case1 => cases ran
  | case2 state left value next stepped =>
    cases ran
    exact answered state left state' right start _ _ stepped
  | case3 state left later next stepped shorter ih =>
    obtain ⟨later', next', kept, goes⟩ := answered state left state' right start _ _ stepped
    rw [goes]
    exact ih kept ran
  | case4 => cases ran

/-- What every pair of steps keeps holds when both parsers are done. -/
theorem agree_iterate_step {post : ρ → Cursor → π → Cursor → Prop} (strides : ∀ state, Strides (step' state))
    (invariant : σ → Cursor → τ → Cursor → Prop) (start : invariant state left state' right)
    (preserved : ∀ state left state' right, invariant state left state' right →
      Agree source source' left right (step state) (step' state') fun outcome next outcome' next' =>
        match outcome, outcome' with
        | .again later, .again later' => invariant later next later' next'
        | .done a, .done b => post a next b next'
        | _, _ => False) :
    Agree source source' left right (iterate step state) (iterate step' state') post := by
  refine agree_iterate invariant start ?_
  intro state left state' right holds outcome next stepped
  obtain ⟨outcome', next', run, kept⟩ := preserved state left state' right holds _ _ stepped
  cases outcome <;> cases outcome' <;> simp only at kept
  · exact ⟨_, _, kept, iterateFrom_again run ((strides state').ensures source' right _ _ run)⟩
  · exact ⟨_, _, iterateFrom_done run, kept⟩

end Iteration

end KindLift.ParserSimulation
