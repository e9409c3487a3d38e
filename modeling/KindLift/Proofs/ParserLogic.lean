import KindLift.Decl.Cursor

/-! A logic of successful parses. `Ensures` says what holds of the result and of
the cursor whenever a parser succeeds; it is computed through the structure of a
parser, and a repeated step is described by an invariant. -/
namespace KindLift.ParserLogic
open KindLift.Parser

/-- Whenever the parser succeeds from the cursor, its result and the cursor it
leaves satisfy `post`. -/
def Ensures (source : List Char) (cursor : Cursor) (parser : Parser α)
    (post : α → Cursor → Prop) : Prop :=
  ∀ result next, parser source cursor = .ok (result, next) → post result next

variable {source : List Char} {cursor : Cursor}

@[simp] theorem ensures_pure {value : α} {post : α → Cursor → Prop} :
    Ensures source cursor (pure value) post ↔ post value cursor := by
  constructor
  · intro ensured
    exact ensured value cursor rfl
  · intro holds result next ran
    cases ran
    exact holds

@[simp] theorem ensures_bind {parser : Parser α} {body : α → Parser β} {post : β → Cursor → Prop} :
    Ensures source cursor (parser >>= body) post ↔
      Ensures source cursor parser fun value next => Ensures source next (body value) post := by
  simp only [Ensures, bind, ReaderT.bind, StateT.bind, Except.bind]
  cases ran : parser source cursor with
  | error fault => simp
  | ok pair =>
    obtain ⟨value, next⟩ := pair
    simp

theorem bind_ok {first : Parser α} {body : α → Parser β} {value : α} {next : Cursor}
    (ran : first source cursor = .ok (value, next)) : (first >>= body) source cursor = body value source next := by
  simp only [bind, ReaderT.bind, StateT.bind, Except.bind, ran]

theorem bind_error {first : Parser α} {body : α → Parser β} {fault : SyntaxFault}
    (ran : first source cursor = .error fault) : (first >>= body) source cursor = .error fault := by
  simp only [bind, ReaderT.bind, StateT.bind, Except.bind, ran]

/-- A run of two parsers is a run of the first one and then a run of the second one. -/
theorem bind_eq_ok {first : Parser α} {body : α → Parser β} {result : β × Cursor}
    (ran : (first >>= body) source cursor = .ok result) :
    ∃ value next, first source cursor = .ok (value, next) ∧ body value source next = .ok result := by
  cases run : first source cursor with
  | error fault =>
    rw [bind_error run] at ran
    cases ran
  | ok pair => exact ⟨pair.1, pair.2, rfl, (bind_ok run).symm.trans ran⟩

@[simp] theorem ensures_throw {fault : SyntaxFault} {post : α → Cursor → Prop} :
    Ensures source cursor (throw fault) post := by
  intro result next ran
  cases ran

@[simp] theorem ensures_get {post : Cursor → Cursor → Prop} :
    Ensures source cursor get post ↔ post cursor cursor := by
  constructor
  · intro ensured
    exact ensured cursor cursor rfl
  · intro holds result next ran
    cases ran
    exact holds

@[simp] theorem ensures_read {post : List Char → Cursor → Prop} :
    Ensures source cursor read post ↔ post source cursor := by
  constructor
  · intro ensured
    exact ensured source cursor rfl
  · intro holds result next ran
    cases ran
    exact holds

@[simp] theorem ensures_set {target : Cursor} {post : PUnit → Cursor → Prop} :
    Ensures source cursor (set target) post ↔ post ⟨⟩ target := by
  constructor
  · intro ensured
    exact ensured ⟨⟩ target rfl
  · intro holds result next ran
    cases ran
    exact holds

theorem ensures_mono {parser : Parser α} {weak strong : α → Cursor → Prop}
    (ensured : Ensures source cursor parser strong)
    (weaken : ∀ value next, strong value next → weak value next) :
    Ensures source cursor parser weak :=
  fun result next ran => weaken result next (ensured result next ran)

/-- First one parser, then another from where it has stopped. -/
theorem ensures_then {parser : Parser α} {body : α → Parser β} {middle : α → Cursor → Prop}
    {post : β → Cursor → Prop} (first : Ensures source cursor parser middle)
    (second : ∀ value next, middle value next → Ensures source next (body value) post) :
    Ensures source cursor (parser >>= body) post :=
  ensures_bind.mpr (ensures_mono first second)

/-- What every step keeps holds when the last one is done. -/
theorem ensures_iterate {step : σ → Parser (Step σ ρ)} {post : ρ → Cursor → Prop}
    (invariant : σ → Cursor → Prop) (start : invariant state cursor)
    (preserved : ∀ state cursor, invariant state cursor →
      Ensures source cursor (step state) fun outcome next =>
        match outcome with
        | .again state => invariant state next
        | .done result => post result next) :
    Ensures source cursor (iterate step state) post := by
  intro result next ran
  replace ran : iterateFrom step state source cursor = .ok (result, next) := ran
  fun_induction iterateFrom step state source cursor with
  | case1 => cases ran
  | case2 state cursor value after stepped =>
    cases ran
    exact preserved state cursor start _ _ stepped
  | case3 state cursor later after stepped shorter ih =>
    exact ih (preserved state cursor start _ _ stepped) ran
  | case4 => cases ran

@[simp] theorem ensures_peek? {post : Option Token → Cursor → Prop} :
    Ensures source cursor peek? post ↔ post cursor.rest.head? cursor := by
  simp only [peek?, ensures_bind, ensures_get, ensures_pure]

@[simp] theorem ensures_peekKind? {post : Option TokenKind → Cursor → Prop} :
    Ensures source cursor peekKind? post ↔ post (cursor.rest.head?.map Token.kind) cursor := by
  simp only [peekKind?, ensures_bind, ensures_peek?, ensures_pure]

@[simp] theorem ensures_secondKind? {post : Option TokenKind → Cursor → Prop} :
    Ensures source cursor secondKind? post ↔ post (cursor.rest[1]?.map Token.kind) cursor := by
  simp only [secondKind?, ensures_bind, ensures_get, ensures_pure]

@[simp] theorem ensures_lastStop {post : Nat → Cursor → Prop} :
    Ensures source cursor lastStop post ↔ post cursor.lastStop cursor := by
  simp only [Parser.lastStop, ensures_bind, ensures_get, ensures_pure]

@[simp] theorem ensures_isAt {kind : TokenKind} {post : Bool → Cursor → Prop} :
    Ensures source cursor (isAt kind) post ↔
      post (decide (cursor.rest.head?.map Token.kind = some kind)) cursor := by
  simp only [isAt, ensures_bind, ensures_peekKind?, ensures_pure]

@[simp] theorem ensures_fail {cause : ParseCause} {post : α → Cursor → Prop} :
    Ensures source cursor (fail cause) post := by
  unfold fail
  rw [ensures_bind]
  intro offset next ran
  exact ensures_throw

theorem fail_ne_ok {cause : ParseCause} {result : α × Cursor} : fail cause source cursor ≠ .ok result := by
  have never : Ensures source cursor (fail cause : Parser α) fun _ _ => False := ensures_fail
  exact fun ran => never _ _ ran

end KindLift.ParserLogic
