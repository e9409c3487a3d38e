import KindLift.Proofs.BodyLayouts
import KindLift.Proofs.BracketBalance

/-! The brackets of what the parsers read. A parser passes over matched tokens. What reads
the inside of brackets passes over matched tokens and then the bracket that closes them. -/
namespace KindLift.BalancedParsers
open KindLift.Parser ParserLogic QualifiedTokens BracketBalance
open TokenReaders (expect_some)

variable {source : List Char} {cursor middle next : Cursor} {token opening : Token} {bracket : Bracket} {kind : TokenKind}

/-- What lies between the cursors is matched. -/
def Passes (cursor next : Cursor) : Prop := ∃ front, cursor.rest = front ++ next.rest ∧ Matched front

/-- Behind what lies between the cursors, a bracket closes. -/
def Closes (bracket : Bracket) (cursor next : Cursor) : Prop :=
  ∃ front closing, cursor.rest = front ++ closing :: next.rest ∧ Matched front ∧ closing.kind = .closer bracket

/-- A repeated step passes over matched tokens, and closes the bracket at last. -/
def Encloses (bracket : Bracket) (cursor : Cursor) : Step σ ρ → Cursor → Prop
  | .again _, next => Passes cursor next
  | .done _, next => Closes bracket cursor next

/-- Wherever the parser begins, it passes over matched tokens. -/
class Balances (parser : Parser α) : Prop where
  ensures : ∀ source cursor, Ensures source cursor parser fun _ next => Passes cursor next

/-- Tokens of this kind are no brackets. -/
class Single (kind : TokenKind) : Prop where
  isPlain : IsPlain kind

theorem Passes.refl (cursor : Cursor) : Passes cursor cursor := ⟨[], rfl, .nil⟩

theorem Passes.trans (first : Passes cursor middle) (second : Passes middle next) : Passes cursor next := by
  obtain ⟨front, shape, matched⟩ := first
  obtain ⟨back, shape', others⟩ := second
  exact ⟨front ++ back, by rw [shape, shape', List.append_assoc], matched.append others⟩

theorem Passes.closes (first : Passes cursor middle) (second : Closes bracket middle next) : Closes bracket cursor next := by
  obtain ⟨front, shape, matched⟩ := first
  obtain ⟨back, closing, shape', others, closes⟩ := second
  exact ⟨front ++ back, closing, by rw [shape, shape', List.append_assoc], matched.append others, closes⟩

theorem Passes.encloses {outcome : Step σ ρ} (first : Passes cursor middle) (second : Encloses bracket middle outcome next) :
    Encloses bracket cursor outcome next := by
  cases outcome with
  | again => exact first.trans second
  | done => exact first.closes second

theorem closes_here (shape : cursor.rest = token :: next.rest) (closes : token.kind = .closer bracket) :
    Closes bracket cursor next := ⟨[], token, shape, .nil, closes⟩

/-- What is read in brackets is matched together with them. -/
theorem Closes.enclosed (closes : Closes bracket middle next) (shape : cursor.rest = opening :: middle.rest)
    (opens : opening.kind = .opener bracket) : Passes cursor next := by
  obtain ⟨inside, closing, rest, matched, ends⟩ := closes
  exact ⟨opening :: (inside ++ [closing]), by simp [shape, rest], .group opens matched ends .nil⟩

/-! ### Steps and loops -/

instance Balances.pure {value : α} : Balances (Pure.pure value) := ⟨fun _ _ => ensures_pure.mpr (.refl _)⟩

instance Balances.fail {cause : ParseCause} : Balances (Parser.fail cause : Parser α) := ⟨fun _ _ => ensures_fail⟩

instance Balances.throw {fault : SyntaxFault} : Balances (MonadExcept.throw fault : Parser α) := ⟨fun _ _ => ensures_throw⟩

theorem passes_then {parser : Parser α} {body : α → Parser β} (first : Ensures source cursor parser fun _ next => Passes cursor next)
    (second : ∀ value, Balances (body value)) : Ensures source cursor (parser >>= body) fun _ next => Passes cursor next :=
  ensures_then first fun value middle passed => ensures_mono ((second value).ensures source middle) fun _ _ => passed.trans

theorem Balances.then {parser : Parser α} {body : α → Parser β} (first : Balances parser)
    (second : ∀ value, Balances (body value)) : Balances (parser >>= body) :=
  ⟨fun source cursor => passes_then (first.ensures source cursor) second⟩

instance Balances.bind {parser : Parser α} {body : α → Parser β} [first : Balances parser]
    [second : ∀ value, Balances (body value)] : Balances (parser >>= body) := first.then second

instance Balances.choice {condition : Prop} [Decidable condition] {parser other : Parser α} [first : Balances parser]
    [second : Balances other] : Balances (if condition then parser else other) := by
  split <;> assumption

theorem Balances.again {step : σ → Parser (Step σ ρ)} (balances : ∀ state, Balances (step state)) {state : σ} :
    Balances (Parser.iterate step state) := by
  refine ⟨fun source cursor => ensures_iterate (fun _ current => Passes cursor current) (.refl _) ?_⟩
  intro state current passed
  refine ensures_mono ((balances state).ensures source current) fun outcome next later => ?_
  cases outcome <;> exact passed.trans later

instance Balances.iterate {step : σ → Parser (Step σ ρ)} [balances : ∀ state, Balances (step state)] {state : σ} :
    Balances (Parser.iterate step state) := .again balances

/-- A repeated step that closes a bracket at last does so as a whole. -/
theorem iterate_closes {step : σ → Parser (Step σ ρ)} {state : σ}
    (encloses : ∀ source cursor state, Ensures source cursor (step state) (Encloses bracket cursor)) :
    Ensures source cursor (iterate step state) fun _ next => Closes bracket cursor next := by
  refine ensures_iterate (fun _ current => Passes cursor current) (.refl _) fun state current passed => ?_
  refine ensures_mono (encloses source current state) fun outcome next later => ?_
  cases outcome <;> exact passed.encloses later

instance peek?_balances : Balances peek? := ⟨fun _ _ => ensures_peek?.mpr (.refl _)⟩

instance peekKind?_balances : Balances peekKind? := ⟨fun _ _ => ensures_peekKind?.mpr (.refl _)⟩

instance secondKind?_balances : Balances secondKind? := ⟨fun _ _ => ensures_secondKind?.mpr (.refl _)⟩

instance isAt_balances (kind : TokenKind) : Balances (isAt kind) := ⟨fun _ _ => ensures_isAt.mpr (.refl _)⟩

instance lastStop_balances : Balances Parser.lastStop := ⟨fun _ _ => ensures_lastStop.mpr (.refl _)⟩

instance read_balances : Balances (read : Parser (List Char)) := ⟨fun _ _ => ensures_read.mpr (.refl _)⟩

instance here_balances : Balances here := by
  refine .then inferInstance fun next => ?_
  split <;> infer_instance

/-! ### Tokens and groups -/

instance keyword_single (word : Keyword) : Single (.keyword word) := ⟨by simp [IsPlain]⟩

instance comma_single : Single .comma := ⟨by simp [IsPlain]⟩

instance semi_single : Single .semi := ⟨by simp [IsPlain]⟩

instance dot_single : Single .dot := ⟨by simp [IsPlain]⟩

instance colon_single : Single .colon := ⟨by simp [IsPlain]⟩

instance equals_single : Single .equals := ⟨by simp [IsPlain]⟩

theorem isPlain_of_isName (name : token.isName = true) : IsPlain token.kind := by
  have kinds : token.kind = .ident ∨ token.kind = .operator := by simpa [Token.isName] using name
  rcases kinds with kind | kind <;> simp [IsPlain, kind]

theorem bump_passes (head : cursor.rest.head? = some token) (plain : IsPlain token.kind) :
    Ensures source cursor bump fun _ next => Passes cursor next := by
  obtain ⟨_ | ⟨first, rest⟩, stop⟩ := cursor
  · cases head
  · rintro _ _ ⟨⟩
    cases head
    exact ⟨[token], rfl, .plain plain .nil⟩

/-- Behind a token that is no bracket. -/
theorem bump_then {body : Option Token → Parser β} (head : cursor.rest.head? = some token) (plain : IsPlain token.kind)
    (later : ∀ value, Balances (body value)) : Ensures source cursor (bump >>= body) fun _ next => Passes cursor next :=
  passes_then (bump_passes head plain) later

theorem bumpKind_then {body : Option Token → Parser β} (head : cursor.rest.head?.map Token.kind = some kind) (plain : IsPlain kind)
    (later : ∀ value, Balances (body value)) : Ensures source cursor (bump >>= body) fun _ next => Passes cursor next := by
  obtain ⟨token, first, rfl⟩ := Option.map_eq_some_iff.mp head
  exact bump_then first plain later

instance eat?_balances (kind : TokenKind) [single : Single kind] : Balances (eat? kind) := by
  refine ⟨fun source cursor => ?_⟩
  simp only [eat?, ensures_bind, ensures_isAt]
  split
  · rename_i found
    obtain ⟨token, head, rfl⟩ := Option.map_eq_some_iff.mp (of_decide_eq_true found)
    exact bump_passes head single.isPlain
  · exact ensures_pure.mpr (.refl _)

instance eats_balances (kind : TokenKind) [Single kind] : Balances (eats kind) := by
  unfold eats
  infer_instance

instance expect_balances (kind : TokenKind) [Single kind] (what : String) : Balances (expect kind what) := by
  refine .then inferInstance fun taken => ?_
  split <;> infer_instance

instance eatAll_balances (kind : TokenKind) [Single kind] : Balances (eatAll kind) := by
  unfold eatAll
  infer_instance

instance name?_balances : Balances name? := by
  refine ⟨fun source cursor => ?_⟩
  rw [name?, ensures_bind, ensures_peek?]
  split
  · rename_i token head
    split
    · rename_i name
      exact bump_passes head (isPlain_of_isName name)
    · exact ensures_pure.mpr (.refl _)
  · exact ensures_pure.mpr (.refl _)

instance expectName_balances (what : String) : Balances (expectName what) := by
  refine .then inferInstance fun taken => ?_
  split <;> infer_instance

instance skipGroup_balances : Balances skipGroup := by
  refine ⟨fun source cursor => ?_⟩
  simp only [skipGroup, ensures_bind, ensures_get]
  split
  · exact ensures_fail
  · split
    · exact ensures_throw
    · rename_i closing rest split
      simp only [ensures_bind, ensures_set, ensures_pure]
      obtain ⟨opening, inner, bracket, shape, opens, closes, bracketed⟩ := splitGroup?_split split
      exact ⟨opening :: (inner ++ [closing]), by simp [shape], .group opens bracketed.matched closes .nil⟩

instance skipGroups_balances (bracket : Bracket) : Balances (skipGroups bracket) := by
  unfold skipGroups
  infer_instance

instance skipRest_balances : Balances skipRest := by
  refine .again fun _ => ⟨fun source cursor => ?_⟩
  rw [ensures_bind, ensures_peekKind?]
  split
  · exact ensures_pure.mpr (.refl _)
  · exact ensures_pure.mpr (.refl _)
  · exact ensures_fail
  · rename_i head
    exact bumpKind_then head semi_single.isPlain inferInstance
  · exact ensures_pure.mpr (.refl _)
  · exact Balances.ensures source cursor
  · rename_i word head
    split
    · exact ensures_pure.mpr (.refl _)
    · exact bumpKind_then head (keyword_single word).isPlain inferInstance
  · rename_i kind _ noCloser _ _ noOpener _ head
    exact bumpKind_then head ⟨noOpener, noCloser⟩ inferInstance

instance skipStatement_balances : Balances skipStatement := by
  refine ⟨fun source cursor => ?_⟩
  rw [skipStatement, ensures_bind, ensures_peekKind?]
  split
  · exact ensures_pure.mpr (.refl _)
  · exact Balances.ensures source cursor
  · exact ensures_fail
  · rename_i kind noOpener noCloser head
    exact bumpKind_then head ⟨noOpener, noCloser⟩ inferInstance

instance scanStep_balances (stops : TokenKind → Bool) (seen : Option Span) : Balances (scanStep stops seen) := by
  refine ⟨fun source cursor => ?_⟩
  rw [scanStep, ensures_bind, ensures_peek?]
  split
  · exact ensures_pure.mpr (.refl _)
  rename_i token head
  split
  · exact ensures_pure.mpr (.refl _)
  dsimp only
  split
  · exact Balances.ensures source cursor
  · exact ensures_pure.mpr (.refl _)
  · rename_i noOpener noCloser
    exact bump_then head ⟨noOpener, noCloser⟩ inferInstance

instance scanUntil_balances (stops : TokenKind → Bool) : Balances (scanUntil stops) := by
  unfold scanUntil
  infer_instance

instance pathStep_balances (what : String) (read : DottedName × Span) : Balances (pathStep what read) := by
  refine ⟨fun source cursor => ?_⟩
  simp only [pathStep, ensures_bind, ensures_isAt, ensures_secondKind?]
  split
  · rename_i found
    exact bumpKind_then (of_decide_eq_true (Bool.and_eq_true_iff.mp found).1) dot_single.isPlain inferInstance
  · exact ensures_pure.mpr (.refl _)

instance path_balances (what : String) : Balances (path what) := by
  unfold path
  infer_instance

/-! ### Bodies -/

/-- A body begins with its brace and perhaps a self type. -/
theorem openBody_opens : Ensures source cursor openBody fun _ next =>
    ∃ brace self, cursor.rest = brace :: (self ++ next.rest) ∧ brace.kind = .opener .brace ∧ (self = [] ∨ SelfType self) := by
  refine ensures_then (fun brace middle ran => expect_some ran) ?_
  rintro brace middle ⟨shape, opens, -⟩
  simp only [skipSelfType, ensures_bind, ensures_get]
  split
  · rename_i arrow rest found
    simp only [ensures_set, ensures_pure]
    obtain ⟨self, whole, header⟩ := selfType?_split found
    exact ⟨brace, self, by rw [shape, whole], opens, .inr header⟩
  · simp only [ensures_pure]
    exact ⟨brace, [], shape, opens, .inl rfl⟩

/-- A brace is closed where the end of a body is found. -/
theorem closeBody?_closes (openBrace : Nat) : Ensures source cursor (closeBody? openBrace) fun found next =>
    if found.isSome then Closes .brace cursor next else Passes cursor next := by
  refine ensures_then (Balances.ensures source cursor) fun _ middle passed => ?_
  rw [ensures_bind, ensures_peek?]
  split
  · exact ensures_throw
  · rename_i token head
    split
    · rename_i closes
      rw [ensures_bind]
      rintro _ next ran
      rw [ensures_pure]
      obtain ⟨_ | ⟨token, rest⟩, stop⟩ := middle
      · cases head
      · cases head
        cases ran
        exact passed.closes (closes_here rfl closes)
    · exact ensures_pure.mpr passed

/-- Statements from the opening brace on, and then the closing one. -/
theorem body_balances {step : Nat → σ → Parser (Step σ ρ)} {state : σ}
    (encloses : ∀ openBrace source cursor state, Ensures source cursor (step openBrace state) (Encloses .brace cursor)) :
    Balances (openBody >>= fun openBrace => iterate (step openBrace) state) := by
  refine ⟨fun source cursor => ensures_then openBody_opens ?_⟩
  rintro openBrace middle ⟨brace, self, shape, opens, header⟩
  refine ensures_mono (iterate_closes (encloses openBrace)) fun result next closes => ?_
  rcases header with rfl | header
  · exact closes.enclosed shape opens
  · obtain ⟨inside, closing, rest, matched, ends⟩ := closes
    exact ⟨brace :: (self ++ (inside ++ [closing])), by simp [shape, rest], .body opens header matched ends .nil⟩

/-- The end of a body, or else what is read in front of it. -/
theorem bodyStep_encloses {more : Parser (Step σ ρ)} {result : Body → ρ} (openBrace : Nat)
    (encloses : ∀ source cursor, Ensures source cursor more (Encloses .brace cursor)) :
    Ensures source cursor (closeBody? openBrace >>= fun found =>
      match found with
      | some body => pure (.done (result body))
      | none => more) (Encloses .brace cursor) := by
  refine ensures_then (closeBody?_closes openBrace) fun found middle holds => ?_
  cases found with
  | some body => exact ensures_pure.mpr holds
  | none => exact ensures_mono (encloses source middle) fun _ _ => Passes.encloses holds

/-- A statement is read in front of the end. -/
theorem again_encloses {statement : Parser σ} (balances : Balances statement) :
    Ensures source cursor (statement >>= fun state => pure (.again state : Step σ ρ)) (Encloses bracket cursor) :=
  ensures_then (balances.ensures source cursor) fun _ _ passed => ensures_pure.mpr passed

end KindLift.BalancedParsers
