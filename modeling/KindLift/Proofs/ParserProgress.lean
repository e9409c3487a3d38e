import KindLift.Proofs.CursorAdvance

/-! Steps make progress: one that asks to be taken again has taken a token, so that no
loop of the parser ends because nothing is read any more. -/
namespace KindLift.ParserProgress
open KindLift.Parser ParserLogic CursorAdvance

variable {source : List Char} {cursor next : Cursor}

/-- Fewer tokens are left. -/
def Shorter (cursor next : Cursor) : Prop := next.rest.length < cursor.rest.length

/-- Wherever the parser begins, it takes a token. -/
class Takes (parser : Parser α) : Prop where
  ensures : ∀ source cursor, Ensures source cursor parser fun _ next => Shorter cursor next

/-- If the step is to be taken again, fewer tokens are left. -/
def Goes (cursor : Cursor) : Step σ ρ → Cursor → Prop
  | .again _, next => Shorter cursor next
  | .done _, _ => True

/-- Wherever the step begins, it takes a token when it is to be taken again. -/
class Strides (step : Parser (Step σ ρ)) : Prop where
  ensures : ∀ source cursor, Ensures source cursor step (Goes cursor)

theorem Shorter.goes {outcome : Step σ ρ} (shorter : Shorter cursor next) : Goes cursor outcome next := by
  cases outcome with
  | again => exact shorter
  | done => trivial

/-- A cursor stays where it is or has fewer tokens in front of it. -/
theorem Leads.stays (leads : Leads cursor next) : next = cursor ∨ Shorter cursor next := by
  rcases leads with rfl | ⟨front, token, shape, -⟩
  · exact .inl rfl
  · refine .inr ?_
    rw [Shorter, shape, List.length_append, List.length_cons]
    omega

theorem Leads.length_le (leads : Leads cursor next) : next.rest.length ≤ cursor.rest.length := leads.suffix.length_le

/-! ### Rules -/

section Rules

variable {parser : Parser α} {body : α → Parser β} {step : α → Parser (Step σ ρ)}

/-- What has been taken stays taken. -/
theorem shorter_then (taken : Ensures source cursor parser fun _ next => Shorter cursor next)
    (later : ∀ value, Advances (body value)) : Ensures source cursor (parser >>= body) fun _ next => Shorter cursor next :=
  ensures_then taken fun value middle shorter => ensures_mono ((later value).ensures source middle) fun _ _ leads =>
    Nat.lt_of_le_of_lt (Leads.length_le leads) shorter

theorem goes_of_shorter {step : Parser (Step σ ρ)} (taken : Ensures source cursor step fun _ next => Shorter cursor next) :
    Ensures source cursor step (Goes cursor) := ensures_mono taken fun _ _ shorter => shorter.goes

theorem Takes.then (first : Takes parser) (second : ∀ value, Advances (body value)) : Takes (parser >>= body) :=
  ⟨fun source cursor => shorter_then (first.ensures source cursor) second⟩

theorem Takes.after (first : Advances parser) (second : ∀ value, Takes (body value)) : Takes (parser >>= body) :=
  ⟨fun source cursor => ensures_then (first.ensures source cursor) fun value middle leads =>
    ensures_mono ((second value).ensures source middle) fun _ _ shorter => Nat.lt_of_lt_of_le shorter (Leads.length_le leads)⟩

theorem Strides.after (first : Advances parser) (second : ∀ value, Strides (step value)) : Strides (parser >>= step) := by
  refine ⟨fun source cursor => ensures_then (first.ensures source cursor) fun value middle leads => ?_⟩
  refine ensures_mono ((second value).ensures source middle) fun outcome next goes => ?_
  cases outcome with
  | again => exact Nat.lt_of_lt_of_le goes (Leads.length_le leads)
  | done => trivial

instance Strides.taking {step : Parser (Step σ ρ)} [takes : Takes step] : Strides step :=
  ⟨fun source cursor => goes_of_shorter (takes.ensures source cursor)⟩

end Rules

instance Takes.fail {cause : ParseCause} : Takes (Parser.fail cause : Parser α) := ⟨fun _ _ => ensures_fail⟩

instance Takes.throw {fault : SyntaxFault} : Takes (MonadExcept.throw fault : Parser α) := ⟨fun _ _ => ensures_throw⟩

instance Takes.bind {parser : Parser α} {body : α → Parser β} [first : Takes parser] [second : ∀ value, Advances (body value)] :
    Takes (parser >>= body) := first.then second

instance (priority := low) Takes.behind {parser : Parser α} {body : α → Parser β} [first : Advances parser]
    [second : ∀ value, Takes (body value)] : Takes (parser >>= body) := .after first second

instance (priority := low) Strides.behind {parser : Parser α} {step : α → Parser (Step σ ρ)} [first : Advances parser]
    [second : ∀ value, Strides (step value)] : Strides (parser >>= step) := .after first second

instance Takes.choice {condition : Prop} [Decidable condition] {parser other : Parser α} [first : Takes parser]
    [second : Takes other] : Takes (if condition then parser else other) := by
  split <;> assumption

instance Strides.done {result : ρ} : Strides (pure (.done result) : Parser (Step σ ρ)) :=
  ⟨fun _ _ => ensures_pure.mpr trivial⟩

instance Strides.fail {cause : ParseCause} : Strides (Parser.fail cause : Parser (Step σ ρ)) := ⟨fun _ _ => ensures_fail⟩

instance Strides.choice {condition : Prop} [Decidable condition] {step other : Parser (Step σ ρ)} [first : Strides step]
    [second : Strides other] : Strides (if condition then step else other) := by
  split <;> assumption

/-! ### Tokens and groups -/

/-- In front of a token one is taken. -/
theorem bump_shorter {token : Token} (here : cursor.rest.head? = some token) :
    Ensures source cursor bump fun _ next => Shorter cursor next := by
  obtain ⟨_ | ⟨first, rest⟩, stop⟩ := cursor
  · cases here
  · rintro _ _ ⟨⟩
    exact Nat.lt_succ_self _

theorem eat?_shorter (kind : TokenKind) :
    Ensures source cursor (eat? kind) fun a next => Leads cursor next ∧ (a.isSome = true → Shorter cursor next) := by
  simp only [eat?, ensures_bind, ensures_isAt]
  split
  · rename_i here
    obtain ⟨token, shape, -⟩ := Option.map_eq_some_iff.mp (of_decide_eq_true here)
    intro a next ran
    exact ⟨bump_advances.ensures _ _ _ _ ran, fun _ => bump_shorter shape _ _ ran⟩
  · exact ensures_pure.mpr ⟨.refl _, by simp⟩

theorem eats_shorter (kind : TokenKind) :
    Ensures source cursor (eats kind) fun a next => Leads cursor next ∧ (a = true → Shorter cursor next) :=
  ensures_then (eat?_shorter kind) fun _ _ holds => ensures_pure.mpr holds

/-- A step that goes on behind a token it looks for. -/
instance Strides.eats {kind : TokenKind} {step other : Parser (Step σ ρ)} [more : Advances step] [last : Strides other] :
    Strides (Parser.eats kind >>= fun found => if found = true then step else other) := by
  refine ⟨fun source cursor => ensures_then (eats_shorter kind) fun found middle ⟨leads, taken⟩ => ?_⟩
  split
  · rename_i isFound
    exact ensures_mono (more.ensures source middle) fun _ _ later =>
      Shorter.goes (Nat.lt_of_le_of_lt (Leads.length_le later) (taken isFound))
  · refine ensures_mono (last.ensures source middle) fun outcome next goes => ?_
    cases outcome with
    | again => exact Nat.lt_of_lt_of_le goes (Leads.length_le leads)
    | done => trivial

/-- A step that looks at the next token first. -/
theorem Strides.peek {step : Option Token → Parser (Step σ ρ)} (last : Strides (step none))
    (first : ∀ source cursor token, cursor.rest.head? = some token → Ensures source cursor (step (some token)) (Goes cursor)) :
    Strides (peek? >>= step) := by
  refine ⟨fun source cursor => ensures_bind.mpr (ensures_peek?.mpr ?_)⟩
  cases here : cursor.rest.head? with
  | none => exact last.ensures source cursor
  | some token => exact first source cursor token here

theorem Strides.peekKind {step : Option TokenKind → Parser (Step σ ρ)} (last : Strides (step none))
    (first : ∀ source cursor token, cursor.rest.head? = some token → Ensures source cursor (step (some token.kind)) (Goes cursor)) :
    Strides (peekKind? >>= step) :=
  @Strides.peek _ _ (fun token => step (token.map Token.kind)) last first

/-- In front of a token the step takes it and goes on. -/
theorem bump_goes {token : Token} {step : Option Token → Parser (Step σ ρ)} (here : cursor.rest.head? = some token)
    (later : ∀ value, Advances (step value)) : Ensures source cursor (bump >>= step) (Goes cursor) :=
  goes_of_shorter (shorter_then (bump_shorter here) later)

instance expect_takes (kind : TokenKind) (what : String) : Takes (expect kind what) := by
  refine ⟨fun source cursor => ensures_then (eat?_shorter kind) fun taken middle ⟨_, shorter⟩ => ?_⟩
  cases taken with
  | none => exact ensures_fail
  | some token => exact ensures_pure.mpr (shorter rfl)

instance expectName_takes (what : String) : Takes (expectName what) := by
  refine ⟨fun source cursor => ?_⟩
  simp only [expectName, name?, ensures_bind, ensures_peek?]
  cases here : cursor.rest.head? with
  | none => exact ensures_pure.mpr ensures_fail
  | some token =>
    dsimp only
    split
    · refine ensures_mono (bump_shorter here) fun taken middle shorter => ?_
      cases taken with
      | none => exact ensures_fail
      | some token => exact ensures_pure.mpr shorter
    · exact ensures_pure.mpr ensures_fail

instance skipGroup_takes : Takes skipGroup := by
  constructor
  intro source cursor
  simp only [skipGroup, ensures_bind, ensures_get]
  split
  · exact ensures_fail
  · split
    · exact ensures_throw
    · rename_i closing rest split
      simp only [ensures_bind, ensures_set, ensures_pure]
      exact Token.splitGroup?_length_lt split

instance scanStep_strides (stops : TokenKind → Bool) (seen : Option Span) : Strides (scanStep stops seen) := by
  refine .peek inferInstance fun source cursor token here => ?_
  dsimp only
  split
  · exact Strides.done.ensures source cursor
  · split
    · exact Strides.taking.ensures source cursor
    · exact Strides.done.ensures source cursor
    · exact bump_goes here inferInstance

instance pathStep_strides (what : String) (read : DottedName × Span) : Strides (pathStep what read) := by
  unfold pathStep
  infer_instance

instance path_takes (what : String) : Takes (path what) := .then inferInstance inferInstance

instance importClause_takes (start : Nat) : Takes (importClause start) := .then inferInstance inferInstance

instance importClauses_takes : Takes importClauses := .then inferInstance inferInstance

instance packageClause_takes (outer : Option PackageClause) : Takes (packageClause outer) := .then inferInstance inferInstance

instance paramList_takes : Takes paramList := .then inferInstance inferInstance

instance parent_takes : Takes parent := .then inferInstance inferInstance

instance importStep_strides (segments : List String) : Strides (importStep segments) := by
  unfold importStep
  infer_instance

theorem importSelector_shorter {token : Token} (here : cursor.rest.head? = some token) :
    Ensures source cursor (importSelector token) fun _ next => Shorter cursor next := by
  unfold importSelector
  split
  · exact shorter_then (bump_shorter here) inferInstance
  · split
    · exact shorter_then (bump_shorter here) inferInstance
    · exact ensures_fail

/-! ### Declarations -/

instance modifierStep_strides (seen : Modifiers) : Strides (modifierStep seen) := by
  refine .peek inferInstance fun source cursor token here => ?_
  dsimp only
  split
  case h_10 =>
    refine ensures_bind.mpr (ensures_secondKind?.mpr ?_)
    split <;> first | exact bump_goes here inferInstance | exact Strides.done.ensures source cursor
  case h_11 =>
    refine ensures_bind.mpr (ensures_secondKind?.mpr ?_)
    split
    · split <;> first | exact bump_goes here inferInstance | exact Strides.done.ensures source cursor
    · exact Strides.done.ensures source cursor
  case h_1 => exact goes_of_shorter (shorter_then (shorter_then (bump_shorter here) inferInstance) inferInstance)
  all_goals first | exact bump_goes here inferInstance | exact Strides.done.ensures source cursor

instance typeParamStep_strides (opening : Token) (params : List TypeParam) : Strides (typeParamStep opening params) := by
  unfold typeParamStep
  infer_instance

instance method_takes : Takes method := .then inferInstance inferInstance

instance interface_takes : Takes interface := .then inferInstance inferInstance

instance holder_takes : Takes holder := .then inferInstance inferInstance

instance opaqueDecl_takes (keyword : Keyword) (mods : Modifiers) : Takes (opaqueDecl keyword mods) :=
  .then inferInstance inferInstance

instance packageObject_takes : Takes packageObject := .then inferInstance inferInstance

/-! ### Statements -/

/-- In front of a token a statement takes it, or there is none. -/
theorem skipStatement_shorter {token : Token} (here : cursor.rest.head? = some token) :
    Ensures source cursor skipStatement fun _ next => Shorter cursor next := by
  refine ensures_bind.mpr (ensures_peekKind?.mpr ?_)
  rw [here, Option.map_some]
  split
  · contradiction
  · exact Takes.ensures source cursor
  · exact ensures_fail
  · exact shorter_then (bump_shorter here) inferInstance

/-- Modifiers that are there are taken, and the statement behind them as well. -/
theorem shorter_behind_modifiers {body : Modifiers → Parser α} (later : ∀ mods, Advances (body mods))
    (first : ∀ mods, Ensures source cursor (body mods) fun _ next => Shorter cursor next) :
    Ensures source cursor (modifiers >>= body) fun _ next => Shorter cursor next := by
  refine ensures_then (modifiers_advances.ensures source cursor) fun mods middle leads => ?_
  rcases Leads.stays leads with rfl | shorter
  · exact first mods
  · exact ensures_mono ((later mods).ensures source middle) fun _ _ more => Nat.lt_of_le_of_lt (Leads.length_le more) shorter

theorem traitStatement_shorter {token : Token} (here : cursor.rest.head? = some token) (seen : TraitMembers) :
    Ensures source cursor (traitStatement seen) fun _ next => Shorter cursor next := by
  refine shorter_behind_modifiers (fun _ => .then inferInstance fun kind => by split <;> infer_instance) fun mods => ?_
  refine ensures_bind.mpr (ensures_peekKind?.mpr ?_)
  split
  · exact Takes.ensures source cursor
  · exact Takes.ensures source cursor
  · exact shorter_then (skipStatement_shorter here) inferInstance

theorem holderStatement_shorter {token : Token} (here : cursor.rest.head? = some token) (start : Nat) (seen : HolderMembers) :
    Ensures source cursor (holderStatement start seen) fun _ next => Shorter cursor next := by
  have named : Ensures source cursor namedStatement fun _ next => Shorter cursor next :=
    shorter_then (bump_shorter here) inferInstance
  refine shorter_behind_modifiers (fun _ => .then inferInstance fun kind => by
    split <;> first | infer_instance | split <;> infer_instance) fun mods => ?_
  refine ensures_bind.mpr (ensures_peekKind?.mpr ?_)
  split
  · exact Takes.ensures source cursor
  · exact Takes.ensures source cursor
  · split
    · exact shorter_then named inferInstance
    · exact shorter_then (skipStatement_shorter here) inferInstance
  · exact shorter_then (skipStatement_shorter here) inferInstance

/-- In front of the end of a body there is a token. -/
theorem closeBody?_open (openBrace : Nat) : Ensures source cursor (closeBody? openBrace) fun found next =>
    Leads cursor next ∧ (found = none → ∃ token, next.rest.head? = some token) := by
  refine ensures_then ((eatAll_advances .semi).ensures source cursor) fun _ middle leads => ?_
  refine ensures_bind.mpr (ensures_peek?.mpr ?_)
  split
  · exact ensures_throw
  · rename_i token here
    split
    · refine ensures_then (bump_advances.ensures source middle) fun _ next more => ensures_pure.mpr ⟨leads.trans more, ?_⟩
      exact fun never => by cases never
    · exact ensures_pure.mpr ⟨leads, fun _ => ⟨token, here⟩⟩

/-- What is read of a body is read until the body ends. -/
theorem strides_in_body {openBrace : Nat} {step : Parser (Step σ ρ)} {result : Body → ρ}
    (first : ∀ source cursor token, cursor.rest.head? = some token → Ensures source cursor step (Goes cursor)) :
    Strides (do match ← closeBody? openBrace with
      | some body => return .done (result body)
      | none => step : Parser (Step σ ρ)) := by
  refine ⟨fun source cursor => ensures_then (closeBody?_open openBrace) fun found middle ⟨leads, inside⟩ => ?_⟩
  cases found with
  | some body => exact ensures_pure.mpr trivial
  | none =>
    obtain ⟨token, here⟩ := inside rfl
    refine ensures_mono (first source middle token here) fun outcome next goes => ?_
    cases outcome with
    | again => exact Nat.lt_of_lt_of_le goes (Leads.length_le leads)
    | done => trivial

instance modifiedDecl_takes : Takes modifiedDecl := by
  refine .after inferInstance fun mods => .after inferInstance fun kind => ?_
  split <;> infer_instance

instance topLevel_takes : Takes topLevel := .after inferInstance inferInstance

instance outlineStep_strides (seen : Outline) : Strides (outlineStep seen) :=
  .after inferInstance fun _ => .after inferInstance inferInstance

end KindLift.ParserProgress
