import KindLift.Decl.Outline
import KindLift.Proofs.ParserLogic

/-! A parser takes tokens off the front of those still to be read and does nothing
else to its cursor: it leaves the cursor where it was or right behind a token. -/
namespace KindLift.CursorAdvance
open KindLift.Parser ParserLogic

variable {source : List Char} {cursor middle next : Cursor}

/-- The second cursor is the first one, or right behind a token in front of it. -/
def Leads (cursor next : Cursor) : Prop :=
  next = cursor ∨ ∃ front token, cursor.rest = front ++ token :: next.rest ∧ next.lastStop = token.stop

/-- Wherever the parser begins, it only goes forward. -/
class Advances (parser : Parser α) : Prop where
  ensures : ∀ source cursor, Ensures source cursor parser fun _ next => Leads cursor next

theorem Leads.refl (cursor : Cursor) : Leads cursor cursor := .inl rfl

theorem Leads.trans (first : Leads cursor middle) (second : Leads middle next) : Leads cursor next := by
  rcases first with rfl | ⟨front, token, shape, stop⟩
  · exact second
  · rcases second with rfl | ⟨front', token', shape', stop'⟩
    · exact .inr ⟨front, token, shape, stop⟩
    · exact .inr ⟨front ++ token :: front', token', by rw [shape, shape', List.append_assoc, List.cons_append], stop'⟩

/-- What is left is a final part of what was there. -/
theorem Leads.suffix (leads : Leads cursor next) : next.rest <:+ cursor.rest := by
  rcases leads with rfl | ⟨front, token, shape, -⟩
  · exact List.suffix_refl _
  · rw [shape]
    exact (List.suffix_cons token next.rest).trans (List.suffix_append front _)

/-! ### Steps and loops -/

instance Advances.pure {value : α} : Advances (Pure.pure value) :=
  ⟨fun _ _ => ensures_pure.mpr (.refl _)⟩

instance Advances.fail {cause : ParseCause} : Advances (Parser.fail cause : Parser α) := ⟨fun _ _ => ensures_fail⟩

instance Advances.throw {fault : SyntaxFault} : Advances (MonadExcept.throw fault : Parser α) := ⟨fun _ _ => ensures_throw⟩

theorem Advances.then {parser : Parser α} {body : α → Parser β} (first : Advances parser)
    (second : ∀ value, Advances (body value)) : Advances (parser >>= body) :=
  ⟨fun source cursor => ensures_then (first.ensures source cursor) fun value middle leads =>
    ensures_mono ((second value).ensures source middle) fun _ _ later => leads.trans later⟩

instance Advances.bind {parser : Parser α} {body : α → Parser β} [first : Advances parser]
    [second : ∀ value, Advances (body value)] : Advances (parser >>= body) := first.then second

instance Advances.choice {condition : Prop} [Decidable condition] {parser other : Parser α} [first : Advances parser]
    [second : Advances other] : Advances (if condition then parser else other) := by
  split <;> assumption

theorem Advances.again {step : σ → Parser (Step σ ρ)} (advances : ∀ state, Advances (step state)) {state : σ} :
    Advances (Parser.iterate step state) := by
  constructor
  intro source cursor
  refine ensures_iterate (fun _ current => Leads cursor current) (.refl _) ?_
  intro state current leads
  refine ensures_mono ((advances state).ensures source current) fun outcome next later => ?_
  cases outcome <;> exact leads.trans later

instance Advances.iterate {step : σ → Parser (Step σ ρ)} [advances : ∀ state, Advances (step state)] {state : σ} :
    Advances (Parser.iterate step state) := .again advances

instance peek?_advances : Advances peek? := ⟨fun _ _ => ensures_peek?.mpr (.refl _)⟩

instance peekKind?_advances : Advances peekKind? := ⟨fun _ _ => ensures_peekKind?.mpr (.refl _)⟩

instance secondKind?_advances : Advances secondKind? := ⟨fun _ _ => ensures_secondKind?.mpr (.refl _)⟩

instance isAt_advances (kind : TokenKind) : Advances (isAt kind) := ⟨fun _ _ => ensures_isAt.mpr (.refl _)⟩

instance lastStop_advances : Advances Parser.lastStop := ⟨fun _ _ => ensures_lastStop.mpr (.refl _)⟩

instance read_advances : Advances (read : Parser (List Char)) := ⟨fun _ _ => ensures_read.mpr (.refl _)⟩

instance here_advances : Advances here := by
  refine .then inferInstance fun next => ?_
  split <;> infer_instance

/-! ### Tokens and groups -/

instance bump_advances : Advances bump := by
  constructor
  intro source cursor
  simp only [bump, ensures_bind, ensures_get]
  split
  · exact ensures_pure.mpr (.refl _)
  · rename_i token rest shape
    simp only [ensures_bind, ensures_set, ensures_pure]
    exact .inr ⟨[], token, shape, rfl⟩

instance eat?_advances (kind : TokenKind) : Advances (eat? kind) := by
  unfold eat?
  infer_instance

instance eats_advances (kind : TokenKind) : Advances (eats kind) := by
  unfold eats
  infer_instance

instance expect_advances (kind : TokenKind) (what : String) : Advances (expect kind what) := by
  refine .then inferInstance fun taken => ?_
  split <;> infer_instance

instance name?_advances : Advances name? := by
  refine .then inferInstance fun next => ?_
  split <;> infer_instance

instance expectName_advances (what : String) : Advances (expectName what) := by
  refine .then inferInstance fun taken => ?_
  split <;> infer_instance

instance eatAll_advances (kind : TokenKind) : Advances (eatAll kind) := by
  unfold eatAll
  infer_instance

theorem splitGroup?_shape (split : Token.splitGroup? tokens = some (closing, rest)) :
    ∃ front, tokens = front ++ closing :: rest := by
  simp only [Token.splitGroup?, Option.bind_eq_bind, Option.bind_eq_some_iff, Option.pure_def,
    Option.some.injEq, Prod.mk.injEq] at split
  obtain ⟨index, _, found, closes, rfl, rfl⟩ := split
  obtain ⟨bound, rfl⟩ := List.getElem?_eq_some_iff.mp closes
  exact ⟨tokens.take index, by rw [List.getElem_cons_drop, List.take_append_drop]⟩

instance skipGroup_advances : Advances skipGroup := by
  constructor
  intro source cursor
  simp only [skipGroup, ensures_bind, ensures_get]
  split
  · exact ensures_fail
  · split
    · exact ensures_throw
    · rename_i closing rest split
      simp only [ensures_bind, ensures_set, ensures_pure]
      obtain ⟨front, shape⟩ := splitGroup?_shape split
      exact .inr ⟨front, closing, shape, rfl⟩

instance skipGroups_advances (bracket : Bracket) : Advances (skipGroups bracket) := by
  unfold skipGroups
  infer_instance

instance skipRest_advances : Advances skipRest := by
  refine .again fun _ => .then inferInstance fun kind => ?_
  split <;> infer_instance

instance skipStatement_advances : Advances skipStatement := by
  refine .then inferInstance fun kind => ?_
  split <;> infer_instance

instance scanStep_advances (stops : TokenKind → Bool) (seen : Option Span) : Advances (scanStep stops seen) := by
  refine .then inferInstance fun next => ?_
  split
  · infer_instance
  split
  · infer_instance
  dsimp only
  split <;> infer_instance

instance scanUntil_advances (stops : TokenKind → Bool) : Advances (scanUntil stops) := by
  unfold scanUntil
  infer_instance

theorem selfTypeArrow?_shape (found : selfTypeArrow? tokens = some (arrow, rest)) :
    ∃ front, tokens = front ++ arrow :: rest := by
  fun_induction selfTypeArrow? tokens with
  | case1 => cases found
  | case2 token later =>
    cases found
    exact ⟨[], rfl⟩
  | case3 => cases found
  | case4 => cases found
  | case5 => cases found
  | case6 => cases found
  | case7 token later word _ _ ih =>
    obtain ⟨front, rfl⟩ := ih found
    exact ⟨token :: front, rfl⟩
  | case8 token later bracket _ closing after split ih =>
    obtain ⟨front, rfl⟩ := ih found
    obtain ⟨group, whole⟩ := splitGroup?_shape split
    exact ⟨group ++ closing :: front, by rw [whole, List.append_assoc, List.cons_append]⟩
  | case9 => cases found
  | case10 token later _ _ _ _ _ _ ih =>
    obtain ⟨front, rfl⟩ := ih found
    exact ⟨token :: front, rfl⟩

theorem selfType?_shape (found : selfType? tokens = some (arrow, rest)) :
    ∃ front, tokens = front ++ arrow :: rest := by
  unfold selfType? at found
  split at found
  · rename_i first second later
    split at found
    · split at found
      · cases found
        exact ⟨[first], rfl⟩
      · obtain ⟨front, rfl⟩ := selfTypeArrow?_shape found
        exact ⟨first :: second :: front, rfl⟩
      · cases found
    · cases found
  · cases found

instance skipSelfType_advances : Advances skipSelfType := by
  constructor
  intro source cursor
  simp only [skipSelfType, ensures_bind, ensures_get]
  split
  · rename_i arrow rest found
    rw [ensures_set]
    obtain ⟨front, shape⟩ := selfType?_shape found
    exact .inr ⟨front, arrow, shape, rfl⟩
  · exact ensures_pure.mpr (.refl _)

instance openBody_advances : Advances openBody := by
  unfold openBody
  infer_instance

instance closeBody?_advances (openBrace : Nat) : Advances (closeBody? openBrace) := by
  refine .then inferInstance fun _ => .then inferInstance fun next => ?_
  split <;> infer_instance

instance pathStep_advances (what : String) (read : DottedName × Span) : Advances (pathStep what read) := by
  unfold pathStep
  infer_instance

instance path_advances (what : String) : Advances (path what) := by
  unfold path
  infer_instance

/-! ### Modifiers and imports -/

instance skipSquare_advances : Advances skipSquare := by
  unfold skipSquare
  infer_instance

instance annotation_advances : Advances annotation := by
  unfold annotation
  infer_instance

instance modifierStep_advances (seen : Modifiers) : Advances (modifierStep seen) := by
  refine .then inferInstance fun next => ?_
  split
  · infer_instance
  split
  case h_10 =>
    refine .then inferInstance fun second => ?_
    split <;> infer_instance
  case h_11 =>
    refine .then inferInstance fun second => ?_
    split <;> infer_instance
  all_goals infer_instance

instance modifiers_advances : Advances modifiers := by
  unfold modifiers
  infer_instance

instance importAlias_advances : Advances importAlias := by
  refine .then inferInstance fun taken => ?_
  split <;> infer_instance

instance importRename_advances : Advances importRename := by
  refine .then inferInstance fun next => ?_
  split <;> infer_instance

instance importSelector_advances (token : Token) : Advances (importSelector token) := by
  unfold importSelector
  infer_instance

instance selectorEnd_advances : Advances selectorEnd := by
  unfold selectorEnd
  infer_instance

instance importSelectors_advances : Advances importSelectors := by
  refine .again fun selectors => .then inferInstance fun next => ?_
  split <;> infer_instance

instance importPart_advances (segments : List String) : Advances (importPart segments) := by
  refine .then inferInstance fun next => ?_
  split <;> infer_instance

instance importStep_advances (segments : List String) : Advances (importStep segments) := by
  unfold importStep
  infer_instance

instance importClause_advances (start : Nat) : Advances (importClause start) := by
  unfold importClause
  infer_instance

instance importClauses_advances : Advances importClauses := by
  unfold importClauses
  infer_instance

/-! ### Parameters and parents -/

instance groupText_advances (group : Span) : Advances (groupText group) := by
  unfold groupText
  infer_instance

instance skipVariance_advances : Advances skipVariance := by
  refine .then inferInstance fun next => ?_
  split <;> infer_instance

instance typeParamName_advances : Advances typeParamName := by
  refine .then inferInstance fun next => ?_
  split <;> infer_instance

instance typeParamKind_advances : Advances typeParamKind := by
  unfold typeParamKind
  infer_instance

instance typeParam_advances : Advances typeParam := by
  unfold typeParam
  infer_instance

instance typeParamStep_advances (opening : Token) (params : List TypeParam) :
    Advances (typeParamStep opening params) := by
  unfold typeParamStep
  infer_instance

instance typeParams_advances : Advances typeParams := by
  unfold typeParams
  infer_instance

instance parentTypeArgs_advances (span : Span) : Advances (parentTypeArgs span) := by
  unfold parentTypeArgs
  infer_instance

instance parentArgs_advances (span : Span) : Advances (parentArgs span) := by
  unfold parentArgs
  infer_instance

instance parent_advances : Advances parent := by
  unfold parent
  infer_instance

instance parents_advances : Advances parents := by
  unfold parents
  infer_instance

instance extendsClause_advances : Advances extendsClause := by
  unfold extendsClause
  infer_instance

instance skipValVar_advances : Advances skipValVar := by
  unfold skipValVar
  infer_instance

instance paramName_advances : Advances paramName := by
  refine .then inferInstance fun next => ?_
  split <;> infer_instance

instance skipDefault_advances : Advances skipDefault := by
  unfold skipDefault
  infer_instance

instance param_advances : Advances param := by
  refine .then inferInstance fun _ => .then inferInstance fun _ =>
    .then inferInstance fun _ => .then inferInstance fun type => ?_
  split <;> infer_instance

instance usingMark_advances : Advances usingMark := by
  refine .then inferInstance fun next => ?_
  split <;> infer_instance

instance implicitMark_advances (isUsing : Bool) : Advances (implicitMark isUsing) := by
  unfold implicitMark
  infer_instance

instance params_advances : Advances params := by
  unfold params
  infer_instance

instance paramList_advances : Advances paramList := by
  unfold paramList
  infer_instance

instance paramLists_advances : Advances paramLists := by
  unfold paramLists
  infer_instance

/-! ### Methods and traits -/

instance resultArg_advances : Advances resultArg := by
  unfold resultArg
  infer_instance

instance namedResult_advances (start : Nat) : Advances (namedResult start) := by
  unfold namedResult
  infer_instance

instance otherResult_advances (start : Nat) : Advances (otherResult start) := by
  refine .then inferInstance fun found => ?_
  split <;> infer_instance

instance resultType_advances : Advances resultType := by
  unfold resultType
  infer_instance

instance methodTypeParams_advances : Advances methodTypeParams := by
  unfold methodTypeParams
  infer_instance

instance methodResult_advances : Advances methodResult := by
  unfold methodResult
  infer_instance

instance methodBody_advances : Advances methodBody := by
  refine .then inferInstance fun kind => ?_
  split <;> infer_instance

instance method_advances : Advances method := by
  unfold method
  infer_instance

instance traitStatement_advances (seen : TraitMembers) : Advances (traitStatement seen) := by
  refine .then inferInstance fun _ => .then inferInstance fun kind => ?_
  split <;> infer_instance

instance traitBody_advances : Advances traitBody := by
  refine .then inferInstance fun openBrace => .again fun seen => .then inferInstance fun closed => ?_
  split <;> infer_instance

instance traitTypeParams_advances : Advances traitTypeParams := by
  unfold traitTypeParams
  infer_instance

instance optionalTraitBody_advances : Advances optionalTraitBody := by
  unfold optionalTraitBody
  infer_instance

instance interface_advances : Advances interface := by
  unfold interface
  infer_instance

/-! ### Objects and units -/

instance namedStatement_advances : Advances namedStatement := by
  unfold namedStatement
  infer_instance

instance holderStatement_advances (start : Nat) (seen : HolderMembers) : Advances (holderStatement start seen) := by
  refine .then inferInstance fun _ => .then inferInstance fun kind => ?_
  split
  case h_3 => split <;> infer_instance
  all_goals infer_instance

instance holderBody_advances : Advances holderBody := by
  refine .then inferInstance fun openBrace => .again fun seen => .then inferInstance fun closed => ?_
  split <;> infer_instance

instance optionalHolderBody_advances : Advances optionalHolderBody := by
  unfold optionalHolderBody
  infer_instance

instance holder_advances : Advances holder := by
  unfold holder
  infer_instance

instance opaqueDecl_advances (keyword : Keyword) (mods : Modifiers) : Advances (opaqueDecl keyword mods) := by
  unfold opaqueDecl
  infer_instance

instance packageObject_advances : Advances packageObject := by
  unfold packageObject
  infer_instance

instance modifiedDecl_advances : Advances modifiedDecl := by
  refine .then inferInstance fun _ => .then inferInstance fun kind => ?_
  split <;> infer_instance

instance topLevel_advances : Advances topLevel := by
  unfold topLevel
  infer_instance

instance atPackageClause_advances : Advances atPackageClause := by
  unfold atPackageClause
  infer_instance

instance refuseBlock_advances : Advances refuseBlock := by
  unfold refuseBlock
  infer_instance

instance packageClause_advances (outer : Option PackageClause) : Advances (packageClause outer) := by
  unfold packageClause
  infer_instance

end KindLift.CursorAdvance
