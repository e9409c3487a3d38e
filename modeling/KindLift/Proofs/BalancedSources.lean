import KindLift.Proofs.BalancedParsers
import KindLift.Proofs.DeclPlacement

/-! The brackets of a whole source. It is matched when it is accepted, and then it is well
bracketed just when its self types are. -/
namespace KindLift.BalancedSources
open KindLift.Parser ParserLogic QualifiedTokens BracketBalance BalancedParsers
open TokenReaders (expect_some)
open Traversal (toOption_eq_some_iff)

variable {source : List Char} {cursor middle next : Cursor} {token : Token} {kind : TokenKind}

/-! ### Modifiers and imports -/

instance skipSquare_balances : Balances skipSquare := by
  unfold skipSquare
  infer_instance

/-- An annotation is read from its sign on. -/
theorem annotation_passes (head : cursor.rest.head? = some token) (sign : token.kind = .atSign) :
    Ensures source cursor annotation fun _ next => Passes cursor next :=
  bump_then head (by simp [IsPlain, sign]) inferInstance

instance modifierStep_balances (seen : Modifiers) : Balances (modifierStep seen) := by
  refine ⟨fun source cursor => ?_⟩
  rw [modifierStep, ensures_bind, ensures_peek?]
  split
  · exact ensures_pure.mpr (.refl _)
  rename_i token head
  have word : ∀ {keyword : Keyword}, token.kind = .keyword keyword → IsPlain token.kind := fun same => by simp [IsPlain, same]
  split
  · exact passes_then (annotation_passes head ‹_›) inferInstance
  case h_10 =>
    rw [ensures_bind, ensures_secondKind?]
    split
    · exact bump_then head (word ‹_›) inferInstance
    · exact bump_then head (word ‹_›) inferInstance
    · exact ensures_pure.mpr (.refl _)
  case h_11 named =>
    rw [ensures_bind, ensures_secondKind?]
    split
    · split
      · exact bump_then head (by simp [IsPlain, named]) inferInstance
      · exact ensures_pure.mpr (.refl _)
    · exact ensures_pure.mpr (.refl _)
  case h_12 => exact ensures_pure.mpr (.refl _)
  all_goals exact bump_then head (word ‹_›) inferInstance

instance modifiers_balances : Balances modifiers := by
  unfold modifiers
  infer_instance

/-- The new name is no bracket. -/
instance importAlias_balances : Balances importAlias := by
  refine ⟨fun source cursor => ?_⟩
  rw [importAlias, ensures_bind]
  obtain ⟨_ | ⟨token, rest⟩, stop⟩ := cursor
  · rintro _ _ ⟨⟩
    exact ensures_fail
  · rintro _ _ ⟨⟩
    dsimp only
    split
    · rename_i named
      rw [ensures_pure]
      exact ⟨[token], rfl, .plain (isPlain_name (by simpa using named)) .nil⟩
    · exact ensures_fail

instance importRename_balances : Balances importRename := by
  refine ⟨fun source cursor => ?_⟩
  rw [importRename, ensures_bind, ensures_peek?]
  split
  · exact ensures_pure.mpr (.refl _)
  rename_i token head
  split
  · rename_i renames
    refine bump_then head ?_ inferInstance
    have kinds : token.kind = .arrow ∨ token.kind = .ident := by
      simp only [Bool.or_eq_true, Bool.and_eq_true, decide_eq_true_eq] at renames
      exact renames.imp_right And.left
    rcases kinds with kind | kind <;> simp [IsPlain, kind]
  · exact ensures_pure.mpr (.refl _)

theorem isPlain_of_isWildcard (wildcard : isWildcard token = true) : IsPlain token.kind := by
  simp only [isWildcard, Bool.or_eq_true, Bool.and_eq_true, decide_eq_true_eq] at wildcard
  rcases wildcard with (kind | ⟨kind, -⟩) | kind <;> simp [IsPlain, kind]

/-- A selector is read from its token on. -/
theorem importSelector_passes (head : cursor.rest.head? = some token) :
    Ensures source cursor (importSelector token) fun _ next => Passes cursor next := by
  unfold importSelector
  split
  · rename_i wildcard
    exact bump_then head (isPlain_of_isWildcard wildcard) inferInstance
  split
  · rename_i name
    exact bump_then head (isPlain_of_isName name) inferInstance
  · exact ensures_fail

instance selectorEnd_balances : Balances selectorEnd := by
  unfold selectorEnd
  infer_instance

/-- One more selector, or the brace behind the last one. -/
def selectorStep (selectors : List Selector) : Parser (Step (List Selector) (List Selector)) := do
  match ← peek? with
  | none => fail (.expected "import selector")
  | some token =>
    if token.kind = .closer .brace then
      let _ ← bump
      return .done selectors
    else
      let selector ← importSelector token
      selectorEnd
      return .again (selectors ++ [selector])

theorem importSelectors_eq : importSelectors = iterate selectorStep [] := rfl

theorem selectorStep_encloses (selectors : List Selector) :
    Ensures source cursor (selectorStep selectors) (Encloses .brace cursor) := by
  rw [selectorStep, ensures_bind, ensures_peek?]
  split
  · exact ensures_fail
  rename_i token head
  split
  · rename_i closes
    obtain ⟨_ | ⟨token, rest⟩, stop⟩ := cursor
    · cases head
    · cases head
      rintro _ _ ⟨⟩
      exact closes_here rfl closes
  · refine ensures_then (importSelector_passes head) fun selector middle first => ?_
    refine ensures_then (Balances.ensures source middle) fun _ next second => ?_
    exact ensures_pure.mpr (first.trans second)

theorem importSelectors_closes : Ensures source cursor importSelectors fun _ next => Closes .brace cursor next :=
  iterate_closes fun _ _ => selectorStep_encloses

instance importPart_balances (segments : List String) : Balances (importPart segments) := by
  refine ⟨fun source cursor => ?_⟩
  rw [importPart, ensures_bind, ensures_peek?]
  split
  · exact ensures_fail
  rename_i token head
  split
  · rename_i named
    exact bump_then head (by simp [IsPlain, named]) inferInstance
  split
  · rename_i wildcard
    exact bump_then head (isPlain_of_isWildcard wildcard) inferInstance
  split
  · rename_i operator
    exact bump_then head (by simp [IsPlain, operator]) inferInstance
  split
  · rename_i opens
    obtain ⟨_ | ⟨token, rest⟩, stop⟩ := cursor
    · cases head
    · cases head
      rw [ensures_bind]
      rintro _ _ ⟨⟩
      refine ensures_then importSelectors_closes fun selectors next closes => ?_
      exact ensures_pure.mpr (closes.enclosed rfl opens)
  · exact ensures_fail

instance importStep_balances (segments : List String) : Balances (importStep segments) := by
  unfold importStep
  infer_instance

instance importClause_balances (start : Nat) : Balances (importClause start) := by
  unfold importClause
  infer_instance

instance importClauses_balances : Balances importClauses := by
  unfold importClauses
  infer_instance

/-! ### Parameters and parents -/

instance groupText_balances (group : Span) : Balances (groupText group) := by
  unfold groupText
  infer_instance

instance skipVariance_balances : Balances skipVariance := by
  refine ⟨fun source cursor => ?_⟩
  rw [skipVariance, ensures_bind, ensures_peek?]
  split
  · rename_i token head
    split
    · rename_i mark
      have operator : token.kind = .operator := of_decide_eq_true (Bool.and_eq_true_iff.mp mark).1
      exact bump_then head (by simp [IsPlain, operator]) inferInstance
    · exact ensures_pure.mpr (.refl _)
  · exact ensures_pure.mpr (.refl _)

instance typeParamName_balances : Balances typeParamName := by
  refine ⟨fun source cursor => ?_⟩
  rw [typeParamName, ensures_bind, ensures_peek?]
  split
  · rename_i token head
    split
    · rename_i named
      exact bump_then head (isPlain_name (by simpa using named)) inferInstance
    · exact ensures_fail
  · exact ensures_fail

instance typeParamKind_balances : Balances typeParamKind := by
  unfold typeParamKind
  infer_instance

instance typeParam_balances : Balances typeParam := by
  unfold typeParam
  infer_instance

theorem typeParamStep_encloses (opening : Token) (params : List TypeParam) :
    Ensures source cursor (typeParamStep opening params) (Encloses .square cursor) := by
  refine ensures_then (Balances.ensures source cursor) fun param middle first => ?_
  refine ensures_then (Balances.ensures source middle) fun comma last second => ?_
  split
  · exact ensures_pure.mpr (first.trans second)
  · refine ensures_then (fun closing next ran => expect_some ran) ?_
    rintro closing next ⟨shape, closes, -⟩
    exact ensures_pure.mpr ((first.trans second).closes (closes_here shape closes))

instance typeParams_balances : Balances typeParams := by
  refine ⟨fun source cursor => ensures_then (fun opening middle ran => expect_some ran) ?_⟩
  rintro opening middle ⟨shape, opens, -⟩
  refine ensures_mono (iterate_closes fun _ _ _ => typeParamStep_encloses opening _) fun _ next closes => ?_
  exact closes.enclosed shape opens

instance parentTypeArgs_balances (span : Span) : Balances (parentTypeArgs span) := by
  unfold parentTypeArgs
  infer_instance

instance parentArgs_balances (span : Span) : Balances (parentArgs span) := by
  unfold parentArgs
  infer_instance

instance parent_balances : Balances parent := by
  unfold parent
  infer_instance

instance parents_balances : Balances parents := by
  unfold parents
  infer_instance

instance extendsClause_balances : Balances extendsClause := by
  unfold extendsClause
  infer_instance

instance skipValVar_balances : Balances skipValVar := by
  refine ⟨fun source cursor => ?_⟩
  simp only [skipValVar, ensures_bind, ensures_isAt]
  split
  · rename_i found
    rcases Bool.or_eq_true_iff.mp found with head | head <;>
      exact bumpKind_then (of_decide_eq_true head) (keyword_single _).isPlain inferInstance
  · exact ensures_pure.mpr (.refl _)

instance paramName_balances : Balances paramName := by
  refine ⟨fun source cursor => ?_⟩
  rw [paramName, ensures_bind, ensures_peek?]
  split
  · rename_i token head
    rw [ensures_bind, ensures_secondKind?]
    split
    · rename_i named
      simp only [Bool.and_eq_true, Bool.or_eq_true, decide_eq_true_eq] at named
      obtain ⟨tokens, stop⟩ := cursor
      match tokens, head, named with
      | first :: second :: rest, rfl, ⟨name, colon⟩ =>
        rintro _ _ ⟨⟩
        obtain colon := Option.some.inj colon
        exact ⟨[first, second], rfl, .plain (isPlain_name name) (.plain (by simp [IsPlain, colon]) .nil)⟩
    · exact ensures_pure.mpr (.refl _)
  · exact ensures_pure.mpr (.refl _)

instance skipDefault_balances : Balances skipDefault := by
  unfold skipDefault
  infer_instance

instance param_balances : Balances param := by
  refine .then inferInstance fun _ => .then inferInstance fun _ =>
    .then inferInstance fun _ => .then inferInstance fun type => ?_
  split <;> infer_instance

instance usingMark_balances : Balances usingMark := by
  refine ⟨fun source cursor => ?_⟩
  rw [usingMark, ensures_bind, ensures_peek?]
  split
  · rename_i token head
    split
    · rename_i mark
      have named : token.kind = .ident := of_decide_eq_true (Bool.and_eq_true_iff.mp mark).1
      exact bump_then head (by simp [IsPlain, named]) inferInstance
    · exact ensures_pure.mpr (.refl _)
  · exact ensures_pure.mpr (.refl _)

instance implicitMark_balances (isUsing : Bool) : Balances (implicitMark isUsing) := by
  unfold implicitMark
  infer_instance

instance params_balances : Balances params := by
  unfold params
  infer_instance

instance paramList_balances : Balances paramList := by
  refine ⟨fun source cursor => ensures_then (fun opening begun ran => expect_some ran) ?_⟩
  rintro opening begun ⟨shape, opens, -⟩
  refine ensures_then (Balances.ensures source begun) fun isUsing marked first => ?_
  refine ensures_then (Balances.ensures source marked) fun isImplicit listed second => ?_
  refine ensures_then (Balances.ensures source listed) fun params last third => ?_
  refine ensures_then (fun closing next ran => expect_some ran) ?_
  rintro closing next ⟨rest, closes, -⟩
  exact ensures_pure.mpr (((first.trans (second.trans third)).closes (closes_here rest closes)).enclosed shape opens)

instance paramLists_balances : Balances paramLists := by
  unfold paramLists
  infer_instance

/-! ### Methods and traits -/

instance resultArg_balances : Balances resultArg := by
  unfold resultArg
  infer_instance

instance namedResult_balances (start : Nat) : Balances (namedResult start) := by
  unfold namedResult
  infer_instance

instance otherResult_balances (start : Nat) : Balances (otherResult start) := by
  refine .then inferInstance fun found => ?_
  split <;> infer_instance

instance resultType_balances : Balances resultType := by
  unfold resultType
  infer_instance

instance methodTypeParams_balances : Balances methodTypeParams := by
  unfold methodTypeParams
  infer_instance

instance methodResult_balances : Balances methodResult := by
  unfold methodResult
  infer_instance

instance methodBody_balances : Balances methodBody := by
  refine ⟨fun source cursor => ?_⟩
  rw [methodBody, ensures_bind, ensures_peekKind?]
  split
  · rename_i head
    exact bumpKind_then head equals_single.isPlain inferInstance
  · exact Balances.ensures source cursor
  · exact ensures_pure.mpr (.refl _)

instance method_balances : Balances method := by
  unfold method
  infer_instance

instance traitStatement_balances (seen : TraitMembers) : Balances (traitStatement seen) := by
  refine .then inferInstance fun _ => .then inferInstance fun kind => ?_
  split <;> infer_instance

instance traitBody_balances : Balances traitBody :=
  body_balances fun openBrace _ _ seen =>
    bodyStep_encloses openBrace fun _ _ => again_encloses (traitStatement_balances seen)

instance traitTypeParams_balances : Balances traitTypeParams := by
  unfold traitTypeParams
  infer_instance

instance optionalTraitBody_balances : Balances optionalTraitBody := by
  unfold optionalTraitBody
  infer_instance

instance interface_balances : Balances interface := by
  unfold interface
  infer_instance

/-! ### Objects and units -/

/-- A definition is read from its keyword on. -/
theorem namedStatement_passes {word : Keyword} (head : cursor.rest.head?.map Token.kind = some (.keyword word)) :
    Ensures source cursor namedStatement fun _ next => Passes cursor next :=
  bumpKind_then head (keyword_single word).isPlain inferInstance

instance holderStatement_balances (start : Nat) (seen : HolderMembers) : Balances (holderStatement start seen) := by
  refine .then inferInstance fun mods => ⟨fun source cursor => ?_⟩
  rw [ensures_bind, ensures_peekKind?]
  split
  · exact Balances.ensures source cursor
  · exact Balances.ensures source cursor
  · rename_i head
    split
    · exact passes_then (namedStatement_passes head) inferInstance
    · exact Balances.ensures source cursor
  · exact Balances.ensures source cursor

instance holderBody_balances : Balances holderBody := by
  refine body_balances fun openBrace _ _ seen => bodyStep_encloses openBrace fun source cursor => ?_
  refine ensures_then (here_balances.ensures source cursor) fun start middle passed => ?_
  exact ensures_mono (again_encloses (holderStatement_balances start seen)) fun _ _ => passed.encloses

instance optionalHolderBody_balances : Balances optionalHolderBody := by
  unfold optionalHolderBody
  infer_instance

instance holder_balances : Balances holder := by
  unfold holder
  infer_instance

instance opaqueDecl_balances (keyword : Keyword) (mods : Modifiers) : Balances (opaqueDecl keyword mods) := by
  unfold opaqueDecl
  infer_instance

instance modifiedDecl_balances : Balances modifiedDecl := by
  refine .then inferInstance fun _ => .then inferInstance fun kind => ?_
  split <;> infer_instance

/-- A package object has its two words in front. -/
theorem packageObject_passes (words : cursor.rest[1]?.map Token.kind = some (.keyword .objectKw)) :
    Ensures source cursor packageObject fun _ next => Passes cursor next := by
  refine ensures_then (fun first middle ran => expect_some ran) ?_
  rintro first middle ⟨shape, kind, -⟩
  have head : middle.rest.head?.map Token.kind = some (.keyword .objectKw) := by
    rw [shape, List.getElem?_cons_succ, ← List.head?_eq_getElem?] at words
    exact words
  have passed : Passes cursor middle := ⟨[first], shape, .plain (by simp [IsPlain, kind]) .nil⟩
  exact ensures_mono (bumpKind_then head (keyword_single _).isPlain inferInstance) fun _ _ => passed.trans

instance refuseBlock_balances : Balances refuseBlock := by
  unfold refuseBlock
  infer_instance

instance packageClause_balances (outer : Option PackageClause) : Balances (packageClause outer) := by
  unfold packageClause
  infer_instance

/-- Unless a package clause begins here, the word for packages has the one for objects behind it. -/
theorem topLevel_passes
    (clause : (decide (cursor.rest.head?.map Token.kind = some (.keyword .packageKw)) &&
      cursor.rest[1]?.map Token.kind != some (.keyword .objectKw)) ≠ true) :
    Ensures source cursor topLevel fun _ next => Passes cursor next := by
  simp only [topLevel, ensures_bind, ensures_isAt]
  split
  · rename_i here
    have words : cursor.rest[1]?.map Token.kind = some (.keyword .objectKw) := by
      rw [here, Bool.true_and] at clause
      exact bne_eq_false_iff_eq.mp (Bool.eq_false_iff.mpr clause)
    exact passes_then (packageObject_passes words) inferInstance
  · exact Balances.ensures source cursor

/-- Nothing is left behind the last declaration. -/
theorem outline_matched : Ensures source cursor outline fun _ next => Passes cursor next ∧ next.rest = [] := by
  refine ensures_iterate (fun _ current => Passes cursor current) (.refl _) fun seen current passed => ?_
  refine ensures_then (Balances.ensures source current) fun _ begun separated => ?_
  have passed := passed.trans separated
  rw [ensures_bind, ensures_peek?]
  split
  · rename_i none
    exact ensures_pure.mpr ⟨passed, List.head?_eq_none_iff.mp (Option.isNone_iff_eq_none.mp none)⟩
  simp only [atPackageClause, ensures_bind, ensures_isAt, ensures_secondKind?, ensures_pure]
  split
  · split
    · exact ensures_then (Balances.ensures source begun) fun _ _ later => ensures_pure.mpr (passed.trans later)
    · exact ensures_fail
  · rename_i clause
    rw [ensures_bind, ensures_isAt]
    split
    · exact ensures_then (Balances.ensures source begun) fun _ _ later => ensures_pure.mpr (passed.trans later)
    · exact ensures_then (topLevel_passes clause) fun _ _ later => ensures_pure.mpr (passed.trans later)

/-- An accepted source is matched, and well bracketed when its self types are. -/
theorem parse_matched {outline : Outline} (parsed : Outline.parse source = .ok outline) : ∃ tokens,
    Token.scan source = .ok tokens ∧ Matched tokens ∧ (WellBracketed tokens ↔ SelfTypesClosed tokens) := by
  obtain ⟨tokens, bare, next, scanned, ran, -⟩ := DeclPlacement.parse_eq_ok parsed
  obtain ⟨⟨front, shape, matched⟩, ended⟩ := outline_matched bare next ran
  rw [ended, List.append_nil] at shape
  subst shape
  exact ⟨tokens, scanned, matched, matched.wellBracketed_iff⟩

/-- The parenthesis in the self type has no opening one. -/
theorem strayingTrait_matched : ∃ outline tokens, Outline.parse "trait A{s:B)=>}".toList = .ok outline ∧
    Token.scan "trait A{s:B)=>}".toList = .ok tokens ∧ Matched tokens ∧ ¬WellBracketed tokens ∧ ¬SelfTypesClosed tokens := by
  have accepted : (Outline.parse "trait A{s:B)=>}".toList).toOption.isSome = true := by decide +kernel
  obtain ⟨outline, parsed⟩ := Option.isSome_iff_exists.mp accepted
  replace parsed := toOption_eq_some_iff.mp parsed
  obtain ⟨tokens, scanned, matched, closed⟩ := parse_matched parsed
  have stray : ((Token.scan "trait A{s:B)=>}".toList).toOption.map fun tokens => decide (WellBracketed tokens)) = some false := by
    decide +kernel
  rw [scanned] at stray
  have stray : ¬WellBracketed tokens := of_decide_eq_false (Option.some.inj stray)
  exact ⟨outline, tokens, parsed, scanned, matched, stray, mt closed.mpr stray⟩

end KindLift.BalancedSources
