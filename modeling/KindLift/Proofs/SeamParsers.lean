import KindLift.Proofs.BalancedSources
import KindLift.Proofs.SeamLogic
import KindLift.Proofs.TokenFronts

/-! The parsers for clauses, types and parameters, in front of a seam. Each is followed in
another text with the same tokens in front of the seam. How much the texts may differ behind
it depends on what the parser looks for when it is at its end. -/
namespace KindLift.SeamParsers
open KindLift.Parser ParserLogic CursorAdvance ParserProgress TokenReaders SeamLogic
open BalancedSources TokenFronts
open IndentedTexts (spell)
open StretchLogic (Steps)

variable {good : Seam → Prop} {seam : Seam} {left right left' right' : Cursor} {token token' : Token} {tokens tokens' : List Token}

/-- Any result with any other. -/
def Either (_ : α) (_ : β) : Prop := True

/-! ### Single tokens -/

theorem peek?_mirrors : Mirrors Flush peek? peek? Twins := by
  rintro seam flush left right along _ _ ⟨⟩ -
  exact ⟨_, right, rfl, twins_of_map (along.head flush.toFlat), along⟩

theorem peekKind?_mirrors : Mirrors Flush peekKind? peekKind? Eq := by
  rintro seam flush left right along _ _ ⟨⟩ -
  exact ⟨_, right, rfl, (along.kind flush.toFlat).symm, along⟩

/-- At a flush seam the next tokens are spelled alike, too. -/
theorem looking {body : Option Token → Parser α} {body' : Option Token → Parser β} {related : α → β → Prop}
    (nothing : Mirrors Flush (body none) (body' none) related)
    (something : ∀ token token', spell token' = spell token → Mirrors Flush (body (some token)) (body' (some token')) related) :
    Mirrors Flush (peek? >>= body) (peek? >>= body') related := by
  intro seam flush left right along
  rw [follows_peek?]
  have twins := twins_of_map (along.head flush.toFlat)
  generalize left.rest.head? = first, right.rest.head? = first' at twins
  cases twins with
  | none => exact nothing seam flush left right along
  | some same => exact something _ _ same seam flush left right along

theorem lookingKind {body : Option TokenKind → Parser α} {body' : Option TokenKind → Parser β} {related : α → β → Prop}
    (each : ∀ kind, Mirrors Flush (body kind) (body' kind) related) : Mirrors Flush (peekKind? >>= body) (peekKind? >>= body') related :=
  @looking _ _ (fun first => body (first.map Token.kind)) (fun first => body' (first.map Token.kind)) related (each none)
    fun token token' same => by
      dsimp only [Option.map_some]
      rw [kind_of_spell same]
      exact each _

theorem isAt_mirrors (kind : TokenKind) : Mirrors Flush (isAt kind) (isAt kind) Eq := lookingKind fun _ => .pure rfl

theorem here_run (source : List Char) (cursor : Cursor) : ∃ start, here source cursor = .ok (start, cursor) := by
  cases head : cursor.rest.head? with
  | none => exact ⟨_, by rw [here, bind_ok (show peek? source cursor = .ok (none, cursor) by rw [← head]; rfl)]; rfl⟩
  | some token => exact ⟨_, by rw [here, bind_ok (peek?_at head)]; rfl⟩

/-- Where the next token begins may differ. -/
theorem here_mirrors : Mirrors good here here Either := by
  intro seam _ left right along start left' ran _
  obtain rfl := here_stays _ _ ran
  obtain ⟨start', run⟩ := here_run seam.other right
  exact ⟨start', right, run, trivial, along⟩

theorem lastStop_mirrors : Mirrors good lastStop lastStop Either := by
  rintro seam _ left right along _ _ ⟨⟩ -
  exact ⟨_, right, rfl, trivial, along⟩

theorem read_mirrors : Mirrors good (read : Parser (List Char)) read Either := by
  rintro seam _ left right along _ _ ⟨⟩ -
  exact ⟨_, right, rfl, trivial, along⟩

theorem bump_mirrors : Mirrors Flush bump bump Twins := by
  rintro seam flush ⟨tokens, stop⟩ ⟨tokens', stop'⟩ along
  cases tokens with
  | nil =>
    have same := along.head flush.toFlat
    obtain rfl : tokens' = [] := by simpa using same
    rintro _ _ ⟨⟩ -
    exact ⟨_, _, rfl, .none, along⟩
  | cons token rest =>
    rintro _ _ ⟨⟩ inside
    obtain ⟨token', rest', rfl, same, later⟩ := along.next rfl inside
    exact ⟨_, _, rfl, .some same, later _ _⟩

theorem eat?_mirrors (kind : TokenKind) : Mirrors Flush (eat? kind) (eat? kind) Twins := by
  refine (isAt_mirrors kind).then ?_
  rintro found _ rfl
  exact .choice (fun _ => bump_mirrors) fun _ => .pure .none

theorem eats_mirrors (kind : TokenKind) : Mirrors Flush (eats kind) (eats kind) Eq :=
  (eat?_mirrors kind).then fun _ _ twins => .pure (by cases twins <;> rfl)

theorem expect_mirrors (kind : TokenKind) (what : String) :
    Mirrors good (expect kind what) (expect kind what) fun a b => spell b = spell a := by
  rintro seam - left ⟨tokens', stop'⟩ along token left' ran inside
  obtain ⟨shape, same, -⟩ := expect_some ran
  obtain ⟨token', rest', rfl, alike, later⟩ := along.next shape inside
  exact ⟨token', _, expect_run ((kind_of_spell alike).trans same) what rest' stop', alike, later _ _⟩

theorem expectName_mirrors (what : String) : Mirrors good (expectName what) (expectName what) fun a b => spell b = spell a := by
  rintro seam - left ⟨tokens', stop'⟩ along token left' ran inside
  obtain ⟨shape, name, -⟩ := expectName_some ran
  obtain ⟨token', rest', rfl, alike, later⟩ := along.next shape inside
  exact ⟨token', _, expectName_run ((isName_of_spell alike).trans name) what rest' stop', alike, later _ _⟩

theorem name?_mirrors : Mirrors Quiet name? name? Twins := by
  refine .testing Token.isName ⟨rfl, rfl⟩ (fun _ => ⟨rfl, rfl⟩) (fun _ _ => isName_of_spell)
    (quiet_tests (fun _ _ => isName_of_spell) fun token word kind => by simp [Token.isName, kind]) ?_ (fun _ _ _ => bump_meets)
    (.pure .none)
  exact fun _ _ _ => bump_shorter

theorem eatAll_mirrors {kind : TokenKind} (asks : Asks good kind) : Mirrors good (eatAll kind) (eatAll kind) Either :=
  .iterate Either (fun _ _ _ => .eating asks (.pure (.again trivial)) (.pure (.done trivial))) trivial

theorem kinds_of_spells (same : tokens'.map spell = tokens.map spell) : tokens'.map Token.kind = tokens.map Token.kind := by
  have kinds := congrArg (List.map Prod.fst) same
  rwa [List.map_map, List.map_map] at kinds

/-- A group that closes in front of the seam does so in both texts. -/
theorem splitGroup?_along {closing : Token} {rest : List Token} (along : seam.Along left right)
    (split : Token.splitGroup? left.rest = some (closing, rest)) (inside : seam.back.length ≤ rest.length) :
    ∃ closing' rest', Token.splitGroup? right.rest = some (closing', rest') ∧ ∀ stop stop', seam.Along ⟨rest, stop⟩ ⟨rest', stop'⟩ := by
  obtain ⟨front, front', shape, shape', alike⟩ := along
  rw [shape] at split
  obtain ⟨index, closing', -, -, rfl, split'⟩ := splitGroup?_front (kinds_of_spells alike) split inside
  exact ⟨closing', _, shape' ▸ split', fun _ _ => ⟨_, _, rfl, rfl, by rw [List.map_drop, List.map_drop, alike]⟩⟩

theorem skipGroup_mirrors : Mirrors good skipGroup skipGroup Either := by
  rintro seam - ⟨tokens, stop⟩ ⟨tokens', stop'⟩ along
  rw [skipGroup, follows_get]
  dsimp only
  cases tokens with
  | nil => exact fun _ _ ran => absurd ran fail_ne_ok
  | cons opening rest =>
    cases split : Token.splitGroup? (opening :: rest) with
    | none => rintro _ _ ⟨⟩
    | some group =>
      rintro _ _ ⟨⟩ inside
      obtain ⟨closing', rest', split', later⟩ := splitGroup?_along along split inside
      cases tokens' with
      | nil => cases split'
      | cons opening' rest' =>
        dsimp only
        rw [split']
        exact ⟨_, _, rfl, trivial, later _ _⟩

/-- A group is read where its opening bracket is. -/
theorem group_mirrors {bracket : Bracket} {body : Span → Parser α} {body' : Span → Parser β} {otherwise : Parser α}
    {otherwise' : Parser β} {related : α → β → Prop} [advances : ∀ span, Advances (body span)] (asks : Asks good (.opener bracket))
    (yes : ∀ span span', Mirrors good (body span) (body' span') related) (no : Mirrors good otherwise otherwise' related) :
    Mirrors good (isAt (.opener bracket) >>= fun found => if found = true then skipGroup >>= body else otherwise)
      (isAt (.opener bracket) >>= fun found => if found = true then skipGroup >>= body' else otherwise') related :=
  .option asks (fun source cursor _ => Takes.ensures source cursor) (skipGroup_mirrors.then fun span span' _ => yes span span') no

theorem skipGroups_mirrors : Mirrors Calm (skipGroups .paren) (skipGroups .paren) Either :=
  .iterate Either (fun _ _ _ => group_mirrors (calm_asks rfl) (fun _ _ => .pure (.again trivial)) (.pure (.done trivial))) trivial

theorem skipSquare_mirrors : Mirrors Calm skipSquare skipSquare Either :=
  group_mirrors (calm_asks rfl) (fun _ _ => .pure trivial) (.pure trivial)

/-! ### Paths -/

/-- A point and an identifier behind it. -/
def Dotted (tokens : List Token) : Prop :=
  tokens.head?.map Token.kind = some .dot ∧ tokens[1]?.map Token.kind = some .ident

theorem dotted_iff : (decide (tokens.head?.map Token.kind = some .dot) && decide (tokens[1]?.map Token.kind = some .ident)) = true ↔
    Dotted tokens := by rw [Bool.and_eq_true, decide_eq_true_eq, decide_eq_true_eq, Dotted]

/-- A segment that stands in the second text stands in the first one. -/
theorem dotted_back (calm : Calm seam) (along : seam.Along left right) (dotted : Dotted right.rest) : Dotted left.rest := by
  obtain ⟨dot, ident⟩ := dotted
  rcases along_cases along with ⟨token, rest, token', rest', shape, shape', same, later⟩ | ⟨ends, ends'⟩
  · rw [shape'] at dot ident
    rw [shape]
    refine ⟨(congrArg some (kind_of_spell same)).symm.trans dot, ?_⟩
    rw [List.getElem?_cons_succ, ← List.head?_eq_getElem?] at ident ⊢
    rcases along_cases (later 0 0) with ⟨second, _, second', _, rfl, rfl, same, -⟩ | ⟨ends, ends'⟩
    · exact (congrArg some (kind_of_spell same)).symm.trans ident
    · obtain ⟨rfl, rfl⟩ : rest = seam.back ∧ rest' = seam.back' := ⟨ends, ends'⟩
      exact calm_asks rfl seam calm ident
  · rw [ends'] at dot ident
    rw [ends]
    have first := calm_asks rfl seam calm dot
    refine ⟨first, ?_⟩
    rcases calm with flat | ⟨kind, head, new⟩
    · obtain ⟨token, head, kind⟩ := Option.map_eq_some_iff.mp first
      rcases flat.second token head (by simp [kind, Looks]) with same | ⟨-, new | new⟩
      · rw [← same, ident]
      all_goals simp [ident] at new
    · rw [dot] at head
      cases head
      cases new

theorem pathStep_mirrors (what : String) {read read' : DottedName × Span} (same : read'.1 = read.1) :
    Mirrors Calm (pathStep what read) (pathStep what read') (Steps (fun a b => b.1 = a.1) fun a b => b.1 = a.1) := by
  intro seam calm left right along
  rw [pathStep, pathStep, follows_isAt, follows_secondKind?]
  by_cases dotted : Dotted left.rest
  · rw [if_pos (dotted_iff.mpr dotted)]
    intro outcome left' ran inside
    obtain ⟨tokens, stop⟩ := left
    obtain ⟨tokens', stop'⟩ := right
    obtain ⟨first, middle, bumped, ran⟩ := bind_eq_ok ran
    obtain ⟨segment, _, named, ran⟩ := bind_eq_ok ran
    cases ran
    obtain ⟨shape, -⟩ := expectName_some named
    cases tokens with
    | nil => cases dotted.1
    | cons dot rest =>
      cases bumped
      obtain ⟨dot', rest', rfl, alike, later⟩ := along.next rfl
        (by rw [show rest = segment :: left'.rest from shape]; exact Nat.le_succ_of_le inside)
      obtain ⟨segment', _, run, spelled, along'⟩ := expectName_mirrors what seam calm _ _ (later dot.stop dot'.stop) _ _ named inside
      have dotted' : Dotted (dot' :: rest') := by
        refine ⟨(congrArg some (kind_of_spell alike)).trans dotted.1, ?_⟩
        obtain ⟨shape', -⟩ := expectName_some run
        replace shape : rest = segment :: left'.rest := shape
        replace shape' : rest' = segment' :: _ := shape'
        have ident := dotted.2
        rw [shape] at ident
        rw [shape']
        exact (congrArg some (kind_of_spell spelled)).trans ident
      rw [if_pos (dotted_iff.mpr dotted'), bind_ok (bump_run dot' rest' stop'), bind_ok run]
      exact ⟨_, _, rfl, .again (by rw [same, text_of_spell spelled]), along'⟩
  · rw [if_neg (mt dotted_iff.mp dotted), if_neg (mt dotted_iff.mp (mt (dotted_back calm along) dotted))]
    exact follows_pure ⟨.done same, along⟩

theorem path_mirrors (what : String) : Mirrors Calm (path what) (path what) fun a b => b.1 = a.1 := by
  refine (expectName_mirrors what).then fun first first' same => ?_
  exact .iterate (fun a b => b.1 = a.1) (fun _ _ => pathStep_mirrors what) (by rw [text_of_spell same])

/-! ### Clauses -/

theorem importAlias_mirrors : Mirrors good importAlias importAlias Eq := by
  rintro seam - ⟨tokens, stop⟩ ⟨tokens', stop'⟩ along text left' ran inside
  obtain ⟨first, middle, bumped, ran⟩ := bind_eq_ok ran
  cases tokens with
  | nil =>
    cases bumped
    exact absurd ran fail_ne_ok
  | cons token rest =>
    cases bumped
    dsimp only at ran
    split at ran
    · rename_i named
      cases ran
      obtain ⟨token', rest', rfl, same, later⟩ := along.next rfl inside
      rw [← kind_of_spell same] at named
      refine ⟨token'.text, ⟨rest', token'.stop⟩, ?_, (text_of_spell same).symm, later _ _⟩
      rw [importAlias, bind_ok (bump_run token' rest' stop')]
      dsimp only
      rw [if_pos named]
      rfl
    · exact absurd ran fail_ne_ok

/-- The token says that an imported name gets another one. -/
def renames (token : Token) : Bool := token.kind = .arrow || (token.kind = .ident && token.text = "as")

theorem renames_of_spell (same : spell token' = spell token) : renames token' = renames token := by
  rw [renames, renames, kind_of_spell same, text_of_spell same]

theorem importRename_mirrors : Mirrors Quiet importRename importRename Eq := by
  refine .testing renames ⟨rfl, rfl⟩ (fun _ => ⟨rfl, rfl⟩) (fun _ _ => renames_of_spell)
    (quiet_tests (fun _ _ => renames_of_spell) fun token word kind => by simp [renames, kind]) ?_ ?_ (.pure rfl)
  · exact fun _ _ _ head => shorter_then (bump_shorter head) inferInstance
  · exact fun _ _ _ => .bumped (importAlias_mirrors.then fun _ _ same => .pure (congrArg some same))

theorem importSelector_mirrors (same : spell token' = spell token) :
    Mirrors Flush (importSelector token) (importSelector token') Eq := by
  rw [importSelector, importSelector, isWildcard_of_spell same, isName_of_spell same, text_of_spell same]
  refine .choice (fun _ => bump_mirrors.then fun _ _ _ => .pure rfl) fun _ => .choice (fun _ => ?_) fun _ => .fail
  exact bump_mirrors.then fun _ _ _ => (importRename_mirrors.on fun _ => Flush.quiet).then fun _ _ same => .pure (by rw [same])

theorem selectorEnd_mirrors : Mirrors Flush selectorEnd selectorEnd Either := by
  refine (eats_mirrors .comma).then ?_
  rintro comma _ rfl
  refine (isAt_mirrors _).then ?_
  rintro closes _ rfl
  exact .choice (fun _ => .pure trivial) fun _ => .fail

instance selectorStep_advances (selectors : List Selector) : Advances (selectorStep selectors) := by
  refine .then inferInstance fun first => ?_
  cases first <;> infer_instance

theorem selectorStep_mirrors (selectors : List Selector) :
    Mirrors Flush (selectorStep selectors) (selectorStep selectors) (Steps Eq Eq) := by
  refine looking .fail fun token token' same => ?_
  dsimp only
  rw [kind_of_spell same]
  refine .choice (fun _ => bump_mirrors.then fun _ _ _ => .pure (.done rfl)) fun _ => ?_
  refine (importSelector_mirrors same).then fun _ _ same => selectorEnd_mirrors.then fun _ _ _ => ?_
  exact .pure (.again (by rw [same]))

/-- Selectors are read up to their closing brace. -/
theorem importSelectors_mirrors : Mirrors good importSelectors importSelectors Eq := by
  rw [importSelectors_eq]
  have steps : ∀ selectors selectors', selectors = selectors' →
      Mirrors Flush (selectorStep selectors) (selectorStep selectors') (Steps Eq Eq) := by
    rintro selectors _ rfl
    exact selectorStep_mirrors selectors
  refine Mirrors.on (.enclosed Eq (fun _ _ => selectorStep_encloses) steps ?_ rfl) fun _ _ => trivial
  rintro selectors _ rfl seam ⟨_ | ⟨token, rest⟩, stop⟩ ⟨tokens', stop'⟩ along result left' ran inside
  · cases ran
  rw [selectorStep, bind_ok (peek?_run token rest stop)] at ran
  dsimp only at ran
  split at ran
  · rename_i closes
    cases ran
    obtain ⟨token', rest', rfl, same, later⟩ := along.next rfl inside
    refine ⟨_, ⟨rest', token'.stop⟩, ?_, rfl, later _ _⟩
    rw [selectorStep, bind_ok (peek?_run token' rest' stop')]
    dsimp only
    rw [if_pos ((kind_of_spell same).trans closes)]
    rfl
  · obtain ⟨_, _, -, ran⟩ := bind_eq_ok ran
    obtain ⟨_, _, -, ran⟩ := bind_eq_ok ran
    cases ran

/-- What an import says: the path, and what is selected. -/
def importGist (clause : Import) : DottedName × List Selector := (clause.path, clause.selectors)

theorem importPart_mirrors (segments : List String) :
    Mirrors Quiet (importPart segments) (importPart segments) (Steps Eq Eq) := by
  refine .demanding rfl (fun source cursor token head => ?_) fun token token' same => ?_
  · dsimp only
    iterate 4
      split
      · exact shorter_then (bump_shorter head) inferInstance
    exact ensures_fail
  · dsimp only
    rw [isWildcard_of_spell same, kind_of_spell same, text_of_spell same]
    refine .choice (fun _ => .bumped (.pure (.again rfl))) fun _ => .choice (fun _ => .bumped (.pure (.done rfl))) fun _ => ?_
    refine .choice (fun _ => .bumped (importRename_mirrors.then fun _ _ same => .pure (.done (by rw [same])))) fun _ => ?_
    exact .choice (fun _ => .bumped (importSelectors_mirrors.then fun _ _ same => .pure (.done (by rw [same])))) fun _ => Mirrors.meets .fail

theorem importStep_mirrors (segments : List String) :
    Mirrors Quiet (importStep segments) (importStep segments) (Steps Eq Eq) :=
  .eating (quiet_asks (.inr rfl)) (importPart_mirrors segments)
    (importRename_mirrors.then fun _ _ same => .pure (.done (by rw [same])))

theorem importClause_mirrors (start start' : Nat) :
    Mirrors Quiet (importClause start) (importClause start') fun a b => importGist b = importGist a := by
  refine (expectName_mirrors _).then fun first first' same => ?_
  rw [text_of_spell same]
  have steps : ∀ segments segments', segments = segments' →
      Mirrors Quiet (importStep segments) (importStep segments') (Steps Eq Eq) := by
    rintro segments _ rfl
    exact importStep_mirrors segments
  refine (Mirrors.iterate Eq steps rfl).then ?_
  rintro read _ rfl
  exact lastStop_mirrors.then fun _ _ _ => .pure rfl

theorem importClauses_mirrors : Mirrors Quiet importClauses importClauses fun a b => b.map importGist = a.map importGist := by
  refine (expect_mirrors _ _).then fun keyword keyword' _ => ?_
  refine .iterate (fun a b => b.2.map importGist = a.2.map importGist) (fun seen seen' same => ?_) rfl
  refine (importClause_mirrors _ _).then fun clause clause' gist => ?_
  have same' : (seen'.2 ++ [clause']).map importGist = (seen.2 ++ [clause]).map importGist := by
    rw [List.map_append, List.map_append, same, List.map_singleton, List.map_singleton, gist]
  exact .eating (quiet_asks (.inr rfl)) (here_mirrors.then fun _ _ _ => .pure (.again same')) (.pure (.done same'))

theorem refuseBlock_mirrors : Mirrors Quiet refuseBlock refuseBlock Either :=
  .option (quiet_asks (.inl rfl)) (fun _ _ _ => ensures_fail) .fail (.pure trivial)

theorem packageClause_mirrors (outer outer' : Option PackageClause) :
    Mirrors Quiet (packageClause outer) (packageClause outer') Either := by
  refine (expect_mirrors _ _).then fun _ _ _ => ?_
  refine ((path_mirrors _).on fun _ => Quiet.calm).then fun _ _ _ => ?_
  exact refuseBlock_mirrors.then fun _ _ _ => .pure trivial

/-! ### Scans -/

/-- Something was read over in both texts, or in neither. -/
def BothSome (seen seen' : Option α) : Prop := seen'.isSome = seen.isSome

theorem bothSome_extended (seen seen' : Option Span) (span span' : Span) :
    BothSome (match seen with | some before => some (before.cover span) | none => some span)
      (match seen' with | some before => some (before.cover span') | none => some span') := by
  cases seen <;> cases seen' <;> rfl

theorem scanStep_mirrors (stops : TokenKind → Bool) {seen seen' : Option Span} (both : BothSome seen seen') :
    Mirrors Flush (scanStep stops seen) (scanStep stops seen') (Steps BothSome BothSome) := by
  refine looking (.pure (.done both)) fun token token' same => ?_
  dsimp only
  rw [kind_of_spell same]
  refine .choice (fun _ => .pure (.done both)) fun _ => ?_
  split
  · exact skipGroup_mirrors.then fun _ _ _ => .pure (.again (bothSome_extended _ _ _ _))
  · exact .pure (.done both)
  · exact bump_mirrors.then fun _ _ _ => .pure (.again (bothSome_extended _ _ _ _))

theorem scanUntil_mirrors (stops : TokenKind → Bool) : Mirrors Flush (scanUntil stops) (scanUntil stops) BothSome :=
  .iterate BothSome (fun _ _ both => scanStep_mirrors stops both) rfl

theorem groupText_mirrors (group group' : Span) : Mirrors good (groupText group) (groupText group') Either :=
  read_mirrors.then fun _ _ _ => .pure trivial

/-! ### Type parameters -/

def typeParamGist (param : TypeParam) : String × ParamKind := (param.name, param.kind)

theorem skipVariance_mirrors : Mirrors Flush skipVariance skipVariance Either := by
  refine looking (.pure trivial) fun token token' same => ?_
  dsimp only
  rw [kind_of_spell same, text_of_spell same]
  exact .choice (fun _ => bump_mirrors.then fun _ _ _ => .pure trivial) fun _ => .pure trivial

theorem typeParamName_mirrors : Mirrors Flush typeParamName typeParamName fun a b => spell b = spell a := by
  refine looking .fail fun token token' same => ?_
  dsimp only
  rw [kind_of_spell same]
  exact .choice (fun _ => bump_mirrors.then fun _ _ _ => .pure same) fun _ => .fail

theorem typeParamKind_mirrors : Mirrors Flush typeParamKind typeParamKind Eq :=
  group_mirrors (flush_asks _) (fun _ _ => .pure rfl) (.pure rfl)

theorem typeParam_mirrors : Mirrors Flush typeParam typeParam fun a b => typeParamGist b = typeParamGist a := by
  refine skipVariance_mirrors.then fun _ _ _ => here_mirrors.then fun _ _ _ => ?_
  refine typeParamName_mirrors.then fun name name' same => typeParamKind_mirrors.then fun kind kind' kinds => ?_
  refine (scanUntil_mirrors _).then fun _ _ _ => lastStop_mirrors.then fun _ _ _ => .pure ?_
  rw [typeParamGist, typeParamGist, text_of_spell same, kinds]

/-- A comma is read, or the token that has to come instead. -/
theorem comma_or_expected {source : List Char} {cursor next : Cursor} {kind : TokenKind} {what : String} {outcome more : ρ} {last : Token → ρ}
    (ran : (eats .comma >>= fun found => if found = true then (pure more : Parser ρ)
      else expect kind what >>= fun token => pure (last token)) source cursor = .ok (outcome, next)) :
    ∃ token, cursor.rest = token :: next.rest ∧ (token.kind = .comma ∨ token.kind = kind) := by
  obtain ⟨found, middle, ate, later⟩ := bind_eq_ok ran
  cases found with
  | true =>
    cases later
    obtain ⟨token, shape, kind, -⟩ := eats_true ate
    exact ⟨token, shape, .inl kind⟩
  | false =>
    obtain rfl := eats_false ate
    rw [if_neg Bool.false_ne_true] at later
    obtain ⟨token, _, expected, later⟩ := bind_eq_ok later
    cases later
    obtain ⟨shape, kind, -⟩ := expect_some expected
    exact ⟨token, shape, .inr kind⟩

/-- Behind a type parameter come a comma or the closing bracket. -/
theorem typeParamStep_mirrors (opening opening' : Token) {params params' : List TypeParam}
    (same : params'.map typeParamGist = params.map typeParamGist) :
    Mirrors Any (typeParamStep opening params) (typeParamStep opening' params')
      (Steps (fun a b => b.map typeParamGist = a.map typeParamGist) fun a b => b.1.map typeParamGist = a.1.map typeParamGist) := by
  refine typeParam_mirrors.meeting ?_ fun param param' gist => ?_
  · intro seam _ param front front' alike cursor outcome next shape ran inside
    obtain ⟨token, first, kind⟩ := comma_or_expected ran
    exact flush_at alike (shape.symm.trans first) inside (by rcases kind with kind | kind <;> simp [kind, Looks])
  · have same' : (params' ++ [param']).map typeParamGist = (params ++ [param]).map typeParamGist := by
      rw [List.map_append, List.map_append, same, List.map_singleton, List.map_singleton, gist]
    exact .taking (.eating (.pure (.again same')) ((expect_mirrors _ _).then fun _ _ _ => .pure (.done same')).meets)

theorem typeParams_mirrors : Mirrors good typeParams typeParams fun a b => b.1.map typeParamGist = a.1.map typeParamGist := by
  refine (expect_mirrors _ _).then fun opening opening' _ => ?_
  exact Mirrors.on (.iterate (fun a b => b.map typeParamGist = a.map typeParamGist) (fun _ _ => typeParamStep_mirrors _ _) rfl)
    fun _ _ => trivial

/-! ### Parents -/

theorem parentTypeArgs_mirrors (span span' : Span) : Mirrors Calm (parentTypeArgs span) (parentTypeArgs span') Either :=
  group_mirrors (calm_asks rfl) (fun _ _ => (groupText_mirrors _ _).then fun _ _ _ => .pure trivial) (.pure trivial)

theorem parentArgs_mirrors (span span' : Span) : Mirrors Calm (parentArgs span) (parentArgs span') Either :=
  .iterate Either (fun _ _ _ => group_mirrors (calm_asks rfl) (fun _ _ => .pure (.again trivial)) (.pure (.done trivial))) trivial

theorem parent_mirrors : Mirrors Calm parent parent fun a b => b.name = a.name := by
  refine (path_mirrors _).then fun _ _ same => (parentTypeArgs_mirrors _ _).then fun _ _ _ => ?_
  exact (parentArgs_mirrors _ _).then fun _ _ _ => .pure same

theorem parents_mirrors : Mirrors Calm parents parents fun a b => b.map Parent.name = a.map Parent.name := by
  refine .iterate (fun a b => b.map Parent.name = a.map Parent.name) (fun seen seen' same => ?_) rfl
  refine parent_mirrors.then fun parent parent' name => ?_
  have same' : (seen' ++ [parent']).map Parent.name = (seen ++ [parent]).map Parent.name := by
    rw [List.map_append, List.map_append, same, List.map_singleton, List.map_singleton, name]
  exact .eating (calm_asks rfl) (.pure (.again same')) (.eating (calm_asks rfl) (.pure (.again same')) (.pure (.done same')))

theorem extendsClause_mirrors : Mirrors Calm extendsClause extendsClause fun a b => b.map Parent.name = a.map Parent.name :=
  .eating (calm_asks rfl) parents_mirrors (.pure rfl)

instance typeParams_takes : Takes typeParams := .then inferInstance inferInstance

/-- Type parameters, where there are any. -/
theorem traitTypeParams_mirrors : Mirrors Quiet traitTypeParams traitTypeParams
    fun a b => b.1.map typeParamGist = a.1.map typeParamGist :=
  .option (quiet_asks (.inr rfl)) (fun source cursor _ => Takes.ensures source cursor)
    (typeParams_mirrors.then fun _ _ same => .pure same) (.pure rfl)

end KindLift.SeamParsers
