import KindLift.Proofs.StretchLogic

/-! The parsers that read a trait, inside of a stretch of tokens that stands in two texts.
What they make of the stretch is the same in both, but for where it is. -/
namespace KindLift.StretchParsers
open KindLift.Parser ParserLogic CursorAdvance TokenCopies StretchLogic

variable {stretch : Stretch} {left right left' right' : Cursor}

/-- There is no result, or there are two that are related. -/
def Both (related : α → β → Prop) : Option α → Option β → Prop
  | none, none => True
  | some a, some b => related a b
  | _, _ => False

/-! ### Tokens -/

theorem bump_follows (along : stretch.Along left right) :
    Follows stretch left right bump bump fun a left' b right' =>
      (∃ token token', a = some token ∧ b = some token' ∧ left.rest.head? = some token ∧ right.rest.head? = some token' ∧
        stretch.Copy token token') ∧ stretch.Along left' right' := by
  obtain ⟨tokens, stop⟩ := left
  obtain ⟨tokens', stop'⟩ := right
  obtain ⟨token, token', first, first', -⟩ := along.peek
  obtain ⟨rest, rfl⟩ := List.head?_eq_some_iff.mp first
  obtain ⟨rest', rfl⟩ := List.head?_eq_some_iff.mp first'
  rintro _ _ ⟨⟩ inside
  obtain ⟨copy, later⟩ := along.next rfl rfl inside
  exact ⟨_, _, rfl, ⟨token, token', rfl, rfl, rfl, rfl, copy⟩, later _ _⟩

theorem bump_mirrors : Mirrors stretch bump bump (Both stretch.Copy) := by
  intro left right along
  refine (bump_follows along).mono ?_
  rintro _ _ _ _ ⟨⟨token, token', rfl, rfl, -, -, copy⟩, along⟩
  exact ⟨copy, along⟩

/-- A token is read over, whatever it is. -/
theorem bump_then {parser : Parser α} {parser' : Parser β} {related : α → β → Prop} [advances : Advances parser]
    (mirrors : Mirrors stretch parser parser' related) :
    Mirrors stretch (bump >>= fun _ => parser) (bump >>= fun _ => parser') related :=
  fun left right along => (bump_mirrors left right along).then fun _ left' _ right' ⟨_, along⟩ => mirrors left' right' along

theorem pure_mirrors {a : α} {b : β} {related : α → β → Prop} (relates : related a b) :
    Mirrors stretch (pure a) (pure b) related := fun _ _ along => follows_pure ⟨relates, along⟩

theorem eat?_mirrors (kind : TokenKind) : Mirrors stretch (eat? kind) (eat? kind) (Both stretch.Copy) := by
  intro left right along
  rw [eat?, follows_isAt, along.kind]
  exact follows_choice (fun _ => bump_mirrors left right along) fun _ => follows_pure ⟨trivial, along⟩

theorem eats_mirrors (kind : TokenKind) : Mirrors stretch (eats kind) (eats kind) Eq := by
  intro left right along
  refine (eat?_mirrors kind left right along).then fun a _ b _ ⟨both, along⟩ => follows_pure ⟨?_, along⟩
  cases a <;> cases b <;> first
    | rfl
    | cases both

/-- A token that has to be there is there in both texts. -/
theorem demand_mirrors {parser parser' : Parser (Option Token)} (cause : ParseCause)
    (mirrors : Mirrors stretch parser parser' (Both stretch.Copy)) :
    Mirrors stretch (do match ← parser with | some token => return token | none => fail cause)
      (do match ← parser' with | some token => return token | none => fail cause) stretch.Copy := by
  intro left right along
  refine (mirrors left right along).before (fun a => by cases a <;> infer_instance) fun a _ b _ ⟨both, along⟩ => ?_
  cases a with
  | none => exact follows_fail
  | some token =>
    cases b with
    | none => cases both
    | some token' => exact follows_pure ⟨both, along⟩

theorem expect_mirrors (kind : TokenKind) (what : String) :
    Mirrors stretch (expect kind what) (expect kind what) stretch.Copy := demand_mirrors _ (eat?_mirrors kind)

theorem name?_mirrors : Mirrors stretch name? name? (Both stretch.Copy) := by
  intro left right along
  obtain ⟨token, token', first, first', kind, -⟩ := along.peek
  rw [name?, follows_peek?, first, first']
  simp only [Token.isName, kind]
  exact follows_choice (fun _ => bump_mirrors left right along) fun _ => follows_pure ⟨trivial, along⟩

theorem expectName_mirrors (what : String) : Mirrors stretch (expectName what) (expectName what) stretch.Copy := demand_mirrors _ name?_mirrors

theorem eatAll_mirrors (kind : TokenKind) : Mirrors stretch (eatAll kind) (eatAll kind) fun _ _ => True := by
  refine Mirrors.iterate (fun _ _ => True) (fun _ _ _ left right along => ?_) trivial
  refine (eats_mirrors kind left right along).then ?_
  rintro more _ _ _ ⟨rfl, along⟩
  exact follows_choice (fun _ => follows_pure ⟨.again trivial, along⟩) fun _ => follows_pure ⟨.done trivial, along⟩

/-! ### Groups -/

/-- Where the brackets close depends on the kinds of the tokens up to there. -/
theorem closeAll_front {front front' back back' : List Token} {index : Nat} {first : Bracket} {outer : List Bracket}
    (copies : List.Forall₂ stretch.Copy front front') (inside : index < front.length)
    (closes : Token.closeAll first outer (front ++ back) = some index) :
    Token.closeAll first outer (front' ++ back') = some index := by
  induction copies generalizing index first outer with
  | nil => cases inside
  | @cons token token' front front' copy copies ih =>
    have deeper : ∀ {first : Bracket} {outer : List Bracket},
        (Token.closeAll first outer (front ++ back)).map (· + 1) = some index →
          (Token.closeAll first outer (front' ++ back')).map (· + 1) = some index := by
      intro first outer found
      obtain ⟨earlier, closed, rfl⟩ := Option.map_eq_some_iff.mp found
      rw [ih (Nat.lt_of_succ_lt_succ inside) closed]
      rfl
    simp only [List.cons_append, Token.closeAll, copy.kind] at closes ⊢
    split at closes
    · exact deeper closes
    · split at closes
      · rename_i same
        rw [if_pos same]
        split at closes
        · exact closes
        · exact deeper closes
      · cases closes
    · exact deeper closes

theorem groupEnd?_front {front front' back back' : List Token} {index : Nat}
    (copies : List.Forall₂ stretch.Copy front front') (inside : index < front.length)
    (closes : Token.groupEnd? (front ++ back) = some index) : Token.groupEnd? (front' ++ back') = some index := by
  cases copies with
  | nil => cases inside
  | cons copy copies =>
    simp only [List.cons_append, Token.groupEnd?, copy.kind] at closes ⊢
    split at closes
    · obtain ⟨earlier, closed, rfl⟩ := Option.map_eq_some_iff.mp closes
      rw [closeAll_front copies (Nat.lt_of_succ_lt_succ inside) closed]
      rfl
    · cases closes

/-- A group that closes inside of the stretch does so in both texts. -/
theorem splitGroup?_along {closing : Token} {rest : List Token} (along : stretch.Along left right)
    (split : Token.splitGroup? left.rest = some (closing, rest)) (inside : stretch.back.length ≤ rest.length) :
    ∃ closing' rest', Token.splitGroup? right.rest = some (closing', rest') ∧ stretch.Copy closing closing' ∧
      ∀ stop stop', stretch.Along ⟨rest, stop⟩ ⟨rest', stop'⟩ := by
  obtain ⟨front, front', shape, shape', copies⟩ := along
  simp only [Token.splitGroup?, Option.bind_eq_bind, Option.bind_eq_some_iff, Option.pure_def,
    Option.some.injEq, Prod.mk.injEq] at split ⊢
  obtain ⟨index, closes, _, found, rfl, rfl⟩ := split
  have positive := stretch.back_pos
  rw [shape, List.length_drop, List.length_append] at inside
  have bound : index < front.length := by omega
  have whole := List.drop_eq_getElem_cons bound
  have copies' := List.forall₂_drop index copies
  rw [whole] at copies'
  generalize later : front'.drop index = back at copies'
  cases copies' with | @cons _ closing' _ rest' copy copies' => ?_
  have bound' : index < front'.length := copies.length_eq ▸ bound
  rw [List.drop_eq_getElem_cons bound'] at later
  obtain ⟨rfl, rfl⟩ := List.cons.inj later
  rw [shape, List.getElem?_append_left bound, List.getElem?_eq_getElem bound, Option.some.injEq] at found
  subst found
  refine ⟨front'[index], front'.drop (index + 1) ++ stretch.back', ⟨index, ?_, _, ?_, rfl, ?_⟩, copy, fun stop stop' => ?_⟩
  · rw [shape']
    exact groupEnd?_front copies bound (shape ▸ closes)
  · rw [shape', List.getElem?_append_left bound', List.getElem?_eq_getElem bound']
  · rw [shape', List.drop_append_of_le_length bound']
  · rw [shape, List.drop_append_of_le_length bound]
    exact ⟨_, _, rfl, rfl, copies'⟩

theorem skipGroup_mirrors : Mirrors stretch skipGroup skipGroup stretch.SpanCopy := by
  rintro ⟨tokens, stop⟩ ⟨tokens', stop'⟩ along
  obtain ⟨opening, opening', first, first', -⟩ := along.peek
  obtain ⟨rest, rfl⟩ := List.head?_eq_some_iff.mp first
  obtain ⟨rest', rfl⟩ := List.head?_eq_some_iff.mp first'
  rw [skipGroup, follows_get]
  dsimp only
  cases split : Token.splitGroup? (opening :: rest) with
  | none => exact follows_throw
  | some group =>
    rintro span left' ⟨⟩ inside
    obtain ⟨closing', after', split', closes, later⟩ := splitGroup?_along along split inside
    have shorter := Token.splitGroup?_length_lt split
    have opens := (along.next rfl rfl (Nat.le_trans inside (Nat.le_of_lt_succ shorter))).1
    rw [split']
    exact ⟨_, _, rfl, opens.span.cover closes.span, later _ _⟩

theorem skipGroups_mirrors (bracket : Bracket) : Mirrors stretch (skipGroups bracket) (skipGroups bracket) fun _ _ => True := by
  refine Mirrors.iterate (fun _ _ => True) (fun _ _ _ left right along => ?_) trivial
  rw [follows_isAt, along.kind]
  refine follows_choice (fun _ => ?_) fun _ => follows_pure ⟨.done trivial, along⟩
  exact (skipGroup_mirrors left right along).then fun _ _ _ _ ⟨_, along⟩ => follows_pure ⟨.again trivial, along⟩

theorem scanStep_mirrors (stops : TokenKind → Bool) {seen seen' : Option Span} (both : Both stretch.SpanCopy seen seen') :
    Mirrors stretch (scanStep stops seen) (scanStep stops seen')
      (Steps (Both stretch.SpanCopy) (Both stretch.SpanCopy)) := by
  intro left right along
  obtain ⟨token, token', first, first', kind, -⟩ := along.peek
  rw [scanStep, scanStep, follows_peek?, first, first']
  simp only [kind]
  refine follows_choice (fun _ => follows_pure ⟨.done both, along⟩) fun _ => ?_
  split
  · refine (skipGroup_mirrors left right along).then ?_
    rintro group _ group' _ ⟨copy, along⟩
    refine follows_pure ⟨.again ?_, along⟩
    cases seen <;> cases seen' <;> first
      | exact copy
      | exact SpanCarried.cover both copy
      | cases both
  · exact follows_pure ⟨.done both, along⟩
  · refine (bump_follows along).then ?_
    rintro _ _ _ _ ⟨⟨_, _, rfl, rfl, same, same', copy⟩, along⟩
    rw [first] at same
    rw [first'] at same'
    cases same
    cases same'
    refine follows_pure ⟨.again ?_, along⟩
    cases seen <;> cases seen' <;> first
      | exact copy.span
      | exact SpanCarried.cover both copy.span
      | cases both

theorem scanUntil_mirrors (stops : TokenKind → Bool) :
    Mirrors stretch (scanUntil stops) (scanUntil stops) (Both stretch.SpanCopy) :=
  Mirrors.iterate (Both stretch.SpanCopy) (fun _ _ => scanStep_mirrors stops) trivial

/-- The text inside of a group. -/
theorem groupText_mirrors {group group' : Span} (copy : stretch.SpanCopy group group') :
    Mirrors stretch (groupText group) (groupText group') Eq := by
  intro left right along
  rw [groupText, groupText, follows_read]
  exact follows_pure ⟨(stretch.copied.interior copy).symm, along⟩

/-! ### Paths, annotations and modifiers -/

theorem path_mirrors (what : String) :
    Mirrors stretch (path what) (path what) fun a b => b.1 = a.1 ∧ stretch.SpanCopy a.2 b.2 := by
  intro left right along
  refine (expectName_mirrors what left right along).then fun first _ first' _ ⟨copy, along⟩ => ?_
  refine Mirrors.iterate (fun a b => b.1 = a.1 ∧ stretch.SpanCopy a.2 b.2) ?_ ?_ _ _ along
  case refine_2 => exact ⟨by rw [copy.text], copy.span⟩
  rintro ⟨name, span⟩ ⟨_, span'⟩ ⟨rfl, spans⟩ left right along
  rw [pathStep, pathStep, follows_isAt, follows_secondKind?, along.pair (by simp [Halting])]
  refine follows_choice (fun _ => ?_) fun _ => follows_pure ⟨.done ⟨rfl, spans⟩, along⟩
  refine (bump_mirrors left right along).then fun _ left _ right ⟨_, along⟩ => ?_
  refine (expectName_mirrors what left right along).then fun segment _ segment' _ ⟨copy, along⟩ => ?_
  exact follows_pure ⟨.again ⟨by rw [copy.text], spans.cover copy.span⟩, along⟩

theorem skipSquare_mirrors : Mirrors stretch skipSquare skipSquare fun _ _ => True := by
  intro left right along
  rw [skipSquare, follows_isAt, along.kind]
  refine follows_choice (fun _ => ?_) fun _ => follows_pure ⟨trivial, along⟩
  exact (skipGroup_mirrors left right along).then fun _ _ _ _ ⟨_, along⟩ => follows_pure ⟨trivial, along⟩

theorem annotation_mirrors : Mirrors stretch annotation annotation fun _ _ => True := by
  refine bump_then fun left right along => ?_
  refine (path_mirrors _ left right along).then fun _ left _ right ⟨_, along⟩ => ?_
  exact (skipSquare_mirrors left right along).then fun _ left _ right ⟨_, along⟩ => skipGroups_mirrors _ left right along

theorem modifierStep_mirrors (seen : Modifiers) :
    Mirrors stretch (modifierStep seen) (modifierStep seen) (Steps Eq Eq) := by
  intro left right along
  obtain ⟨token, token', first, first', kind, text⟩ := along.peek
  have more : ∀ {seen : Modifiers}, Follows stretch left right
      (bump >>= fun _ => (pure (.again seen) : Parser (Step Modifiers Modifiers)))
      (bump >>= fun _ => (pure (.again seen) : Parser (Step Modifiers Modifiers)))
      fun a left' b right' => Steps Eq Eq a b ∧ stretch.Along left' right' :=
    bump_then (pure_mirrors (.again rfl)) left right along
  have done : Follows stretch left right (pure (.done seen) : Parser (Step Modifiers Modifiers))
      (pure (.done seen) : Parser (Step Modifiers Modifiers))
      fun a left' b right' => Steps Eq Eq a b ∧ stretch.Along left' right' := follows_pure ⟨.done rfl, along⟩
  have second : ¬ Halting token.kind → right.rest[1]?.map Token.kind = left.rest[1]?.map Token.kind := by
    intro goes
    exact along.second fun kind found => by
      rw [first] at found
      cases found
      exact goes
  rw [modifierStep, follows_peek?, first, first']
  simp only [kind, text]
  split
  · exact (annotation_mirrors left right along).then fun _ _ _ _ read => follows_pure ⟨.again rfl, read.2⟩
  iterate 6 exact more
  iterate 2
    refine bump_then (fun left right along => ?_) left right along
    exact (skipSquare_mirrors left right along).then fun _ _ _ _ read => follows_pure ⟨.again rfl, read.2⟩
  · rename_i isCase
    rw [follows_secondKind?, second (by rw [isCase]; simp [Halting])]
    split
    · exact more
    · exact more
    · exact done
  · rename_i isIdent
    rw [follows_secondKind?, second (by rw [isIdent]; simp [Halting])]
    split
    · exact follows_choice (fun _ => more) fun _ => done
    · exact done
  · exact done

theorem modifiers_mirrors : Mirrors stretch modifiers modifiers Eq :=
  Mirrors.iterate Eq (fun seen _ same => same ▸ modifierStep_mirrors seen) rfl

/-! ### Imports -/

theorem importAlias_mirrors : Mirrors stretch importAlias importAlias fun _ _ => True := by
  intro left right along
  refine (bump_mirrors left right along).before (fun a => by cases a <;> infer_instance) fun a _ b _ ⟨both, along⟩ => ?_
  cases a with
  | none => exact follows_fail
  | some token =>
    cases b with
    | none => cases both
    | some token' =>
      have kind : token'.kind = token.kind := Carried.kind both
      simp only [kind]
      exact follows_choice (fun _ => follows_pure ⟨trivial, along⟩) fun _ => follows_fail

theorem importRename_mirrors : Mirrors stretch importRename importRename fun _ _ => True := by
  intro left right along
  obtain ⟨token, token', first, first', kind, text⟩ := along.peek
  rw [importRename, follows_peek?, first, first']
  simp only [kind, text]
  refine follows_choice (fun _ => ?_) fun _ => follows_pure ⟨trivial, along⟩
  refine bump_then (fun left right along => ?_) left right along
  exact (importAlias_mirrors left right along).then fun _ _ _ _ ⟨_, along⟩ => follows_pure ⟨trivial, along⟩

theorem importSelector_mirrors {token token' : Token} (kind : token'.kind = token.kind) (text : token'.text = token.text) :
    Mirrors stretch (importSelector token) (importSelector token') fun _ _ => True := by
  intro left right along
  rw [importSelector, importSelector]
  simp only [isWildcard, Token.isName, kind, text]
  refine follows_choice (fun _ => bump_then (pure_mirrors trivial) left right along) fun _ => ?_
  refine follows_choice (fun _ => ?_) fun _ => follows_fail
  refine bump_then (fun left right along => ?_) left right along
  exact (importRename_mirrors left right along).then fun _ _ _ _ read => follows_pure ⟨trivial, read.2⟩

theorem selectorEnd_mirrors : Mirrors stretch selectorEnd selectorEnd fun _ _ => True := by
  intro left right along
  refine (eats_mirrors .comma left right along).then ?_
  rintro comma left _ right ⟨rfl, along⟩
  rw [follows_isAt, along.kind]
  exact follows_choice (fun _ => follows_pure ⟨trivial, along⟩) fun _ => follows_fail

theorem importSelectors_mirrors : Mirrors stretch importSelectors importSelectors fun _ _ => True := by
  refine Mirrors.again (fun _ _ => True) (fun selectors => .then inferInstance fun next => by split <;> infer_instance)
    (fun _ _ _ left right along => ?_) trivial
  obtain ⟨token, token', first, first', kind, text⟩ := along.peek
  rw [follows_peek?, first, first']
  simp only [kind]
  refine follows_choice (fun _ => bump_then (pure_mirrors (.done trivial)) left right along) fun _ => ?_
  refine (importSelector_mirrors kind text left right along).then fun _ left _ right selected => ?_
  exact (selectorEnd_mirrors left right selected.2).then fun _ _ _ _ read => follows_pure ⟨.again trivial, read.2⟩

theorem importPart_mirrors (segments segments' : List String) :
    Mirrors stretch (importPart segments) (importPart segments') (Steps (fun _ _ => True) fun _ _ => True) := by
  intro left right along
  obtain ⟨token, token', first, first', kind, text⟩ := along.peek
  rw [importPart, importPart, follows_peek?, first, first']
  simp only [isWildcard, kind, text]
  refine follows_choice (fun _ => bump_then (pure_mirrors (.again trivial)) left right along) fun _ => ?_
  refine follows_choice (fun _ => bump_then (pure_mirrors (.done trivial)) left right along) fun _ => ?_
  refine follows_choice (fun _ => ?_) fun _ => ?_
  · refine bump_then (fun left right along => ?_) left right along
    exact (importRename_mirrors left right along).then fun _ _ _ _ ⟨_, along⟩ => follows_pure ⟨.done trivial, along⟩
  refine follows_choice (fun _ => ?_) fun _ => follows_fail
  refine bump_then (fun left right along => ?_) left right along
  exact (importSelectors_mirrors left right along).then fun _ _ _ _ ⟨_, along⟩ => follows_pure ⟨.done trivial, along⟩

theorem importStep_mirrors (segments segments' : List String) :
    Mirrors stretch (importStep segments) (importStep segments') (Steps (fun _ _ => True) fun _ _ => True) := by
  intro left right along
  refine (eats_mirrors .dot left right along).then ?_
  rintro dotted left _ right ⟨rfl, along⟩
  refine follows_choice (fun _ => importPart_mirrors _ _ left right along) fun _ => ?_
  exact (importRename_mirrors left right along).then fun _ _ _ _ ⟨_, along⟩ => follows_pure ⟨.done trivial, along⟩

theorem importClause_mirrors (start start' : Nat) :
    Mirrors stretch (importClause start) (importClause start') fun _ _ => True := by
  intro left right along
  refine (expectName_mirrors _ left right along).then fun _ left _ right ⟨_, along⟩ => ?_
  refine (Mirrors.iterate (fun _ _ => True) (fun _ _ _ => importStep_mirrors _ _) trivial left right along).then
    fun _ _ _ _ ⟨_, along⟩ => ?_
  exact follows_pure ⟨trivial, along⟩

/-- Imports are read over. -/
theorem importClauses_mirrors : Mirrors stretch importClauses importClauses fun _ _ => True := by
  intro left right along
  refine (expect_mirrors _ _ left right along).then fun _ left _ right ⟨_, along⟩ => ?_
  refine Mirrors.iterate (fun _ _ => True) (fun _ _ _ left right along => ?_) trivial left right along
  refine (importClause_mirrors _ _ left right along).then fun _ left _ right ⟨_, along⟩ => ?_
  refine (eats_mirrors .comma left right along).then ?_
  rintro comma _ _ _ ⟨rfl, along⟩
  refine follows_choice (fun _ => follows_here fun _ _ => ?_) fun _ => follows_pure ⟨.done trivial, along⟩
  exact follows_pure ⟨.again trivial, along⟩

/-! ### Type parameters and parents -/

/-- The type parameters are of the same names and kinds. -/
def SameTypeParam (a b : TypeParam) : Prop := b.name = a.name ∧ b.kind = a.kind

theorem skipVariance_mirrors : Mirrors stretch skipVariance skipVariance fun _ _ => True := by
  intro left right along
  obtain ⟨token, token', first, first', kind, text⟩ := along.peek
  rw [skipVariance, follows_peek?, first, first']
  simp only [kind, text]
  exact follows_choice (fun _ => bump_then (pure_mirrors trivial) left right along) fun _ => follows_pure ⟨trivial, along⟩

theorem typeParamName_mirrors : Mirrors stretch typeParamName typeParamName fun a b => b.text = a.text := by
  intro left right along
  obtain ⟨token, token', first, first', kind, text⟩ := along.peek
  rw [typeParamName, follows_peek?, first, first']
  simp only [kind]
  have named : Mirrors stretch (pure token) (pure token') fun a b => b.text = a.text := pure_mirrors text
  exact follows_choice (fun _ => bump_then named left right along) fun _ => follows_fail

theorem typeParamKind_mirrors : Mirrors stretch typeParamKind typeParamKind Eq := by
  intro left right along
  rw [typeParamKind, follows_isAt, along.kind]
  refine follows_choice (fun _ => ?_) fun _ => follows_pure ⟨rfl, along⟩
  exact (skipGroup_mirrors left right along).then fun _ _ _ _ ⟨_, along⟩ => follows_pure ⟨rfl, along⟩

theorem typeParam_mirrors : Mirrors stretch typeParam typeParam SameTypeParam := by
  intro left right along
  refine (skipVariance_mirrors left right along).then fun _ left _ right ⟨_, along⟩ => follows_here fun _ _ => ?_
  refine (typeParamName_mirrors left right along).then fun _ left _ right ⟨name, along⟩ => ?_
  refine (typeParamKind_mirrors left right along).then fun _ left _ right ⟨kind, along⟩ => ?_
  refine (scanUntil_mirrors _ left right along).then fun _ _ _ _ ⟨_, along⟩ => ?_
  exact follows_pure ⟨⟨name, kind.symm⟩, along⟩

theorem typeParams_mirrors : Mirrors stretch typeParams typeParams
    fun a b => List.Forall₂ SameTypeParam a.1 b.1 ∧ stretch.SpanCopy a.2 b.2 := by
  intro left right along
  refine (expect_mirrors _ _ left right along).then fun opening left opening' right ⟨opens, along⟩ => ?_
  refine Mirrors.iterate (List.Forall₂ SameTypeParam) (fun seen seen' same left right along => ?_) .nil left right along
  refine (typeParam_mirrors left right along).then fun param left param' right ⟨also, along⟩ => ?_
  have same' := List.rel_append same (.cons also .nil)
  refine (eats_mirrors .comma left right along).then ?_
  rintro comma left _ right ⟨rfl, along⟩
  refine follows_choice (fun _ => follows_pure ⟨.again same', along⟩) fun _ => ?_
  refine (expect_mirrors _ _ left right along).then fun _ _ _ _ ⟨closes, along⟩ => ?_
  exact follows_pure ⟨.done ⟨same', opens.span.cover closes.span⟩, along⟩

/-- The type parameters of a method, and the text they are written as. -/
theorem methodTypeParams_mirrors : Mirrors stretch methodTypeParams methodTypeParams
    fun a b => List.Forall₂ SameTypeParam a.1 b.1 ∧ b.2 = a.2 := by
  intro left right along
  rw [methodTypeParams, follows_isAt, along.kind]
  refine follows_choice (fun _ => ?_) fun _ => follows_pure ⟨⟨.nil, rfl⟩, along⟩
  refine (typeParams_mirrors left right along).then fun _ left _ right ⟨same, along⟩ => ?_
  exact (groupText_mirrors same.2 left right along).then fun _ _ _ _ ⟨text, along⟩ =>
    follows_pure ⟨⟨same.1, by rw [text]⟩, along⟩

/-- The parents are of the same names, with the same type arguments. -/
def SameParent (a b : Parent) : Prop := b.name = a.name ∧ b.typeArgs = a.typeArgs

/-- The text in the square brackets that may come next. -/
theorem resultArg_mirrors : Mirrors stretch resultArg resultArg Eq := by
  intro left right along
  rw [resultArg, follows_isAt, along.kind]
  refine follows_choice (fun _ => ?_) fun _ => follows_pure ⟨rfl, along⟩
  refine (skipGroup_mirrors left right along).then fun _ left _ right ⟨copy, along⟩ => ?_
  exact (groupText_mirrors copy left right along).then fun _ _ _ _ ⟨text, along⟩ => follows_pure ⟨by rw [text], along⟩

theorem parentTypeArgs_mirrors (span span' : Span) :
    Mirrors stretch (parentTypeArgs span) (parentTypeArgs span') fun a b => b.1 = a.1 := by
  intro left right along
  rw [parentTypeArgs, parentTypeArgs, follows_isAt, along.kind]
  refine follows_choice (fun _ => ?_) fun _ => follows_pure ⟨rfl, along⟩
  refine (skipGroup_mirrors left right along).then fun _ left _ right ⟨copy, along⟩ => ?_
  exact (groupText_mirrors copy left right along).then fun _ _ _ _ ⟨text, along⟩ => follows_pure ⟨by rw [text], along⟩

theorem parentArgs_mirrors (span span' : Span) :
    Mirrors stretch (parentArgs span) (parentArgs span') fun _ _ => True := by
  refine Mirrors.iterate (fun _ _ => True) (fun _ _ _ left right along => ?_) trivial
  rw [follows_isAt, along.kind]
  refine follows_choice (fun _ => ?_) fun _ => follows_pure ⟨.done trivial, along⟩
  exact (skipGroup_mirrors left right along).then fun _ _ _ _ ⟨_, along⟩ => follows_pure ⟨.again trivial, along⟩

theorem parent_mirrors : Mirrors stretch parent parent SameParent := by
  intro left right along
  refine (path_mirrors _ left right along).then fun _ left _ right ⟨name, along⟩ => ?_
  refine (parentTypeArgs_mirrors _ _ left right along).then fun _ left _ right ⟨typeArgs, along⟩ => ?_
  exact (parentArgs_mirrors _ _ left right along).then fun _ _ _ _ ⟨_, along⟩ => follows_pure ⟨⟨name.1, typeArgs⟩, along⟩

theorem parents_mirrors : Mirrors stretch parents parents (List.Forall₂ SameParent) := by
  refine Mirrors.iterate (List.Forall₂ SameParent) (fun seen seen' same left right along => ?_) .nil
  refine (parent_mirrors left right along).then fun _ left _ right ⟨also, along⟩ => ?_
  have same' := List.rel_append same (.cons also .nil)
  refine (eats_mirrors _ left right along).then ?_
  rintro joined left _ right ⟨rfl, along⟩
  refine follows_choice (fun _ => follows_pure ⟨.again same', along⟩) fun _ => ?_
  refine (eats_mirrors _ left right along).then ?_
  rintro comma _ _ _ ⟨rfl, along⟩
  exact follows_choice (fun _ => follows_pure ⟨.again same', along⟩) fun _ => follows_pure ⟨.done same', along⟩

/-! ### Parameters -/

/-- The parameter lists are the same but for their spans. -/
def SameParams (a b : ParamList) : Prop := b.isImplicit = a.isImplicit ∧ b.isUsing = a.isUsing ∧ b.params = a.params

theorem skipValVar_mirrors : Mirrors stretch skipValVar skipValVar fun _ _ => True := by
  intro left right along
  rw [skipValVar, follows_isAt, follows_isAt, along.kind]
  exact follows_choice (fun _ => bump_then (pure_mirrors trivial) left right along) fun _ => follows_pure ⟨trivial, along⟩

theorem paramName_mirrors : Mirrors stretch paramName paramName Eq := by
  intro left right along
  obtain ⟨token, token', first, first', kind, text⟩ := along.peek
  rw [paramName, follows_peek?, first, first']
  simp only [kind, text]
  rw [follows_secondKind?]
  by_cases word : (decide (token.kind = .ident) || decide (token.kind = .underscore)) = true
  · have goes : ¬ Halting token.kind := by
      rcases Bool.or_eq_true_iff.mp word with kind | kind <;> simp [of_decide_eq_true kind, Halting]
    rw [along.second fun kind found => by rw [first] at found; cases found; exact goes]
    refine follows_choice (fun _ => ?_) fun _ => follows_pure ⟨rfl, along⟩
    exact bump_then (bump_then (pure_mirrors rfl)) left right along
  · rw [Bool.not_eq_true] at word
    rw [word, Bool.false_and, Bool.false_and]
    exact follows_pure ⟨rfl, along⟩

theorem skipDefault_mirrors : Mirrors stretch skipDefault skipDefault fun _ _ => True := by
  intro left right along
  refine (eats_mirrors .equals left right along).then ?_
  rintro given left _ right ⟨rfl, along⟩
  refine follows_choice (fun _ => ?_) fun _ => follows_pure ⟨trivial, along⟩
  exact (scanUntil_mirrors _ left right along).then fun _ _ _ _ ⟨_, along⟩ => follows_pure ⟨trivial, along⟩

theorem param_mirrors : Mirrors stretch param param Eq := by
  intro left right along
  refine (modifiers_mirrors left right along).before (fun _ => .then inferInstance fun _ => .then inferInstance fun _ =>
    .then inferInstance fun type => by cases type <;> infer_instance) fun _ left _ right read => ?_
  refine (skipValVar_mirrors left right read.2).before (fun _ => .then inferInstance fun _ =>
    .then inferInstance fun type => by cases type <;> infer_instance) fun _ left _ right skipped => ?_
  refine (paramName_mirrors left right skipped.2).before (fun _ =>
    .then inferInstance fun type => by cases type <;> infer_instance) ?_
  rintro name left _ right ⟨rfl, along⟩
  refine (scanUntil_mirrors _ left right along).before (fun type => by cases type <;> infer_instance)
    fun type left type' right scanned => ?_
  obtain ⟨both, along⟩ := scanned
  cases type with
  | none => exact follows_fail
  | some span =>
    cases type' with
    | none => cases both
    | some span' =>
      refine (skipDefault_mirrors left right along).then fun _ left _ right skipped => ?_
      rw [follows_read]
      exact follows_pure ⟨by rw [stretch.copied.trimmed both], skipped.2⟩

theorem usingMark_mirrors : Mirrors stretch usingMark usingMark Eq := by
  intro left right along
  obtain ⟨token, token', first, first', kind, text⟩ := along.peek
  rw [usingMark, follows_peek?, first, first']
  simp only [kind, text]
  exact follows_choice (fun _ => bump_then (pure_mirrors rfl) left right along) fun _ => follows_pure ⟨rfl, along⟩

theorem implicitMark_mirrors (isUsing : Bool) : Mirrors stretch (implicitMark isUsing) (implicitMark isUsing) Eq := by
  unfold implicitMark
  split
  · exact pure_mirrors rfl
  · exact eats_mirrors _

theorem params_mirrors : Mirrors stretch params params Eq := by
  refine Mirrors.iterate Eq ?_ rfl
  rintro seen _ rfl left right along
  rw [follows_isAt, along.kind]
  refine follows_choice (fun _ => follows_pure ⟨.done rfl, along⟩) fun _ => ?_
  refine (param_mirrors left right along).then ?_
  rintro param left _ right ⟨rfl, along⟩
  refine (eats_mirrors .comma left right along).then ?_
  rintro comma left _ right ⟨rfl, along⟩
  exact follows_choice (fun _ => follows_pure ⟨.again rfl, along⟩) fun _ => follows_pure ⟨.done rfl, along⟩

theorem paramList_mirrors : Mirrors stretch paramList paramList SameParams := by
  intro left right along
  refine (expect_mirrors _ _ left right along).then fun _ left _ right ⟨_, along⟩ => ?_
  refine (usingMark_mirrors left right along).then ?_
  rintro isUsing left _ right ⟨rfl, along⟩
  refine (implicitMark_mirrors _ left right along).then ?_
  rintro isImplicit left _ right ⟨rfl, along⟩
  refine (params_mirrors left right along).then ?_
  rintro params left _ right ⟨rfl, along⟩
  exact (expect_mirrors _ _ left right along).then fun _ _ _ _ ⟨_, along⟩ => follows_pure ⟨⟨rfl, rfl, rfl⟩, along⟩

theorem paramLists_mirrors : Mirrors stretch paramLists paramLists (List.Forall₂ SameParams) := by
  refine Mirrors.iterate (List.Forall₂ SameParams) (fun seen seen' same left right along => ?_) .nil
  rw [follows_isAt, along.kind]
  refine follows_choice (fun _ => ?_) fun _ => follows_pure ⟨.done same, along⟩
  exact (paramList_mirrors left right along).then fun _ _ _ _ ⟨also, along⟩ =>
    follows_pure ⟨.again (List.rel_append same (.cons also .nil)), along⟩

end KindLift.StretchParsers
