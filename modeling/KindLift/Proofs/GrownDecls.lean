import KindLift.Proofs.GrownObjects
import KindLift.Proofs.ImportLines
import KindLift.Proofs.Preambles

/-! Declarations that are read in another text than their own. The tokens in front of a trait
or an object are read as they were, whatever the trait or the object has become; what it
becomes is read in its place, and what is put behind it is read behind it. -/
namespace KindLift.GrownDecls
open KindLift.Parser ParserLogic CursorAdvance ParserProgress ParserSimulation TokenReaders SeamLogic SeamParsers SeamBodies
open GrownObjects Preambles
open IndentedTexts (spell)
open BalancedParsers (iterate_closes)

variable {seam : Seam} {source other : List Char} {left right middle core next : Cursor} {token : Token}
  {tokens rest lead lead' : List Token} {seen : Outline} {mods : Modifiers} {names : List String} {words : List Word} {stop : Nat}

/-! ### Where a step of an outline begins -/

/-- A clause or a declaration begins with the token, or it stands between two of them. -/
def Starts (token : Token) : Prop :=
  token.kind = .semi ∨ token.kind = .atSign ∨
    (∃ word, token.kind = .keyword word ∧ word ≠ .extendsKw ∧ word ≠ .withKw ∧ word ≠ .newKw) ∨
    token.kind = .ident ∧ softModifiers.contains token.text = true

theorem starts_of_modifies {second : Option TokenKind} (more : modifies token second = true) : Starts token := by
  unfold modifies at more
  cases kind : token.kind with
  | atSign => exact .inr (.inl kind)
  | ident =>
    rw [kind] at more
    dsimp only at more
    split at more
    · exact .inr (.inr (.inr ⟨kind, (Bool.and_eq_true_iff.mp more).1⟩))
    · cases more
  | keyword word =>
    refine .inr (.inr (.inl ⟨word, kind, ?_⟩))
    rw [kind] at more
    refine ⟨?_, ?_, ?_⟩ <;>
      · rintro rfl
        cases more
  | _ =>
    rw [kind] at more
    cases more

theorem definition_starts {word : Keyword} (kind : token.kind = .keyword word) (defines : word.isDefinition = true) : Starts token := by
  refine .inr (.inr (.inl ⟨word, kind, ?_⟩))
  refine ⟨?_, ?_, ?_⟩ <;>
    · rintro rfl
      cases defines

/-- What is read behind the modifiers of a declaration, which begins with a token of the kind. -/
def declRest (mods : Modifiers) : Option TokenKind → Parser Decl
  | some (.keyword .traitKw) => return .interface (← interface)
  | some (.keyword word) =>
    if word = .objectKw && !mods.isCase then return .holder (← holder)
    else if word.isDefinition then return .other (← opaqueDecl word mods)
    else fail (.expected "declaration")
  | _ => fail (.expected "declaration")

theorem modifiedDecl_eq : modifiedDecl = modifiers >>= fun mods => peekKind? >>= declRest mods := by
  refine congrArg (modifiers >>= ·) (funext fun mods => congrArg (peekKind? >>= ·) (funext fun kind => ?_))
  unfold declRest
  rfl

theorem declRest_starts {result : Decl × Cursor} (first : left.rest.head? = some token)
    (ran : (peekKind? >>= declRest mods) source left = .ok result) : Starts token := by
  obtain ⟨kind, _, looked, ran⟩ := bind_eq_ok ran
  cases looked
  rw [first, Option.map_some] at ran
  cases kind : token.kind with
  | keyword word =>
    rw [kind] at ran
    cases defines : word.isDefinition with
    | true => exact definition_starts kind defines
    | false => cases word <;> first | (cases defines; done) | exact absurd ran fail_ne_ok
  | _ =>
    rw [kind] at ran
    exact absurd ran fail_ne_ok

/-- A step of an outline begins with such a token, or at the end. -/
theorem step_starts {outcome : Step Outline Outline} (ran : outlineStep seen source left = .ok (outcome, next)) :
    ∀ token ∈ left.rest.head?, Starts token := by
  intro token first
  obtain ⟨middle, ate, stepped⟩ := outlineStep_stepped ran
  by_cases semi : token.kind = .semi
  · exact .inl semi
  have stays : eatAll .semi source left = .ok ((), left) := eatAll_stays (by rw [Option.mem_def.mp first]; simpa using semi)
  cases ate.symm.trans stays
  have keyword : ∀ {word}, left.rest.head?.map Token.kind = some (.keyword word) → word ≠ .extendsKw ∧ word ≠ .withKw ∧ word ≠ .newKw →
      Starts token := by
    intro word kind different
    rw [Option.mem_def.mp first] at kind
    exact .inr (.inr (.inl ⟨word, Option.some.inj kind, different⟩))
  cases stepped with
  | finished last =>
    rw [last] at first
    cases first
  | package _ ahead => exact keyword ahead.1 (by simp)
  | imports _ ahead => exact keyword ahead (by simp)
  | decl _ _ ran =>
    obtain ⟨package, _, looked, ran⟩ := bind_eq_ok ran
    cases looked
    by_cases package : left.rest.head?.map Token.kind = some (.keyword .packageKw)
    · exact keyword package (by simp)
    · rw [decide_eq_false package, if_neg Bool.false_ne_true, modifiedDecl_eq] at ran
      cases plain : modifies token (left.rest[1]?.map Token.kind) with
      | true => exact starts_of_modifies plain
      | false =>
        rw [bind_ok (modifiers_stays first plain)] at ran
        exact declRest_starts first ran

theorem Starts.plain (starts : Starts token) : token.kind ≠ .literal ∧ token.kind ≠ .dot ∧ token.kind ≠ .comma ∧ token.kind ≠ .arrow ∧
    (∀ bracket, token.kind ≠ .opener bracket) ∧ token.kind ≠ .keyword .withKw ∧ ¬ (token.kind = .ident ∧ token.text = "as") := by
  rcases starts with kind | kind | ⟨word, kind, -, other, -⟩ | ⟨kind, soft⟩
  · simp [kind]
  · simp [kind]
  · simp [kind, other]
  · refine ⟨by simp [kind], by simp [kind], by simp [kind], by simp [kind], by simp [kind], by simp [kind], fun ⟨_, renames⟩ => ?_⟩
    rw [renames] at soft
    exact absurd soft (by decide)

/-! ### What stands in front of a declaration -/

/-- A declaration that begins with a keyword behind other tokens. These are read alike whatever
comes behind the keyword, and the declaration is read in its place. -/
structure Led (reader : Parser α) (wrap : α → Decl) (word : Keyword) (source : List Char) (left next : Cursor) (value : α)
    (lead : List Token) (core : Cursor) : Prop where
  shape : left.rest = lead ++ core.rest
  first : core.rest.head?.map Token.kind = some (.keyword word)
  plain : ¬ Looks (.keyword word)
  read : reader source core = .ok (value, next)
  again : ∀ (other : List Char) (lead' rest : List Token), lead'.map spell = lead.map spell →
    rest.head?.map spell = core.rest.head?.map spell → ∀ (seen : Outline) (stop : Nat), ∃ begun, ∀ value' next',
      reader other ⟨rest, begun⟩ = .ok (value', next') →
        outlineStep seen other ⟨lead' ++ rest, stop⟩ = .ok (.again { seen with decls := seen.decls ++ [wrap value'] }, next')

/-- A step of an outline, where a declaration comes next. -/
theorem outlineStep_behind (ate : eatAll .semi source left = .ok ((), middle)) (more : middle.rest.head? = some token)
    (noPackage : middle.rest.head?.map Token.kind ≠ some (.keyword .packageKw)) (noImport : ¬ AtImport middle)
    (modified : modifiers source middle = .ok (mods, core)) (seen : Outline) :
    outlineStep seen source left = ((peekKind? >>= declRest mods) >>= fun decl =>
      pure (.again { seen with decls := seen.decls ++ [decl] })) source core := by
  have noClause : ¬ decide (AtPackage middle) = true := by simpa using fun ahead => absurd ahead.1 noPackage
  rw [outlineStep, bind_ok ate, bind_ok (peek?_at more), if_neg (by simp), bind_ok atPackageClause_run, if_neg noClause,
    bind_ok isImport_run, if_neg (by simpa using noImport), topLevel, bind_assoc, bind_ok (isAt_other noPackage),
    if_neg Bool.false_ne_true, modifiedDecl_eq, bind_assoc, bind_ok modified]

/-- The tokens in front of a keyword that begins a declaration. -/
theorem modified_again (ate : eatAll .semi source left = .ok ((), middle)) (noPackage : middle.rest.head?.map Token.kind ≠ some (.keyword .packageKw))
    (noImport : ¬ AtImport middle) (modified : modifiers source middle = .ok (mods, core)) (first : core.rest.head? = some token)
    (plain : ¬ Looks token.kind) : ∃ lead, left.rest = lead ++ core.rest ∧ ∀ (other : List Char) (lead' rest : List Token),
      lead'.map spell = lead.map spell → rest.head?.map spell = core.rest.head?.map spell → ∀ (seen : Outline) (stop : Nat), ∃ begun,
        outlineStep seen other ⟨lead' ++ rest, stop⟩ = ((peekKind? >>= declRest mods) >>= fun decl =>
          pure (.again { seen with decls := seen.decls ++ [decl] })) other ⟨rest, begun⟩ := by
  have ahead := (modifiers_advances.ensures _ _ _ _ modified).suffix
  obtain ⟨lead, whole⟩ := ahead.trans ((eatAll_advances .semi).ensures _ _ _ _ ate).suffix
  refine ⟨lead, whole.symm, fun other lead' rest alike head seen stop => ?_⟩
  have flush : Flush ⟨source, other, core.rest, rest⟩ := by
    refine flush_of_second head fun found isFirst looks => ?_
    rw [show core.rest.head? = some found from isFirst, Option.some.injEq] at first
    exact absurd (first ▸ looks) plain
  have along : (Seam.mk source other core.rest rest).Along left ⟨lead' ++ rest, stop⟩ := ⟨lead, lead', whole.symm, rfl, alike⟩
  obtain ⟨_, middle', ate', -, along⟩ := eatAll_mirrors (flush_asks .semi) _ flush _ _ along _ _ ate ahead.length_le
  obtain ⟨_, ⟨tokens, begun⟩, modified', rfl, along'⟩ := modifiers_mirrors _ flush _ _ along _ _ modified (Nat.le_refl _)
  obtain rfl : tokens = rest := along'.ends (Nat.le_refl _)
  have kinds := along.kind flush.toFlat
  obtain ⟨found, more⟩ : ∃ found, middle'.rest.head? = some found := by
    cases found : middle'.rest.head? with
    | some token => exact ⟨token, rfl⟩
    | none =>
      have empty : middle.rest = [] := by simpa [found] using kinds.symm
      rw [empty, List.suffix_nil] at ahead
      rw [ahead] at first
      cases first
  exact ⟨begun, outlineStep_behind ate' more (by rwa [kinds]) (by rwa [AtImport, kinds]) modified' seen⟩

theorem declRest_interface {interface : Interface}
    (ran : (peekKind? >>= declRest mods) source core = .ok (.interface interface, next)) :
    core.rest.head?.map Token.kind = some (.keyword .traitKw) ∧ Parser.interface source core = .ok (interface, next) := by
  obtain ⟨kind, _, looked, ran⟩ := bind_eq_ok ran
  cases looked
  generalize core.rest.head?.map Token.kind = kind at ran
  cases kind with
  | none => exact absurd ran fail_ne_ok
  | some kind =>
    cases kind with
    | keyword word =>
      cases word with
      | traitKw =>
        obtain ⟨_, _, read, ran⟩ := bind_eq_ok ran
        cases ran
        exact ⟨rfl, read⟩
      | objectKw =>
        cases cased : mods.isCase <;> simp only [declRest, cased, decide_true, Bool.true_and] at ran <;>
          · obtain ⟨_, _, -, ran⟩ := bind_eq_ok ran
            cases ran
      | _ =>
        first
        | exact absurd ran fail_ne_ok
        | obtain ⟨_, _, -, ran⟩ := bind_eq_ok ran
          cases ran
    | _ => exact absurd ran fail_ne_ok

theorem declRest_holder {holder : Holder} (ran : (peekKind? >>= declRest mods) source core = .ok (.holder holder, next)) :
    core.rest.head?.map Token.kind = some (.keyword .objectKw) ∧ mods.isCase = false ∧ Parser.holder source core = .ok (holder, next) := by
  obtain ⟨kind, _, looked, ran⟩ := bind_eq_ok ran
  cases looked
  generalize core.rest.head?.map Token.kind = kind at ran
  cases kind with
  | none => exact absurd ran fail_ne_ok
  | some kind =>
    cases kind with
    | keyword word =>
      cases word with
      | objectKw =>
        cases cased : mods.isCase <;> simp only [declRest, cased, decide_true, Bool.true_and] at ran
        · obtain ⟨_, _, read, ran⟩ := bind_eq_ok ran
          cases ran
          exact ⟨rfl, rfl, read⟩
        · obtain ⟨_, _, -, ran⟩ := bind_eq_ok ran
          cases ran
      | _ =>
        first
        | exact absurd ran fail_ne_ok
        | obtain ⟨_, _, -, ran⟩ := bind_eq_ok ran
          cases ran
    | _ => exact absurd ran fail_ne_ok

theorem declRest_trait {interface : Interface} (head : core.rest.head?.map Token.kind = some (.keyword .traitKw))
    (read : Parser.interface source core = .ok (interface, next)) :
    (peekKind? >>= declRest mods) source core = .ok (.interface interface, next) := by
  rw [bind_ok (show peekKind? source core = .ok (some (.keyword .traitKw), core) by rw [← head]; rfl)]
  exact (bind_ok read).trans rfl

theorem declRest_object {holder : Holder} (head : core.rest.head?.map Token.kind = some (.keyword .objectKw)) (proper : mods.isCase = false)
    (read : Parser.holder source core = .ok (holder, next)) :
    (peekKind? >>= declRest mods) source core = .ok (.holder holder, next) := by
  have behind : declRest mods (some (.keyword .objectKw)) = Parser.holder >>= fun holder => pure (.holder holder) := by
    simp only [declRest, proper]
    rfl
  rw [bind_ok (show peekKind? source core = .ok (some (.keyword .objectKw), core) by rw [← head]; rfl), behind]
  exact (bind_ok read).trans rfl

theorem modified_of_topLevel {decl : Decl} (ran : topLevel source middle = .ok (decl, next)) (known : ∀ other, decl ≠ .other other) :
    middle.rest.head?.map Token.kind ≠ some (.keyword .packageKw) ∧ ∃ mods core, modifiers source middle = .ok (mods, core) ∧
      (peekKind? >>= declRest mods) source core = .ok (decl, next) := by
  obtain ⟨package, _, looked, ran⟩ := bind_eq_ok ran
  cases looked
  split at ran
  · obtain ⟨object, _, -, ran⟩ := bind_eq_ok ran
    cases ran
    exact absurd rfl (known object)
  · rename_i noPackage
    rw [modifiedDecl_eq] at ran
    obtain ⟨mods, core, modified, ran⟩ := bind_eq_ok ran
    exact ⟨by simpa using noPackage, mods, core, modified, ran⟩

theorem interface_led {interface : Interface} (ate : eatAll .semi source left = .ok ((), middle)) (noImport : ¬ AtImport middle)
    (ran : topLevel source middle = .ok (.interface interface, next)) :
    ∃ lead core, Led Parser.interface .interface .traitKw source left next interface lead core := by
  obtain ⟨noPackage, mods, core, modified, ran⟩ := modified_of_topLevel ran (by simp)
  obtain ⟨head, read⟩ := declRest_interface ran
  obtain ⟨token, first, kind⟩ := Option.map_eq_some_iff.mp head
  obtain ⟨lead, shape, again⟩ := modified_again ate noPackage noImport modified first (by simp [kind, Looks])
  refine ⟨lead, core, shape, head, by simp [Looks], read, fun other lead' rest alike same seen stop => ?_⟩
  obtain ⟨begun, step⟩ := again other lead' rest alike same seen stop
  exact ⟨begun, fun value' next' run => step.trans ((bind_ok (declRest_trait ((kind_of_map same).trans head) run)).trans rfl)⟩

theorem holder_led {holder : Holder} (ate : eatAll .semi source left = .ok ((), middle)) (noImport : ¬ AtImport middle)
    (ran : topLevel source middle = .ok (.holder holder, next)) :
    ∃ lead core, Led Parser.holder .holder .objectKw source left next holder lead core := by
  obtain ⟨noPackage, mods, core, modified, ran⟩ := modified_of_topLevel ran (by simp)
  obtain ⟨head, proper, read⟩ := declRest_holder ran
  obtain ⟨token, first, kind⟩ := Option.map_eq_some_iff.mp head
  obtain ⟨lead, shape, again⟩ := modified_again ate noPackage noImport modified first (by simp [kind, Looks])
  refine ⟨lead, core, shape, head, by simp [Looks], read, fun other lead' rest alike same seen stop => ?_⟩
  obtain ⟨begun, step⟩ := again other lead' rest alike same seen stop
  exact ⟨begun, fun value' next' run => step.trans ((bind_ok (declRest_object ((kind_of_map same).trans head) proper run)).trans rfl)⟩

variable {α : Type} {reader : Parser α} {wrap : α → Decl} {word : Keyword} {value : α}

/-- In front of the keyword the texts are alike. -/
theorem Led.flush (led : Led reader wrap word source left next value lead core) (other : List Char) {rest : List Token}
    (alike : lead'.map spell = lead.map spell) (same : rest.head?.map spell = core.rest.head?.map spell) :
    Flush ⟨source, other, left.rest, lead' ++ rest⟩ := by
  obtain ⟨token, first, kind⟩ := Option.map_eq_some_iff.mp led.first
  obtain ⟨more, whole⟩ := List.head?_eq_some_iff.mp first
  rw [whole] at same
  obtain ⟨token', rest', rfl, spelled⟩ : ∃ token' rest', rest = token' :: rest' ∧ spell token' = spell token := by
    cases rest with
    | nil => cases same
    | cons token' rest' => exact ⟨token', rest', rfl, Option.some.inj same⟩
  have shape : left.rest = (lead ++ [token]) ++ more := by rw [led.shape, whole, List.append_assoc, List.singleton_append]
  rw [shape, show lead' ++ token' :: rest' = (lead' ++ [token']) ++ rest' by simp]
  refine @flush_within ⟨source, other, more, rest'⟩ _ _ (by simp [alike, spelled]) (by simp) fun found head looks => ?_
  cases lead with
  | nil =>
    cases head
    exact absurd (kind ▸ looks) led.plain
  | cons => simp

/-! ### What is put into a text -/

def objectHead : Word := (.keyword .objectKw, "object".toList)

def traitHead : Word := (.keyword .traitKw, "trait".toList)

/-- What a name is known by. -/
def nameText (name : Word) : String := String.ofList (Token.unquote name.2)

def IsName (name : Word) : Prop := name.1 = .ident ∨ name.1 = .operator

/-- The words of an object with a body. -/
def objectWords (name : Word) (words : List Word) : List Word := objectHead :: name :: openingWord :: (words ++ [closingWord])

/-- The words of a trait that extends a trait in the object of its name, applied to another one. -/
def aliasWords (name argument : Word) : List Word :=
  [traitHead, name, (.keyword .extendsKw, "extends".toList), name, (.dot, ['.']), name, (.opener .square, ['[']), argument,
    (.closer .square, [']'])]

theorem kind_of_word {word : Word} (same : spell token = word) : token.kind = word.1 := congrArg Prod.fst same

theorem text_of_word {name : Word} (same : spell token = name) : token.text = nameText name := by
  rw [Token.text, nameText, ← same]
  rfl

theorem isName_of_word {name : Word} (same : spell token = name) (named : IsName name) : token.isName = true := by
  rw [Token.isName, kind_of_word same]
  rcases named with kind | kind <;> rw [kind] <;> rfl

/-- An object with a body is read in front of anything. -/
theorem holder_fresh (entries : Entries names words) {name : Word} (named : IsName name) (spelled : tokens.map spell = objectWords name words)
    (other : List Char) (rest : List Token) (stop : Nat) : ∃ holder stop', Parser.holder other ⟨tokens ++ rest, stop⟩ =
      .ok (holder, ⟨rest, stop'⟩) ∧ holderGist holder = (nameText name, names) := by
  obtain ⟨object, _, rfl, head, spelled⟩ := List.map_eq_cons_iff.mp spelled
  obtain ⟨found, _, rfl, same, spelled⟩ := List.map_eq_cons_iff.mp spelled
  obtain ⟨opening, _, rfl, opens, spelled⟩ := List.map_eq_cons_iff.mp spelled
  obtain ⟨added, _, rfl, alike, spelled⟩ := List.map_eq_append_iff.mp spelled
  obtain ⟨closing, rfl, closes⟩ := List.map_eq_singleton_iff.mp spelled
  obtain ⟨members, body, stop', read, all⟩ := entries.filled alike opens closes other rest found.stop
  have shape : object :: found :: opening :: (added ++ [closing]) ++ rest = object :: found :: opening :: (added ++ closing :: rest) := by simp
  have isObject : object.kind = .keyword .objectKw := kind_of_word head
  have opens' : opening.kind = .opener .brace := kind_of_word opens
  have plain : extendsClause other ⟨opening :: (added ++ closing :: rest), found.stop⟩ = .ok ([], ⟨opening :: (added ++ closing :: rest), found.stop⟩) :=
    bind_ok (eats_absent (by simp [opens']))
  have filled : optionalHolderBody other ⟨opening :: (added ++ closing :: rest), found.stop⟩ = .ok ((members, some body), ⟨rest, stop'⟩) :=
    (bind_ok (isAt_here (by simp [opens']))).trans ((bind_ok read).trans rfl)
  refine ⟨⟨found.text, found.span, ⟨object.start, stop'⟩, members.members, members.nested, some body⟩, stop', ?_, ?_⟩
  · rw [shape, holder, bind_ok (expect_run isObject _ _ _), bind_ok (expectName_run (isName_of_word same named) _ _ _),
      bind_ok plain, bind_ok filled]
    rfl
  · rw [← text_of_word same, ← all]
    rfl

/-- A declaration without modifiers. -/
theorem outlineStep_object {holder : Holder} (first : left.rest.head?.map Token.kind = some (.keyword .objectKw))
    (read : Parser.holder source left = .ok (holder, next)) :
    outlineStep seen source left = .ok (.again { seen with decls := seen.decls ++ [.holder holder] }, next) := by
  obtain ⟨token, found, kind⟩ := Option.map_eq_some_iff.mp first
  have noMods : modifiers source left = .ok (⟨false, false⟩, left) := modifiers_stays found (by simp only [modifies, kind])
  have semis : eatAll .semi source left = .ok ((), left) := eatAll_stays (by simp [first])
  rw [outlineStep_behind semis found (by simp [first]) (by simp [AtImport, first]) noMods]
  exact (bind_ok (declRest_object first rfl read)).trans rfl

/-- A name, a point and the name again, in front of a bracket. -/
theorem path_twice {first dot second opening : Token} (named : first.isName = true) (point : dot.kind = .dot) (word : second.kind = .ident)
    (opens : opening.kind = .opener .square) (what : String) (rest : List Token) (stop : Nat) :
    ∃ span, path what source ⟨first :: dot :: second :: opening :: rest, stop⟩ =
      .ok ((⟨[first.text, second.text]⟩, span), ⟨opening :: rest, second.stop⟩) := by
  have again : pathStep what (⟨[first.text]⟩, first.span) source ⟨dot :: second :: opening :: rest, first.stop⟩ =
      .ok (.again (⟨[first.text, second.text]⟩, first.span.cover second.span), ⟨opening :: rest, second.stop⟩) := by
    have looked : secondKind? source ⟨dot :: second :: opening :: rest, first.stop⟩ =
        .ok (some second.kind, ⟨dot :: second :: opening :: rest, first.stop⟩) := rfl
    rw [pathStep, bind_ok (isAt_here (by simp [point])), bind_ok looked, if_pos (by simp [word]), bind_ok (bump_run dot _ _),
      bind_ok (expectName_run (by simp [Token.isName, word]) what _ _)]
    rfl
  have last : pathStep what (⟨[first.text, second.text]⟩, first.span.cover second.span) source ⟨opening :: rest, second.stop⟩ =
      .ok (.done (⟨[first.text, second.text]⟩, first.span.cover second.span), ⟨opening :: rest, second.stop⟩) := by
    have looked : secondKind? source ⟨opening :: rest, second.stop⟩ = .ok (rest[0]?.map Token.kind, ⟨opening :: rest, second.stop⟩) := rfl
    rw [pathStep, bind_ok (isAt_other (by simp [opens])), bind_ok looked, if_neg (by simp)]
    rfl
  refine ⟨first.span.cover second.span, ?_⟩
  rw [path, bind_ok (expectName_run named what _ _)]
  exact (iterateFrom_again again (by simp [Shorter])).trans (iterateFrom_done last)

/-- The same with an argument is a parent, in front of anything but a parenthesis. -/
theorem parent_twice {first dot second opening applied closing : Token} (named : first.isName = true) (point : dot.kind = .dot)
    (word : second.kind = .ident) (opens : opening.kind = .opener .square) (plain : BracketBalance.WellBracketed [applied])
    (closes : closing.kind = .closer .square) (ends : rest.head?.map Token.kind ≠ some (.opener .paren)) (stop : Nat) :
    ∃ parent, Parser.parent source ⟨first :: dot :: second :: opening :: applied :: closing :: rest, stop⟩ =
      .ok (parent, ⟨rest, closing.stop⟩) := by
  obtain ⟨span, path⟩ := @path_twice source first dot second opening named point word opens "parent type" (applied :: closing :: rest) stop
  have group : skipGroup source ⟨opening :: applied :: closing :: rest, second.stop⟩ = _ := TypeTokens.skipGroup_run opens plain closes rest _
  have args : ∀ span, parentArgs span source ⟨rest, closing.stop⟩ = .ok (span, ⟨rest, closing.stop⟩) := by
    intro span
    refine iterateFrom_done ?_
    rw [bind_ok (isAt_other ends), if_neg Bool.false_ne_true]
    rfl
  obtain ⟨read, typeArgs⟩ : ∃ read, parentTypeArgs span source ⟨opening :: applied :: closing :: rest, second.stop⟩ =
      .ok (read, ⟨rest, closing.stop⟩) := by
    rw [parentTypeArgs, bind_ok (isAt_here (by simp [opens])), if_pos rfl, bind_ok group]
    exact ⟨_, rfl⟩
  obtain ⟨text, span'⟩ := read
  rw [Parser.parent, bind_ok path]
  dsimp only
  rw [bind_ok typeArgs]
  dsimp only
  rw [bind_ok (args span')]
  exact ⟨_, rfl⟩

/-- The alias is read in front of whatever another declaration may begin with. -/
theorem interface_alias {name argument : Word} (word : name.1 = .ident) (plain : ∀ bracket, argument.1 ≠ .opener bracket ∧ argument.1 ≠ .closer bracket)
    (spelled : tokens.map spell = aliasWords name argument) (other : List Char) (rest : List Token) (starts : ∀ token ∈ rest.head?, Starts token)
    (stop : Nat) : ∃ interface stop', Parser.interface other ⟨tokens ++ rest, stop⟩ = .ok (interface, ⟨rest, stop'⟩) ∧
      interface.name = nameText name ∧ interface.typeParams = [] := by
  obtain ⟨trait, _, rfl, head, spelled⟩ := List.map_eq_cons_iff.mp spelled
  obtain ⟨first, _, rfl, same, spelled⟩ := List.map_eq_cons_iff.mp spelled
  obtain ⟨marker, _, rfl, extending, spelled⟩ := List.map_eq_cons_iff.mp spelled
  obtain ⟨outer, _, rfl, same', spelled⟩ := List.map_eq_cons_iff.mp spelled
  obtain ⟨dot, _, rfl, point, spelled⟩ := List.map_eq_cons_iff.mp spelled
  obtain ⟨inner, _, rfl, same'', spelled⟩ := List.map_eq_cons_iff.mp spelled
  obtain ⟨opening, _, rfl, opens, spelled⟩ := List.map_eq_cons_iff.mp spelled
  obtain ⟨applied, _, rfl, applies, spelled⟩ := List.map_eq_cons_iff.mp spelled
  obtain ⟨closing, rfl, closes⟩ := List.map_eq_singleton_iff.mp spelled
  have isName : IsName name := .inl word
  have isTrait : trait.kind = .keyword .traitKw := kind_of_word head
  have extends' : marker.kind = .keyword .extendsKw := kind_of_word extending
  have inside : BracketBalance.WellBracketed [applied] := by
    refine .plain ⟨fun bracket => ?_, fun bracket => ?_⟩ .nil <;> rw [kind_of_word applies]
    · exact (plain bracket).1
    · exact (plain bracket).2
  have absent : ∀ {kind}, (∃ bracket, kind = .opener bracket) ∨ kind = .comma ∨ kind = .keyword .withKw →
      rest.head?.map Token.kind ≠ some kind := by
    rintro kind asked found
    obtain ⟨token, isFirst, rfl⟩ := Option.map_eq_some_iff.mp found
    obtain ⟨-, -, comma, -, opener, more, -⟩ := (starts token isFirst).plain
    rcases asked with ⟨bracket, same⟩ | same | same
    · exact opener bracket same
    · exact comma same
    · exact more same
  obtain ⟨parent, read⟩ := @parent_twice other rest outer dot inner opening applied closing (isName_of_word same' isName)
    (kind_of_word point) ((kind_of_word same'').trans word) (kind_of_word opens) inside (kind_of_word closes) (absent (.inl ⟨_, rfl⟩)) marker.stop
  have params : traitTypeParams other ⟨marker :: outer :: dot :: inner :: opening :: applied :: closing :: rest, first.stop⟩ =
      .ok (([], none), ⟨marker :: outer :: dot :: inner :: opening :: applied :: closing :: rest, first.stop⟩) := by
    rw [traitTypeParams, bind_ok (isAt_other (by simp [extends'])), if_neg Bool.false_ne_true]
    rfl
  have skips : skipGroups .paren other ⟨marker :: outer :: dot :: inner :: opening :: applied :: closing :: rest, first.stop⟩ =
      .ok ((), ⟨marker :: outer :: dot :: inner :: opening :: applied :: closing :: rest, first.stop⟩) := by
    refine iterateFrom_done ?_
    rw [bind_ok (isAt_other (by simp [extends'])), if_neg Bool.false_ne_true]
    rfl
  have parents : extendsClause other ⟨marker :: outer :: dot :: inner :: opening :: applied :: closing :: rest, first.stop⟩ =
      .ok ([parent], ⟨rest, closing.stop⟩) := by
    rw [extendsClause, bind_ok (eats_run extends' _ _), if_pos rfl]
    refine iterateFrom_done ?_
    rw [bind_ok read, bind_ok (eats_absent (absent (.inr (.inr rfl)))), if_neg Bool.false_ne_true,
      bind_ok (eats_absent (absent (.inr (.inl rfl)))), if_neg Bool.false_ne_true]
    rfl
  have body : optionalTraitBody other ⟨rest, closing.stop⟩ = .ok ((⟨[], false⟩, none), ⟨rest, closing.stop⟩) := by
    rw [optionalTraitBody, bind_ok (isAt_other (absent (.inl ⟨_, rfl⟩))), if_neg Bool.false_ne_true]
    rfl
  have text := text_of_word same
  refine ⟨⟨first.text, first.span, ⟨trait.start, closing.stop⟩, [], none, [parent], [], false, none⟩, closing.stop, ?_, text, rfl⟩
  show Parser.interface other ⟨trait :: first :: marker :: outer :: dot :: inner :: opening :: applied :: closing :: rest, stop⟩ = _
  rw [Parser.interface, bind_ok (expect_run isTrait _ _ _), bind_ok (expectName_run (isName_of_word same isName) _ _ _), bind_ok params]
  dsimp only
  rw [bind_ok skips, bind_ok parents, bind_ok body]
  rfl

/-! ### Objects that get members -/

/-- The parts an object is read in. -/
theorem holder_parts {holder : Holder} (ran : Parser.holder source left = .ok (holder, next)) :
    ∃ keyword begun name named parents extended members body, expect (.keyword .objectKw) "object" source left = .ok (keyword, begun) ∧
      expectName "object name" source begun = .ok (name, named) ∧ extendsClause source named = .ok (parents, extended) ∧
      optionalHolderBody source extended = .ok ((members, body), next) ∧
      holder = ⟨name.text, name.span, ⟨keyword.start, next.lastStop⟩, members.members, members.nested, body⟩ := by
  obtain ⟨keyword, begun, expected, ran⟩ := bind_eq_ok ran
  obtain ⟨name, named, found, ran⟩ := bind_eq_ok ran
  obtain ⟨parents, extended, extending, ran⟩ := bind_eq_ok ran
  obtain ⟨⟨members, body⟩, _, filled, ran⟩ := bind_eq_ok ran
  cases ran
  exact ⟨keyword, begun, name, named, parents, extended, members, body, expected, found, extending, filled, rfl⟩

theorem holder_of_parts {keyword name : Token} {begun named extended : Cursor} {parents : List Parent} {members : HolderMembers} {body : Option Body}
    (expected : expect (.keyword .objectKw) "object" source left = .ok (keyword, begun))
    (found : expectName "object name" source begun = .ok (name, named)) (extending : extendsClause source named = .ok (parents, extended))
    (filled : optionalHolderBody source extended = .ok ((members, body), next)) : Parser.holder source left =
      .ok (⟨name.text, name.span, ⟨keyword.start, next.lastStop⟩, members.members, members.nested, body⟩, next) := by
  rw [Parser.holder, bind_ok expected, bind_ok found, bind_ok extending, bind_ok filled]
  rfl

/-- An object without a body gets one. -/
theorem holder_opened (entries : Entries names words) {opening closing : Token} (same : tokens.map spell = words)
    (opens : spell opening = openingWord) (closes : spell closing = closingWord) (back' : seam.back' = opening :: (tokens ++ closing :: rest))
    (along : seam.Along left right) {holder : Holder} (ran : Parser.holder seam.source left = .ok (holder, next)) (back : seam.back = next.rest)
    (bodiless : holder.body = none) : ∃ grown stop, Parser.holder seam.other right = .ok (grown, ⟨rest, stop⟩) ∧
      holderGist grown = (holder.name, (holderGist holder).2 ++ names) := by
  obtain ⟨keyword, begun, name, named, parents, extended, members, body, expected, found, extending, filled, rfl⟩ := holder_parts ran
  obtain rfl : body = none := bodiless
  -- Nothing is read behind the parents.
  obtain ⟨rfl, rfl⟩ : members = ⟨[], []⟩ ∧ extended = next := by
    obtain ⟨opened, _, looked, filled⟩ := bind_eq_ok filled
    cases looked
    split at filled
    · obtain ⟨_, _, -, filled⟩ := bind_eq_ok filled
      cases filled
    · cases filled
      exact ⟨rfl, rfl⟩
  have calm : Calm seam := .inr ⟨.opener .brace, by rw [back', List.head?_cons, Option.map_some, kind_of_word opens]; rfl, rfl⟩
  have inside := (extendsClause_advances.ensures _ _ _ _ extending).suffix.length_le
  have inside' := ((expectName_advances _).ensures _ _ _ _ found).suffix.length_le
  rw [← back] at inside
  obtain ⟨keyword', begun', expected', -, along⟩ := expect_mirrors _ _ seam calm _ _ along _ _ expected (Nat.le_trans inside inside')
  obtain ⟨name', named', found', alike, along⟩ := expectName_mirrors _ seam calm _ _ along _ _ found inside
  obtain ⟨parents', ⟨tokens', stop⟩, extending', -, along⟩ := extendsClause_mirrors seam calm _ _ along _ _ extending (by rw [back])
  obtain rfl : tokens' = opening :: (tokens ++ closing :: rest) := (along.ends (by rw [back])).trans back'
  obtain ⟨members, body, stop', read, all⟩ := entries.filled same opens closes seam.other rest stop
  have filled' : optionalHolderBody seam.other ⟨opening :: (tokens ++ closing :: rest), stop⟩ = .ok ((members, some body), ⟨rest, stop'⟩) :=
    (bind_ok (isAt_here (by simp [kind_of_word opens, openingWord]))).trans ((bind_ok read).trans rfl)
  refine ⟨_, stop', holder_of_parts expected' found' extending' filled', ?_⟩
  exact Prod.ext (text_of_spell alike) all

/-- A body is read from a brace to another one. -/
theorem holderBody_braces {members : HolderMembers} {body : Body} (ran : holderBody source left = .ok ((members, body), next)) :
    ∃ opening inside ending, left.rest = opening :: (inside ++ ending :: next.rest) ∧ opening.kind = .opener .brace ∧
      ending.kind = .closer .brace := by
  rw [holderBody_steps] at ran
  obtain ⟨openBrace, inner, opened, looped⟩ := bind_eq_ok ran
  obtain ⟨opening, begun, brace, opened⟩ := bind_eq_ok opened
  obtain ⟨_, _, skipped, opened⟩ := bind_eq_ok opened
  cases opened
  obtain ⟨shape, opens, -⟩ := expect_some brace
  obtain ⟨front, ending, closed, -, closes⟩ := iterate_closes (memberStep_encloses _) _ _ looped
  obtain ⟨self, whole⟩ := (skipSelfType_advances.ensures _ _ _ _ skipped).suffix
  exact ⟨opening, self ++ front, ending, by rw [shape, ← whole, closed, List.append_assoc], opens, closes⟩

/-- A body in which statements are added at the end. -/
theorem holderBody_extended (entries : Entries names words) {ending closing : Token} (same : tokens.map spell = words)
    (ends : ending.kind = .closer .brace) (closes : spell closing = closingWord) (back' : seam.back' = tokens ++ closing :: rest)
    (along : seam.Along left right) {members : HolderMembers} {body : Body}
    (ran : holderBody seam.source left = .ok ((members, body), next)) (back : seam.back = ending :: next.rest) :
    ∃ members' body' stop, holderBody seam.other right = .ok ((members', body'), ⟨rest, stop⟩) ∧
      memberNames members' = memberNames members ++ names := by
  rw [holderBody_steps] at ran ⊢
  obtain ⟨openBrace, inner, opened, looped⟩ := bind_eq_ok ran
  obtain ⟨opening, begun, brace, opened⟩ := bind_eq_ok opened
  obtain ⟨_, _, skipped, opened⟩ := bind_eq_ok opened
  cases opened
  obtain ⟨shape, opens, behind⟩ := expect_some brace
  obtain ⟨front, token, closed, matched, -⟩ := iterate_closes (memberStep_encloses _) _ _ looped
  have suffix := (skipSelfType_advances.ensures _ _ _ _ skipped).suffix
  have inside : seam.back.length ≤ inner.rest.length := by
    rw [closed, back, List.length_append, List.length_cons, List.length_cons]
    omega
  obtain ⟨opening', rest', shape', alike, later⟩ := along.next shape (Nat.le_trans inside suffix.length_le)
  have along := later begun.lastStop opening'.stop
  obtain ⟨before, cut⟩ := along.behind suffix inside
  have both : front ++ token :: next.rest = before ++ ending :: next.rest := by rw [← closed, cut, back]
  obtain ⟨rfl, -⟩ := List.append_inj' both rfl
  obtain ⟨⟨tokens', stop⟩, skipped', along⟩ := skipSelfType_follows along skipped cut matched (by rw [back']; exact entries.halts same _)
  obtain ⟨members', body', stop', run, all⟩ := entries.extends same back back' ends closes opening.start opening'.start along rfl looped
  refine ⟨members', body', stop', ?_, all⟩
  obtain ⟨tokens, stop⟩ := right
  obtain rfl : tokens = opening' :: rest' := shape'
  rw [bind_ok (openBody_run ((kind_of_spell alike).trans opens) skipped')]
  exact run

/-- An object gets more members in its body. -/
theorem holder_extended (entries : Entries names words) {ending closing : Token} (same : tokens.map spell = words)
    (ends : ending.kind = .closer .brace) (closes : spell closing = closingWord) (back' : seam.back' = tokens ++ closing :: rest)
    (along : seam.Along left right) {holder : Holder} (ran : Parser.holder seam.source left = .ok (holder, next))
    (back : seam.back = ending :: next.rest) {body : Body} (bodied : holder.body = some body) :
    ∃ grown stop, Parser.holder seam.other right = .ok (grown, ⟨rest, stop⟩) ∧
      holderGist grown = (holder.name, (holderGist holder).2 ++ names) := by
  obtain ⟨keyword, begun, name, named, parents, extended, members, body, expected, found, extending, filled, rfl⟩ := holder_parts ran
  obtain rfl : body = some _ := bodied
  obtain ⟨opened, _, looked, filled⟩ := bind_eq_ok filled
  cases looked
  split at filled
  on_goal 2 => cases filled
  obtain ⟨⟨members, body⟩, _, read, filled⟩ := bind_eq_ok filled
  cases filled
  obtain ⟨opening, inner, token, shape, opens, -⟩ := holderBody_braces read
  have inside : seam.back.length ≤ (inner ++ token :: next.rest).length := by
    rw [back, List.length_append, List.length_cons, List.length_cons]
    omega
  have inside₁ : seam.back.length ≤ extended.rest.length := by
    rw [shape, List.length_cons]
    omega
  have suffix := (extendsClause_advances.ensures _ _ _ _ extending).suffix
  have inside₂ := Nat.le_trans inside₁ suffix.length_le
  have inside₃ := Nat.le_trans inside₂ ((expectName_advances _).ensures _ _ _ _ found).suffix.length_le
  obtain ⟨keyword', begun', expected', -, along⟩ := @expect_mirrors Any _ _ seam trivial _ _ along _ _ expected inside₃
  obtain ⟨name', named', found', alike, along⟩ := @expectName_mirrors Any _ seam trivial _ _ along _ _ found inside₂
  -- The parents are read up to the opening brace, which both texts have.
  obtain ⟨before, cut⟩ := along.behind suffix inside₁
  obtain ⟨parents', extended', extending', -, along⟩ := extendsClause_mirrors.recut along extending cut fun front' alike =>
    .inl (flush_at alike (cut.symm.trans shape) inside (by simp [opens, Looks])).toFlat
  obtain ⟨members', body', stop, read', all⟩ := holderBody_extended entries same ends closes back' along read back
  obtain ⟨opening', rest', shape', alike', -⟩ := @Seam.Along.next _ _ _ opening (inner ++ token :: next.rest) along shape inside
  have filled' : optionalHolderBody seam.other extended' = .ok ((members', some body'), ⟨rest, stop⟩) :=
    (bind_ok (isAt_here (by simp [shape', kind_of_spell alike', opens]))).trans ((bind_ok read').trans rfl)
  refine ⟨_, stop, holder_of_parts expected' found' extending' filled', ?_⟩
  exact Prod.ext (text_of_spell alike) all

end KindLift.GrownDecls
