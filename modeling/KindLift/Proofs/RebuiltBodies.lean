import KindLift.Proofs.CoveredSpans
import KindLift.Proofs.DeclPlacement
import KindLift.Proofs.ParserSimulation

/-! The loop over the statements of a trait's body, run again where the heads of the result
types are another word. A body without concrete members is made of imports and of methods
without a body, and each of them is read again as it was. -/
namespace KindLift.RebuiltBodies
open KindLift.Parser ParserLogic CursorAdvance ParserProgress ParserSimulation CursorPlacement TokenPlacement TokenCopies
open DeclPlacement StretchLogic StretchParsers BodyLayouts TokenReaders CoveredSpans

variable {source other : List Char} {effect : String} {left right middle next : Cursor}
  {ending ending' tokens' rest front : List Token} {seen later members : TraitMembers} {openBrace openBrace' : Nat} {closing : Token}
  {method : Method} {methods : List Method} {layout : Layout} {stretch : Stretch} {mods : Modifiers}

/-! ### Steps of the loop -/

/-- One step of the loop over the body of a trait. -/
def bodyStep (openBrace : Nat) (seen : TraitMembers) : Parser (Step TraitMembers (TraitMembers × Body)) := do
  match ← closeBody? openBrace with
  | some body => return .done (seen, body)
  | none => return .again (← traitStatement seen)

theorem traitBody_eq : traitBody = openBody >>= fun openBrace => iterate (bodyStep openBrace) ⟨[], false⟩ := rfl

instance bodyStep_strides : Strides (bodyStep openBrace seen) :=
  strides_in_body fun _ _ _ here => goes_of_shorter (ensures_bind.mpr (ensures_mono (traitStatement_shorter here seen)
    fun _ _ shorter => ensures_pure.mpr shorter))

instance bodyStep_advances : Advances (bodyStep openBrace seen) := by
  refine .then inferInstance fun found => ?_
  split <;> infer_instance

theorem closeBody?_goes {token : Token} (ate : eatAll .semi source left = .ok ((), middle)) (first : middle.rest.head? = some token)
    (kind : token.kind ≠ .closer .brace) : closeBody? openBrace source left = .ok (none, middle) := by
  rw [closeBody?, bind_ok ate, bind_ok (peek?_at first)]
  dsimp only
  rw [if_neg kind]
  rfl

theorem bodyStep_done {found : TraitMembers × Body} (stepped : bodyStep openBrace seen source left = .ok (.done found, next)) :
    ∃ body, closeBody? openBrace source left = .ok (some body, next) ∧ found = (seen, body) := by
  obtain ⟨closed, middle, ran, stepped⟩ := bind_eq_ok stepped
  cases closed with
  | some body =>
    cases stepped
    exact ⟨body, ran, rfl⟩
  | none =>
    obtain ⟨_, _, -, stepped⟩ := bind_eq_ok stepped
    cases stepped

theorem bodyStep_again (stepped : bodyStep openBrace seen source left = .ok (.again later, next)) :
    ∃ middle, closeBody? openBrace source left = .ok (none, middle) ∧ traitStatement seen source middle = .ok (later, next) := by
  obtain ⟨closed, middle, ran, stepped⟩ := bind_eq_ok stepped
  cases closed with
  | some body => cases stepped
  | none =>
    obtain ⟨_, _, stated, stepped⟩ := bind_eq_ok stepped
    cases stepped
    exact ⟨middle, ran, stated⟩

/-! ### Statements -/

/-- A method without a body is one wherever the same kind of token comes next. -/
theorem methodBody_again (ran : methodBody source left = .ok (true, next))
    (same : right.rest.head?.map Token.kind = left.rest.head?.map Token.kind) :
    next = left ∧ methodBody other right = .ok (true, right) := by
  obtain ⟨kind?, _, peeked, ran⟩ := bind_eq_ok ran
  cases peeked
  have peeked : peekKind? other right = .ok (left.rest.head?.map Token.kind, right) := by
    rw [← same]
    rfl
  rw [methodBody, bind_ok peeked]
  generalize left.rest.head?.map Token.kind = kind? at ran
  split at ran
  · obtain ⟨_, _, -, ran⟩ := bind_eq_ok ran
    obtain ⟨_, _, -, ran⟩ := bind_eq_ok ran
    cases ran
  · obtain ⟨_, _, -, ran⟩ := bind_eq_ok ran
    cases ran
  · cases ran
    exact ⟨rfl, rfl⟩

theorem signed_abstract {signature : Signature} (ran : signed signature source left = .ok ((method, true), next)) :
    ∃ result, methodResult source left = .ok (result, next) ∧ method = signature.method next.lastStop result ∧
      methodBody source next = .ok (true, next) := by
  obtain ⟨result, middle, typed, ran⟩ := bind_eq_ok ran
  obtain ⟨stop, _, stopped, ran⟩ := bind_eq_ok ran
  cases stopped
  obtain ⟨isAbstract, _, bodied, ran⟩ := bind_eq_ok ran
  cases ran
  obtain ⟨rfl, bodied⟩ := methodBody_again bodied rfl
  exact ⟨result, typed, rfl, bodied⟩

/-- A statement that is no concrete member, behind its modifiers. -/
inductive Plain (source : List Char) (seen later : TraitMembers) (left next : Cursor) : Prop where
  | imported {clauses : List Import} (kind : left.rest.head?.map Token.kind = some (.keyword .importKw))
      (ran : importClauses source left = .ok (clauses, next)) (same : later = seen)
  | abstract {signature : Signature} {middle : Cursor} {result : Option ResultType}
      (kind : left.rest.head?.map Token.kind = some (.keyword .defKw))
      (ran : BodyLayouts.signature source left = .ok (signature, middle))
      (typed : methodResult source middle = .ok (result, next)) (ends : methodBody source next = .ok (true, next))
      (added : later = { seen with methods := seen.methods ++ [signature.method next.lastStop result] })

theorem traitStatement_plain (ran : traitStatement seen source left = .ok (later, next)) (abstract : later.hasConcrete = false) :
    ∃ mods middle, modifiers source left = .ok (mods, middle) ∧ Plain source seen later middle next := by
  obtain ⟨mods, middle, modified, ran⟩ := bind_eq_ok ran
  refine ⟨mods, middle, modified, ?_⟩
  obtain ⟨kind?, _, peeked, ran⟩ := bind_eq_ok ran
  cases peeked
  generalize kind : middle.rest.head?.map Token.kind = kind? at ran
  split at ran
  · obtain ⟨⟨method, isAbstract⟩, _, read, ran⟩ := bind_eq_ok ran
    cases ran
    cases isAbstract with
    | false => cases abstract
    | true =>
      rw [method_eq] at read
      obtain ⟨signature, behind, signed, read⟩ := bind_eq_ok read
      obtain ⟨result, typed, rfl, ends⟩ := signed_abstract read
      exact .abstract kind signed typed ends rfl
  · obtain ⟨clauses, _, read, ran⟩ := bind_eq_ok ran
    cases ran
    exact .imported kind read rfl
  · obtain ⟨_, _, -, ran⟩ := bind_eq_ok ran
    cases ran
    cases abstract

/-- A concrete member stays one of the members. -/
theorem traitStatement_concrete (concrete : seen.hasConcrete = true) :
    Ensures source left (traitStatement seen) fun later _ => later.hasConcrete = true := by
  intro later next ran
  by_contra abstract
  rw [Bool.not_eq_true] at abstract
  obtain ⟨_, _, -, plain⟩ := traitStatement_plain ran abstract
  cases plain with
  | imported _ _ same => rw [same, concrete] at abstract; cases abstract
  | abstract _ _ _ _ added => rw [added, concrete] at abstract; cases abstract

theorem iterate_concrete (concrete : seen.hasConcrete = true) :
    Ensures source left (iterate (bodyStep openBrace) seen) fun found _ => found.1.hasConcrete = true := by
  refine ensures_iterate (fun state _ => state.hasConcrete = true) concrete fun state current concrete => ?_
  intro outcome next stepped
  cases outcome with
  | again later =>
    obtain ⟨_, -, stated⟩ := bodyStep_again stepped
    exact traitStatement_concrete concrete _ _ stated
  | done found =>
    obtain ⟨_, -, rfl⟩ := bodyStep_done stepped
    exact concrete

theorem iterate_openBrace : Ensures source left (iterate (bodyStep openBrace) seen) fun found _ => found.2.openBrace = openBrace := by
  refine ensures_iterate (fun _ _ => True) trivial fun state current _ => ?_
  intro outcome next stepped
  cases outcome with
  | again => trivial
  | done found =>
    obtain ⟨_, closed, rfl⟩ := bodyStep_done stepped
    obtain ⟨_, _, -, -, -, rfl⟩ := closeBody?_some closed
    rfl

/-! ### The loop in another text -/

/-- The methods are the same but for the heads of their results. -/
structure SameMethod (effect : String) (a b : Method) : Prop where
  name : b.name = a.name
  typeParams : List.Forall₂ SameTypeParam a.typeParams b.typeParams
  typeParamsText : b.typeParamsText = a.typeParamsText
  params : List.Forall₂ SameParams a.params b.params
  result : ∃ result result', a.result = some result ∧ b.result = some result' ∧ result'.head = effect ∧ result'.arg = result.arg

/-- In every text that is rebuilt from the layout, the loop reads the same methods. -/
def Again (source : List Char) (ending : List Token) (layout : Layout) (methods : List Method) : Prop :=
  ∀ (other : List Char) (effect : String) (ending' tokens' : List Token) (stop openBrace' : Nat) (seen' : TraitMembers),
    Closes ending ending' → Rebuilt source other effect ending' layout tokens' →
    ∃ methods' brace next', iterateFrom (bodyStep openBrace') seen' other ⟨tokens', stop⟩ =
        .ok ((⟨seen'.methods ++ methods', seen'.hasConcrete⟩, ⟨openBrace', brace.start⟩), next') ∧
      ending' = brace :: next'.rest ∧ List.Forall₂ (SameMethod effect) methods methods'

/-- At the end of the body the loop is done. -/
theorem again_last {body : Body} (closed : closeBody? openBrace source left = .ok (some body, next)) :
    ∃ front closing, left.rest = front ++ closing :: next.rest ∧ closing.kind = .closer .brace ∧ closing.start = body.closeBrace ∧
      Again source (closing :: next.rest) (.last front) [] := by
  obtain ⟨middle, closing, ate, shape, kind, rfl⟩ := closeBody?_some closed
  obtain ⟨front, whole⟩ := ((eatAll_advances .semi).ensures _ _ _ _ ate).suffix
  rw [shape] at whole
  refine ⟨front, closing, whole.symm, kind, rfl, ?_⟩
  intro other effect ending' tokens' stop openBrace' seen' closes rebuilt
  obtain ⟨stretch, rfl, rfl, back, aligned, remains⟩ :=
    rebuilt.stretch (show Layout.Fits (closing :: next.rest) (.last front) from trivial) closes
  have along := aligned left ⟨tokens', stop⟩ whole.symm rfl
  obtain ⟨_, right, ate', -, along⟩ := eatAll_mirrors .semi left _ along _ _ ate (by rw [back, shape]; exact Nat.le_refl _)
  have ends := (remains middle right (.last []) front (by rw [Layout.prepend, List.append_nil]) shape along).nil
  obtain ⟨_, _, brace, after, same, rfl, -, kind', -⟩ := closes
  obtain ⟨tokens, stop'⟩ := right
  cases ends
  refine ⟨[], brace, ⟨after, brace.stop⟩, ?_, rfl, .nil⟩
  rw [List.append_nil]
  refine iterateFrom_done ?_
  rw [bodyStep, bind_ok (closeBody?_closes ate' kind')]
  rfl

/-- What comes in front of a statement is read again. -/
theorem lead_mirrors {behind : Cursor} (closed : closeBody? openBrace stretch.source left = .ok (none, middle))
    (modified : modifiers stretch.source middle = .ok (mods, behind)) (along : stretch.Along left right)
    (inside : stretch.back.length ≤ behind.rest.length) :
    ∃ middle' behind', closeBody? openBrace' stretch.other right = .ok (none, middle') ∧
      modifiers stretch.other middle' = .ok (mods, behind') ∧ stretch.Along behind behind' := by
  obtain ⟨ate, token, first, kind⟩ := closeBody?_none closed
  have longer := (modifiers_advances.ensures _ _ _ _ modified).suffix.length_le
  obtain ⟨_, middle', ate', -, along⟩ := eatAll_mirrors .semi left right along _ _ ate (Nat.le_trans inside longer)
  obtain ⟨_, behind', modified', rfl, along'⟩ := modifiers_mirrors _ _ along _ _ modified inside
  obtain ⟨token₁, token', first₁, first', same, -⟩ := along.peek
  rw [first] at first₁
  cases first₁
  exact ⟨middle', behind', closeBody?_goes ate' first' (same ▸ kind), modified', along'⟩

theorem bodyStep_states (closed : closeBody? openBrace source left = .ok (none, middle))
    (stated : traitStatement seen source middle = .ok (later, next)) :
    bodyStep openBrace seen source left = .ok (.again later, next) := by
  rw [bodyStep, bind_ok closed]
  dsimp only
  rw [bind_ok stated]
  rfl

/-- After a step that reads a statement, the loop goes on. -/
theorem loop_goes (closed : closeBody? openBrace source left = .ok (none, middle))
    (stated : traitStatement seen source middle = .ok (later, next)) :
    iterateFrom (bodyStep openBrace) seen source left = iterateFrom (bodyStep openBrace) later source next :=
  iterateFrom_again (bodyStep_states closed stated) (bodyStep_strides.ensures _ _ _ _ (bodyStep_states closed stated))

theorem again_import {behind : Cursor} {clauses : List Import} (later : Again source ending layout methods)
    (fits : layout.Fits ending) (shape : left.rest = front ++ next.rest) (rest : next.rest = layout.tokens ++ ending)
    (closed : closeBody? openBrace source left = .ok (none, middle)) (modified : modifiers source middle = .ok (mods, behind))
    (kind : behind.rest.head?.map Token.kind = some (.keyword .importKw))
    (ran : importClauses source behind = .ok (clauses, next)) : Again source ending (layout.prepend front) methods := by
  intro other effect ending' tokens' stop openBrace' seen' closes rebuilt
  obtain ⟨stretch, rfl, rfl, back, aligned, remains⟩ := rebuilt.stretch ((Layout.fits_prepend _ _).mpr fits) closes
  have inside : stretch.back.length ≤ next.rest.length := by
    rw [back, Layout.back_prepend, rest]
    exact (layout.back_suffix ending).length_le
  have longer := (importClauses_advances.ensures _ _ _ _ ran).suffix.length_le
  have along := aligned left ⟨tokens', stop⟩ (by rw [shape, rest, Layout.tokens_prepend, List.append_assoc]) rfl
  obtain ⟨middle', behind', closed', modified', along⟩ :=
    lead_mirrors closed modified along (Nat.le_trans inside longer)
  obtain ⟨_, right, ran', -, along'⟩ := importClauses_mirrors _ _ along _ _ ran inside
  have stated : traitStatement seen' stretch.other middle' = .ok (seen', right) := by
    have peeked : peekKind? stretch.other behind' = .ok (some (.keyword .importKw), behind') := by
      rw [← kind, ← along.kind]
      rfl
    rw [traitStatement, bind_ok modified', bind_ok peeked]
    dsimp only
    rw [bind_ok ran']
    rfl
  obtain ⟨methods', brace, next', run, found⟩ :=
    later _ _ _ _ right.lastStop openBrace' seen' closes (remains next right layout front rfl rest along')
  exact ⟨methods', brace, next', (loop_goes closed' stated).trans run, found⟩

/-- A method without a body is read again with the word in the place of the head. -/
theorem again_abstract_method {behind signed pathed argued : Cursor} {signature : Signature} {colon : Token} {head tail : List Token}
    {result : ResultType} {arg : String} (later : Again source ending layout methods) (fits : layout.Fits ending)
    (rest : next.rest = layout.tokens ++ ending) (shape : left.rest = front ++ signed.rest)
    (closed : closeBody? openBrace source left = .ok (none, middle)) (modified : modifiers source middle = .ok (mods, behind))
    (kind : behind.rest.head?.map Token.kind = some (.keyword .defKw))
    (read : BodyLayouts.signature source behind = .ok (signature, signed)) (typed : signed.rest = colon :: (head ++ pathed.rest))
    (isColon : colon.kind = .colon) (nonempty : head ≠ []) (bracketed : resultArg source pathed = .ok (some arg, argued))
    (scanned : scanUntil endsResultType source argued = .ok (none, next)) (tailed : pathed.rest = tail ++ next.rest)
    (applied : result.arg = some arg) (ends : methodBody source next = .ok (true, next)) :
    (Layout.method front colon head (layout.prepend tail)).Fits ending ∧
      Again source ending (.method front colon head (layout.prepend tail)) (signature.method next.lastStop (some result) :: methods) := by
  have tokens : pathed.rest = (layout.prepend tail).tokens ++ ending := by
    rw [Layout.tokens_prepend, tailed, rest, List.append_assoc]
  have fits' : (Layout.method front colon head (layout.prepend tail)).Fits ending := by
    obtain ⟨bracket, others, opens, square⟩ := resultArg_some bracketed
    exact ⟨isColon, nonempty, ⟨bracket, others, tokens.symm.trans opens, square⟩, (Layout.fits_prepend _ _).mpr fits⟩
  refine ⟨fits', ?_⟩
  intro other effect ending' tokens' stop openBrace' seen' closes rebuilt
  obtain ⟨stretch, rfl, rfl, back, aligned, remains⟩ := rebuilt.stretch fits' closes
  have at_end : stretch.back = signed.rest := by rw [back, typed, tokens]; rfl
  have along := aligned left ⟨tokens', stop⟩ (by rw [shape, ← at_end, back]; simp [Layout.tokens, Layout.back]) rfl
  have inside : stretch.back.length ≤ signed.rest.length := Nat.le_of_eq (congrArg List.length at_end)
  have longer := (signature_advances.ensures _ _ _ _ read).suffix.length_le
  obtain ⟨middle', behind', closed', modified', along⟩ :=
    lead_mirrors closed modified along (Nat.le_trans inside longer)
  obtain ⟨signature', signed', read', same, along'⟩ := signature_mirrors _ _ along _ _ read inside
  -- The stretch is over, and the next one begins behind the word.
  obtain ⟨colon', word, others, shape', kind', isWord, text, rebuilt'⟩ := (remains signed signed' (.method [] colon head _) front
    (by rw [Layout.prepend, List.append_nil]) (by rw [typed, tokens]; simp [Layout.tokens]) along').head
  obtain ⟨stretch', source', other', back', aligned', remains'⟩ := rebuilt'.stretch ((Layout.fits_prepend _ _).mpr fits) closes
  have inside' : stretch'.back.length ≤ next.rest.length := by
    rw [back', Layout.back_prepend, rest]
    exact (layout.back_suffix ending).length_le
  obtain ⟨result', right, typed', headed, applied', along'⟩ := methodResult_rebuilt (source'.symm ▸ bracketed)
    (source'.symm ▸ scanned) inside' shape' (kind'.trans isColon) isWord (aligned' pathed ⟨others, word.stop⟩ tokens rfl)
  rw [other'] at typed'
  have stated : traitStatement seen' stretch.other middle' =
      .ok ({ seen' with methods := seen'.methods ++ [signature'.method right.lastStop (some result')] }, right) := by
    have peeked : peekKind? stretch.other behind' = .ok (some (.keyword .defKw), behind') := by
      rw [← kind, ← along.kind]
      rfl
    have stopped : Parser.lastStop stretch.other right = .ok (right.lastStop, right) := rfl
    have ran : method stretch.other behind' = .ok ((signature'.method right.lastStop (some result'), true), right) := by
      rw [method_eq, bind_ok read', BodyLayouts.signed, bind_ok typed', bind_ok stopped, bind_ok (methodBody_again ends along'.kind).2]
      rfl
    rw [traitStatement, bind_ok modified', bind_ok peeked]
    dsimp only
    rw [bind_ok ran]
    rfl
  obtain ⟨methods', brace, next', run, shape, related⟩ :=
    later _ _ _ _ right.lastStop openBrace' _ closes (remains' next right layout tail rfl rest along')
  refine ⟨signature'.method right.lastStop (some result') :: methods', brace, next', ?_, shape, .cons ?_ related⟩
  · rw [List.append_cons]
    exact (loop_goes closed' stated).trans run
  · exact ⟨same.name, same.typeParams, same.typeParamsText, same.params, result, result', rfl, rfl, headed.trans text,
      applied'.trans applied.symm⟩

/-! ### Layouts of bodies -/

/-- The tokens of a head and the span that they cover. -/
abbrev HeadAt : List Token → Span → Prop := Covers (· = .ident)

/-- The tokens up to the end of a body, and the methods among them. -/
structure LaidOut (source : List Char) (left next : Cursor) (body : Body) (layout : Layout) (closing : Token)
    (methods : List Method) : Prop where
  shape : left.rest = layout.tokens ++ closing :: next.rest
  kind : closing.kind = .closer .brace
  start : closing.start = body.closeBrace
  fits : layout.Fits (closing :: next.rest)
  heads : List.Forall₂ HeadAt layout.heads (headSpans methods)
  again : Again source (closing :: next.rest) layout methods

/-- Every method returns something applied to an argument. -/
def Applied (methods : List Method) : Prop := ∀ method ∈ methods, ∃ result, method.result = some result ∧ result.arg.isSome = true

theorem abstract_before {body : Body} (ran : iterateFrom (bodyStep openBrace) seen source left = .ok ((members, body), next))
    (abstract : members.hasConcrete = false) : seen.hasConcrete = false := by
  by_contra concrete
  rw [Bool.not_eq_false] at concrete
  have kept : members.hasConcrete = true := iterate_concrete concrete _ _ ran
  rw [abstract] at kept
  cases kept

theorem headSpans_cons {result : ResultType} (typed : method.result = some result)
    (width : result.headSpan.start < result.headSpan.stop) :
    headSpans (method :: methods) = result.headSpan :: headSpans methods := by
  simp [headSpans, typed, width]

/-- The loop over a body without concrete members has a layout in which it can be read again. -/
theorem bodyLoop_laidOut {body : Body} (sound : Sound source left)
    (ran : iterateFrom (bodyStep openBrace) seen source left = .ok ((members, body), next))
    (abstract : members.hasConcrete = false) (applied : Applied members.methods) :
    ∃ layout closing methods, LaidOut source left next body layout closing methods ∧ members.methods = seen.methods ++ methods := by
  fun_induction iterateFrom (bodyStep openBrace) seen source left with
  | case1 => cases ran
  | case2 seen left value after stepped =>
    cases ran
    obtain ⟨_, closed, same⟩ := bodyStep_done stepped
    cases same
    obtain ⟨front, closing, shape, kind, start, again⟩ := again_last closed
    exact ⟨.last front, closing, [], ⟨shape, kind, start, trivial, .nil, again⟩, (List.append_nil _).symm⟩
  | case3 seen left later after stepped shorter ih =>
    obtain ⟨layout, closing, methods, laid, added⟩ := ih (forward_of bodyStep_advances _ sound _ _ stepped).sound ran
    obtain ⟨middle, closed, stated⟩ := bodyStep_again stepped
    obtain ⟨mods, behind, modified, plain⟩ := traitStatement_plain stated (abstract_before ran abstract)
    have leads := (Advances.then inferInstance fun _ => modifiers_advances : Advances (closeBody? openBrace >>= fun _ => modifiers))
    have reached : (closeBody? openBrace >>= fun _ => modifiers) source left = .ok (mods, behind) := (bind_ok closed).trans modified
    cases plain with
    | imported kind ran same =>
      obtain ⟨front, shape⟩ := (bodyStep_advances.ensures _ _ _ _ stepped).suffix
      have tokens : left.rest = (layout.prepend front).tokens ++ closing :: next.rest := by
        rw [Layout.tokens_prepend, List.append_assoc, ← laid.shape, shape]
      refine ⟨layout.prepend front, closing, methods, ⟨tokens, laid.kind, laid.start, (Layout.fits_prepend _ _).mpr laid.fits, ?_, ?_⟩,
        by rw [added, same]⟩
      · rw [Layout.heads_prepend]
        exact laid.heads
      · exact again_import laid.again laid.fits shape.symm laid.shape closed modified kind ran
    | @abstract signature signed found kind read typed ends same =>
      rw [same] at added
      obtain ⟨result, rfl, isApplied⟩ : ∃ result, found = some result ∧ result.arg.isSome = true :=
        applied (signature.method after.lastStop found) (by rw [added]; simp)
      obtain ⟨arg, applies⟩ := Option.isSome_iff_exists.mp isApplied
      obtain ⟨colon, types, name, pathed, argued, shape, isColon, isIdent, walked, bracketed, scanned⟩ :=
        methodResult_named typed isApplied
      have soundBehind := (forward_of leads _ sound _ _ reached).sound
      have soundSigned := (forward_of signature_advances _ soundBehind _ _ read).sound
      have soundTyped := (took_middle soundSigned (show _ = [] ++ colon :: types from shape)).sound
      have first : ∀ token ∈ types.head?, token.isName = true → token.kind = .ident := by
        intro token found _
        rw [Option.mem_def] at found
        rw [found] at isIdent
        exact Option.some.inj isIdent
      obtain ⟨head, headed, spanned⟩ : ∃ head, _ ∧ HeadAt head result.headSpan :=
        (@path_reads _ _ (· = .ident) _ soundTyped first rfl _ _ walked).tokens
      replace headed : types = head ++ pathed.rest := headed
      obtain ⟨front, fronted⟩ := ((leads.then fun _ => signature_advances).ensures source left _ _
        ((bind_ok reached).trans read)).suffix
      have later : Advances (resultArg >>= fun _ => scanUntil endsResultType) := inferInstance
      obtain ⟨tail, tailed⟩ := (later.ensures source pathed _ _ ((bind_ok bracketed).trans scanned)).suffix
      have nonempty : head ≠ [] := by
        rintro rfl
        obtain ⟨_, first, -⟩ := spanned.first
        cases first
      rw [applies] at bracketed
      obtain ⟨fits, again⟩ := again_abstract_method laid.again laid.fits laid.shape fronted.symm closed modified kind read
        (shape.trans (congrArg (colon :: ·) headed)) isColon nonempty bracketed scanned tailed.symm applies ends
      refine ⟨.method front colon head (layout.prepend tail), closing, _, ⟨?_, laid.kind, laid.start, fits, ?_, again⟩, ?_⟩
      · rw [← fronted, shape, headed, ← tailed, laid.shape]
        simp [Layout.tokens]
      · rw [headSpans_cons rfl spanned.width, Layout.heads, Layout.heads_prepend]
        exact .cons spanned laid.heads
      · rw [added]
        simp
  | case4 => cases ran

/-! ### Self types -/

theorem selfTypeArrow?_along {arrow : Token} (along : stretch.Along left right)
    (found : selfTypeArrow? left.rest = some (arrow, rest)) (inside : stretch.back.length ≤ rest.length) :
    ∃ arrow' rest', selfTypeArrow? right.rest = some (arrow', rest') ∧ ∀ stop stop', stretch.Along ⟨rest, stop⟩ ⟨rest', stop'⟩ := by
  induction length : left.rest.length using Nat.strongRecOn generalizing left right with
  | _ count ih =>
    rcases along_cases along with ⟨token, later, token', later', shape, shape', copy, goes⟩ | ⟨ends, -⟩
    · have group := fun closing after => @splitGroup?_along stretch left right closing after along
      have shorter : later.length < count := by rw [← length, shape]; exact Nat.lt_succ_self _
      rw [shape] at found group
      rw [shape'] at group ⊢
      rw [selfTypeArrow?] at found ⊢
      rw [copy.kind]
      split at found
      · cases found
        exact ⟨token', later', rfl, goes⟩
      · cases found
      · cases found
      · cases found
      · rename_i word kind
        split at found
        · cases found
        · rename_i starts
          rw [if_neg starts]
          exact ih _ shorter (goes 0 0) found rfl
      · split at found
        · rename_i closing after split
          obtain ⟨front, tokens⟩ := selfTypeArrow?_shape found
          have longer : stretch.back.length ≤ after.length := by
            rw [tokens, List.length_append, List.length_cons]
            omega
          obtain ⟨closing', after', split', -, aligned⟩ := group closing after split longer
          split
          · rename_i same
            rw [split'] at same
            cases same
            exact ih _ (by rw [← length, shape]; exact Token.splitGroup?_length_lt split) (aligned 0 0) found rfl
          · rename_i same
            rw [split'] at same
            cases same
        · cases found
      · exact ih _ shorter (goes 0 0) found rfl
    · obtain ⟨front, tokens⟩ := selfTypeArrow?_shape found
      rw [← ends, tokens, List.length_append, List.length_cons] at inside
      omega

theorem selfType?_behind {first arrow : Token} {tokens : List Token} (found : selfType? (first :: tokens) = some (arrow, rest)) :
    ∃ front, tokens = front ++ arrow :: rest := by
  cases tokens with
  | nil => cases found
  | cons second later =>
    rw [selfType?] at found
    split at found
    · split at found
      · cases found
        exact ⟨[], rfl⟩
      · obtain ⟨front, rfl⟩ := selfTypeArrow?_shape found
        exact ⟨second :: front, rfl⟩
      · cases found
    · cases found

/-- A self type that ends inside of the stretch is found in both texts. -/
theorem selfType?_along {arrow : Token} (along : stretch.Along left right)
    (found : selfType? left.rest = some (arrow, rest)) (inside : stretch.back.length ≤ rest.length) :
    ∃ arrow' rest', selfType? right.rest = some (arrow', rest') ∧ ∀ stop stop', stretch.Along ⟨rest, stop⟩ ⟨rest', stop'⟩ := by
  rcases along_cases along with ⟨first, more, first', more', shape, shape', copy, goes⟩ | ⟨ends, -⟩
  · rw [shape] at found
    rw [shape']
    obtain ⟨front, tokens⟩ := selfType?_behind found
    rcases along_cases (goes 0 0) with ⟨second, later, second', later', rfl, rfl, copy', goes'⟩ | ⟨ends, -⟩
    · rw [selfType?] at found ⊢
      rw [copy.kind, copy'.kind]
      split at found
      · rename_i named
        rw [if_pos named]
        split at found
        · cases found
          exact ⟨second', later', rfl, goes'⟩
        · exact selfTypeArrow?_along (goes' 0 0) found inside
        · cases found
      · cases found
    · replace ends : more = stretch.back := ends
      rw [← ends, tokens, List.length_append, List.length_cons] at inside
      omega
  · obtain ⟨front, tokens⟩ := selfType?_shape found
    rw [← ends, tokens, List.length_append, List.length_cons] at inside
    omega

/-- What a self type that is no more than a name begins with. -/
def SelfNamed (tokens : List Token) : Prop :=
  (tokens.head?.map Token.kind = some .ident ∨ tokens.head?.map Token.kind = some .underscore) ∧
    tokens[1]?.map Token.kind = some .colon

/-- There is no self type where the first two tokens are of the same kinds. -/
theorem selfType?_absent (absent : selfType? left.rest = none) (unnamed : ¬ SelfNamed left.rest) (along : stretch.Along left right) :
    selfType? right.rest = none := by
  cases found : selfType? right.rest with
  | none => rfl
  | some pair =>
    obtain ⟨first', second', later', shape', named, follows⟩ : ∃ first second later, right.rest = first :: second :: later ∧
        (first.kind = .ident ∨ first.kind = .underscore) ∧ (second.kind = .arrow ∨ second.kind = .colon) := by
      unfold selfType? at found
      split at found
      · rename_i first second later shape
        split at found
        · rename_i named
          refine ⟨first, second, later, shape, by simpa using named, ?_⟩
          split at found
          · exact .inl ‹_›
          · exact .inr ‹_›
          · cases found
        · cases found
      · cases found
    have kind := along.kind
    rw [shape', List.head?_cons, Option.map_some] at kind
    have goes : ∀ kind ∈ left.rest.head?.map Token.kind, ¬ Halting kind := by
      rw [← kind]
      rintro _ ⟨⟩
      rcases named with named | named <;> simp [named, Halting]
    have second := along.second goes
    rw [shape', List.getElem?_cons_succ, List.getElem?_cons_zero, Option.map_some] at second
    rcases follows with arrow | colon
    · -- The arrow would have been found in the first text as well.
      exfalso
      generalize left.rest = tokens at kind second absent
      cases tokens with
      | nil => cases kind
      | cons first tokens =>
        obtain ⟨middle, later, rfl⟩ : ∃ middle later, tokens = middle :: later := by
          cases tokens with
          | nil => cases second
          | cons middle later => exact ⟨middle, later, rfl⟩
        replace kind := Option.some.inj kind
        replace second : second'.kind = middle.kind := Option.some.inj second
        rw [kind] at named
        rw [second] at arrow
        rw [selfType?, if_pos (by simpa using named), arrow] at absent
        cases absent
    · refine absurd ⟨?_, ?_⟩ unnamed
      · rw [← kind]
        exact named.imp (congrArg some) (congrArg some)
      · rw [← second, colon]

/-- A name with a colon behind it is no modifier. -/
theorem modifiers_stays (named : SelfNamed left.rest) : modifiers source left = .ok (⟨false, false⟩, left) := by
  obtain ⟨tokens, stop⟩ := left
  obtain ⟨kind, second⟩ := named
  obtain ⟨first, rest, rfl⟩ : ∃ first rest, tokens = first :: rest := by
    cases tokens with
    | nil => cases second
    | cons first rest => exact ⟨first, rest, rfl⟩
  have after : secondKind? source ⟨first :: rest, stop⟩ = .ok (some .colon, ⟨first :: rest, stop⟩) := by
    rw [← second]
    rfl
  refine iterateFrom_done ?_
  rw [modifierStep, bind_ok (peek?_run first rest stop)]
  dsimp only
  rcases kind with kind | kind <;> rw [Option.some.inj kind] <;> dsimp only
  · rw [bind_ok after]
    rfl
  · rfl

/-- A body that begins with a name and a colon has a concrete member. -/
theorem selfNamed_concrete {body : Body} (named : SelfNamed left.rest)
    (ran : iterateFrom (bodyStep openBrace) seen source left = .ok ((members, body), next)) : members.hasConcrete = true := by
  have first : ∀ kind ∈ left.rest.head?.map Token.kind, kind = .ident ∨ kind = .underscore := by
    rcases named.1 with kind | kind <;> simp [kind]
  have stays : eatAll .semi source left = .ok ((), left) := eatAll_stays fun semi => by simpa using first _ semi
  by_contra abstract
  rw [Bool.not_eq_true] at abstract
  rw [iterateFrom] at ran
  split at ran
  · cases ran
  · rename_i found next' stepped
    cases ran
    obtain ⟨_, closed, -⟩ := bodyStep_done stepped
    obtain ⟨_, closing, ate, shape, kind, -⟩ := closeBody?_some closed
    cases stays.symm.trans ate
    rw [shape] at first
    simpa [kind] using first _ rfl
  · rename_i later next' stepped
    split at ran
    · obtain ⟨middle, closed, stated⟩ := bodyStep_again stepped
      cases stays.symm.trans (closeBody?_none closed).1
      obtain ⟨_, _, modified, plain⟩ := traitStatement_plain stated (abstract_before ran abstract)
      cases (modifiers_stays named).symm.trans modified
      cases plain with
      | imported kind => simpa using first _ kind
      | abstract kind => simpa using first _ kind
    · cases ran

/-! ### Bodies -/

/-- What the body begins with before its first statement, in another text. -/
theorem skipSelfType_again {inner begun : Cursor} {body : Body}
    (skipped : skipSelfType source inner = .ok ((), begun)) (laid : LaidOut source begun next body layout closing methods)
    (unnamed : begun = inner → ¬ SelfNamed inner.rest) :
    ∃ front, inner.rest = (layout.prepend front).tokens ++ closing :: next.rest ∧
      ∀ (other : List Char) (effect : String) (ending' tokens' : List Token) (stop : Nat), Closes (closing :: next.rest) ending' →
        Rebuilt source other effect ending' (layout.prepend front) tokens' →
        ∃ begun', skipSelfType other ⟨tokens', stop⟩ = .ok ((), begun') ∧ Rebuilt source other effect ending' layout begun'.rest := by
  obtain ⟨front, shape⟩ := (skipSelfType_advances.ensures _ _ _ _ skipped).suffix
  have tokens : inner.rest = (layout.prepend front).tokens ++ closing :: next.rest := by
    rw [Layout.tokens_prepend, List.append_assoc, ← laid.shape, shape]
  refine ⟨front, tokens, ?_⟩
  intro other effect ending' tokens' stop closes rebuilt
  obtain ⟨stretch, rfl, rfl, back, aligned, remains⟩ := rebuilt.stretch ((Layout.fits_prepend _ _).mpr laid.fits) closes
  have along := aligned inner ⟨tokens', stop⟩ tokens rfl
  have inside : stretch.back.length ≤ begun.rest.length := by
    rw [back, Layout.back_prepend, laid.shape]
    exact (layout.back_suffix _).length_le
  rcases skipSelfType_cases skipped with ⟨arrow, found⟩ | ⟨absent, same⟩
  · obtain ⟨arrow', rest', found', goes⟩ := selfType?_along along found inside
    exact ⟨_, skipSelfType_run found', remains begun _ layout front rfl laid.shape (goes begun.lastStop arrow'.stop)⟩
  · refine ⟨_, skipSelfType_stays (selfType?_absent absent (unnamed same) along), ?_⟩
    exact remains begun ⟨tokens', stop⟩ layout front rfl laid.shape (same ▸ along)

/-- A body from its opening brace to the one that closes it. -/
structure Enclosed (left next : Cursor) (body : Body) (brace closing : Token) (layout : Layout) (methods : List Method) : Prop where
  shape : left.rest = brace :: (layout.tokens ++ closing :: next.rest)
  kind : brace.kind = .opener .brace
  start : brace.start = body.openBrace
  closer : closing.kind = .closer .brace
  stop : closing.start = body.closeBrace
  fits : layout.Fits (closing :: next.rest)
  heads : List.Forall₂ HeadAt layout.heads (headSpans methods)

theorem Enclosed.spelled {body : Body} {brace : Token} (enclosed : Enclosed left next body brace closing layout methods)
    (sound : Sound source left) : brace.lexeme = ['\x7b'] ∧ closing.lexeme = ['\x7d'] := by
  have opens := (took_middle sound (show left.rest = [] ++ brace :: _ from enclosed.shape)).stands.spelled
  have closes := (took_middle sound (show left.rest = (brace :: layout.tokens) ++ closing :: _ from enclosed.shape)).stands.spelled
  rw [enclosed.kind] at opens
  rw [enclosed.closer] at closes
  exact ⟨opens, closes⟩

/-- A body without concrete members is read again where the heads of the result types are
another word. -/
theorem traitBody_laid {body : Body} (sound : Sound source left) (ran : traitBody source left = .ok ((members, body), next))
    (abstract : members.hasConcrete = false) (applied : Applied members.methods) :
    ∃ brace layout closing, Enclosed left next body brace closing layout members.methods ∧
      ∀ (other : List Char) (effect : String) (ending' tokens' : List Token) (brace' : Token) (stop : Nat),
        brace'.kind = .opener .brace → Closes (closing :: next.rest) ending' →
        Rebuilt source other effect ending' layout tokens' →
        ∃ methods' closing' next', traitBody other ⟨brace' :: tokens', stop⟩ =
            .ok ((⟨methods', false⟩, ⟨brace'.start, closing'.start⟩), next') ∧
          ending' = closing' :: next'.rest ∧ List.Forall₂ (SameMethod effect) members.methods methods' := by
  rw [traitBody_eq] at ran
  obtain ⟨openBrace, begun, opened, ran⟩ := bind_eq_ok ran
  obtain ⟨layout, closing, methods, laid, added⟩ := bodyLoop_laidOut (forward_of openBody_advances _ sound _ _ opened).sound ran abstract applied
  obtain ⟨brace, inner, expected, opened⟩ := bind_eq_ok opened
  obtain ⟨_, _, skipped, opened⟩ := bind_eq_ok opened
  cases opened
  obtain ⟨shape, kind, -⟩ := expect_some expected
  have unnamed : begun = inner → ¬ SelfNamed inner.rest := by
    rintro rfl named
    rw [selfNamed_concrete named ran] at abstract
    cases abstract
  obtain ⟨front, tokens, again⟩ := skipSelfType_again skipped laid unnamed
  refine ⟨brace, layout.prepend front, closing, ⟨by rw [shape, tokens], kind, (iterate_openBrace _ _ ran).symm, laid.kind, laid.start,
    (Layout.fits_prepend _ _).mpr laid.fits, ?_⟩, ?_⟩
  · rw [Layout.heads_prepend, added]
    exact laid.heads
  · intro other effect ending' tokens' brace' stop kind' closes rebuilt
    obtain ⟨begun', skipped', rebuilt'⟩ := again other effect ending' tokens' brace'.stop closes rebuilt
    obtain ⟨methods', closing', next', run, ends, related⟩ :=
      laid.again other effect ending' _ begun'.lastStop brace'.start ⟨[], false⟩ closes rebuilt'
    refine ⟨methods', closing', next', ?_, ends, added ▸ related⟩
    rw [traitBody_eq, bind_ok (openBody_run kind' skipped')]
    exact run

end KindLift.RebuiltBodies
