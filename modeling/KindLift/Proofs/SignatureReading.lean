import KindLift.Proofs.NestedTraits
import KindLift.Proofs.ParameterNames
import KindLift.Proofs.SignatureTexts
import KindLift.Proofs.WrittenTemplates

/-! Generated signatures, read again. -/
namespace KindLift.SignatureReading
open Token Text TextBoundary TokenPlacement TriviaGaps ScanSteps ScanRuns TokenEdges LegibleTexts SignatureTexts TypeTokens CoveredSpans
open WrittenTokens (Lexeme Piece Laid width)
open KindLift.Parser ParserLogic CursorAdvance CursorPlacement ParserProgress ParserSimulation TokenReaders BodyLayouts RebuiltBodies
open Template (RenderedParam RenderedList)
open WrittenTraits (endsParam paramsStep paramListsStep)

variable {source chars next : List Char} {e : Char} {tokens rest : List Token} {token : Token} {param : RenderedParam} {params : List RenderedParam}
  {list : RenderedList} {lists : List RenderedList} {span span' : Span} {ends ends' : TokenKind → Prop} {follows : List Char → Prop}

/-! ### Parameters -/

/-- A parameter as it is declared. -/
def declared (param : RenderedParam) : List Char := param.name.toList ++ (':' :: (' ' :: param.type.toList))

/-- The parameter with its name and type. -/
def toParam (param : RenderedParam) : Param := ⟨param.name, param.type⟩

/-- The name and the type of the parameter can be read again. -/
structure Kept (param : RenderedParam) : Prop where
  name : rereads [.ident] param.name ':' = true
  type : TypeText false param.type.toList

/-- What follows a parameter. -/
def Edged (next : List Char) : Prop := ∃ e z, next = e :: z ∧ Edge e

theorem edge_opens (edge : Edge e) (chars : List Char) :
    Opens (fun token => token.kind = .comma ∨ ∃ bracket, token.kind = .closer bracket) (e :: chars) := by
  rcases edge with rfl | rfl | rfl
  · exact (single_mark fun _ => rfl).opens trivial fun _ kind _ => .inl kind
  · exact (single_mark fun _ => rfl).opens trivial fun _ kind _ => .inr ⟨_, kind⟩
  · exact (single_mark fun _ => rfl).opens trivial fun _ kind _ => .inr ⟨_, kind⟩

theorem covers_unique (covers : Covers ends tokens span) (covers' : Covers ends' tokens span') : span = span' := by
  obtain ⟨first, leads, start⟩ := covers.first
  obtain ⟨first', leads', start'⟩ := covers'.first
  obtain ⟨last, found, stop, -⟩ := covers.last
  obtain ⟨last', found', stop', -⟩ := covers'.last
  cases leads.symm.trans leads'
  cases found.symm.trans found'
  obtain ⟨low, high⟩ := span
  obtain ⟨low', high'⟩ := span'
  rw [Span.mk.injEq]
  exact ⟨start.symm.trans start', stop.symm.trans stop'⟩

/-- What is read over has the span that its tokens cover. -/
theorem scanUntil_run {stops : TokenKind → Bool} {stop : Nat} (sound : Sound source ⟨tokens ++ rest, stop⟩) (skimmed : Items stops tokens)
    (stopped : Ends stops rest) (covers : Covers ends tokens span) :
    ∃ stop', scanUntil stops source ⟨tokens ++ rest, stop⟩ = .ok (some span, ⟨rest, stop'⟩) := by
  obtain ⟨found, stop', ran, isSome⟩ := @Items.run source _ _ _ skimmed stopped none stop
  have filled : tokens ≠ [] := by
    rintro rfl
    obtain ⟨_, none, -⟩ := covers.first
    cases none
  obtain ⟨span', rfl⟩ := Option.isSome_iff_exists.mp (isSome (.inl filled))
  obtain ⟨_, same, reads⟩ := (scanUntil_skims sound _ _ ran).1.covers.resolve_left (by simp)
  cases same
  obtain ⟨tokens', shape, covers'⟩ := reads.tokens
  obtain rfl : tokens = tokens' := List.append_cancel_right shape
  exact ⟨stop', by rw [covers_unique covers covers']; exact ran⟩

/-- What comes behind the name and the colon of a parameter. -/
theorem param_run {word colon : Token} {middle : Cursor} {stop : Nat} (named : word.kind = .ident) (typed : colon.kind = .colon)
    (scanned : scanUntil endsParam source ⟨tokens, colon.stop⟩ = .ok (some span, middle))
    (last : middle.rest.head?.map Token.kind ≠ some .equals) :
    Parser.param source ⟨word :: colon :: tokens, stop⟩ = .ok (⟨word.text, span.trimmed source⟩, middle) := by
  have self : SelfNamed (word :: colon :: tokens) := ⟨.inl (congrArg some named), congrArg some typed⟩
  have noVal : ∀ kind, kind ≠ .ident → isAt kind source ⟨word :: colon :: tokens, stop⟩ = .ok (false, ⟨word :: colon :: tokens, stop⟩) :=
    fun kind other => isAt_other (by simpa [named] using other.symm)
  have bare : skipValVar source ⟨word :: colon :: tokens, stop⟩ = .ok ((), ⟨word :: colon :: tokens, stop⟩) :=
    (bind_ok (noVal _ (by simp))).trans ((bind_ok (noVal _ (by simp))).trans rfl)
  have name : paramName source ⟨word :: colon :: tokens, stop⟩ = .ok (word.text, ⟨tokens, colon.stop⟩) := by
    have second : secondKind? source ⟨word :: colon :: tokens, stop⟩ = .ok (some colon.kind, ⟨word :: colon :: tokens, stop⟩) := rfl
    refine (bind_ok (peek?_run word _ stop)).trans ((bind_ok second).trans ?_)
    rw [if_pos (by simp [named, typed])]
    rfl
  have noDefault : skipDefault source middle = .ok ((), middle) := (bind_ok (eats_absent last)).trans rfl
  refine (bind_ok (modifiers_stays self)).trans ((bind_ok bare).trans ((bind_ok name).trans ((bind_ok scanned).trans ?_)))
  exact (bind_ok noDefault).trans rfl

theorem legible_param (kept : Kept param) : Legible (declared param) Edged Parser.param (· = toParam param) := by
  rintro source before _ rest whole ⟨e, z, rfl, edge⟩ scanned
  obtain ⟨kind, member, single, spelled⟩ := single_rereads kept.name (by decide) (by decide)
  obtain rfl := List.mem_singleton.mp member
  -- The name, the colon and the type, one after the other.
  obtain ⟨items, skimmed, covers, typeRead⟩ := kept.type.read e z edge (byteLength (before ++ param.name.toList ++ [':', ' ']))
  rw [← byteLength_append, show before ++ param.name.toList ++ [':', ' '] ++ param.type.toList = before ++ declared param by
    simp [declared], scanned] at typeRead
  have colonRead := single_lexeme .colon (byteLength (before ++ param.name.toList)) (' ' :: (param.type.toList ++ e :: z)) rfl
  have behind : byteLength (before ++ param.name.toList) + byteLength (Lexeme.colon).chars + byteLength [' '] =
      byteLength (before ++ param.name.toList ++ [':', ' ']) := by
    rw [byteLength_append _ [':', ' '], Nat.add_assoc]
    rfl
  rw [scanFrom_space rfl, behind, typeRead] at colonRead
  have nameRead := single (byteLength before) (':' :: (' ' :: (param.type.toList ++ e :: z))) (begins_cons _ _)
  rw [← byteLength_append, show ':' :: (' ' :: (param.type.toList ++ e :: z)) = (Lexeme.colon).chars ++ (' ' :: (param.type.toList ++ e :: z)) from rfl,
    colonRead] at nameRead
  obtain ⟨token, others, rfl, ends⟩ := edge_opens edge z _ _ scanned
  have stopped : Ends endsParam (token :: others) := by
    rintro _ ⟨⟩
    exact ends.imp (fun kind => by simp [endsParam, kind]) fun closes => closes
  have noDefault : (token :: others).head?.map Token.kind ≠ some .equals := by
    rcases ends with kind | ⟨_, kind⟩ <;> simp [kind]
  refine ⟨_, by rw [declared, List.append_assoc]; exact nameRead, fun stop sound => ?_⟩
  have took := took_middle sound (show _ = [_] ++ _ :: (items ++ token :: others) from rfl)
  obtain ⟨stop', ran⟩ := scanUntil_run took.sound skimmed stopped covers
  refine ⟨_, stop', param_run rfl rfl ran noDefault, ?_⟩
  have sliced : Span.chars ⟨byteLength (before ++ param.name.toList ++ [':', ' ']),
      byteLength (before ++ param.name.toList ++ [':', ' ']) + byteLength param.type.toList⟩ source = param.type.toList := by
    rw [Span.chars, slice?_eq_some_iff.mpr ⟨before ++ param.name.toList ++ [':', ' '], e :: z, by rw [whole, declared]; simp, rfl, rfl⟩]
    rfl
  rw [Span.trimmed, sliced, kept.type.solid, String.ofList_toList, Token.text, spelled]
  rfl

/-! ### Parameter lists -/

/-- Parameters with commas between them. -/
def declaredAll : List RenderedParam → List Char
  | [] => []
  | param :: others => declared param ++ others.flatMap fun other => ',' :: (' ' :: declared other)

theorem declared_opens (kept : Kept param) (next : List Char) :
    Opens (fun token => token.kind = .ident ∧ token.text = param.name) (declared param ++ next) := by
  obtain ⟨kind, member, single, spelled⟩ := single_rereads kept.name (by decide) (by decide)
  obtain rfl := List.mem_singleton.mp member
  rw [declared, List.append_assoc]
  exact single.opens (begins_cons _ _) fun token kind lexeme => ⟨kind, by rw [Token.text, lexeme, spelled]⟩

section Steps
variable {seen : List Param}

instance : Advances (paramsStep seen) := by
  unfold paramsStep
  infer_instance

instance : Strides (paramsStep seen) := by
  unfold paramsStep
  infer_instance

theorem legible_paramsStep_more (kept : Kept param) :
    Legible (declared param ++ [',']) (fun _ => True) (paramsStep seen) fun outcome =>
      ∃ later, outcome = .again later ∧ later = seen ++ [toParam param] := by
  refine legible_isAt_other.look ⟨false, rfl⟩ ?_ fun next _ => ?_
  · rintro _ rfl
    refine (legible_param kept).then ⟨_, rfl⟩ ?_ fun next _ => ⟨',', next, rfl, .inl rfl⟩
    rintro _ rfl
    refine legible_comma.last ⟨true, rfl⟩ ?_ fun _ follow => follow
    rintro _ rfl
    exact legible_pure ⟨_, rfl, rfl⟩
  · rw [List.append_assoc]
    exact (declared_opens kept _).mono fun token named => by simp [named]

theorem legible_paramsStep_last (kept : Kept param) :
    Legible (declared param) (Begins ')') (paramsStep seen) fun outcome =>
      ∃ value, outcome = .done value ∧ value = seen ++ [toParam param] := by
  refine legible_isAt_other.look ⟨false, rfl⟩ ?_ fun next _ => (declared_opens kept next).mono fun token named => by simp [named]
  rintro _ rfl
  refine (legible_param kept).last ⟨_, rfl⟩ ?_ fun next follow => ?_
  · rintro _ rfl
    refine legible_eats_other.last ⟨false, rfl⟩ ?_ fun next follow => follow.opens (fun _ => rfl) fun token kind => by simp [kind]
    rintro _ rfl
    exact legible_pure ⟨_, rfl, rfl⟩
  · obtain ⟨rest, rfl⟩ := List.head?_eq_some_iff.mp follow
    exact ⟨')', rest, rfl, .inr (.inl rfl)⟩

end Steps

theorem legible_params_more {seen : List Param} {others : List RenderedParam} (kept : ∀ other ∈ param :: others, Kept other) :
    Legible (declared param ++ others.flatMap fun other => ',' :: (' ' :: declared other)) (Begins ')') (iterate paramsStep seen)
      (· = seen ++ (param :: others).map toParam) := by
  induction others generalizing param seen with
  | nil =>
    rw [List.flatMap_nil, List.append_nil]
    exact (legible_paramsStep_last (kept param (List.mem_singleton_self _))).done
  | cons second others ih =>
    obtain ⟨first, later⟩ := List.forall_mem_cons.mp kept
    have shape : (declared param ++ (second :: others).flatMap fun other => ',' :: (' ' :: declared other)) =
        (declared param ++ [',']) ++ (' ' :: (declared second ++ others.flatMap fun other => ',' :: (' ' :: declared other))) := by simp
    rw [shape]
    refine (legible_paramsStep_more first).again ⟨_, rfl⟩ ?_ fun _ _ => trivial
    rintro _ rfl
    refine (ih later).space.mono ?_
    rintro _ rfl
    simp

theorem legible_params (kept : ∀ param ∈ params, Kept param) :
    Legible (declaredAll params) (Begins ')') Parser.params (· = params.map toParam) := by
  cases params with
  | nil =>
    refine Legible.done (legible_isAt.last ⟨true, rfl⟩ ?_ fun next follow => follow.opens (fun _ => rfl) fun token kind => kind)
    rintro _ rfl
    exact legible_pure ⟨_, rfl, rfl⟩
  | cons param others => exact legible_params_more kept

/-- What stands in front of the parameters of a list. -/
def marks (list : RenderedList) : List Char :=
  if list.isUsing then "using ".toList else if list.isImplicit then "implicit ".toList else []

/-- A parameter list as it is declared. -/
def declaredList (list : RenderedList) : List Char := '(' :: (marks list ++ (declaredAll list.params ++ [')']))

/-- The parameters of the list can be read again, and the first of them is not taken for a mark. -/
structure KeptList (list : RenderedList) : Prop where
  params : ∀ param ∈ list.params, Kept param
  marks : list.isUsing = true → list.isImplicit = true
  first : list.isImplicit = false → ∀ param ∈ list.params.head?, param.name ≠ "using"

/-- The list is the one that was declared. -/
structure SameList (list : RenderedList) (found : ParamList) : Prop where
  isImplicit : found.isImplicit = list.isImplicit
  isUsing : found.isUsing = list.isUsing
  params : found.params = list.params.map toParam

theorem sameList_any (lists : List RenderedList) : ∃ found, List.Forall₂ SameList lists found := by
  induction lists with
  | nil => exact ⟨[], .nil⟩
  | cons list lists ih =>
    obtain ⟨found, same⟩ := ih
    exact ⟨⟨list.isImplicit, list.isUsing, list.params.map toParam, ⟨0, 0⟩⟩ :: found, .cons ⟨rfl, rfl, rfl⟩ same⟩

theorem declaredAll_opens {holds : Token → Prop} (kept : ∀ param ∈ params, Kept param)
    (first : ∀ param ∈ params.head?, ∀ token, token.kind = .ident → token.text = param.name → holds token)
    (closes : ∀ token, token.kind = .closer .paren → holds token) (follow : Begins ')' next) : Opens holds (declaredAll params ++ next) := by
  cases params with
  | nil => exact follow.opens (fun _ => rfl) closes
  | cons param others =>
    rw [declaredAll, List.append_assoc]
    exact (declared_opens (kept param (List.mem_cons_self ..)) _).mono fun token named => first param rfl token named.1 named.2

theorem legible_using : Legible "using".toList (Begins ' ') usingMark (· = true) := by
  obtain ⟨kind, member, single, spelled⟩ := @single_rereads "using" [.ident] ' ' (by decide +kernel) (by decide) (by decide)
  obtain rfl := List.mem_singleton.mp member
  refine single.legible fun source token rest stop kind lexeme => ⟨true, ?_, rfl⟩
  have text : token.text = "using" := by rw [Token.text, lexeme, spelled]
  show (if token.kind = .ident && token.text = "using" then _ else _ : Parser Bool) source _ = _
  rw [if_pos (by simp [kind, text])]
  rfl

theorem legible_using_other : Legible [] (Opens fun token => ¬ (token.kind = .ident ∧ token.text = "using")) usingMark (· = false) := by
  refine legible_glance fun source token rest stop other => ⟨false, ?_, rfl⟩
  show (if token.kind = .ident && token.text = "using" then _ else _ : Parser Bool) source _ = _
  rw [if_neg (by simpa using other)]
  rfl

theorem legible_implicit : Legible "implicit".toList (Begins ' ') (implicitMark false) (· = true) :=
  (single_lexeme (.keyword .implicitKw)).legible fun _ _ _ _ kind _ => ⟨true, eats_run kind _ _, rfl⟩

/-- The marks and the parameters of a list, in parts. -/
theorem legible_list {first second third : List Char} {behind behind' : List Char → Prop}
    (isUsing : Legible first behind usingMark (· = list.isUsing)) (isImplicit : Legible second behind' (implicitMark list.isUsing) (· = list.isImplicit))
    (params : Legible third (Begins ')') Parser.params (· = list.params.map toParam))
    (follow : ∀ next, Begins ')' next → behind (second ++ (third ++ next)) ∧ behind' (third ++ next)) :
    Legible ('(' :: (first ++ (second ++ (third ++ [')'])))) (fun _ => True) paramList (SameList list) := by
  have begins : Legible ['('] (fun _ => True) (expect (.opener .paren) "`(`") fun token => token.kind = .opener .paren :=
    legible_expect (fun _ => rfl) _
  refine begins.then ⟨⟨.opener .paren, 0, []⟩, rfl⟩ (fun opening _ => ?_) fun _ _ => trivial
  refine isUsing.then ⟨_, rfl⟩ ?_ fun next _ => ?_
  · rintro _ rfl
    refine isImplicit.then ⟨_, rfl⟩ ?_ fun next _ => ?_
    · rintro _ rfl
      refine params.then ⟨_, rfl⟩ ?_ fun next _ => begins_cons _ _
      rintro _ rfl
      refine (legible_expect (fun _ => rfl) "`)`").last ⟨⟨.closer .paren, 0, []⟩, rfl⟩ (fun closing _ => ?_) fun _ _ => trivial
      exact legible_pure ⟨rfl, rfl, rfl⟩
    · rw [List.append_assoc]
      exact (follow _ (begins_cons _ _)).2
  · rw [List.append_assoc, List.append_assoc]
    exact (follow _ (begins_cons _ _)).1

theorem legible_paramList (kept : KeptList list) : Legible (declaredList list) (fun _ => True) paramList (SameList list) := by
  have params := legible_params kept.params
  have spaced : ∀ word more : List Char, word ++ [' '] ++ more = word ++ ' ' :: more := by simp
  by_cases given : list.isUsing = true
  · have implied : Legible [] (fun _ => True) (implicitMark list.isUsing) (· = list.isImplicit) := by
      rw [given, kept.marks given]
      exact legible_pure rfl
    rw [declaredList, marks, if_pos given, show "using ".toList = "using".toList ++ [' '] from rfl, spaced]
    exact legible_list (given ▸ legible_using) implied params.space fun next _ => ⟨rfl, trivial⟩
  rw [Bool.not_eq_true] at given
  have unmarked : Legible [] (Opens fun token => ¬ (token.kind = .ident ∧ token.text = "using")) usingMark (· = list.isUsing) := by
    rw [given]
    exact legible_using_other
  by_cases implied : list.isImplicit = true
  · have word : Legible "implicit".toList (Begins ' ') (implicitMark list.isUsing) (· = list.isImplicit) := by
      rw [given, implied]
      exact legible_implicit
    rw [declaredList, marks, if_neg (by simp [given]), if_pos implied, show "implicit ".toList = "implicit".toList ++ [' '] from rfl, spaced]
    exact legible_list unmarked word params.space fun next _ =>
      ⟨(single_lexeme (.keyword .implicitKw)).opens rfl fun token kind _ => by simp [kind], rfl⟩
  · rw [Bool.not_eq_true] at implied
    have absent : Legible [] (Opens fun token => token.kind ≠ .keyword .implicitKw) (implicitMark list.isUsing) (· = list.isImplicit) := by
      rw [given, implied]
      exact legible_eats_other
    rw [declaredList, marks, if_neg (by simp [given]), if_neg (by simp [implied])]
    refine legible_list unmarked absent params fun next follow => ⟨?_, ?_⟩
    · refine declaredAll_opens kept.params (fun param first token _ text named => ?_) (fun token kind => by simp [kind]) follow
      exact kept.first implied param first (text.symm.trans named.2)
    · exact declaredAll_opens kept.params (fun _ _ token kind _ => by simp [kind]) (fun token kind => by simp [kind]) follow

theorem declaredList_opens (list : RenderedList) (next : List Char) : Opens (fun token => token.kind = .opener .paren) (declaredList list ++ next) :=
  (begins_cons '(' _).opens (fun _ => rfl) fun _ kind => kind

section Steps
variable {seen : List ParamList}

instance : Advances (paramListsStep seen) := by
  unfold paramListsStep
  infer_instance

instance : Strides (paramListsStep seen) := by
  unfold paramListsStep
  infer_instance

/-- Parameter lists one after the other. -/
theorem legible_paramLists (kept : ∀ list ∈ lists, KeptList list) :
    Legible (lists.flatMap declaredList) (Opens fun token => token.kind ≠ .opener .paren) (iterate paramListsStep seen) fun found =>
      ∃ more, found = seen ++ more ∧ List.Forall₂ SameList lists more := by
  induction lists generalizing seen with
  | nil =>
    refine Legible.done (legible_isAt_other.last ⟨false, rfl⟩ ?_ fun _ follow => follow)
    rintro _ rfl
    exact legible_pure ⟨_, rfl, [], (List.append_nil _).symm, .nil⟩
  | cons list lists ih =>
    obtain ⟨first, later⟩ := List.forall_mem_cons.mp kept
    have step : Legible (declaredList list) (fun _ => True) (paramListsStep seen) fun outcome =>
        ∃ later, outcome = .again later ∧ ∃ found, later = seen ++ [found] ∧ SameList list found := by
      refine legible_isAt.look ⟨true, rfl⟩ ?_ fun next _ => declaredList_opens list next
      rintro _ rfl
      refine (legible_paramList first).last ⟨⟨_, _, _, ⟨0, 0⟩⟩, rfl, rfl, rfl⟩ (fun found same => ?_) fun _ follow => follow
      exact legible_pure ⟨_, rfl, found, rfl, same⟩
    refine step.again ⟨_, ⟨_, _, _, ⟨0, 0⟩⟩, rfl, rfl, rfl, rfl⟩ ?_ fun _ _ => trivial
    rintro _ ⟨found, rfl, same⟩
    refine (ih later).mono ?_
    rintro _ ⟨more, rfl, others⟩
    exact ⟨found :: more, by simp, .cons same others⟩

end Steps

/-! ### Type parameters -/

/-- The type parameters of a method as they are declared. -/
def declaredTypes (method : Method) : List Char :=
  match method.typeParamsText with
  | some text => '[' :: (text.toList ++ [']'])
  | none => []

theorem legible_typeParams {entries : List (String × ParamKind)} {text : List Char} (kept : TypeParamsText entries text) (closes : Closes text) :
    Legible ('[' :: (text ++ [']'])) (fun _ => True) Parser.typeParams fun found => found.1.map entry = entries := by
  intro source before next rest whole _ scanned
  have opens := @single_mark '[' (.opener .square) (fun _ => rfl)
  have closes' := @single_mark ']' (.closer .square) (fun _ => rfl)
  obtain ⟨inside, are, read⟩ := kept closes (byteLength (before ++ ['['])) next
  have last := closes' (byteLength (before ++ ['['] ++ text)) next trivial
  have first := opens (byteLength before) (text ++ ']' :: next) trivial
  rw [← byteLength_append, show before ++ ['['] ++ text ++ [']'] = before ++ '[' :: (text ++ [']']) by simp, scanned] at last
  rw [← byteLength_append, show ']' :: next = [']'] ++ next from rfl, last] at read
  rw [← byteLength_append, show ']' :: next = [']'] ++ next from rfl, read] at first
  have shape : '[' :: (text ++ [']']) ++ next = ['['] ++ (text ++ ([']'] ++ next)) := by simp
  refine ⟨_, by rw [shape]; exact first, fun stop _ => ?_⟩
  obtain ⟨found, stop', ran, same⟩ := @typeParams_run source inside ⟨.opener .square, _, _⟩ ⟨.closer .square, _, _⟩ entries are rfl rfl rest stop
  exact ⟨found, stop', ran, same⟩

/-- The text of the type parameters of the method can be read again. -/
structure KeptTypes (method : Method) : Prop where
  bare : method.typeParamsText = none → method.typeParams = []
  text : ∀ text ∈ method.typeParamsText, TypeParamsText (method.typeParams.map entry) text.toList ∧ Closes text.toList

theorem legible_methodTypeParams {method : Method} (kept : KeptTypes method) :
    Legible (declaredTypes method) (Opens fun token => token.kind ≠ .opener .square) methodTypeParams
      fun found => found.1.map entry = method.typeParams.map entry := by
  unfold declaredTypes
  split
  · rename_i text given
    obtain ⟨read, closes⟩ := kept.text text given
    refine legible_isAt.look ⟨true, rfl⟩ ?_ fun next _ => (begins_cons '[' _).opens (fun _ => rfl) fun _ kind => kind
    rintro _ rfl
    refine (legible_typeParams read closes).last ⟨(method.typeParams, ⟨0, 0⟩), rfl⟩ (fun found same => ?_) fun _ _ => trivial
    have sliced : Legible [] (fun _ => True) (groupText found.2) fun _ => True :=
      fun source _ _ rest _ _ scanned => ⟨rest, by simpa using scanned, fun stop _ => ⟨_, stop, rfl, trivial⟩⟩
    exact sliced.last ⟨"", trivial⟩ (fun _ _ => legible_pure same) fun _ _ => trivial
  · rename_i none
    refine legible_isAt_other.last ⟨false, rfl⟩ ?_ fun _ follow => follow
    rintro _ rfl
    exact legible_pure (by rw [kept.bare none])

/-! ### Signatures -/

/-- What stands behind the name of the method. -/
def behindName (method : Method) : Char :=
  if method.typeParamsText.isSome then '[' else if method.params.isEmpty then ':' else '('

/-- The signature of a method up to its result type. -/
def declaredMethod (method : Method) : List Char :=
  "def".toList ++ (' ' :: (method.name.toList ++ (declaredTypes method ++ (Template.renderedLists method).flatMap declaredList)))

/-- The method can be declared again. -/
structure KeptMethod (method : Method) : Prop where
  name : rereads [.ident, .operator] method.name (behindName method) = true
  types : KeptTypes method
  lists : ∀ list ∈ Template.renderedLists method, KeptList list

/-- The method is the one that was declared. -/
structure SameMethod (method found : Method) : Prop where
  name : found.name = method.name
  typeParams : found.typeParams.map entry = method.typeParams.map entry
  params : List.Forall₂ SameList (Template.renderedLists method) found.params

/-- What the result type begins with. -/
def Typed (next : List Char) : Prop := ∃ rest, next = ':' :: (' ' :: rest)

theorem Typed.opens {holds : Token → Prop} (typed : Typed next) (found : ∀ token, token.kind = .colon → holds token) : Opens holds next := by
  obtain ⟨rest, rfl⟩ := typed
  exact (single_lexeme .colon).opens (begins_cons _ _) fun token kind _ => found token kind

theorem legible_name {name : String} {mark : Char} (again : rereads [.ident, .operator] name mark = true) (quote : mark ≠ '"') (point : mark ≠ '.')
    (what : String) : Legible name.toList (Begins mark) (expectName what) fun token => token.text = name := by
  obtain ⟨kind, member, single, spelled⟩ := single_rereads again quote point
  refine single.legible fun source token rest stop same lexeme => ⟨token, expectName_run ?_ _ _ _, by rw [Token.text, lexeme, spelled]⟩
  rw [Token.isName, same]
  rcases List.mem_pair.mp member with rfl | rfl <;> rfl

theorem nameLists_isEmpty (start : Nat) (lists : List ParamList) : (Template.nameLists start lists).isEmpty = lists.isEmpty := by
  cases lists <;> rfl

theorem legible_signature {method : Method} (kept : KeptMethod method) :
    Legible (declaredMethod method) Typed signature fun found => ∀ stop result, SameMethod method (found.method stop result) := by
  have unlisted : method.params = [] → Template.renderedLists method = [] := fun none => by rw [Template.renderedLists, none]; rfl
  have listed : ∀ next, Typed next → Opens (fun token => token.kind ≠ .opener .square)
      ((Template.renderedLists method).flatMap declaredList ++ next) := by
    intro next typed
    cases Template.renderedLists method with
    | nil => exact typed.opens fun token kind => by simp [kind]
    | cons list lists =>
      rw [List.flatMap_cons, List.append_assoc]
      exact (declaredList_opens list _).mono fun token kind => by simp [kind]
  have named : ∀ next, Typed next → Begins (behindName method)
      (declaredTypes method ++ ((Template.renderedLists method).flatMap declaredList ++ next)) := by
    rintro _ ⟨rest, rfl⟩
    unfold behindName declaredTypes
    cases method.typeParamsText with
    | some text => rfl
    | none =>
      have same := nameLists_isEmpty 0 method.params
      cases shape : Template.nameLists 0 method.params with
      | nil =>
        rw [shape] at same
        simp [Template.renderedLists, shape, ← same, Begins]
      | cons list lists =>
        rw [shape] at same
        simp [Template.renderedLists, shape, ← same, Begins, declaredList]
  have other : behindName method ≠ '"' ∧ behindName method ≠ '.' := by
    unfold behindName
    split
    · decide
    · split <;> decide
  obtain ⟨quote, point⟩ := other
  have keyword : Legible "def".toList (Begins ' ') (expect (.keyword .defKw) "def") fun _ => True :=
    (single_lexeme (.keyword .defKw)).legible fun _ token _ _ kind _ => ⟨token, expect_run kind _ _ _, trivial⟩
  refine keyword.then ⟨⟨.keyword .defKw, 0, []⟩, trivial⟩ (fun keyword _ => ?_) fun _ _ => begins_cons _ _
  have name : Legible (' ' :: method.name.toList) (Begins (behindName method)) (expectName "method name") fun token => token.text = method.name :=
    (legible_name kept.name quote point _).space
  refine name.then ?_ (fun name named => ?_) fun next typed => ?_
  · obtain ⟨_, -, -, spelled⟩ := single_rereads kept.name quote point
    exact ⟨⟨.ident, 0, method.name.toList⟩, spelled⟩
  · refine (legible_methodTypeParams kept.types).then ⟨(method.typeParams, none), rfl⟩ (fun typeParams types => ?_) listed
    refine Legible.last (legible_paramLists kept.lists) ?_ (fun params same => ?_) fun _ typed => typed.opens fun token kind => by simp [kind]
    · obtain ⟨more, same⟩ := sameList_any (Template.renderedLists method)
      exact ⟨more, more, rfl, same⟩
    · obtain ⟨more, rfl, same⟩ := same
      exact legible_pure fun _ _ => ⟨named, types, same⟩
  · rw [List.append_assoc]
    exact named next typed

/-! ### Methods -/

/-- A name is a path in front of anything but a point. -/
theorem path_single {word : Token} {stop : Nat} (named : word.isName = true) (other : tokens.head?.map Token.kind ≠ some .dot) (what : String) :
    path what source ⟨word :: tokens, stop⟩ = .ok ((⟨[word.text]⟩, word.span), ⟨tokens, word.stop⟩) := by
  rw [path, bind_ok (expectName_run named what _ _)]
  refine iterateFrom_done ?_
  have second : secondKind? source ⟨tokens, word.stop⟩ = .ok (tokens[1]?.map Token.kind, ⟨tokens, word.stop⟩) := rfl
  refine (bind_ok (isAt_other other)).trans ((bind_ok second).trans ?_)
  rfl

/-- The result type that is declared, in front of the end of the body. -/
theorem signed_run {word colon closing : Token} {stop : Nat} (signature : Signature) (typed : colon.kind = .colon) (named : word.kind = .ident)
    (closes : closing.kind = .closer .brace) :
    ∃ result, signed signature source ⟨[colon, word, closing], stop⟩ = .ok ((signature.method word.stop (some result), true), ⟨[closing], word.stop⟩) := by
  have isName : word.isName = true := by simp [Token.isName, named]
  have starts : here source ⟨[word, closing], colon.stop⟩ = .ok (word.start, ⟨[word, closing], colon.stop⟩) := rfl
  have isIdent : peekKind? source ⟨[word, closing], colon.stop⟩ = .ok (some .ident, ⟨[word, closing], colon.stop⟩) := by
    rw [← named]
    rfl
  have walked := @path_single source [closing] word colon.stop isName (by simp [closes]) "return type"
  have bare : resultArg source ⟨[closing], word.stop⟩ = .ok (none, ⟨[closing], word.stop⟩) :=
    (bind_ok (isAt_other (by simp [closes]))).trans rfl
  have ended : scanUntil endsResultType source ⟨[closing], word.stop⟩ = .ok (none, ⟨[closing], word.stop⟩) := by
    refine iterateFrom_done ?_
    show (if endsResultType closing.kind then _ else _ : Parser (Step (Option Span) (Option Span))) source _ = _
    rw [closes]
    rfl
  obtain ⟨result, resulted⟩ : ∃ result, resultType source ⟨[word, closing], colon.stop⟩ = .ok (result, ⟨[closing], word.stop⟩) := by
    refine ⟨⟨String.ofList (word.span.chars source), word.span, word.text, word.span, none⟩, ?_⟩
    refine (bind_ok starts).trans ((bind_ok isIdent).trans ?_)
    rw [if_pos rfl]
    exact (bind_ok walked).trans ((bind_ok bare).trans ((bind_ok ended).trans rfl))
  have ran : methodResult source ⟨[colon, word, closing], stop⟩ = .ok (some result, ⟨[closing], word.stop⟩) :=
    (bind_ok (eats_run typed _ _)).trans ((bind_ok resulted).trans rfl)
  have body : methodBody source ⟨[closing], word.stop⟩ = .ok (true, ⟨[closing], word.stop⟩) := by
    have last : peekKind? source ⟨[closing], word.stop⟩ = .ok (some (.closer .brace), ⟨[closing], word.stop⟩) := by
      rw [← closes]
      rfl
    exact (bind_ok last).trans rfl
  exact ⟨result, (bind_ok ran).trans ((bind_ok rfl).trans ((bind_ok body).trans rfl))⟩

/-- The result type that is declared. -/
def resultName : WrittenTokens.Name := ⟨"R", by decide⟩

/-- What comes behind the result type. -/
theorem closing_scanned (offset : Nat) : ∃ closing, scanFrom offset false " \x7d".toList = .ok [closing] ∧ closing.kind = .closer .brace := by
  have closes := @single_mark '\x7d' (.closer .brace) (fun _ => rfl) (offset + byteLength [' ']) [] trivial
  have nothing : ∀ offset, scanFrom offset false [] = .ok [] := fun offset => scanFrom_nil offset rfl
  rw [nothing] at closes
  exact ⟨_, (scanFrom_space rfl offset false ['\x7d']).trans closes, rfl⟩

theorem legible_signed (signature : Signature) : Legible ": R".toList (· = " \x7d".toList) (signed signature) fun found =>
    ∃ stop result, found = (signature.method stop (some result), true) := by
  rintro source before _ rest whole rfl scanned
  obtain ⟨closing, ends, closes⟩ := closing_scanned (byteLength (before ++ ": R".toList))
  cases scanned.symm.trans ends
  have read := @scanFrom_pieces " \x7d".toList none [⟨[], .colon⟩, ⟨[' '], .name resultName⟩]
    (by simp [Laid, Lexeme.separate, Lexeme.isWord, Lexeme.isSymbolic]) (NestedTraits.blank_follows _) (byteLength before) false
  have width : byteLength before + width [⟨[], .colon⟩, ⟨[' '], .name resultName⟩] = byteLength (before ++ ": R".toList) := by
    rw [byteLength_append]
    rfl
  rw [width, scanFrom_glued (by decide) (show Begins ' ' " \x7d".toList from rfl) _ _ false, scanned] at read
  refine ⟨_, read, fun stop _ => ?_⟩
  obtain ⟨result, ran⟩ := @signed_run source ((Piece.mk [' '] (.name resultName)).token _) ((Piece.mk [] .colon).token _) closing stop
    signature rfl rfl closes
  exact ⟨_, _, ran, _, result, rfl⟩

theorem sameMethod_any {method : Method} (kept : KeptMethod method) :
    ∃ found : Signature, ∀ stop result, SameMethod method (found.method stop result) := by
  obtain ⟨_, -, -, spelled⟩ := single_rereads kept.name (by unfold behindName; split; decide; split <;> decide)
    (by unfold behindName; split; decide; split <;> decide)
  obtain ⟨lists, same⟩ := sameList_any (Template.renderedLists method)
  exact ⟨⟨⟨.keyword .defKw, 0, []⟩, ⟨.ident, 0, method.name.toList⟩, (method.typeParams, none), lists⟩, fun _ _ => ⟨spelled, rfl, same⟩⟩

theorem legible_method {method : Method} (kept : KeptMethod method) :
    Legible (declaredMethod method ++ ": R".toList) (· = " \x7d".toList) Parser.method fun found => found.2 = true ∧ SameMethod method found.1 := by
  rw [method_eq]
  refine (legible_signature kept).then (sameMethod_any kept) (fun signature same => (legible_signed signature).mono ?_) ?_
  · rintro _ ⟨stop, result, rfl⟩
    exact ⟨rfl, same stop _⟩
  · rintro _ rfl
    exact ⟨_, rfl⟩

/-! ### The trait -/

/-- A trait with the declaration of the method. -/
def declaredTrait (method : Method) : List Char :=
  "trait T \x7b".toList ++ (' ' :: (declaredMethod method ++ ": R".toList) ++ " \x7d".toList)

/-- The name of the trait. -/
def traitName : WrittenTokens.Name := ⟨"T", by decide⟩

/-- What stands in front of the body of the trait. -/
def traitOpening : List Piece := [⟨[], .keyword .traitKw⟩, ⟨[' '], .name traitName⟩, ⟨[' '], .opener .brace⟩]

/-- The body of a trait with one abstract method. -/
theorem traitBody_single {brace closing : Token} {found : Method} {stop stop' : Nat} (opens : brace.kind = .opener .brace)
    (closes : closing.kind = .closer .brace) (ran : Parser.method source ⟨tokens, brace.stop⟩ = .ok ((found, true), ⟨[closing], stop'⟩)) :
    ∃ body stop'', traitBody source ⟨brace :: tokens, stop⟩ = .ok ((⟨[found], false⟩, body), ⟨[], stop''⟩) := by
  obtain ⟨keyword, middle, expected, -⟩ := bind_eq_ok ran
  obtain ⟨shape, kind, -⟩ := expect_some expected
  obtain ⟨others, rfl⟩ : ∃ others, tokens = keyword :: others := ⟨_, shape⟩
  have absent : selfType? (keyword :: others) = none := by
    unfold selfType?
    split
    · rename_i same
      cases same
      simp [kind]
    · rfl
  have begun : openBody source ⟨brace :: keyword :: others, stop⟩ = .ok (brace.start, ⟨keyword :: others, brace.stop⟩) :=
    openBody_run opens (skipSelfType_stays absent)
  have first : (keyword :: others).head?.map Token.kind = some (.keyword .defKw) := congrArg some kind
  have goes : closeBody? brace.start source ⟨keyword :: others, brace.stop⟩ = .ok (none, ⟨keyword :: others, brace.stop⟩) :=
    closeBody?_goes (eatAll_stays (by rw [first]; simp)) rfl (by simp [kind])
  have bare : modifiers source ⟨keyword :: others, brace.stop⟩ = .ok (⟨false, false⟩, ⟨keyword :: others, brace.stop⟩) :=
    @WrittenTraits.reads_modifiers_bare source brace.stop others keyword (by rw [kind]; rfl) ⟨false, false⟩
  have peeked : peekKind? source ⟨keyword :: others, brace.stop⟩ = .ok (some (.keyword .defKw), ⟨keyword :: others, brace.stop⟩) := by
    rw [← first]
    rfl
  have stated : traitStatement ⟨[], false⟩ source ⟨keyword :: others, brace.stop⟩ = .ok (⟨[found], false⟩, ⟨[closing], stop'⟩) :=
    (bind_ok bare).trans ((bind_ok peeked).trans ((bind_ok ran).trans rfl))
  have step : bodyStep brace.start ⟨[], false⟩ source ⟨keyword :: others, brace.stop⟩ = .ok (.again ⟨[found], false⟩, ⟨[closing], stop'⟩) :=
    (bind_ok goes).trans ((bind_ok stated).trans rfl)
  have closed : closeBody? brace.start source ⟨[closing], stop'⟩ = .ok (some ⟨brace.start, closing.start⟩, ⟨[], closing.stop⟩) :=
    closeBody?_closes (eatAll_stays (by simp [closes])) closes
  have last : bodyStep brace.start ⟨[found], false⟩ source ⟨[closing], stop'⟩ =
      .ok (.done (⟨[found], false⟩, ⟨brace.start, closing.start⟩), ⟨[], closing.stop⟩) := (bind_ok closed).trans rfl
  refine ⟨⟨brace.start, closing.start⟩, closing.stop, (bind_ok begun).trans ?_⟩
  exact (iterateFrom_again step (Strides.ensures _ _ _ _ step)).trans (iterateFrom_done last)

/-- The declared method is the only one that is read. -/
theorem parse_declared {method : Method} (kept : KeptMethod method) : ∃ outline trait found,
    Outline.parse (declaredTrait method) = .ok outline ∧ outline.decls = [.interface trait] ∧ trait.methods = [found] ∧
      trait.hasConcreteMembers = false ∧ SameMethod method found := by
  -- The end of the body, the method, and what stands in front of it.
  obtain ⟨closing, last, closes⟩ := closing_scanned (byteLength ("trait T \x7b".toList ++ ' ' :: (declaredMethod method ++ ": R".toList)))
  obtain ⟨tokens, read, reads⟩ := (legible_method kept).space (declaredTrait method) "trait T \x7b".toList " \x7d".toList _ rfl rfl last
  have first := @scanFrom_pieces (' ' :: (declaredMethod method ++ ": R".toList) ++ " \x7d".toList) none traitOpening
    (by simp [traitOpening, Laid, Lexeme.separate, Lexeme.isWord, Lexeme.isSymbolic]) (NestedTraits.blank_follows _) 0 false
  rw [List.cons_append, scanFrom_glued (by decide) (begins_cons ' ' _) _ _ false] at first
  have scanned : Token.scan (declaredTrait method) = .ok (WrittenTokens.place 0 traitOpening ++ tokens) := by
    rw [scan_eq_ok_iff]
    refine first.trans ?_
    have offset : 0 + width traitOpening = byteLength "trait T \x7b".toList := rfl
    rw [offset, ← List.cons_append, read]
    rfl
  have sound : Sound (declaredTrait method) ⟨WrittenTokens.place 0 traitOpening ++ tokens, 0⟩ := ⟨cut_zero _, scan_inOrder scanned⟩
  let keyword : Token := (Piece.mk [] (.keyword .traitKw)).token 0
  let name : Token := (Piece.mk [' '] (.name traitName)).token 5
  let brace : Token := (Piece.mk [' '] (.opener .brace)).token 7
  have took := took_middle sound (show _ = [keyword, name] ++ brace :: tokens from rfl)
  obtain ⟨⟨found, _⟩, stop, ran, rfl, same⟩ := reads brace.stop took.sound
  obtain ⟨body, stop', bodied⟩ := @traitBody_single (declaredTrait method) tokens brace closing found name.stop stop rfl closes ran
  have bare : traitTypeParams (declaredTrait method) ⟨brace :: tokens, name.stop⟩ = .ok (([], none), ⟨brace :: tokens, name.stop⟩) :=
    (bind_ok (isAt_other (by simp [brace]))).trans rfl
  have ungrouped : skipGroups .paren (declaredTrait method) ⟨brace :: tokens, name.stop⟩ = .ok ((), ⟨brace :: tokens, name.stop⟩) :=
    iterateFrom_done ((bind_ok (isAt_other (by simp [brace]))).trans rfl)
  have parentless : extendsClause (declaredTrait method) ⟨brace :: tokens, name.stop⟩ = .ok ([], ⟨brace :: tokens, name.stop⟩) :=
    (bind_ok (eats_absent (by simp [brace]))).trans rfl
  obtain ⟨trait, read, methods, concrete⟩ : ∃ trait : Interface, interface (declaredTrait method) ⟨keyword :: name :: brace :: tokens, 0⟩ =
      .ok (trait, ⟨[], stop'⟩) ∧ trait.methods = [found] ∧ trait.hasConcreteMembers = false :=
    ⟨_, NestedTraits.interface_run rfl rfl bare ungrouped parentless (NestedTraits.optionalTraitBody_run rfl bodied), rfl, rfl⟩
  obtain ⟨outline, parsed, decls, -⟩ := NestedTraits.parse_alone scanned rfl read
  exact ⟨outline, trait, found, parsed, decls, methods, concrete, same⟩

end KindLift.SignatureReading
