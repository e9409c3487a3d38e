import KindLift.Proofs.GeneratedUnits
import KindLift.Proofs.SignatureReading

/-! Signatures that are generated for the methods of a source. A method whose names can be
printed as they are is declared again: the declaration is read as one abstract method with
the same parameters, and what it calls passes the parameters that it declares. -/
namespace KindLift.DeclaredSignatures
open Token Text TextBoundary TokenPlacement ScanSteps ScanRuns LegibleTexts SignatureTexts SignatureReading TypeTokens CoveredSpans
open Template ParameterNames TraitReading Traversal
open WrittenTokens (Lexeme Piece Laid Name)

variable {method found : Method} {list : ParamList} {lists : List ParamList} {params : List Param} {rendered : RenderedParam}
  {renderedList : RenderedList} {start : Nat} {name : String}

/-! ### What is declared -/

/-- In front of a bracket the text is read over as a type, and all of it. -/
def readsAlone (text : List Char) : Bool :=
  match Token.scan (text ++ [')']) with
  | .ok tokens =>
    match Parser.scanUntil WrittenTraits.endsParam (text ++ [')']) ⟨tokens, 0⟩ with
    | .ok (span, next) => span = some ⟨0, byteLength text⟩ && !next.rest.isEmpty
    | .error _ => false
  | .error _ => false

/-- A parameter that is declared under its own name has one that is read as it is. The type
of any other is read as one, without the word that may stand right before it in the source. -/
structure PrintableParam (param : Param) : Prop where
  name : param.name ≠ "_" → rereads [.ident] param.name ':' = true
  type : param.name = "_" → readsAlone param.type.toList = true

/-- The names of the method are read as they are in front of what is printed behind them,
its type parameters do not end in a comment up to the end of the line, and no first
parameter is taken for the mark of a list. -/
structure Printable (method : Method) : Prop where
  name : rereads [.ident, .operator] method.name (behindName method) = true
  typeParams : ∀ text ∈ method.typeParamsText, Closes text.toList
  params : ∀ list ∈ method.params, ∀ param ∈ list.params, PrintableParam param
  first : ∀ list ∈ method.params, list.isImplicit = false → ∀ param ∈ list.params.head?, param.name ≠ "using"

instance (text : List Char) : Decidable (Closes text) := inferInstanceAs (Decidable (_ = _))

instance (param : Param) : Decidable (PrintableParam param) :=
  decidable_of_iff ((param.name ≠ "_" → rereads [.ident] param.name ':' = true) ∧ (param.name = "_" → readsAlone param.type.toList = true))
    ⟨fun ⟨name, type⟩ => ⟨name, type⟩, fun ⟨name, type⟩ => ⟨name, type⟩⟩

instance (method : Method) : Decidable (Printable method) :=
  decidable_of_iff (rereads [.ident, .operator] method.name (behindName method) = true ∧
      (∀ text ∈ method.typeParamsText.toList, Closes text.toList) ∧ (∀ list ∈ method.params, ∀ param ∈ list.params, PrintableParam param) ∧
      ∀ list ∈ method.params, list.isImplicit = false → ∀ param ∈ list.params.head?.toList, param.name ≠ "using")
    ⟨fun ⟨name, types, params, first⟩ => ⟨name, by simpa using types, params, by simpa using first⟩,
      fun ⟨name, types, params, first⟩ => ⟨name, by simpa using types, params, by simpa using first⟩⟩

/-- The names of the parameters of a method, through all lists. -/
def paramNames (method : Method) : List String := (method.params.flatMap ParamList.params).map Param.name

/-- The parameters without a name are numbered. -/
def numberAnonymous (names : List String) : List String :=
  names.mapIdx fun index name => if name = "_" then madeUp ((names.take (index + 1)).count "_") else name

/-- The lists have the same marks and the same types. -/
structure SameTypes (list found : ParamList) : Prop where
  isImplicit : found.isImplicit = list.isImplicit
  isUsing : found.isUsing = list.isUsing
  types : found.params.map Param.type = list.params.map Param.type

/-- The method has the same name, type parameters and parameters, where those without a name
are numbered. -/
structure Redeclared (method found : Method) : Prop where
  name : found.name = method.name
  typeParams : found.typeParams.map entry = method.typeParams.map entry
  lists : List.Forall₂ SameTypes method.params found.params
  names : paramNames found = numberAnonymous (paramNames method)

/-- The parameters of a list as they are passed on. -/
def passed (list : ParamList) : String :=
  "(" ++ (if list.isUsing then "using " else "") ++
    String.intercalate ", " (list.params.map fun param => if param.isRepeated then param.name ++ ": _*" else param.name) ++ ")"

/-- The method of the receiver with the type parameters and the parameters of the method. -/
def application (receiver : String) (method : Method) : String :=
  receiver ++ "." ++ method.name ++
    (if method.typeParams.isEmpty then "" else "[" ++ String.intercalate ", " (method.typeParams.map TypeParam.name) ++ "]") ++
    String.join (method.params.map passed)

/-! ### Names that are made up -/

theorem rereads_name (name : Name) : rereads [.ident] name.text ':' = true := by
  have laid : Laid none [⟨[], .name name⟩, ⟨[], .colon⟩] := by simp [Laid, Lexeme.separate, Lexeme.isWord]
  have scanned := WrittenTokens.scan_written laid WrittenTokens.isBlank_nil
  have shape : name.text.toList ++ [':'] = WrittenTokens.written [⟨[], .name name⟩, ⟨[], .colon⟩] ++ [] := by
    simp [Piece.chars, Lexeme.chars]
  have text : ((Piece.mk [] (.name name)).token 0).text = name.text := WrittenTraits.text_name
  have width : (Piece.mk [] (.name name)).width = byteLength name.text.toList := rfl
  rw [rereads, shape, scanned]
  show ([TokenKind.ident].contains TokenKind.ident && decide (((Piece.mk [] (.name name)).token 0).span = _) &&
    decide (((Piece.mk [] (.name name)).token 0).text = _)) = true
  rw [text, Token.span, Piece.token_stop, width]
  simp

/-- The name that is made up is a plain one. -/
def made (number : Nat) : Name := GeneratedUnits.numbered "ev" (by decide) (by decide) number

theorem rereads_madeUp (number : Nat) : rereads [.ident] (madeUp number) ':' = true := rereads_name (made number)

theorem madeUp_ne_using (number : Nat) : madeUp number ≠ "using" := by
  obtain ⟨-, -, -, -, -, -, ordinary⟩ := (made number).chars_eq
  exact ordinary

/-! ### Lists as they are rendered -/

/-- The parameter is rendered with its type, and with its name or one that is made up. -/
structure Renders (param : Param) (rendered : RenderedParam) : Prop where
  type : rendered.type = param.type
  isRepeated : rendered.isRepeated = (toParam rendered).isRepeated
  name : param.name ≠ "_" ∧ rendered.name = param.name ∨ param.name = "_" ∧ ∃ number, rendered.name = madeUp number

/-- The list is rendered with its marks and parameters. -/
structure RendersList (list : ParamList) (rendered : RenderedList) : Prop where
  isImplicit : rendered.isImplicit = list.isImplicit
  isUsing : rendered.isUsing = list.isUsing
  params : List.Forall₂ Renders list.params rendered.params

theorem nameParams_renders (start : Nat) (params : List Param) : List.Forall₂ Renders params (nameParams start params).1 := by
  induction params generalizing start with
  | nil => exact .nil
  | cons param params ih =>
    rw [nameParams]
    split
    · rename_i unnamed
      exact .cons ⟨rfl, rfl, .inr ⟨unnamed, start + 1, rfl⟩⟩ (ih _)
    · rename_i named
      exact .cons ⟨rfl, rfl, .inl ⟨named, rfl⟩⟩ (ih _)

theorem nameLists_renders (start : Nat) (lists : List ParamList) : List.Forall₂ RendersList lists (nameLists start lists) := by
  induction lists generalizing start with
  | nil => exact .nil
  | cons list lists ih => exact .cons ⟨rfl, rfl, nameParams_renders start list.params⟩ (ih _)

/-- The names of rendered parameters, counted on from `start`. -/
theorem nameParams_names (start : Nat) (params : List Param) :
    (nameParams start params).1.map RenderedParam.name = (params.map Param.name).mapIdx fun index name =>
      if name = "_" then madeUp (start + ((params.map Param.name).take (index + 1)).count "_") else name := by
  induction params generalizing start with
  | nil => rfl
  | cons param params ih =>
    rw [nameParams, List.map_cons, List.mapIdx_cons]
    split
    · rename_i unnamed
      rw [List.map_cons, ih]
      simp only [unnamed, List.take_succ_cons, List.count_cons_self, List.take_zero, List.count_nil]
      congr 1
      refine congrArg (List.mapIdx · _) ?_
      funext index name
      rw [Nat.add_assoc, Nat.add_comm 1]
    · rename_i named
      rw [List.map_cons, ih]
      simp only [List.take_succ_cons, List.count_cons_of_ne named]

theorem rendered_numbered (method : Method) : ParameterNames.rendered method = numberAnonymous (paramNames method) := by
  rw [ParameterNames.rendered, namesOf, renderedLists, nameLists_params, nameParams_names, numberAnonymous, paramNames]
  simp only [Nat.zero_add]

/-! ### Methods that can be declared again -/

/-- A text that is read over as a type is one behind a blank. -/
theorem typeText_alone {text : List Char} (alone : readsAlone text = true) : TypeText false text := by
  unfold readsAlone at alone
  split at alone
  on_goal 2 => cases alone
  rename_i tokens scanned
  split at alone
  on_goal 2 => cases alone
  rename_i found next ran
  simp only [Bool.and_eq_true, decide_eq_true_eq, Bool.not_eq_true', List.isEmpty_eq_false_iff] at alone
  obtain ⟨rfl, more⟩ := alone
  obtain ⟨skims, ends⟩ := scanUntil_skims ⟨cut_zero _, scan_inOrder scanned⟩ _ _ ran
  obtain ⟨items, shape, skimmed⟩ := skims.items
  obtain ⟨_, same, reads⟩ := skims.covers.resolve_left (by simp)
  cases same
  obtain ⟨_, shape', covers⟩ := reads.tokens
  obtain rfl := List.append_cancel_right (shape.symm.trans shape')
  obtain ⟨stop, rest, stops⟩ := List.exists_cons_of_ne_nil more
  have plain : stop.kind ≠ .literal := by
    intro literal
    rcases ends stop (by rw [stops]; rfl) with ended | ⟨_, closes⟩
    · rw [literal] at ended
      cases ended
    · rw [literal] at closes
      cases closes
  rw [scan_eq_ok_iff, show tokens = items ++ stop :: rest from stops ▸ shape] at scanned
  obtain ⟨glued, gap, text', tail, whole, start, stop', bare, read⟩ := @typeText_scanned (text ++ [')']) [] _ _ _ _ _ scanned plain skimmed covers
  obtain rfl := bare rfl
  obtain rfl : gap = [] := eq_nil_of_width start.symm
  have width : byteLength text = byteLength text' := by
    dsimp only at stop'
    omega
  obtain ⟨rfl, -⟩ := cut_unique (show text ++ [')'] = text' ++ tail from whole) width
  exact read

/-- Only the text that is read as a type with the word in front of it is not read as one alone. -/
theorem readsAlone_of_typeText {text : List Char} (read : TypeText false text) : readsAlone text = true := by
  obtain ⟨tokens, skimmed, covers, scanned⟩ := read.read ')' [] (.inr (.inl rfl)) 0
  have closes := @single_mark ')' (.closer .paren) (fun _ => rfl) (0 + byteLength text) [] trivial
  have nothing : skipTrivia .blank [] = .ok [] := rfl
  rw [List.append_nil, scanFrom_nil _ nothing] at closes
  rw [closes] at scanned
  have whole : Token.scan (text ++ [')']) = .ok (tokens ++ [⟨.closer .paren, 0 + byteLength text, [')']⟩]) := scan_eq_ok_iff.mpr scanned
  rw [Nat.zero_add] at covers
  obtain ⟨stop, ran⟩ := scanUntil_run ⟨cut_zero _, scan_inOrder whole⟩ skimmed (fun _ first => by cases first; exact .inl rfl) covers
  unfold readsAlone
  rw [whole]
  dsimp only
  rw [ran]
  simp

theorem kept_param {param : Param} {rendered : RenderedParam} (printable : PrintableParam param) (text : ParamText param)
    (renders : Renders param rendered) : Kept rendered := by
  obtain ⟨glued, read, unglued⟩ := text
  rcases renders.name with ⟨named, name⟩ | ⟨unnamed, number, name⟩
  · obtain rfl := unglued named
    exact ⟨name ▸ printable.name named, renders.type ▸ read⟩
  · exact ⟨name ▸ rereads_madeUp number, renders.type ▸ typeText_alone (printable.type unnamed)⟩

theorem kept_method (printable : Printable method) (readable : Readable method) : KeptMethod method := by
  refine ⟨printable.name, ⟨readable.bare, fun text given => ⟨readable.typeParams text given, printable.typeParams text given⟩⟩, ?_⟩
  intro rendered member
  obtain ⟨list, listed, renders⟩ := Traversal.related_right (nameLists_renders 0 method.params) member
  refine ⟨fun other member => ?_, fun given => ?_, fun plain other first => ?_⟩
  · obtain ⟨param, listed', renders'⟩ := Traversal.related_right renders.params member
    exact kept_param (printable.params list listed param listed') (readable.types list listed param listed') renders'
  · rw [renders.isImplicit]
    exact readable.marks list listed (renders.isUsing ▸ given)
  · have params := renders.params
    cases shape : rendered.params with
    | nil =>
      rw [shape] at first
      cases first
    | cons head others =>
      rw [shape] at first params
      cases first
      generalize source : list.params = sources at params
      cases params with
      | @cons param _ sources _ renders' _ =>
        rcases renders'.name with ⟨named, name⟩ | ⟨-, number, name⟩
        · rw [name]
          exact printable.first list listed (renders.isImplicit ▸ plain) param (by rw [source]; rfl)
        · rw [name]
          exact madeUp_ne_using number

/-! ### What is read -/

theorem sameTypes {rendered : RenderedList} {found : ParamList} (renders : RendersList list rendered) (same : SameList rendered found) :
    SameTypes list found := by
  refine ⟨same.isImplicit.trans renders.isImplicit, same.isUsing.trans renders.isUsing, ?_⟩
  rw [same.params, List.map_map]
  exact map_related renders.params fun _ _ renders => renders.type

theorem paramNames_declared (same : SameMethod method found) : paramNames found = ParameterNames.rendered method := by
  rw [paramNames, ParameterNames.rendered, namesOf, List.map_flatMap, List.map_flatMap, List.flatMap_def, List.flatMap_def]
  refine congrArg List.flatten (map_related same.params fun list found same => ?_)
  rw [same.params, List.map_map]
  rfl

theorem redeclared (same : SameMethod method found) : Redeclared method found where
  name := same.name
  typeParams := same.typeParams
  lists := related_compose (R := RendersList) (S := SameList) (T := SameTypes) (fun _ _ _ => sameTypes) (nameLists_renders 0 method.params) same.params
  names := (paramNames_declared same).trans (rendered_numbered method)

theorem passList_passed {found : ParamList} (repeats : ∀ param ∈ renderedList.params, param.isRepeated = (toParam param).isRepeated)
    (same : SameList renderedList found) : passed found = passList renderedList := by
  rw [passed, passList, same.isUsing, same.params, List.map_map]
  refine congrArg (fun names => _ ++ String.intercalate ", " names ++ ")") (List.map_congr_left fun param member => ?_)
  rw [repeats param member]
  rfl

/-- The generated call passes what is declared. -/
theorem call_application (receiver : String) (same : SameMethod method found) :
    call receiver method (renderedLists method) = application receiver found := by
  have repeats : ∀ list ∈ renderedLists method, ∀ param ∈ list.params, param.isRepeated = (toParam param).isRepeated := by
    intro list listed param member
    obtain ⟨_, -, renders⟩ := Traversal.related_right (nameLists_renders 0 method.params) listed
    obtain ⟨_, -, renders⟩ := Traversal.related_right renders.params member
    exact renders.isRepeated
  have lists := map_related ((List.forall₂_and_left _ _).mpr ⟨repeats, same.params⟩) fun _ _ ⟨repeats, same⟩ => passList_passed repeats same
  have names : found.typeParams.map TypeParam.name = method.typeParams.map TypeParam.name := by
    have names := congrArg (List.map Prod.fst) same.typeParams
    rwa [List.map_map, List.map_map] at names
  have isEmpty : found.typeParams.isEmpty = method.typeParams.isEmpty := by
    simpa only [List.isEmpty_map] using congrArg List.isEmpty names
  rw [call, application, same.name, names, isEmpty, lists]

/-! ### Printed texts -/

theorem declareList_chars (list : RenderedList) : (declareList list).toList = SignatureReading.declaredList list := by
  have params : (String.intercalate ", " (list.params.map fun param => param.name ++ ": " ++ param.type)).toList = declaredAll list.params := by
    rw [String.toList_intercalate, List.map_map]
    cases list.params with
    | nil => rfl
    | cons param others =>
      rw [List.map_cons, WrittenTemplates.intercalate_cons, List.flatMap_map, declaredAll]
      simp [SignatureReading.declared]
  have mark : (if list.isUsing then "using " else if list.isImplicit then "implicit " else "").toList = marks list := by
    unfold marks
    split
    · rfl
    · split <;> rfl
  rw [declareList, declaredList, ← params, ← mark]
  simp

theorem signature_chars (method : Method) :
    (signature method (renderedLists method) "R").toList = declaredMethod method ++ ": R".toList := by
  have lists : (String.join ((renderedLists method).map declareList)).toList = (renderedLists method).flatMap declaredList := by
    rw [String.toList_join, List.flatMap_map]
    exact List.flatMap_congr fun list _ => declareList_chars list
  rw [signature, declaredMethod, ← lists, declaredTypes]
  cases method.typeParamsText <;> simp

/-- The trait with nothing but the generated declaration of the method. -/
def printedTrait (method : Method) : String := "trait T \x7b " ++ signature method (renderedLists method) "R" ++ " \x7d"

theorem printedTrait_chars (method : Method) : (printedTrait method).toList = declaredTrait method := by
  have opening : "trait T \x7b ".toList = "trait T \x7b".toList ++ [' '] := rfl
  unfold printedTrait declaredTrait
  simp only [String.toList_append, signature_chars, opening, List.append_assoc, List.cons_append, List.nil_append]

/-! ### Generated signatures -/

variable {source : List Char} {outline : Outline} {decl : Decl} {trait : Interface}

/-- The signature that is generated for an abstract method of a source, alone in a trait, is
read as that method with its parameters numbered, and the generated call passes them all. -/
theorem signature_redeclares (parsed : Outline.parse source = .ok outline) (listed : decl ∈ outline.decls)
    (nested : trait ∈ TraitReading.declared decl) (abstract : method ∈ trait.methods) (printable : Printable method) :
    ∃ outline' trait' method', Outline.parse (printedTrait method).toList = .ok outline' ∧ outline'.decls = [.interface trait'] ∧
      trait'.methods = [method'] ∧ trait'.hasConcreteMembers = false ∧ Redeclared method method' ∧
      ∀ receiver, call receiver method (renderedLists method) = application receiver method' := by
  obtain ⟨tokens, scanned, reads⟩ := parse_readOff parsed
  have readable := interface_readable scanned (reads decl listed trait nested) method abstract
  obtain ⟨outline', trait', method', parsed', decls, methods, concrete, same⟩ := parse_declared (kept_method printable readable)
  rw [← printedTrait_chars] at parsed'
  exact ⟨outline', trait', method', parsed', decls, methods, concrete, redeclared same, fun receiver => call_application receiver same⟩

/-- A trait with a method of two lists, in which two parameters have no name. -/
def curriedTrait : String := "trait A[F[_]]\x7bdef m[X, Y[_] /* y */](a: X = x, J *)(implicit _: `K`[Y]): F[X]\x7d"

/-- The method is declared again with the names it is given. -/
theorem curriedTrait_redeclared : ∃ outline trait method, Outline.parse curriedTrait.toList = .ok outline ∧
    Decl.interface trait ∈ outline.decls ∧ method ∈ trait.methods ∧ Printable method ∧
    ∃ outline' trait' method', Outline.parse (printedTrait method).toList = .ok outline' ∧ outline'.decls = [.interface trait'] ∧
      trait'.methods = [method'] ∧ trait'.hasConcreteMembers = false ∧ Redeclared method method' ∧
      ∀ receiver, call receiver method (renderedLists method) = application receiver method' := by
  have facts : (Outline.parse curriedTrait.toList).toOption.bind (fun outline => outline.decls.head?.bind fun decl =>
      decl.interface?.bind fun trait => trait.methods.head?.map fun method => decide (Printable method)) = some true := by decide +kernel
  obtain ⟨outline, parsed, facts⟩ := Option.bind_eq_some_iff.mp facts
  obtain ⟨decl, first, facts⟩ := Option.bind_eq_some_iff.mp facts
  obtain ⟨trait, declares, facts⟩ := Option.bind_eq_some_iff.mp facts
  obtain ⟨method, leads, printable⟩ := Option.map_eq_some_iff.mp facts
  obtain rfl : decl = .interface trait := by
    cases decl <;> cases declares
    rfl
  have listed := List.mem_of_mem_head? first
  have abstract := List.mem_of_mem_head? leads
  replace parsed := toOption_eq_some_iff.mp parsed
  replace printable := of_decide_eq_true printable
  exact ⟨outline, trait, method, parsed, listed, abstract, printable,
    signature_redeclares parsed listed (List.mem_singleton_self _) abstract printable⟩

end KindLift.DeclaredSignatures
