import KindLift.Proofs.DeclPlacement

/-! Where the parts of a trait stand. All spans of a trait lie inside the trait, its
methods follow one another between the braces of its body, and the head of a result
type lies inside the result type, which lies inside its method. -/
namespace KindLift.TraitSpans
open KindLift.Parser Text TextBoundary TokenPlacement ParserLogic CursorAdvance CursorPlacement DeclPlacement

variable {source : List Char} {cursor middle next : Cursor} {low high start : Nat} {spans others : List Span}

/-! ### Spans of a trait -/

def resultSpans (result : ResultType) : List Span := [result.span, result.headSpan]

def methodSpans (method : Method) : List Span :=
  method.span :: (method.typeParams.map TypeParam.span ++ (method.params.map ParamList.span ++
    method.result.toList.flatMap resultSpans))

def bodySpans (body : Option Body) : List Span := body.toList.map Body.span

def interfaceSpans (interface : Interface) : List Span :=
  interface.span :: interface.nameSpan :: (interface.typeParams.map TypeParam.span ++
    (interface.typeParamsSpan.toList ++ (interface.parents.map Parent.span ++
      (interface.methods.flatMap methodSpans ++ bodySpans interface.body))))

/-- The character stands at the offset of the source. -/
def CharAt (source : List Char) (offset : Nat) (c : Char) : Prop :=
  ∃ left right, source = left ++ c :: right ∧ byteLength left = offset

/-- The braces of a body, of which the closing one ends the span around it. -/
structure Braced (source : List Char) (span : Span) (body : Body) : Prop where
  opened : CharAt source body.openBrace '\x7b'
  closed : CharAt source body.closeBrace '\x7d'
  ordered : body.openBrace < body.closeBrace
  last : span.stop = body.closeBrace + 1

/-- What a method is made of lies inside of it, and the head of its result type inside
the result type. -/
structure MethodPlaced (source : List Char) (method : Method) : Prop where
  parts : ∀ span ∈ methodSpans method, Within source method.span.start method.span.stop span
  head : ∀ result ∈ method.result, Within source result.span.start result.span.stop result.headSpan

/-- The methods of a trait, one after the other between the braces of its body; a
trait without a body has none. -/
structure MethodsPlaced (source : List Char) (body : Option Body) (methods : List Method) : Prop where
  each : ∀ method ∈ methods, MethodPlaced source method
  line : ∀ method ∈ methods, ∃ braces ∈ body, braces.openBrace < method.span.start ∧ method.span.stop ≤ braces.closeBrace
  ordered : (methods.map Method.span).Pairwise fun a b => a.stop ≤ b.start

structure TraitPlaced (source : List Char) (interface : Interface) : Prop where
  width : interface.span.start < interface.span.stop
  parts : ∀ span ∈ interfaceSpans interface, Within source interface.span.start interface.span.stop span
  body : ∀ body ∈ interface.body, Braced source interface.span body
  methods : MethodsPlaced source interface.body interface.methods

/-! ### Reading spans -/

theorem ensures_and {parser : Parser α} {first second : α → Cursor → Prop} (left : Ensures source cursor parser first)
    (right : Ensures source cursor parser second) :
    Ensures source cursor parser fun value next => first value next ∧ second value next :=
  fun value next ran => ⟨left value next ran, right value next ran⟩

/-- The cursor is moved forward past the spans. -/
structure Passes (source : List Char) (cursor next : Cursor) (spans : List Span) : Prop where
  moves : Moves source cursor next
  within : ∀ span ∈ spans, Within source cursor.lastStop next.lastStop span

theorem Passes.nil (moves : Moves source cursor next) : Passes source cursor next [] := ⟨moves, by simp⟩

theorem Passes.trans (first : Passes source cursor middle spans) (second : Passes source middle next others) :
    Passes source cursor next (spans ++ others) := by
  refine ⟨first.moves.trans second.moves, List.forall_mem_append.mpr ⟨fun span member => ?_, fun span member => ?_⟩⟩
  · exact (first.within span member).before second.moves
  · exact (second.within span member).after first.moves

theorem Passes.before (first : Passes source cursor middle spans) (later : Moves source middle next) :
    Passes source cursor next spans := by
  have both := first.trans (.nil later)
  rwa [List.append_nil] at both

theorem Passes.after (second : Passes source middle next spans) (earlier : Moves source cursor middle) :
    Passes source cursor next spans := (Passes.nil earlier).trans second

theorem passes_single {span : Span} (moves : Moves source cursor next)
    (within : Within source cursor.lastStop next.lastStop span) : Passes source cursor next [span] :=
  ⟨moves, List.forall_mem_singleton.mpr within⟩

/-! ### Where reading begins -/

/-- The next token, if there is one, does not begin before the offset. -/
def Ahead (start : Nat) (cursor : Cursor) : Prop := ∀ token ∈ cursor.rest.head?, start ≤ token.start

theorem ahead_of_le (sound : Sound source cursor) (below : start ≤ cursor.lastStop) : Ahead start cursor := by
  intro token first
  obtain ⟨rest, shape⟩ := List.head?_eq_some_iff.mp first
  exact Nat.le_trans below (took_middle sound (show cursor.rest = [] ++ token :: rest from shape)).low_le

/-- The place where the next token begins. -/
theorem here_begins (sound : Sound source cursor) :
    Ensures source cursor here fun offset next => next = cursor ∧ Cut source offset ∧ cursor.lastStop ≤ offset ∧
      ∀ token ∈ cursor.rest.head?, token.start = offset := by
  refine ensures_mono (ensures_and (here_spec sound) ?_) fun _ _ found => ⟨found.1.1, found.1.2, found.2⟩
  simp only [here, ensures_bind, ensures_peek?]
  split
  · rename_i token shape
    rw [ensures_pure]
    refine ⟨ahead_of_le sound (Nat.le_refl _) token shape, fun other first => ?_⟩
    rw [shape] at first
    cases first
    rfl
  · rename_i empty
    rw [ensures_bind, ensures_read, ensures_pure]
    exact ⟨cut_le sound.cut, fun token first => by rw [empty] at first; cases first⟩

/-- Everything read from here on begins at the offset or behind it. -/
theorem took_ahead {token : Token} (ahead : Ahead start cursor) (first : token ∈ cursor.rest.head?)
    (took : Took source cursor token next) : start ≤ next.lastStop :=
  Nat.le_trans (ahead token first) (Nat.le_of_lt took.lt)

theorem bump_first : Ensures source cursor bump fun taken _ => taken = cursor.rest.head? := by
  simp only [bump, ensures_bind, ensures_get]
  split
  · rename_i shape
    rw [ensures_pure, shape]
    rfl
  · rename_i shape
    simp only [ensures_bind, ensures_set, ensures_pure, shape]
    rfl

theorem eat?_first (kind : TokenKind) :
    Ensures source cursor (eat? kind) fun taken _ => ∀ token ∈ taken, token ∈ cursor.rest.head? := by
  simp only [eat?, ensures_bind, ensures_isAt]
  split
  · exact ensures_mono bump_first fun _ _ same token member => same ▸ member
  · rw [ensures_pure]
    exact fun token member => by cases member

theorem expect_first (kind : TokenKind) (what : String) :
    Ensures source cursor (expect kind what) fun token _ => token ∈ cursor.rest.head? := by
  refine ensures_then (eat?_first kind) fun taken next first => ?_
  cases taken with
  | none => exact ensures_fail
  | some token => exact ensures_pure.mpr (first token rfl)

theorem expectName_first (what : String) :
    Ensures source cursor (expectName what) fun token _ => token ∈ cursor.rest.head? := by
  have first : Ensures source cursor name? fun taken _ => ∀ token ∈ taken, token ∈ cursor.rest.head? := by
    simp only [name?, ensures_bind, ensures_peek?]
    split
    · split
      · exact ensures_mono bump_first fun _ _ same token member => same ▸ member
      · exact ensures_pure.mpr fun token member => by cases member
    · exact ensures_pure.mpr fun token member => by cases member
  refine ensures_then first fun taken next first => ?_
  cases taken with
  | none => exact ensures_fail
  | some token => exact ensures_pure.mpr (first token rfl)

/-- A span from a place in front of what was read up to the last token read. -/
theorem span_since (cut : Cut source start) (below : cursor.lastStop ≤ start) (reached : start ≤ middle.lastStop)
    (moves : Moves source middle next) : Within source cursor.lastStop next.lastStop ⟨start, next.lastStop⟩ :=
  ⟨cut, moves.sound.cut, below, Nat.le_trans reached moves.forward, Nat.le_refl _⟩

/-- A path begins with the next token. -/
theorem path_ahead (what : String) (sound : Sound source cursor) (ahead : Ahead start cursor) :
    Ensures source cursor (path what) fun found next => Moves source cursor next ∧
      Within source cursor.lastStop next.lastStop found.2 ∧ start ≤ found.2.start ∧ start ≤ next.lastStop := by
  refine ensures_mono (ensures_and (path_spec what sound) ?_) fun _ _ found => ⟨found.1.1, found.1.2, found.2⟩
  refine ensures_then (ensures_and (expectName_spec what sound) (expectName_first what)) ?_
  rintro first begun ⟨took, isFirst⟩
  have begins := ahead first isFirst
  refine ensures_iterate (fun state current => Sound source current ∧ start ≤ state.2.start ∧ start ≤ current.lastStop)
    ⟨took.sound, begins, Nat.le_trans begins (Nat.le_of_lt took.lt)⟩ ?_
  rintro ⟨name, span⟩ current ⟨sound, low, reached⟩
  simp only [pathStep, ensures_bind, ensures_isAt, ensures_secondKind?]
  split
  · refine ensures_then (forward_of bump_advances _ sound) ?_
    intro _ afterDot dotted
    refine ensures_then (expectName_spec what dotted.sound) ?_
    intro segment next named
    rw [ensures_pure]
    have behind := Nat.le_trans reached dotted.forward
    exact ⟨named.sound, Nat.le_min.mpr ⟨low, Nat.le_trans behind named.low_le⟩, Nat.le_trans behind named.moves.forward⟩
  · rw [ensures_pure]
    exact ⟨low, reached⟩

/-- The group begins with the next token. -/
theorem skipGroup_first : Ensures source cursor skipGroup fun span _ =>
    ∀ token ∈ cursor.rest.head?, span.start ≤ token.start ∧ token.stop ≤ span.stop := by
  simp only [skipGroup, ensures_bind, ensures_get]
  split
  · exact ensures_fail
  · rename_i shape
    split
    · exact ensures_throw
    · simp only [ensures_bind, ensures_set, ensures_pure]
      intro token first
      rw [shape] at first
      cases first
      exact ⟨Nat.min_le_left .., Nat.le_max_left ..⟩

/-- What is read over begins with the next token. -/
theorem scanUntil_first (stops : TokenKind → Bool) (sound : Sound source cursor)
    (begins : ∀ token ∈ cursor.rest.head?, token.start = start) :
    Ensures source cursor (scanUntil stops) fun seen _ => ∀ span ∈ seen, span.start ≤ start ∧ start ≤ span.stop := by
  refine ensures_iterate (fun seen current => Sound source current ∧ (seen = none → current = cursor) ∧
    ∀ span ∈ seen, span.start ≤ start ∧ start ≤ span.stop) ⟨sound, fun _ => rfl, by simp⟩ ?_
  rintro seen current ⟨sound, unread, covers⟩
  simp only [scanStep, ensures_bind, ensures_peek?]
  split
  · rw [ensures_pure]
    exact covers
  rename_i token shape
  split
  · rw [ensures_pure]
    exact covers
  have extend : ∀ span next, Sound source next → span.start ≤ token.start → token.start ≤ span.stop →
      Sound source next ∧ ((seen.elim (some span) fun before => some (before.cover span)) = none → next = cursor) ∧
      ∀ found ∈ seen.elim (some span) fun before => some (before.cover span), found.start ≤ start ∧ start ≤ found.stop := by
    intro span next sound low high
    refine ⟨sound, by cases seen <;> simp, ?_⟩
    cases seen with
    | none =>
      rintro found same
      cases same
      have here := begins token (unread rfl ▸ shape)
      omega
    | some before =>
      rintro found same
      cases same
      obtain ⟨low', high'⟩ := covers before rfl
      exact ⟨Nat.le_trans (Nat.min_le_left ..) low', Nat.le_trans high' (Nat.le_max_left ..)⟩
  split
  · refine ensures_then (ensures_and (forward_of skipGroup_advances _ sound) skipGroup_first) ?_
    rintro span next ⟨moves, first⟩
    rw [ensures_pure]
    obtain ⟨low, high⟩ := first token shape
    have stop : token.start ≤ token.stop := Nat.le_add_right ..
    cases seen <;> exact extend span next moves.sound low (Nat.le_trans stop high)
  · rw [ensures_pure]
    exact covers
  · refine ensures_then (forward_of bump_advances _ sound) ?_
    intro _ next moves
    rw [ensures_pure]
    cases seen <;> exact extend token.span next moves.sound (Nat.le_refl _) (Nat.le_add_right ..)

/-! ### Type parameters and parameters -/

theorem typeParamName_spec (sound : Sound source cursor) :
    Ensures source cursor typeParamName fun token next => Took source cursor token next ∧ token ∈ cursor.rest.head? := by
  simp only [typeParamName, ensures_bind, ensures_peek?]
  split
  · rename_i token shape
    split
    · refine ensures_then (bump_spec sound) ?_
      rintro taken next ⟨rfl, -, took⟩
      exact ensures_pure.mpr ⟨took token shape, shape⟩
    · exact ensures_fail
  · exact ensures_fail

theorem typeParam_passes (sound : Sound source cursor) :
    Ensures source cursor typeParam fun param next => Passes source cursor next [param.span] := by
  refine ensures_then (forward_of skipVariance_advances _ sound) ?_
  intro _ marked first
  refine ensures_then (here_begins first.sound) ?_
  rintro start _ ⟨rfl, cut, below, begins⟩
  refine ensures_then (typeParamName_spec first.sound) ?_
  rintro name named ⟨took, isFirst⟩
  refine ensures_then (forward_of typeParamKind_advances _ took.sound) ?_
  intro kind shaped second
  refine ensures_then (forward_of (scanUntil_advances _) _ second.sound) ?_
  intro _ next third
  rw [ensures_bind, ensures_lastStop, ensures_pure]
  have reached : start ≤ named.lastStop := begins name isFirst ▸ Nat.le_of_lt took.lt
  have later := second.trans third
  exact (passes_single (took.moves.trans later) (span_since cut below reached later)).after first

theorem typeParams_passes (sound : Sound source cursor) :
    Ensures source cursor typeParams fun found next => Passes source cursor next (found.1.map TypeParam.span) ∧
      Within source cursor.lastStop next.lastStop found.2 := by
  refine ensures_then (expect_spec _ _ sound) ?_
  rintro opening begun ⟨took, -⟩
  refine ensures_iterate (fun params current => Passes source begun current (params.map TypeParam.span))
    (.nil (.refl took.sound)) ?_
  intro params current passed
  refine ensures_then (typeParam_passes passed.moves.sound) ?_
  intro param named single
  have extended : Passes source begun named ((params ++ [param]).map TypeParam.span) := by
    rw [List.map_append]
    exact passed.trans single
  refine ensures_then (forward_of (eats_advances _) _ single.moves.sound) ?_
  intro more separated comma
  split
  · exact ensures_pure.mpr (extended.before comma)
  · refine ensures_then (expect_spec _ _ comma.sound) ?_
    rintro closing next ⟨closed, -⟩
    rw [ensures_pure]
    have moved := (extended.before comma).moves
    exact ⟨((extended.before comma).before closed.moves).after took.moves,
      (took.within.before (moved.trans closed.moves)).cover (closed.within.after (took.moves.trans moved))⟩

theorem paramList_passes (sound : Sound source cursor) :
    Ensures source cursor paramList fun list next => Passes source cursor next [list.span] := by
  refine ensures_then (expect_spec _ _ sound) ?_
  rintro opening begun ⟨took, -⟩
  refine ensures_then (forward_of usingMark_advances _ took.sound) ?_
  intro _ marked first
  refine ensures_then (forward_of (implicitMark_advances _) _ first.sound) ?_
  intro _ marked' second
  refine ensures_then (forward_of params_advances _ second.sound) ?_
  intro _ listed third
  refine ensures_then (expect_spec _ _ third.sound) ?_
  rintro closing next ⟨closed, -⟩
  rw [ensures_pure]
  have moved := first.trans (second.trans third)
  exact passes_single (took.moves.trans (moved.trans closed.moves))
    ((took.within.before (moved.trans closed.moves)).cover (closed.within.after (took.moves.trans moved)))

theorem paramLists_passes (sound : Sound source cursor) :
    Ensures source cursor paramLists fun lists next => Passes source cursor next (lists.map ParamList.span) := by
  refine ensures_iterate (fun lists current => Passes source cursor current (lists.map ParamList.span)) (.nil (.refl sound)) ?_
  intro lists current passed
  rw [ensures_bind, ensures_isAt]
  split
  · refine ensures_then (paramList_passes passed.moves.sound) ?_
    intro list next single
    have extended : Passes source cursor next ((lists ++ [list]).map ParamList.span) := by
      rw [List.map_append]
      exact passed.trans single
    exact ensures_pure.mpr extended
  · exact ensures_pure.mpr passed

theorem methodTypeParams_passes (sound : Sound source cursor) :
    Ensures source cursor methodTypeParams fun found next => Passes source cursor next (found.1.map TypeParam.span) := by
  rw [methodTypeParams, ensures_bind, ensures_isAt]
  split
  · refine ensures_then (typeParams_passes sound) ?_
    rintro ⟨params, span⟩ listed ⟨passed, -⟩
    refine ensures_then (forward_of (groupText_advances _) _ passed.moves.sound) ?_
    intro text next later
    exact ensures_pure.mpr (passed.before later)
  · exact ensures_pure.mpr (.nil (.refl sound))

theorem traitTypeParams_passes (sound : Sound source cursor) :
    Ensures source cursor traitTypeParams fun found next =>
      Passes source cursor next (found.1.map TypeParam.span ++ found.2.toList) := by
  rw [traitTypeParams, ensures_bind, ensures_isAt]
  split
  · refine ensures_then (typeParams_passes sound) ?_
    rintro ⟨params, span⟩ next ⟨passed, within⟩
    exact ensures_pure.mpr ⟨passed.moves, List.forall_mem_append.mpr ⟨passed.within, List.forall_mem_singleton.mpr within⟩⟩
  · exact ensures_pure.mpr (.nil (.refl sound))

/-! ### Methods -/

theorem resultType_passes (sound : Sound source cursor) :
    Ensures source cursor resultType fun result next => Passes source cursor next (resultSpans result) ∧
      Within source result.span.start result.span.stop result.headSpan := by
  refine ensures_then (here_begins sound) ?_
  rintro start cursor ⟨rfl, cut, below, begins⟩
  have ahead : Ahead start cursor := fun token first => Nat.le_of_eq (begins token first).symm
  rw [ensures_bind, ensures_peekKind?]
  split
  · refine ensures_then (path_ahead _ sound ahead) ?_
    rintro ⟨name, headSpan⟩ named ⟨first, within, low, reached⟩
    refine ensures_then (forward_of resultArg_advances _ first.sound) ?_
    intro arg applied second
    refine ensures_then (forward_of (scanUntil_advances _) _ second.sound) ?_
    intro more next third
    simp only [ensures_bind, ensures_lastStop, ensures_read, ensures_pure]
    have later := second.trans third
    refine ⟨⟨first.trans later, ?_⟩, ⟨within.first, within.last, low, within.ordered, Nat.le_trans within.le_high later.forward⟩⟩
    exact List.forall_mem_cons.mpr ⟨span_since cut below reached later, List.forall_mem_singleton.mpr (within.before later)⟩
  · refine ensures_then (ensures_and (scanUntil_spec _ sound) (scanUntil_first _ sound begins)) ?_
    rintro found next ⟨⟨moves, inside⟩, covers⟩
    split
    · exact ensures_fail
    · rename_i span
      simp only [ensures_bind, ensures_read, ensures_pure]
      have within := inside span rfl
      obtain ⟨low, high⟩ := covers span rfl
      refine ⟨⟨moves, List.forall_mem_cons.mpr ⟨within, List.forall_mem_singleton.mpr ?_⟩⟩, ⟨cut, cut, low, Nat.le_refl _, high⟩⟩
      exact ⟨cut, cut, below, Nat.le_refl _, Nat.le_trans high within.le_high⟩

theorem methodResult_passes (sound : Sound source cursor) :
    Ensures source cursor methodResult fun found next => Passes source cursor next (found.toList.flatMap resultSpans) ∧
      ∀ result ∈ found, Within source result.span.start result.span.stop result.headSpan := by
  refine ensures_then (forward_of (eats_advances _) _ sound) ?_
  intro typed colon moved
  split
  · refine ensures_then (resultType_passes moved.sound) ?_
    rintro result next ⟨passed, head⟩
    rw [ensures_pure]
    refine ⟨?_, fun found same => by cases same; exact head⟩
    rw [Option.toList_some, List.flatMap_singleton]
    exact passed.after moved
  · rw [ensures_pure]
    exact ⟨.nil moved, by simp⟩

theorem method_placed (sound : Sound source cursor) :
    Ensures source cursor method fun found next => Passes source cursor next [found.1.span] ∧ MethodPlaced source found.1 := by
  refine ensures_then (expect_spec _ _ sound) ?_
  rintro keyword begun ⟨took, -⟩
  refine ensures_then (forward_of (expectName_advances _) _ took.sound) ?_
  intro name named first
  refine ensures_then (methodTypeParams_passes first.sound) ?_
  rintro ⟨tparams, tparamsText⟩ generic second
  refine ensures_then (paramLists_passes second.moves.sound) ?_
  intro params listed third
  refine ensures_then (methodResult_passes third.moves.sound) ?_
  rintro result typed ⟨fourth, heads⟩
  rw [ensures_bind, ensures_lastStop]
  refine ensures_then (forward_of methodBody_advances _ fourth.moves.sound) ?_
  intro isAbstract next fifth
  rw [ensures_pure]
  have parts := (second.trans (third.trans fourth)).after first
  obtain ⟨whole, width⟩ := keyword_span took parts.moves
  refine ⟨(passes_single (took.moves.trans parts.moves) whole).before fifth, ⟨List.forall_mem_cons.mpr ⟨?_, ?_⟩, heads⟩⟩
  · exact ⟨whole.first, whole.last, Nat.le_refl _, whole.ordered, Nat.le_refl _⟩
  · exact fun span member => (parts.within span member).widen (Nat.le_of_lt took.lt) (Nat.le_refl _)

/-- The methods read so far, one after the other. -/
structure MethodsRead (source : List Char) (low high : Nat) (methods : List Method) : Prop where
  line : InLine source low high (methods.map Method.span)
  each : ∀ method ∈ methods, MethodPlaced source method

theorem MethodsRead.widen (read : MethodsRead source low high methods) (above : high ≤ high') :
    MethodsRead source low high' methods := ⟨read.line.widen (Nat.le_refl _) above, read.each⟩

theorem traitStatement_read (seen : TraitMembers) (sound : Sound source cursor) (below : low ≤ cursor.lastStop)
    (read : MethodsRead source low cursor.lastStop seen.methods) :
    Ensures source cursor (traitStatement seen) fun members next => Moves source cursor next ∧
      MethodsRead source low next.lastStop members.methods := by
  refine ensures_then (forward_of modifiers_advances _ sound) ?_
  intro mods begun first
  have read := read.widen first.forward
  simp only [ensures_bind, ensures_peekKind?]
  split
  · refine ensures_then (method_placed first.sound) ?_
    rintro ⟨method, isAbstract⟩ next ⟨passed, placed⟩
    rw [ensures_pure]
    refine ⟨first.trans passed.moves, ?_⟩
    unfold TraitMembers.addMethod
    split
    · refine ⟨?_, List.forall_mem_append.mpr ⟨read.each, List.forall_mem_singleton.mpr placed⟩⟩
      rw [List.map_append]
      exact read.line.snoc (Nat.le_trans below first.forward) (passed.within _ (List.mem_singleton_self _))
    · exact read.widen passed.moves.forward
  · refine ensures_then (forward_of importClauses_advances _ first.sound) ?_
    intro clauses next second
    exact ensures_pure.mpr ⟨first.trans second, read.widen second.forward⟩
  · refine ensures_then (forward_of skipStatement_advances _ first.sound) ?_
    intro _ next second
    exact ensures_pure.mpr ⟨first.trans second, read.widen second.forward⟩

/-! ### Bodies -/

theorem char_at {token : Token} {c : Char} (stands : Stands source token) (spelled : token.lexeme = [c]) :
    CharAt source token.start c := by
  obtain ⟨left, right, shape, start⟩ := stands.placed
  exact ⟨left, right, by rw [shape, spelled]; rfl, start⟩

theorem openBody_char (sound : Sound source cursor) :
    Ensures source cursor openBody fun openBrace _ => CharAt source openBrace '\x7b' := by
  refine ensures_then (expect_spec _ _ sound) ?_
  rintro brace middle ⟨took, kind⟩
  refine ensures_then (forward_of skipSelfType_advances _ took.sound) ?_
  intro _ next moved
  rw [ensures_pure]
  have spelled := took.stands.spelled
  rw [kind] at spelled
  exact char_at took.stands spelled

theorem closeBody?_char (openBrace : Nat) (sound : Sound source cursor) :
    Ensures source cursor (closeBody? openBrace) fun closed _ => ∀ body ∈ closed, CharAt source body.closeBrace '\x7d' := by
  refine ensures_then (forward_of (eatAll_advances .semi) _ sound) ?_
  intro _ middle moved
  simp only [ensures_bind, ensures_peek?]
  split
  · exact ensures_throw
  rename_i token shape
  split
  · rename_i kind
    refine ensures_then (bump_spec moved.sound) ?_
    rintro taken next ⟨same, later, took⟩
    rw [ensures_pure]
    rintro body ⟨⟩
    have stands := (took token (same.trans shape)).stands
    have spelled := stands.spelled
    rw [kind] at spelled
    exact char_at stands spelled
  · exact ensures_pure.mpr fun body found => by cases found

/-- A body with its braces, read from one cursor to another. -/
structure BodyBraced (source : List Char) (cursor next : Cursor) (body : Body) : Prop where
  moves : Moves source cursor next
  opened : CharAt source body.openBrace '\x7b'
  closed : CharAt source body.closeBrace '\x7d'
  low_le : cursor.lastStop ≤ body.openBrace
  ordered : body.openBrace < body.closeBrace
  last : body.closeBrace + 1 = next.lastStop
  within : Within source cursor.lastStop next.lastStop body.span

/-- Statements between braces: what each of them keeps holds of all. -/
theorem body_braced (step : σ → Parser σ) (state : σ) (invariant : Nat → Nat → σ → Prop)
    (start : ∀ low high, invariant low high state)
    (widen : ∀ {low high high' state}, invariant low high state → high ≤ high' → invariant low high' state)
    (kept : ∀ {current : Cursor} {low state}, Sound source current → low ≤ current.lastStop →
      invariant low current.lastStop state → Ensures source current (step state) fun later next =>
        Moves source current next ∧ invariant low next.lastStop later)
    (sound : Sound source cursor) :
    Ensures source cursor (do
      let openBrace ← openBody
      iterate (fun (seen : σ) => do
        match ← closeBody? openBrace with
        | some body => return .done (seen, body)
        | none => return .again (← step seen)) state) fun found next =>
      BodyBraced source cursor next found.2 ∧ invariant (found.2.openBrace + 1) found.2.closeBrace found.1 := by
  refine ensures_then (ensures_and (openBody_spec sound) (openBody_char sound)) ?_
  rintro openBrace begun ⟨⟨first, low, opened, after⟩, char⟩
  refine ensures_iterate (fun seen current => Moves source begun current ∧ invariant (openBrace + 1) current.lastStop seen)
    ⟨.refl first.sound, start _ _⟩ ?_
  rintro seen current ⟨moved, holds⟩
  have below := Nat.le_trans after moved.forward
  refine ensures_then (ensures_and (closeBody?_spec openBrace moved.sound) (closeBody?_char openBrace moved.sound)) ?_
  rintro closed next ⟨⟨later, ends⟩, char'⟩
  cases closed with
  | some body =>
    obtain ⟨rfl, cut, above, last⟩ := ends body rfl
    rw [ensures_pure]
    have whole := first.trans (moved.trans later)
    have ordered : body.openBrace < body.closeBrace := Nat.le_trans below above
    obtain ⟨left, right, shape, place⟩ := char
    refine ⟨⟨whole, ⟨left, right, shape, place⟩, char' body rfl, low, ordered, last, ⟨left, _, shape, place⟩, ?_, low, ?_, ?_⟩,
      widen holds above⟩
    · rw [Body.span, last]
      exact whole.sound.cut
    · exact Nat.le_succ_of_le (Nat.le_of_lt ordered)
    · exact Nat.le_of_eq last
  | none =>
    refine ensures_then (kept later.sound (Nat.le_trans below later.forward) (widen holds later.forward)) ?_
    rintro members final ⟨statement, extended⟩
    exact ensures_pure.mpr ⟨moved.trans (later.trans statement), extended⟩

theorem traitBody_braced (sound : Sound source cursor) :
    Ensures source cursor traitBody fun found next => BodyBraced source cursor next found.2 ∧
      MethodsRead source (found.2.openBrace + 1) found.2.closeBrace found.1.methods :=
  body_braced traitStatement ⟨[], false⟩
    (fun low high (seen : TraitMembers) => MethodsRead source low high seen.methods)
    (fun _ _ => ⟨.nil, by simp⟩) (fun read above => read.widen above)
    (fun sound below read => traitStatement_read _ sound below read) sound

/-! ### Traits -/

theorem MethodsRead.placed {body : Body} (read : MethodsRead source (body.openBrace + 1) body.closeBrace methods) :
    MethodsPlaced source (some body) methods := by
  refine ⟨read.each, fun method member => ⟨body, rfl, ?_⟩, read.line.ordered⟩
  have within := read.line.within _ (List.mem_map_of_mem member)
  exact ⟨within.low_le, within.le_high⟩

theorem optionalTraitBody_placed (sound : Sound source cursor) :
    Ensures source cursor optionalTraitBody fun found next => Moves source cursor next ∧
      (∀ body ∈ found.2, BodyBraced source cursor next body) ∧ MethodsPlaced source found.2 found.1.methods := by
  simp only [optionalTraitBody, ensures_bind, ensures_isAt]
  split
  · refine ensures_then (traitBody_braced sound) ?_
    rintro ⟨members, body⟩ next ⟨braced, read⟩
    rw [ensures_pure]
    exact ⟨braced.moves, fun found same => by cases same; exact braced, read.placed⟩
  · rw [ensures_pure]
    exact ⟨.refl sound, by simp, by simp, by simp, .nil⟩

/-- A body read behind a keyword is the end of what the keyword begins. -/
theorem BodyBraced.braced {body : Body} (read : BodyBraced source middle next body) (start : Nat) :
    Braced source ⟨start, next.lastStop⟩ body := ⟨read.opened, read.closed, read.ordered, read.last.symm⟩

/-- The spans of methods lie inside the braces. -/
theorem MethodsPlaced.within {body : Option Body} (placed : MethodsPlaced source body methods)
    (braced : ∀ braces ∈ body, BodyBraced source cursor next braces) :
    ∀ span ∈ methods.flatMap methodSpans, Within source cursor.lastStop next.lastStop span := by
  intro span member
  obtain ⟨method, listed, part⟩ := List.mem_flatMap.mp member
  obtain ⟨braces, found, low, high⟩ := placed.line method listed
  have read := braced braces found
  have bounds := read.low_le
  have bounds' := read.last
  exact ((placed.each method listed).parts span part).widen (by omega) (by omega)

theorem interface_placed (sound : Sound source cursor) :
    Ensures source cursor interface fun found next => Moves source cursor next ∧
      Within source cursor.lastStop next.lastStop found.span ∧ found.span.stop = next.lastStop ∧
      (∀ token ∈ cursor.rest.head?, found.span.start = token.start) ∧ TraitPlaced source found := by
  refine ensures_then (ensures_and (expect_spec _ _ sound) (expect_first _ _)) ?_
  rintro keyword begun ⟨⟨took, -⟩, isFirst⟩
  refine ensures_then (expectName_spec _ took.sound) ?_
  intro name named first
  refine ensures_then (traitTypeParams_passes first.sound) ?_
  rintro ⟨tparams, tparamsSpan⟩ generic second
  refine ensures_then (forward_of (skipGroups_advances _) _ second.moves.sound) ?_
  intro _ constructed third
  refine ensures_then (extendsClause_spec third.sound) ?_
  rintro parents extended ⟨fourth, line⟩
  refine ensures_then (optionalTraitBody_placed fourth.sound) ?_
  rintro ⟨members, body⟩ next ⟨fifth, bodies, methods⟩
  rw [ensures_bind, ensures_lastStop, ensures_pure]
  have front : Passes source begun extended (name.span :: (tparams.map TypeParam.span ++ tparamsSpan.toList ++
      parents.map Parent.span)) :=
    (passes_single first.moves first.within).trans ((second.before third).trans ⟨fourth, line.within⟩)
  have inside : Passes source extended next (members.methods.flatMap methodSpans ++ bodySpans body) := by
    refine ⟨fifth, List.forall_mem_append.mpr ⟨methods.within bodies, fun span member => ?_⟩⟩
    obtain ⟨braces, found, rfl⟩ := List.mem_map.mp member
    exact (bodies braces (Option.mem_toList.mp found)).within
  have parts := front.trans inside
  obtain ⟨whole, width⟩ := keyword_span took parts.moves
  refine ⟨took.moves.trans parts.moves, whole, rfl, fun token head => ?_, width, List.forall_mem_cons.mpr ⟨?_, ?_⟩,
    fun found member => (bodies found member).braced _, methods⟩
  · rw [Option.mem_unique head isFirst]
  · exact ⟨whole.first, whole.last, Nat.le_refl _, whole.ordered, Nat.le_refl _⟩
  · intro span member
    refine (parts.within span ?_).widen (Nat.le_of_lt took.lt) (Nat.le_refl _)
    simpa only [List.cons_append, List.append_assoc] using member

end KindLift.TraitSpans
