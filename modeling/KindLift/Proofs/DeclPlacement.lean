import KindLift.Decl.Outline
import KindLift.Proofs.CursorPlacement
import KindLift.Proofs.Traversal

/-! Where the declarations of a source text stand. They follow one another
without touching, bodies are enclosed by their braces, and everything that edits
are made of addresses characters of the source. -/
namespace KindLift.DeclPlacement
open KindLift.Parser Text TextBoundary TokenPlacement ParserLogic CursorAdvance CursorPlacement

/-- The spans lie between two offsets one after the other. -/
structure InLine (source : List Char) (low high : Nat) (spans : List Span) : Prop where
  within : ∀ span ∈ spans, Within source low high span
  ordered : spans.Pairwise fun a b => a.stop ≤ b.start

variable {source : List Char} {cursor : Cursor} {low middle high : Nat} {spans : List Span}

theorem InLine.nil : InLine source low high [] := ⟨by simp, .nil⟩

theorem InLine.widen (line : InLine source low high spans) (below : low' ≤ low)
    (above : high ≤ high') : InLine source low' high' spans :=
  ⟨fun span member => (line.within span member).widen below above, line.ordered⟩

/-- A span behind all others comes last. -/
theorem InLine.snoc (line : InLine source low middle spans) (lower : low ≤ middle)
    (last : Within source middle high span) : InLine source low high (spans ++ [span]) := by
  have upper : middle ≤ high := Nat.le_trans last.low_le (Nat.le_trans last.ordered last.le_high)
  constructor
  · intro found member
    rcases List.mem_append.mp member with earlier | same
    · exact (line.within found earlier).widen (Nat.le_refl _) upper
    · rw [List.mem_singleton.mp same]
      exact last.widen lower (Nat.le_refl _)
  · refine List.pairwise_append.mpr ⟨line.ordered, List.pairwise_singleton _ _, ?_⟩
    intro earlier member found same
    rw [List.mem_singleton.mp same]
    exact Nat.le_trans (line.within earlier member).le_high last.low_le

/-- The first span begins where the last one ends, or before. -/
theorem InLine.head_le_last (line : InLine source low high spans) (head : spans.head? = some first)
    (last : spans.getLast? = some final) :
    Cut source first.start ∧ Cut source final.stop ∧ first.start ≤ final.stop := by
  have firstWithin := line.within first (List.mem_of_head? head)
  have lastWithin := line.within final (List.mem_of_getLast? last)
  refine ⟨firstWithin.first, lastWithin.last, ?_⟩
  cases spans with
  | nil => cases head
  | cons span rest =>
    cases head
    cases rest with
    | nil =>
      cases last
      exact firstWithin.ordered
    | cons next others =>
      have member : final ∈ next :: others := by
        rw [List.getLast?_cons_cons] at last
        exact List.mem_of_getLast? last
      have order := (List.pairwise_cons.mp line.ordered).1 final member
      exact Nat.le_trans firstWithin.ordered (Nat.le_trans order lastWithin.ordered)

/-- The heads of result types that are not empty, in the order of the methods. -/
def headSpans (methods : List Method) : List Span :=
  ((methods.filterMap Method.result).map ResultType.headSpan).filter fun span => span.start < span.stop

/-- The braces of a body stand inside a span that ends with the closing one. -/
structure BodyPlaced (source : List Char) (span : Span) (body : Body) : Prop where
  inside : span.start < body.openBrace
  opened : Cut source (body.openBrace + 1)
  closed : Cut source body.closeBrace
  ordered : body.openBrace + 1 ≤ body.closeBrace
  last : body.closeBrace + 1 = span.stop

/-- The parents and the body of a trait, with the heads of its result types. -/
structure InterfacePlaced (source : List Char) (interface : Interface) : Prop where
  parents : ∃ low high, InLine source low high (interface.parents.map Parent.span)
  body : ∀ body ∈ interface.body, BodyPlaced source interface.span body ∧
    InLine source (body.openBrace + 1) body.closeBrace (headSpans interface.methods)

/-- The body and the members of an object. -/
structure HolderPlaced (source : List Char) (holder : Holder) : Prop where
  body : ∀ body ∈ holder.body, BodyPlaced source holder.span body
  members : ∀ member ∈ holder.members, Cut source member.span.start

/-- The parts of a declaration. -/
def PartsPlaced (source : List Char) : Decl → Prop
  | .interface interface => InterfacePlaced source interface
  | .holder holder => HolderPlaced source holder
  | .other _ => True

/-- The declarations of an outline stand in line, its imports end outside of
them, and its package clause ends in front of them. -/
structure OutlinePlaced (source : List Char) (high : Nat) (outline : Outline) : Prop where
  line : InLine source 0 high (outline.decls.map Decl.span)
  width : ∀ decl ∈ outline.decls, decl.span.start < decl.span.stop
  parts : ∀ decl ∈ outline.decls, PartsPlaced source decl
  imports : ∀ clause ∈ outline.imports, Cut source clause.span.stop ∧ clause.span.stop ≤ high ∧
    ∀ decl ∈ outline.decls, clause.span.stop ≤ decl.span.start ∨ decl.span.stop < clause.span.stop
  package : ∀ clause ∈ outline.package, Cut source clause.span.stop ∧ clause.span.stop ≤ high ∧
    ∀ decl ∈ outline.decls, clause.span.stop ≤ decl.span.start

/-- An import clause ends with the last token read. -/
theorem importClause_spec (start : Nat) (sound : Sound source cursor) :
    Ensures source cursor (importClause start) fun clause next =>
      Moves source cursor next ∧ clause.span.stop = next.lastStop := by
  refine ensures_then (expectName_spec _ sound) ?_
  intro first named took
  refine ensures_then (forward_of (Advances.again importStep_advances) named took.sound) ?_
  rintro ⟨segments, selectors⟩ next moved
  rw [ensures_bind, ensures_lastStop, ensures_pure]
  exact ⟨took.moves.trans moved, rfl⟩

/-- Every clause of an import ends behind the keyword. -/
theorem importClauses_spec (sound : Sound source cursor) :
    Ensures source cursor importClauses fun clauses next => Moves source cursor next ∧
      ∀ clause ∈ clauses, Cut source clause.span.stop ∧ cursor.lastStop < clause.span.stop ∧
        clause.span.stop ≤ next.lastStop := by
  refine ensures_then (expect_spec _ _ sound) ?_
  rintro keyword begun ⟨took, -⟩
  refine ensures_iterate (fun state current => Moves source begun current ∧
    ∀ clause ∈ state.2, Cut source clause.span.stop ∧ cursor.lastStop < clause.span.stop ∧
      clause.span.stop ≤ current.lastStop) ⟨.refl took.sound, by simp⟩ ?_
  rintro ⟨start, clauses⟩ current ⟨moved, placed⟩
  refine ensures_then (importClause_spec start moved.sound) ?_
  rintro clause ended ⟨later, stop⟩
  have behind : cursor.lastStop < clause.span.stop := by
    have := took.low_le
    have := took.lt
    have := moved.forward
    have := later.forward
    omega
  have extended : ∀ found ∈ clauses ++ [clause], Cut source found.span.stop ∧
      cursor.lastStop < found.span.stop ∧ found.span.stop ≤ ended.lastStop := by
    intro found member
    rcases List.mem_append.mp member with earlier | same
    · obtain ⟨cut, above, below⟩ := placed found earlier
      exact ⟨cut, above, Nat.le_trans below later.forward⟩
    · rw [List.mem_singleton.mp same, stop]
      exact ⟨later.sound.cut, stop ▸ behind, Nat.le_refl _⟩
  refine ensures_then (forward_of (eats_advances .comma) _ later.sound) ?_
  intro more next comma
  have final : ∀ found ∈ clauses ++ [clause], Cut source found.span.stop ∧
      cursor.lastStop < found.span.stop ∧ found.span.stop ≤ next.lastStop := fun found member =>
    ⟨(extended found member).1, (extended found member).2.1,
      Nat.le_trans (extended found member).2.2 comma.forward⟩
  have moved := moved.trans (later.trans comma)
  split
  · refine ensures_then (here_spec comma.sound) ?_
    rintro offset _ ⟨rfl, -⟩
    rw [ensures_pure]
    exact ⟨moved, final⟩
  · rw [ensures_pure]
    exact ⟨took.moves.trans moved, final⟩

theorem parentTypeArgs_spec {span : Span} (sound : Sound source cursor) (below : low ≤ cursor.lastStop)
    (within : Within source low cursor.lastStop span) :
    Ensures source cursor (parentTypeArgs span) fun found next =>
      Moves source cursor next ∧ Within source low next.lastStop found.2 := by
  simp only [parentTypeArgs, ensures_bind, ensures_isAt]
  split
  · refine ensures_then (skipGroup_spec sound) ?_
    rintro group next ⟨moved, inside⟩
    refine ensures_then (forward_of (groupText_advances group) next moved.sound) ?_
    intro text last later
    rw [ensures_pure]
    exact ⟨moved.trans later,
      ((within.before moved).cover (inside.widen below (Nat.le_refl _))).before later⟩
  · rw [ensures_pure]
    exact ⟨.refl sound, within⟩

theorem parentArgs_spec {span : Span} (sound : Sound source cursor) (below : low ≤ cursor.lastStop)
    (within : Within source low cursor.lastStop span) :
    Ensures source cursor (parentArgs span) fun found next =>
      Moves source cursor next ∧ Within source low next.lastStop found := by
  refine ensures_iterate (fun found current =>
    Moves source cursor current ∧ Within source low current.lastStop found)
    ⟨.refl sound, within⟩ ?_
  rintro span current ⟨moved, within⟩
  simp only [ensures_bind, ensures_isAt]
  split
  · refine ensures_then (skipGroup_spec moved.sound) ?_
    rintro group next ⟨later, inside⟩
    rw [ensures_pure]
    exact ⟨moved.trans later, (within.before later).cover
      (inside.widen (Nat.le_trans below moved.forward) (Nat.le_refl _))⟩
  · rw [ensures_pure]
    exact ⟨moved, within⟩

theorem parent_spec (sound : Sound source cursor) :
    Ensures source cursor parent fun found next =>
      Moves source cursor next ∧ Within source cursor.lastStop next.lastStop found.span := by
  refine ensures_then (path_spec _ sound) ?_
  rintro ⟨name, span⟩ named ⟨first, within⟩
  refine ensures_then (parentTypeArgs_spec first.sound first.forward within) ?_
  rintro ⟨typeArgs, span⟩ applied ⟨second, within⟩
  have forward := first.trans second
  refine ensures_then (parentArgs_spec second.sound forward.forward within) ?_
  rintro span next ⟨third, within⟩
  rw [ensures_pure]
  exact ⟨forward.trans third, within⟩

theorem parents_spec (sound : Sound source cursor) :
    Ensures source cursor parents fun found next => Moves source cursor next ∧
      InLine source cursor.lastStop next.lastStop (found.map Parent.span) := by
  refine ensures_iterate (fun found current => Moves source cursor current ∧
    InLine source cursor.lastStop current.lastStop (found.map Parent.span)) ⟨.refl sound, .nil⟩ ?_
  rintro seen current ⟨moved, line⟩
  refine ensures_then (parent_spec moved.sound) ?_
  rintro found named ⟨later, within⟩
  have extended : InLine source cursor.lastStop named.lastStop ((seen ++ [found]).map Parent.span) := by
    rw [List.map_append]
    exact line.snoc moved.forward within
  have moved := moved.trans later
  refine ensures_then (forward_of (eats_advances _) _ later.sound) ?_
  intro with' joined first
  have extended := extended.widen (Nat.le_refl _) first.forward
  have moved := moved.trans first
  split
  · rw [ensures_pure]
    exact ⟨moved, extended⟩
  refine ensures_then (forward_of (eats_advances _) _ first.sound) ?_
  intro comma next second
  have extended := extended.widen (Nat.le_refl _) second.forward
  have moved := moved.trans second
  split <;>
  · rw [ensures_pure]
    exact ⟨moved, extended⟩

theorem extendsClause_spec (sound : Sound source cursor) :
    Ensures source cursor extendsClause fun found next => Moves source cursor next ∧
      InLine source cursor.lastStop next.lastStop (found.map Parent.span) := by
  refine ensures_then (forward_of (eats_advances _) _ sound) ?_
  intro extended next moved
  split
  · refine ensures_mono (parents_spec moved.sound) ?_
    rintro found last ⟨later, line⟩
    exact ⟨moved.trans later, line.widen moved.forward (Nat.le_refl _)⟩
  · rw [ensures_pure]
    exact ⟨moved, .nil⟩

/-- The head of a result type, unless it is empty, lies between two offsets. -/
def HeadWithin (source : List Char) (low high : Nat) (result : ResultType) : Prop :=
  result.headSpan.start < result.headSpan.stop → Within source low high result.headSpan

theorem HeadWithin.widen (head : HeadWithin source low high result) (below : low' ≤ low)
    (above : high ≤ high') : HeadWithin source low' high' result :=
  fun nonempty => (head nonempty).widen below above

theorem namedResult_spec (start : Nat) (sound : Sound source cursor) :
    Ensures source cursor (namedResult start) fun result next => Moves source cursor next ∧
      HeadWithin source cursor.lastStop next.lastStop result := by
  refine ensures_then (path_spec _ sound) ?_
  rintro ⟨name, headSpan⟩ named ⟨first, within⟩
  refine ensures_then (forward_of resultArg_advances _ first.sound) ?_
  intro arg applied second
  refine ensures_then (forward_of (scanUntil_advances _) _ second.sound) ?_
  intro more ended third
  simp only [ensures_bind, ensures_lastStop, ensures_read, ensures_pure]
  exact ⟨first.trans (second.trans third), fun _ => within.before (second.trans third)⟩

theorem otherResult_spec (start : Nat) (sound : Sound source cursor) :
    Ensures source cursor (otherResult start) fun result next => Moves source cursor next ∧
      HeadWithin source cursor.lastStop next.lastStop result := by
  refine ensures_then (forward_of (scanUntil_advances _) _ sound) ?_
  intro found next moved
  split
  · exact ensures_fail
  · simp only [ensures_bind, ensures_read, ensures_pure]
    exact ⟨moved, fun nonempty => absurd nonempty (Nat.lt_irrefl _)⟩

theorem resultType_spec (sound : Sound source cursor) :
    Ensures source cursor resultType fun result next => Moves source cursor next ∧
      HeadWithin source cursor.lastStop next.lastStop result := by
  refine ensures_then (here_spec sound) ?_
  rintro start _ ⟨rfl, -⟩
  simp only [ensures_bind, ensures_peekKind?]
  split
  · exact namedResult_spec start sound
  · exact otherResult_spec start sound

theorem methodResult_spec (sound : Sound source cursor) :
    Ensures source cursor methodResult fun found next => Moves source cursor next ∧
      ∀ result ∈ found, HeadWithin source cursor.lastStop next.lastStop result := by
  refine ensures_then (forward_of (eats_advances _) _ sound) ?_
  intro typed colon moved
  split
  · refine ensures_then (resultType_spec moved.sound) ?_
    rintro result next ⟨later, head⟩
    rw [ensures_pure]
    refine ⟨moved.trans later, ?_⟩
    intro found same
    cases same
    exact head.widen moved.forward (Nat.le_refl _)
  · rw [ensures_pure]
    exact ⟨moved, by simp⟩

theorem method_spec (sound : Sound source cursor) :
    Ensures source cursor method fun found next => Moves source cursor next ∧
      ∀ result ∈ found.1.result, HeadWithin source cursor.lastStop next.lastStop result := by
  refine ensures_then (forward_of (expect_advances _ _) _ sound) ?_
  intro keyword begun first
  refine ensures_then (forward_of (expectName_advances _) _ first.sound) ?_
  intro name named second
  refine ensures_then (forward_of methodTypeParams_advances _ second.sound) ?_
  rintro ⟨tparams, tparamsText⟩ generic third
  refine ensures_then (forward_of paramLists_advances _ third.sound) ?_
  intro params listed fourth
  have before := first.trans (second.trans (third.trans fourth))
  refine ensures_then (methodResult_spec fourth.sound) ?_
  rintro result typed ⟨fifth, heads⟩
  rw [ensures_bind, ensures_lastStop]
  refine ensures_then (forward_of methodBody_advances _ fifth.sound) ?_
  intro isAbstract next sixth
  rw [ensures_pure]
  refine ⟨before.trans (fifth.trans sixth), ?_⟩
  intro found member
  exact (heads found member).widen before.forward sixth.forward

theorem headSpans_append (methods : List Method) (method : Method) :
    headSpans (methods ++ [method]) = headSpans methods ++ headSpans [method] := by
  simp [headSpans, List.filterMap_append]

/-- A method behind all others keeps the heads in line. -/
theorem headSpans_snoc {method : Method} (line : InLine source low middle (headSpans methods)) (lower : low ≤ middle)
    (upper : middle ≤ high) (heads : ∀ result ∈ method.result, HeadWithin source middle high result) :
    InLine source low high (headSpans (methods ++ [method])) := by
  rw [headSpans_append]
  cases result : method.result with
  | none =>
    simp only [headSpans, result, List.filterMap_cons, List.filterMap_nil, List.map_nil,
      List.filter_nil, List.append_nil]
    exact line.widen (Nat.le_refl _) upper
  | some found =>
    by_cases nonempty : found.headSpan.start < found.headSpan.stop
    · have single : headSpans [method] = [found.headSpan] := by
        simp [headSpans, result, nonempty]
      rw [single]
      exact line.snoc lower (heads found result nonempty)
    · have empty : headSpans [method] = [] := by simp [headSpans, result, nonempty]
      rw [empty, List.append_nil]
      exact line.widen (Nat.le_refl _) upper

theorem traitStatement_spec (seen : TraitMembers) (sound : Sound source cursor)
    (below : low ≤ cursor.lastStop) (line : InLine source low cursor.lastStop (headSpans seen.methods)) :
    Ensures source cursor (traitStatement seen) fun members next => Moves source cursor next ∧
      InLine source low next.lastStop (headSpans members.methods) := by
  refine ensures_then (forward_of modifiers_advances _ sound) ?_
  intro mods begun first
  have line := line.widen (Nat.le_refl _) first.forward
  have below := Nat.le_trans below first.forward
  simp only [ensures_bind, ensures_peekKind?]
  split
  · refine ensures_then (method_spec first.sound) ?_
    rintro ⟨method, isAbstract⟩ next ⟨second, heads⟩
    rw [ensures_pure]
    refine ⟨first.trans second, ?_⟩
    unfold TraitMembers.addMethod
    split
    · exact headSpans_snoc line below second.forward heads
    · exact line.widen (Nat.le_refl _) second.forward
  · refine ensures_then (forward_of importClauses_advances _ first.sound) ?_
    intro clauses next second
    rw [ensures_pure]
    exact ⟨first.trans second, line.widen (Nat.le_refl _) second.forward⟩
  · refine ensures_then (forward_of skipStatement_advances _ first.sound) ?_
    intro _ next second
    rw [ensures_pure]
    exact ⟨first.trans second, line.widen (Nat.le_refl _) second.forward⟩

/-- A body that begins with the next token and ends with the last one read. -/
structure BodyRead (source : List Char) (cursor next : Cursor) (body : Body) : Prop where
  low_le : cursor.lastStop ≤ body.openBrace
  opened : Cut source (body.openBrace + 1)
  closed : Cut source body.closeBrace
  ordered : body.openBrace + 1 ≤ body.closeBrace
  last : body.closeBrace + 1 = next.lastStop

/-- The heads of the methods of a trait's body stand in line between the braces. -/
theorem traitBody_spec (sound : Sound source cursor) :
    Ensures source cursor traitBody fun found next => Moves source cursor next ∧
      BodyRead source cursor next found.2 ∧
      InLine source (found.2.openBrace + 1) found.2.closeBrace (headSpans found.1.methods) := by
  refine ensures_then (openBody_spec sound) ?_
  rintro openBrace begun ⟨first, low, opened, after⟩
  refine ensures_iterate (fun seen current => Moves source begun current ∧
    InLine source (openBrace + 1) current.lastStop (headSpans seen.methods))
    ⟨.refl first.sound, .nil⟩ ?_
  rintro seen current ⟨moved, line⟩
  have below := Nat.le_trans after moved.forward
  refine ensures_then (closeBody?_spec openBrace moved.sound) ?_
  rintro closed next ⟨later, ends⟩
  cases closed with
  | some body =>
    obtain ⟨rfl, cut, above, last⟩ := ends body rfl
    rw [ensures_pure]
    exact ⟨first.trans (moved.trans later), ⟨low, opened, cut, Nat.le_trans below above, last⟩,
      line.widen (Nat.le_refl _) above⟩
  | none =>
    refine ensures_then (traitStatement_spec seen later.sound (Nat.le_trans below later.forward)
      (line.widen (Nat.le_refl _) later.forward)) ?_
    rintro members final ⟨statement, extended⟩
    rw [ensures_pure]
    exact ⟨moved.trans (later.trans statement), extended⟩

theorem optionalTraitBody_spec (sound : Sound source cursor) :
    Ensures source cursor optionalTraitBody fun found next => Moves source cursor next ∧
      ∀ body ∈ found.2, BodyRead source cursor next body ∧
        InLine source (body.openBrace + 1) body.closeBrace (headSpans found.1.methods) := by
  simp only [optionalTraitBody, ensures_bind, ensures_isAt]
  split
  · refine ensures_then (traitBody_spec sound) ?_
    rintro ⟨members, body⟩ next ⟨moved, read, line⟩
    rw [ensures_pure]
    refine ⟨moved, ?_⟩
    intro found same
    cases same
    exact ⟨read, line⟩
  · rw [ensures_pure]
    exact ⟨.refl sound, by simp⟩

/-- What begins with a keyword ends with the last token read. -/
theorem keyword_span {keyword : Token} {begun next : Cursor} (took : Took source cursor keyword begun)
    (moved : Moves source begun next) :
    Within source cursor.lastStop next.lastStop ⟨keyword.start, next.lastStop⟩ ∧
      keyword.start < next.lastStop := by
  have width := Nat.lt_of_lt_of_le took.lt moved.forward
  exact ⟨⟨start_cut took.stands, moved.sound.cut, took.low_le, Nat.le_of_lt width, Nat.le_refl _⟩,
    width⟩

theorem BodyRead.placed {keyword : Token} {begun extended next : Cursor} {body : Body}
    (read : BodyRead source extended next body) (took : Took source cursor keyword begun)
    (moved : Moves source begun extended) : BodyPlaced source ⟨keyword.start, next.lastStop⟩ body :=
  ⟨Nat.lt_of_lt_of_le took.lt (Nat.le_trans moved.forward read.low_le), read.opened, read.closed,
    read.ordered, read.last⟩

theorem interface_spec (sound : Sound source cursor) :
    Ensures source cursor interface fun found next => Moves source cursor next ∧
      Within source cursor.lastStop next.lastStop found.span ∧
      found.span.start < found.span.stop ∧ InterfacePlaced source found := by
  refine ensures_then (expect_spec _ _ sound) ?_
  rintro keyword begun ⟨took, -⟩
  refine ensures_then (forward_of (expectName_advances _) _ took.sound) ?_
  intro name named first
  refine ensures_then (forward_of traitTypeParams_advances _ first.sound) ?_
  rintro ⟨tparams, tparamsSpan⟩ generic second
  refine ensures_then (forward_of (skipGroups_advances _) _ second.sound) ?_
  intro _ constructed third
  refine ensures_then (extendsClause_spec third.sound) ?_
  rintro parents extended ⟨fourth, line⟩
  have toBody := first.trans (second.trans (third.trans fourth))
  refine ensures_then (optionalTraitBody_spec fourth.sound) ?_
  rintro ⟨members, body⟩ next ⟨fifth, bodies⟩
  rw [ensures_bind, ensures_lastStop, ensures_pure]
  obtain ⟨within, width⟩ := keyword_span took (toBody.trans fifth)
  refine ⟨took.moves.trans (toBody.trans fifth), within, width, ⟨_, _, line⟩, ?_⟩
  intro found member
  obtain ⟨read, heads⟩ := bodies found member
  exact ⟨read.placed took toBody, heads⟩

/-- Members begin at boundaries of the source. -/
def MembersPlaced (source : List Char) (members : List Member) : Prop :=
  ∀ member ∈ members, Cut source member.span.start

theorem MembersPlaced.snoc (placed : MembersPlaced source members)
    (cut : Cut source member.span.start) : MembersPlaced source (members ++ [member]) := by
  intro found listed
  rcases List.mem_append.mp listed with earlier | same
  · exact placed found earlier
  · rw [List.mem_singleton.mp same]
    exact cut

theorem holderStatement_spec (start : Nat) (seen : HolderMembers) (sound : Sound source cursor)
    (cut : Cut source start) (placed : MembersPlaced source seen.members) :
    Ensures source cursor (holderStatement start seen) fun found next =>
      Moves source cursor next ∧ MembersPlaced source found.members := by
  refine ensures_then (forward_of modifiers_advances _ sound) ?_
  intro mods begun first
  simp only [ensures_bind, ensures_peekKind?]
  split
  · refine ensures_then (interface_spec first.sound) ?_
    rintro nested next ⟨second, -⟩
    rw [ensures_bind, ensures_lastStop, ensures_pure]
    exact ⟨first.trans second, placed.snoc cut⟩
  · refine ensures_then (forward_of importClauses_advances _ first.sound) ?_
    intro clauses next second
    rw [ensures_pure]
    exact ⟨first.trans second, placed⟩
  · split
    · refine ensures_then (forward_of namedStatement_advances _ first.sound) ?_
      intro name next second
      rw [ensures_bind, ensures_lastStop, ensures_pure]
      refine ⟨first.trans second, ?_⟩
      unfold HolderMembers.addMember
      split
      · exact placed.snoc cut
      · exact placed
    · refine ensures_then (forward_of skipStatement_advances _ first.sound) ?_
      intro _ next second
      rw [ensures_pure]
      exact ⟨first.trans second, placed⟩
  · refine ensures_then (forward_of skipStatement_advances _ first.sound) ?_
    intro _ next second
    rw [ensures_pure]
    exact ⟨first.trans second, placed⟩

theorem holderBody_spec (sound : Sound source cursor) :
    Ensures source cursor holderBody fun found next => Moves source cursor next ∧
      BodyRead source cursor next found.2 ∧ MembersPlaced source found.1.members := by
  refine ensures_then (openBody_spec sound) ?_
  rintro openBrace begun ⟨first, low, opened, after⟩
  refine ensures_iterate (fun seen current => Moves source begun current ∧
    MembersPlaced source seen.members) ⟨.refl first.sound, by simp [MembersPlaced]⟩ ?_
  rintro seen current ⟨moved, placed⟩
  have below := Nat.le_trans after moved.forward
  refine ensures_then (closeBody?_spec openBrace moved.sound) ?_
  rintro closed next ⟨later, ends⟩
  cases closed with
  | some body =>
    obtain ⟨rfl, cut, above, last⟩ := ends body rfl
    rw [ensures_pure]
    exact ⟨first.trans (moved.trans later), ⟨low, opened, cut, Nat.le_trans below above, last⟩, placed⟩
  | none =>
    refine ensures_then (here_spec later.sound) ?_
    rintro start _ ⟨rfl, cut⟩
    refine ensures_then (holderStatement_spec start seen later.sound cut placed) ?_
    rintro members final ⟨statement, extended⟩
    rw [ensures_pure]
    exact ⟨moved.trans (later.trans statement), extended⟩

theorem optionalHolderBody_spec (sound : Sound source cursor) :
    Ensures source cursor optionalHolderBody fun found next => Moves source cursor next ∧
      (∀ body ∈ found.2, BodyRead source cursor next body) ∧ MembersPlaced source found.1.members := by
  simp only [optionalHolderBody, ensures_bind, ensures_isAt]
  split
  · refine ensures_then (holderBody_spec sound) ?_
    rintro ⟨members, body⟩ next ⟨moved, read, placed⟩
    rw [ensures_pure]
    refine ⟨moved, ?_, placed⟩
    intro found same
    cases same
    exact read
  · rw [ensures_pure]
    exact ⟨.refl sound, by simp, by simp [MembersPlaced]⟩

theorem holder_spec (sound : Sound source cursor) :
    Ensures source cursor holder fun found next => Moves source cursor next ∧
      Within source cursor.lastStop next.lastStop found.span ∧
      found.span.start < found.span.stop ∧ HolderPlaced source found := by
  refine ensures_then (expect_spec _ _ sound) ?_
  rintro keyword begun ⟨took, -⟩
  refine ensures_then (forward_of (expectName_advances _) _ took.sound) ?_
  intro name named first
  refine ensures_then (extendsClause_spec first.sound) ?_
  rintro _ extended ⟨second, -⟩
  have toBody := first.trans second
  refine ensures_then (optionalHolderBody_spec second.sound) ?_
  rintro ⟨members, body⟩ next ⟨third, bodies, placed⟩
  rw [ensures_bind, ensures_lastStop, ensures_pure]
  obtain ⟨within, width⟩ := keyword_span took (toBody.trans third)
  refine ⟨took.moves.trans (toBody.trans third), within, width, ?_, placed⟩
  intro found member
  exact (bodies found member).placed took toBody

/-- A declaration read from one cursor to another. -/
structure DeclRead (source : List Char) (cursor next : Cursor) (decl : Decl) : Prop where
  moved : Moves source cursor next
  within : Within source cursor.lastStop next.lastStop decl.span
  width : decl.span.start < decl.span.stop
  parts : PartsPlaced source decl

theorem opaqueDecl_spec (keyword : Keyword) (mods : Modifiers) (sound : Sound source cursor) :
    Ensures source cursor (opaqueDecl keyword mods) fun decl next =>
      DeclRead source cursor next (.other decl) := by
  refine ensures_then (expect_spec _ _ sound) ?_
  rintro first begun ⟨took, -⟩
  refine ensures_then (forward_of name?_advances _ took.sound) ?_
  intro name named second
  refine ensures_then (forward_of skipRest_advances _ second.sound) ?_
  intro _ next third
  rw [ensures_bind, ensures_lastStop, ensures_pure]
  obtain ⟨within, width⟩ := keyword_span took (second.trans third)
  exact ⟨took.moves.trans (second.trans third), within, width, trivial⟩

theorem packageObject_spec (sound : Sound source cursor) :
    Ensures source cursor packageObject fun decl next => DeclRead source cursor next (.other decl) := by
  refine ensures_then (expect_spec _ _ sound) ?_
  rintro first begun ⟨took, -⟩
  refine ensures_then (forward_of bump_advances _ took.sound) ?_
  intro _ object second
  refine ensures_then (forward_of name?_advances _ second.sound) ?_
  intro name named third
  refine ensures_then (forward_of skipRest_advances _ third.sound) ?_
  intro _ next fourth
  rw [ensures_bind, ensures_lastStop, ensures_pure]
  have moved := second.trans (third.trans fourth)
  obtain ⟨within, width⟩ := keyword_span took moved
  exact ⟨took.moves.trans moved, within, width, trivial⟩

theorem DeclRead.behind {begun next : Cursor} {decl : Decl} (read : DeclRead source begun next decl)
    (moved : Moves source cursor begun) : DeclRead source cursor next decl :=
  ⟨moved.trans read.moved, read.within.after moved, read.width, read.parts⟩

theorem modifiedDecl_spec (sound : Sound source cursor) :
    Ensures source cursor modifiedDecl fun decl next => DeclRead source cursor next decl := by
  refine ensures_then (forward_of modifiers_advances _ sound) ?_
  intro mods begun first
  simp only [ensures_bind, ensures_peekKind?]
  split
  · refine ensures_then (interface_spec first.sound) ?_
    rintro found next ⟨moved, within, width, placed⟩
    rw [ensures_pure]
    exact DeclRead.behind ⟨moved, within, width, placed⟩ first
  · split
    · refine ensures_then (holder_spec first.sound) ?_
      rintro found next ⟨moved, within, width, placed⟩
      rw [ensures_pure]
      exact DeclRead.behind ⟨moved, within, width, placed⟩ first
    split
    · refine ensures_then (opaqueDecl_spec _ _ first.sound) ?_
      intro decl next read
      rw [ensures_pure]
      exact read.behind first
    · exact ensures_fail
  · exact ensures_fail

theorem topLevel_spec (sound : Sound source cursor) :
    Ensures source cursor topLevel fun decl next => DeclRead source cursor next decl := by
  simp only [topLevel, ensures_bind, ensures_isAt]
  split
  · refine ensures_then (packageObject_spec sound) ?_
    intro decl next read
    rwa [ensures_pure]
  · exact modifiedDecl_spec sound

theorem packageClause_spec (outer : Option PackageClause) (sound : Sound source cursor)
    (before : ∀ clause ∈ outer, Cut source clause.span.stop ∧ clause.span.stop ≤ cursor.lastStop) :
    Ensures source cursor (packageClause outer) fun clause next => Moves source cursor next ∧
      Cut source clause.span.stop ∧ clause.span.stop ≤ next.lastStop := by
  refine ensures_then (expect_spec _ _ sound) ?_
  rintro keyword begun ⟨took, -⟩
  refine ensures_then (path_spec _ took.sound) ?_
  rintro ⟨name, span⟩ named ⟨moved, within⟩
  refine ensures_then (forward_of refuseBlock_advances _ moved.sound) ?_
  intro _ next later
  rw [ensures_pure]
  have forward := took.moves.trans (moved.trans later)
  have covered := (took.within.before (moved.trans later)).cover ((within.after took.moves).before later)
  refine ⟨forward, ?_⟩
  unfold nestClause
  split
  · rename_i clause
    obtain ⟨cut, below⟩ := before clause rfl
    exact ⟨cut_max cut covered.last,
      Nat.max_le.mpr ⟨Nat.le_trans below forward.forward, covered.le_high⟩⟩
  · exact ⟨covered.last, covered.le_high⟩

theorem OutlinePlaced.widen {outline : Outline} (placed : OutlinePlaced source high outline)
    (above : high ≤ high') : OutlinePlaced source high' outline := by
  refine ⟨placed.line.widen (Nat.le_refl _) above, placed.width, placed.parts, ?_, ?_⟩
  · intro clause member
    obtain ⟨cut, below, apart⟩ := placed.imports clause member
    exact ⟨cut, Nat.le_trans below above, apart⟩
  · intro clause member
    obtain ⟨cut, below, apart⟩ := placed.package clause member
    exact ⟨cut, Nat.le_trans below above, apart⟩

/-- A declaration read behind everything so far. -/
theorem OutlinePlaced.addDecl {outline : Outline} {next : Cursor} {decl : Decl}
    (placed : OutlinePlaced source cursor.lastStop outline) (read : DeclRead source cursor next decl) :
    OutlinePlaced source next.lastStop { outline with decls := outline.decls ++ [decl] } := by
  have forward := read.moved.forward
  have start := read.within.low_le
  have listed : ∀ {found : Decl}, found ∈ outline.decls ++ [decl] → found ∈ outline.decls ∨ found = decl :=
    fun member => (List.mem_append.mp member).imp_right List.mem_singleton.mp
  constructor
  · rw [List.map_append]
    exact placed.line.snoc (Nat.zero_le _) read.within
  · intro found member
    rcases listed member with earlier | rfl
    · exact placed.width found earlier
    · exact read.width
  · intro found member
    rcases listed member with earlier | rfl
    · exact placed.parts found earlier
    · exact read.parts
  · intro clause member
    obtain ⟨cut, below, apart⟩ := placed.imports clause member
    refine ⟨cut, Nat.le_trans below forward, ?_⟩
    intro found member
    rcases listed member with earlier | rfl
    · exact apart found earlier
    · exact .inl (Nat.le_trans below start)
  · intro clause member
    obtain ⟨cut, below, apart⟩ := placed.package clause member
    refine ⟨cut, Nat.le_trans below forward, ?_⟩
    intro found member
    rcases listed member with earlier | rfl
    · exact apart found earlier
    · exact Nat.le_trans below start

/-- Imports read behind everything so far. -/
theorem OutlinePlaced.addImports {outline : Outline} {next : Cursor} {clauses : List Import}
    (placed : OutlinePlaced source cursor.lastStop outline) (moved : Moves source cursor next)
    (read : ∀ clause ∈ clauses, Cut source clause.span.stop ∧ cursor.lastStop < clause.span.stop ∧
      clause.span.stop ≤ next.lastStop) :
    OutlinePlaced source next.lastStop { outline with imports := outline.imports ++ clauses } := by
  have widened := placed.widen moved.forward
  refine ⟨widened.line, widened.width, widened.parts, ?_, widened.package⟩
  intro clause member
  rcases List.mem_append.mp member with earlier | later
  · exact widened.imports clause earlier
  · obtain ⟨cut, above, below⟩ := read clause later
    refine ⟨cut, below, ?_⟩
    intro decl found
    have inside := placed.line.within decl.span (List.mem_map_of_mem found)
    exact .inr (Nat.lt_of_le_of_lt inside.le_high above)

theorem outline_spec (sound : Sound source cursor) :
    Ensures source cursor outline fun found next => OutlinePlaced source next.lastStop found := by
  have start : OutlinePlaced source cursor.lastStop .empty :=
    ⟨.nil, by simp [Outline.empty], by simp [Outline.empty], by simp [Outline.empty],
      by simp [Outline.empty]⟩
  refine ensures_iterate (fun seen current => Sound source current ∧
    OutlinePlaced source current.lastStop seen) ⟨sound, start⟩ ?_
  rintro seen current ⟨sound, placed⟩
  refine ensures_then (forward_of (eatAll_advances _) _ sound) ?_
  intro _ middle moved
  have placed := placed.widen moved.forward
  rw [ensures_bind, ensures_peek?]
  split
  · rw [ensures_pure]
    exact placed
  simp only [atPackageClause, bind_assoc, pure_bind, ensures_bind, ensures_isAt, ensures_secondKind?]
  split
  · split
    · rename_i empty
      refine ensures_then (packageClause_spec seen.package moved.sound ?_) ?_
      · intro clause member
        exact ⟨(placed.package clause member).1, (placed.package clause member).2.1⟩
      rintro clause next ⟨later, cut, below⟩
      rw [ensures_pure]
      have widened := placed.widen later.forward
      refine ⟨later.sound, widened.line, widened.width, widened.parts, widened.imports, ?_⟩
      intro found same
      cases same
      refine ⟨cut, below, ?_⟩
      intro decl member
      rw [List.isEmpty_iff.mp empty] at member
      cases member
    · exact ensures_fail
  rw [ensures_bind, ensures_isAt]
  split
  · refine ensures_then (importClauses_spec moved.sound) ?_
    rintro clauses next ⟨later, read⟩
    rw [ensures_pure]
    exact ⟨later.sound, placed.addImports later read⟩
  · refine ensures_then (topLevel_spec moved.sound) ?_
    intro decl next read
    rw [ensures_pure]
    exact ⟨read.moved.sound, placed.addDecl read⟩

/-- An outline is what the parser reads from the tokens of the text, together with
the references among those tokens. -/
theorem parse_eq_ok (parsed : Outline.parse source = .ok found) : ∃ tokens bare cursor,
    Token.scan source = .ok tokens ∧ Parser.outline source ⟨tokens, 0⟩ = .ok (bare, cursor) ∧
      found = { bare with typeRefs := TypeRef.collect tokens bare.decls } := by
  obtain ⟨tokens, scanned, rest⟩ := Traversal.bind_eq_ok_iff.mp parsed
  obtain ⟨bare, read, same⟩ := Traversal.bind_eq_ok_iff.mp rest
  cases same
  unfold onTokens at read
  split at read
  · rename_i result cursor ran
    cases read
    exact ⟨tokens, bare, cursor, scanned, ran, rfl⟩
  · cases read

/-- The outline of a source text is placed in it. -/
theorem parse_placed (parsed : Outline.parse source = .ok found) :
    ∃ high, OutlinePlaced source high found := by
  obtain ⟨tokens, bare, next, scanned, ran, rfl⟩ := parse_eq_ok parsed
  have placed := outline_spec ⟨cut_zero source, scan_inOrder scanned⟩ bare next ran
  exact ⟨next.lastStop, placed.line, placed.width, placed.parts, placed.imports, placed.package⟩

end KindLift.DeclPlacement
