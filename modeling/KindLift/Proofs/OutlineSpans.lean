import KindLift.Proofs.ReferencePlacement
import KindLift.Proofs.TraitSpans

/-! Where the parts of an outline stand. Declarations and imports follow one another
without touching; everything a declaration is made of lies inside of it, methods and
members between its braces, and every nested trait inside its own member. -/
namespace KindLift.OutlineSpans
open KindLift.Parser Text TextBoundary TokenPlacement ParserLogic CursorAdvance CursorPlacement DeclPlacement TraitSpans

variable {source : List Char} {cursor next : Cursor} {low middle high start : Nat} {body : Option Body}

/-! ### Spans of an outline -/

def holderSpans (holder : Holder) : List Span :=
  holder.span :: holder.nameSpan :: (holder.members.map Member.span ++
    (holder.nested.flatMap interfaceSpans ++ bodySpans holder.body))

def declSpans : Decl → List Span
  | .interface interface => interfaceSpans interface
  | .holder holder => holderSpans holder
  | .other decl => [decl.span]

def outlineSpans (outline : Outline) : List Span :=
  outline.package.toList.map PackageClause.span ++ (outline.imports.map Import.span ++
    (outline.decls.flatMap declSpans ++ outline.typeRefs.map TypeRef.span))

/-- The member of an object that is a trait, and that trait. -/
structure Encloses (member : Member) (nested : Interface) : Prop where
  name : member.name = nested.name
  low_le : member.span.start ≤ nested.span.start
  le_high : nested.span.stop ≤ member.span.stop

/-- The members of an object, one after the other between the braces of its body; an
object without a body has none. The members that are traits are the nested ones. -/
structure MembersOrdered (source : List Char) (body : Option Body) (members : List Member) (nested : List Interface) :
    Prop where
  line : ∀ member ∈ members, ∃ braces ∈ body, braces.openBrace < member.span.start ∧ member.span.stop ≤ braces.closeBrace
  ordered : (members.map Member.span).Pairwise fun a b => a.stop ≤ b.start
  encloses : List.Forall₂ Encloses (members.filter fun member => member.kind = .interface) nested
  traits : ∀ interface ∈ nested, TraitPlaced source interface

structure ObjectPlaced (source : List Char) (holder : Holder) : Prop where
  width : holder.span.start < holder.span.stop
  parts : ∀ span ∈ holderSpans holder, Within source holder.span.start holder.span.stop span
  body : ∀ body ∈ holder.body, Braced source holder.span body
  members : MembersOrdered source holder.body holder.members holder.nested

def DeclPlaced (source : List Char) : Decl → Prop
  | .interface interface => TraitPlaced source interface
  | .holder holder => ObjectPlaced source holder
  | .other decl => decl.span.start < decl.span.stop

/-! ### Objects -/

theorem modifierStep_ahead (seen : Modifiers) (sound : Sound source cursor) (ahead : Ahead start cursor) :
    Ensures source cursor (modifierStep seen) fun _ next => Sound source next ∧ Ahead start next := by
  rw [modifierStep, ensures_bind, ensures_peek?]
  split
  · exact ensures_pure.mpr ⟨sound, ahead⟩
  rename_i token first
  -- Whatever is read behind the first token is behind the offset.
  have bumped : ∀ {β : Type} {body : Option Token → Parser β}, (∀ taken, Advances (body taken)) →
      Ensures source cursor (bump >>= body) fun _ next => Sound source next ∧ Ahead start next := by
    intro β body advances
    refine ensures_then (bump_spec sound) ?_
    rintro taken read ⟨rfl, -, took⟩
    refine ensures_mono (forward_of (advances _) _ (took token first).sound) fun _ next moves => ⟨moves.sound, ?_⟩
    exact ahead_of_le moves.sound (Nat.le_trans (took_ahead ahead first (took token first)) moves.forward)
  split
  · refine ensures_then (@bumped Unit _ fun _ => inferInstance) fun _ next holds => ?_
    exact ensures_pure.mpr holds
  iterate 6
    · exact bumped fun _ => inferInstance
  iterate 2
    · exact bumped fun _ => inferInstance
  · rw [ensures_bind, ensures_secondKind?]
    split
    · exact bumped fun _ => inferInstance
    · exact bumped fun _ => inferInstance
    · exact ensures_pure.mpr ⟨sound, ahead⟩
  · rw [ensures_bind, ensures_secondKind?]
    split
    · split
      · exact bumped fun _ => inferInstance
      · exact ensures_pure.mpr ⟨sound, ahead⟩
    · exact ensures_pure.mpr ⟨sound, ahead⟩
  · exact ensures_pure.mpr ⟨sound, ahead⟩

/-- Modifiers are read from the next token on. -/
theorem modifiers_ahead (sound : Sound source cursor) (ahead : Ahead start cursor) :
    Ensures source cursor modifiers fun _ next => Ahead start next := by
  refine ensures_iterate (fun _ current => Sound source current ∧ Ahead start current) ⟨sound, ahead⟩ ?_
  rintro seen current ⟨sound, ahead⟩
  refine ensures_mono (modifierStep_ahead seen sound ahead) fun outcome next holds => ?_
  cases outcome with
  | again later => exact holds
  | done result => exact holds.2

/-- What was read of an object so far. -/
structure MembersRead (source : List Char) (low high : Nat) (seen : HolderMembers) : Prop where
  line : InLine source low high (seen.members.map Member.span)
  nested : List.Forall₂ Encloses (seen.members.filter fun member => member.kind = .interface) seen.nested
  traits : ∀ interface ∈ seen.nested, TraitPlaced source interface

theorem MembersRead.widen {seen : HolderMembers} (read : MembersRead source low high seen) (above : high ≤ high') :
    MembersRead source low high' seen := ⟨read.line.widen (Nat.le_refl _) above, read.nested, read.traits⟩

/-- One more member that is not a trait. -/
theorem MembersRead.plain {seen : HolderMembers} {member : Member} (read : MembersRead source low middle seen)
    (lower : low ≤ middle) (other : member.kind ≠ .interface) (within : Within source middle high member.span) :
    MembersRead source low high ⟨seen.members ++ [member], seen.nested⟩ := by
  refine ⟨?_, ?_, read.traits⟩
  · rw [List.map_append]
    exact read.line.snoc lower within
  · rw [List.filter_append, List.filter_singleton, decide_eq_false other]
    simpa using read.nested

/-- One more member that is a trait. -/
theorem MembersRead.trait {seen : HolderMembers} {member : Member} {nested : Interface}
    (read : MembersRead source low middle seen) (lower : low ≤ middle) (kind : member.kind = .interface)
    (within : Within source middle high member.span) (encloses : Encloses member nested) (placed : TraitPlaced source nested) :
    MembersRead source low high ⟨seen.members ++ [member], seen.nested ++ [nested]⟩ := by
  refine ⟨?_, ?_, List.forall_mem_append.mpr ⟨read.traits, List.forall_mem_singleton.mpr placed⟩⟩
  · rw [List.map_append]
    exact read.line.snoc lower within
  · rw [List.filter_append, List.filter_singleton, decide_eq_true kind]
    exact List.rel_append read.nested (.cons encloses .nil)

theorem memberKind?_plain {word : Keyword} {kind : MemberKind} (found : memberKind? word = some kind) : kind ≠ .interface := by
  cases word <;> cases found <;> decide

theorem holderStatement_read (seen : HolderMembers) (sound : Sound source cursor) (below : low ≤ cursor.lastStop)
    (read : MembersRead source low cursor.lastStop seen) :
    Ensures source cursor (here >>= fun start => holderStatement start seen) fun members next => Moves source cursor next ∧
      MembersRead source low next.lastStop members := by
  refine ensures_then (here_begins sound) ?_
  rintro start cursor ⟨rfl, cut, low_le, begins⟩
  refine ensures_then (ensures_and (forward_of modifiers_advances _ sound)
    (modifiers_ahead sound fun token first => Nat.le_of_eq (begins token first).symm)) ?_
  rintro mods begun ⟨first, ahead⟩
  rw [ensures_bind, ensures_peekKind?]
  split
  · rename_i shape
    refine ensures_then (interface_placed first.sound) ?_
    rintro nested next ⟨second, within, stop, begins, placed⟩
    rw [ensures_bind, ensures_lastStop, ensures_pure]
    obtain ⟨keyword, isFirst, -⟩ := Option.map_eq_some_iff.mp shape
    have since : start ≤ nested.span.start := begins keyword isFirst ▸ ahead keyword isFirst
    have reached : start ≤ next.lastStop := Nat.le_trans since (Nat.le_trans within.ordered within.le_high)
    exact ⟨first.trans second, read.trait below rfl (span_since cut low_le reached (.refl second.sound))
      ⟨rfl, since, Nat.le_of_eq stop⟩ placed⟩
  · refine ensures_then (forward_of importClauses_advances _ first.sound) ?_
    intro clauses next second
    exact ensures_pure.mpr ⟨first.trans second, read.widen (first.trans second).forward⟩
  · rename_i word _ _ shape
    obtain ⟨keyword, isFirst, -⟩ := Option.map_eq_some_iff.mp shape
    split
    · rename_i kind found
      rw [namedStatement, bind_assoc]
      refine ensures_then (bump_spec first.sound) ?_
      rintro taken begun' ⟨rfl, second, took⟩
      simp only [bind_assoc, pure_bind]
      refine ensures_then (forward_of name?_advances _ second.sound) ?_
      intro name named third
      refine ensures_then (forward_of skipRest_advances _ third.sound) ?_
      intro _ next fourth
      rw [ensures_bind, ensures_lastStop, ensures_pure]
      have later := third.trans fourth
      have reached := took_ahead ahead isFirst (took keyword isFirst)
      refine ⟨first.trans (second.trans later), ?_⟩
      unfold HolderMembers.addMember
      split
      · exact read.plain below (memberKind?_plain found) (span_since cut low_le reached later)
      · exact read.widen (first.trans (second.trans later)).forward
    · refine ensures_then (forward_of skipStatement_advances _ first.sound) ?_
      intro _ next second
      exact ensures_pure.mpr ⟨first.trans second, read.widen (first.trans second).forward⟩
  · refine ensures_then (forward_of skipStatement_advances _ first.sound) ?_
    intro _ next second
    exact ensures_pure.mpr ⟨first.trans second, read.widen (first.trans second).forward⟩

theorem holderBody_braced (sound : Sound source cursor) :
    Ensures source cursor holderBody fun found next => BodyBraced source cursor next found.2 ∧
      MembersRead source (found.2.openBrace + 1) found.2.closeBrace found.1 := by
  have braced := body_braced (fun seen => here >>= fun start => holderStatement start seen)
    (⟨[], []⟩ : HolderMembers) (fun low high seen => MembersRead source low high seen)
    (fun _ _ => ⟨.nil, .nil, by simp⟩) (fun read above => read.widen above)
    (fun sound below read => holderStatement_read _ sound below read) sound
  simp only [bind_assoc] at braced
  exact braced

theorem MembersRead.placed {body : Body} {seen : HolderMembers}
    (read : MembersRead source (body.openBrace + 1) body.closeBrace seen) :
    MembersOrdered source (some body) seen.members seen.nested := by
  refine ⟨fun member listed => ⟨body, rfl, ?_⟩, read.line.ordered, read.nested, read.traits⟩
  have within := read.line.within _ (List.mem_map_of_mem listed)
  exact ⟨within.low_le, within.le_high⟩

theorem optionalHolderBody_placed (sound : Sound source cursor) :
    Ensures source cursor optionalHolderBody fun found next => Moves source cursor next ∧
      (∀ body ∈ found.2, BodyBraced source cursor next body ∧
        MembersRead source (body.openBrace + 1) body.closeBrace found.1) ∧
      MembersOrdered source found.2 found.1.members found.1.nested := by
  simp only [optionalHolderBody, ensures_bind, ensures_isAt]
  split
  · refine ensures_then (holderBody_braced sound) ?_
    rintro ⟨members, body⟩ next ⟨braced, read⟩
    rw [ensures_pure]
    exact ⟨braced.moves, fun found same => by cases same; exact ⟨braced, read⟩, read.placed⟩
  · rw [ensures_pure]
    exact ⟨.refl sound, by simp, by simp, .nil, .nil, by simp⟩

/-- The spans of a nested trait lie inside its member. -/
theorem nested_within {members : List Member} {nested : List Interface} (placed : MembersOrdered source body members nested)
    (interface : Interface) (listed : interface ∈ nested) :
    ∃ member ∈ members, member.span.start ≤ interface.span.start ∧ interface.span.stop ≤ member.span.stop := by
  obtain ⟨place, bound, rfl⟩ := List.mem_iff_getElem.mp listed
  have length := placed.encloses.length_eq
  have encloses := placed.encloses.get (length ▸ bound) bound
  exact ⟨_, (List.mem_filter.mp (List.getElem_mem (length ▸ bound))).1, encloses.low_le, encloses.le_high⟩

theorem holder_placed (sound : Sound source cursor) :
    Ensures source cursor holder fun found next => Moves source cursor next ∧
      Within source cursor.lastStop next.lastStop found.span ∧ ObjectPlaced source found := by
  refine ensures_then (expect_spec _ _ sound) ?_
  rintro keyword begun ⟨took, -⟩
  refine ensures_then (expectName_spec _ took.sound) ?_
  intro name named first
  refine ensures_then (extendsClause_spec first.sound) ?_
  rintro _ extended ⟨second, -⟩
  refine ensures_then (optionalHolderBody_placed second.sound) ?_
  rintro ⟨members, body⟩ next ⟨third, bodies, placed⟩
  rw [ensures_bind, ensures_lastStop, ensures_pure]
  have front : Passes source begun extended [name.span] := (passes_single first.moves first.within).before second
  have inside : Passes source extended next (members.members.map Member.span ++
      (members.nested.flatMap interfaceSpans ++ bodySpans body)) := by
    refine ⟨third, List.forall_mem_append.mpr ⟨?_, List.forall_mem_append.mpr ⟨?_, ?_⟩⟩⟩
    · intro span member
      obtain ⟨found, listed, rfl⟩ := List.mem_map.mp member
      obtain ⟨braces, isBody, -⟩ := placed.line found listed
      obtain ⟨read, seen⟩ := bodies braces isBody
      have bounds := read.low_le
      have bounds' := read.last
      exact (seen.line.within _ member).widen (by omega) (by omega)
    · intro span member
      obtain ⟨interface, listed, part⟩ := List.mem_flatMap.mp member
      obtain ⟨found, listed', low, high⟩ := nested_within placed interface listed
      obtain ⟨braces, isBody, low', high'⟩ := placed.line found listed'
      obtain ⟨read, -⟩ := bodies braces isBody
      have bounds := read.low_le
      have bounds' := read.last
      exact ((placed.traits interface listed).parts span part).widen (by omega) (by omega)
    · intro span member
      obtain ⟨braces, found, rfl⟩ := List.mem_map.mp member
      exact (bodies braces (Option.mem_toList.mp found)).1.within
  have parts := front.trans inside
  obtain ⟨whole, width⟩ := keyword_span took parts.moves
  refine ⟨took.moves.trans parts.moves, whole, width, List.forall_mem_cons.mpr ⟨?_, ?_⟩,
    fun found member => (bodies found member).1.braced _, placed⟩
  · exact ⟨whole.first, whole.last, Nat.le_refl _, whole.ordered, Nat.le_refl _⟩
  · exact fun span member => (parts.within span member).widen (Nat.le_of_lt took.lt) (Nat.le_refl _)

/-! ### Declarations and clauses -/

/-- What a declaration is made of lies wherever the declaration lies. -/
theorem declSpans_within {decl : Decl} (placed : DeclPlaced source decl) (within : Within source low high decl.span) :
    ∀ span ∈ declSpans decl, Within source low high span := by
  cases decl with
  | interface interface => exact fun span member => (placed.parts span member).widen within.low_le within.le_high
  | holder holder => exact fun span member => (placed.parts span member).widen within.low_le within.le_high
  | other decl => exact List.forall_mem_singleton.mpr within

theorem declPlaced_width {decl : Decl} (placed : DeclPlaced source decl) : decl.span.start < decl.span.stop := by
  cases decl with
  | interface interface => exact placed.width
  | holder holder => exact placed.width
  | other decl => exact placed

/-- A declaration read from one cursor to another. -/
structure DeclPassed (source : List Char) (cursor next : Cursor) (decl : Decl) : Prop where
  moves : Moves source cursor next
  within : Within source cursor.lastStop next.lastStop decl.span
  placed : DeclPlaced source decl

theorem DeclPassed.after {begun : Cursor} {decl : Decl} (read : DeclPassed source begun next decl)
    (moves : Moves source cursor begun) : DeclPassed source cursor next decl :=
  ⟨moves.trans read.moves, read.within.after moves, read.placed⟩

theorem modifiedDecl_placed (sound : Sound source cursor) :
    Ensures source cursor modifiedDecl fun decl next => DeclPassed source cursor next decl := by
  refine ensures_then (forward_of modifiers_advances _ sound) ?_
  intro mods begun first
  rw [ensures_bind, ensures_peekKind?]
  split
  · refine ensures_then (interface_placed first.sound) ?_
    rintro found next ⟨moved, within, -, -, placed⟩
    exact ensures_pure.mpr (DeclPassed.after ⟨moved, within, placed⟩ first)
  · split
    · refine ensures_then (holder_placed first.sound) ?_
      rintro found next ⟨moved, within, placed⟩
      exact ensures_pure.mpr (DeclPassed.after ⟨moved, within, placed⟩ first)
    split
    · refine ensures_then (opaqueDecl_spec _ _ first.sound) ?_
      intro decl next read
      exact ensures_pure.mpr (DeclPassed.after ⟨read.moved, read.within, read.width⟩ first)
    · exact ensures_fail
  · exact ensures_fail

theorem topLevel_placed (sound : Sound source cursor) :
    Ensures source cursor topLevel fun decl next => DeclPassed source cursor next decl := by
  rw [topLevel, ensures_bind, ensures_isAt]
  split
  · refine ensures_then (packageObject_spec sound) ?_
    intro decl next read
    exact ensures_pure.mpr ⟨read.moved, read.within, read.width⟩
  · exact modifiedDecl_placed sound

theorem importClause_placed (sound : Sound source cursor) (ahead : Ahead start cursor) :
    Ensures source cursor (importClause start) fun clause next => Moves source cursor next ∧
      clause.span = ⟨start, next.lastStop⟩ ∧ start ≤ next.lastStop := by
  refine ensures_then (ensures_and (expectName_spec _ sound) (expectName_first _)) ?_
  rintro first named ⟨took, isFirst⟩
  refine ensures_then (forward_of (Advances.again importStep_advances) _ took.sound) ?_
  rintro ⟨segments, selectors⟩ next moved
  rw [ensures_bind, ensures_lastStop, ensures_pure]
  exact ⟨took.moves.trans moved, rfl, Nat.le_trans (took_ahead ahead isFirst took) moved.forward⟩

/-- The clauses of an import stand one after the other. The first begins with the
keyword, every other one behind a comma. -/
theorem importClauses_placed (sound : Sound source cursor) :
    Ensures source cursor importClauses fun clauses next => Moves source cursor next ∧
      InLine source cursor.lastStop next.lastStop (clauses.map Import.span) := by
  refine ensures_then (expect_spec _ _ sound) ?_
  rintro keyword begun ⟨took, -⟩
  refine ensures_iterate (fun state current => Moves source begun current ∧ Cut source state.1 ∧ Ahead state.1 current ∧
    ∃ middle, cursor.lastStop ≤ middle ∧ middle ≤ state.1 ∧ InLine source cursor.lastStop middle (state.2.map Import.span))
    ⟨.refl took.sound, start_cut took.stands, ahead_of_le took.sound (Nat.le_of_lt took.lt), _, Nat.le_refl _, took.low_le, .nil⟩ ?_
  rintro ⟨start, clauses⟩ current ⟨moved, cut, ahead, middle, below, above, line⟩
  refine ensures_then (importClause_placed moved.sound ahead) ?_
  rintro clause ended ⟨later, span, reached⟩
  have extended : InLine source cursor.lastStop ended.lastStop ((clauses ++ [clause]).map Import.span) := by
    rw [List.map_append]
    exact line.snoc below (span ▸ ⟨cut, later.sound.cut, above, reached, Nat.le_refl _⟩)
  refine ensures_then (forward_of (eats_advances .comma) _ later.sound) ?_
  intro more next comma
  have whole := moved.trans (later.trans comma)
  split
  · refine ensures_then (here_begins comma.sound) ?_
    rintro offset next ⟨rfl, cut, low_le, begins⟩
    exact ensures_pure.mpr ⟨whole, cut, fun token first => Nat.le_of_eq (begins token first).symm, _,
      (took.moves.trans whole).forward, low_le, extended.widen (Nat.le_refl _) comma.forward⟩
  · exact ensures_pure.mpr ⟨took.moves.trans whole, extended.widen (Nat.le_refl _) comma.forward⟩

theorem packageClause_placed (outer : Option PackageClause) (sound : Sound source cursor)
    (before : ∀ clause ∈ outer, Within source 0 cursor.lastStop clause.span) :
    Ensures source cursor (packageClause outer) fun clause next => Moves source cursor next ∧
      Within source 0 next.lastStop clause.span := by
  refine ensures_then (expect_spec _ _ sound) ?_
  rintro keyword begun ⟨took, -⟩
  refine ensures_then (path_spec _ took.sound) ?_
  rintro ⟨name, span⟩ named ⟨moved, within⟩
  refine ensures_then (forward_of refuseBlock_advances _ moved.sound) ?_
  intro _ next later
  rw [ensures_pure]
  have whole := took.moves.trans (moved.trans later)
  have covered := (took.within.before (moved.trans later)).cover ((within.after took.moves).before later)
  refine ⟨whole, ?_⟩
  unfold nestClause
  split
  · rename_i clause
    exact ((before clause rfl).before whole).cover (covered.widen (Nat.zero_le _) (Nat.le_refl _))
  · exact covered.widen (Nat.zero_le _) (Nat.le_refl _)

/-! ### Outlines -/

/-- What was read of a text so far. -/
structure OutlineRead (source : List Char) (high : Nat) (outline : Outline) : Prop where
  package : ∀ clause ∈ outline.package, Within source 0 high clause.span
  imports : InLine source 0 high (outline.imports.map Import.span)
  decls : InLine source 0 high (outline.decls.map Decl.span)
  apart : ∀ clause ∈ outline.imports, ∀ decl ∈ outline.decls,
    clause.span.stop ≤ decl.span.start ∨ decl.span.stop ≤ clause.span.start
  parts : ∀ decl ∈ outline.decls, DeclPlaced source decl

theorem OutlineRead.widen {outline : Outline} (read : OutlineRead source high outline) (above : high ≤ high') :
    OutlineRead source high' outline :=
  ⟨fun clause member => (read.package clause member).widen (Nat.le_refl _) above, read.imports.widen (Nat.le_refl _) above,
    read.decls.widen (Nat.le_refl _) above, read.apart, read.parts⟩

theorem InLine.append {front back : List Span} (line : InLine source low middle front) (more : InLine source middle high back)
    (lower : low ≤ middle) (upper : middle ≤ high) : InLine source low high (front ++ back) := by
  refine ⟨List.forall_mem_append.mpr ⟨(line.widen (Nat.le_refl _) upper).within, (more.widen lower (Nat.le_refl _)).within⟩,
    List.pairwise_append.mpr ⟨line.ordered, more.ordered, fun a first b second => ?_⟩⟩
  exact Nat.le_trans (line.within a first).le_high (more.within b second).low_le

theorem OutlineRead.addDecl {outline : Outline} {decl : Decl} (read : OutlineRead source cursor.lastStop outline)
    (passed : DeclPassed source cursor next decl) :
    OutlineRead source next.lastStop { outline with decls := outline.decls ++ [decl] } := by
  have widened := read.widen passed.moves.forward
  refine ⟨widened.package, widened.imports, ?_, fun clause listed => List.forall_mem_append.mpr ⟨read.apart clause listed,
    List.forall_mem_singleton.mpr (.inl ?_)⟩, List.forall_mem_append.mpr ⟨read.parts, List.forall_mem_singleton.mpr passed.placed⟩⟩
  · rw [List.map_append]
    exact read.decls.snoc (Nat.zero_le _) passed.within
  · exact Nat.le_trans (read.imports.within _ (List.mem_map_of_mem listed)).le_high passed.within.low_le

theorem OutlineRead.addImports {outline : Outline} {clauses : List Import} (read : OutlineRead source cursor.lastStop outline)
    (moves : Moves source cursor next) (line : InLine source cursor.lastStop next.lastStop (clauses.map Import.span)) :
    OutlineRead source next.lastStop { outline with imports := outline.imports ++ clauses } := by
  have widened := read.widen moves.forward
  refine ⟨widened.package, ?_, widened.decls, List.forall_mem_append.mpr ⟨read.apart, fun clause listed decl member => .inr ?_⟩,
    read.parts⟩
  · rw [List.map_append]
    exact InLine.append read.imports line (Nat.zero_le _) moves.forward
  · exact Nat.le_trans (read.decls.within _ (List.mem_map_of_mem member)).le_high (line.within _ (List.mem_map_of_mem listed)).low_le

theorem OutlineRead.empty : OutlineRead source high .empty :=
  ⟨by simp [Outline.empty], .nil, .nil, by simp [Outline.empty], by simp [Outline.empty]⟩

theorem outlineStep_read {seen : Outline} (sound : Sound source cursor) (read : OutlineRead source cursor.lastStop seen) :
    Ensures source cursor (outlineStep seen) fun outcome next =>
      match outcome with
      | .again later => Sound source next ∧ OutlineRead source next.lastStop later
      | .done found => OutlineRead source next.lastStop found := by
  refine ensures_then (forward_of (eatAll_advances _) _ sound) ?_
  intro _ middle moved
  have read := read.widen moved.forward
  rw [ensures_bind, ensures_peek?]
  split
  · exact ensures_pure.mpr read
  simp only [atPackageClause, bind_assoc, pure_bind, ensures_bind, ensures_isAt, ensures_secondKind?]
  split
  · split
    · refine ensures_then (packageClause_placed seen.package moved.sound read.package) ?_
      rintro clause next ⟨later, within⟩
      have widened := read.widen later.forward
      exact ensures_pure.mpr ⟨later.sound, fun found same => by cases same; exact within, widened.imports, widened.decls,
        widened.apart, widened.parts⟩
    · exact ensures_fail
  rw [ensures_bind, ensures_isAt]
  split
  · refine ensures_then (importClauses_placed moved.sound) ?_
    rintro clauses next ⟨later, line⟩
    exact ensures_pure.mpr ⟨later.sound, read.addImports later line⟩
  · refine ensures_then (topLevel_placed moved.sound) ?_
    intro decl next passed
    exact ensures_pure.mpr ⟨passed.moves.sound, read.addDecl passed⟩

theorem outline_read (sound : Sound source cursor) :
    Ensures source cursor outline fun found next => OutlineRead source next.lastStop found := by
  refine ensures_iterate (fun seen current => Sound source current ∧ OutlineRead source current.lastStop seen)
    ⟨sound, .empty⟩ ?_
  rintro seen current ⟨sound, read⟩
  refine ensures_mono (outlineStep_read sound read) fun outcome next kept => ?_
  cases outcome <;> exact kept

theorem inOrder_disjoint {tokens : List Token} (ordered : InOrder source low tokens) :
    tokens.Pairwise fun a b => a.start < b.start ∧ a.stop ≤ b.start := by
  induction tokens generalizing low with
  | nil => exact .nil
  | cons token rest ih =>
    obtain ⟨-, stands, later⟩ := ordered
    refine List.pairwise_cons.mpr ⟨fun other member => ?_, ih later⟩
    have behind := (ReferencePlacement.inOrder_mem later other member).1
    exact ⟨Nat.lt_of_lt_of_le (start_lt_stop stands) behind, behind⟩

/-- The span addresses characters of the text. -/
structure Addresses (source : List Char) (span : Span) : Prop where
  ordered : span.start ≤ span.stop
  within : span.stop ≤ byteLength source
  first : isBoundary source span.start = true
  last : isBoundary source span.stop = true

theorem addresses_of_within {span : Span} (within : Within source low high span) : Addresses source span :=
  ⟨within.ordered, cut_le within.last, isBoundary_iff.mpr within.first, isBoundary_iff.mpr within.last⟩

/-- All spans of an outline address characters of the text. Declarations, imports and
references stand one after the other, declarations also apart from imports, and the
parts of a declaration are placed in it. -/
structure SpansPlaced (source : List Char) (outline : Outline) : Prop where
  addresses : ∀ span ∈ outlineSpans outline, Addresses source span
  width : ∀ decl ∈ outline.decls, decl.span.start < decl.span.stop
  decls : (outline.decls.map Decl.span).Pairwise fun a b => a.stop ≤ b.start
  imports : (outline.imports.map Import.span).Pairwise fun a b => a.stop ≤ b.start
  apart : ∀ clause ∈ outline.imports, ∀ decl ∈ outline.decls,
    clause.span.stop ≤ decl.span.start ∨ decl.span.stop ≤ clause.span.start
  parts : ∀ decl ∈ outline.decls, DeclPlaced source decl
  references : (outline.typeRefs.map TypeRef.span).Pairwise fun a b => a.start < b.start ∧ a.stop ≤ b.start

/-- The outline of every text that parses is placed in the text. -/
theorem parse_spans (source : List Char) (outline : Outline) (parsed : Outline.parse source = .ok outline) :
    SpansPlaced source outline := by
  obtain ⟨tokens, found, next, scanned, ran, rfl⟩ := parse_eq_ok parsed
  have ordered := scan_inOrder scanned
  have read := outline_read ⟨cut_zero source, ordered⟩ found next ran
  have sublist := ReferencePlacement.usesFrom_sublist 0 tokens
  refine ⟨?_, fun decl member => declPlaced_width (read.parts decl member), read.decls.ordered, read.imports.ordered,
    read.apart, read.parts, ?_⟩
  · refine List.forall_mem_append.mpr ⟨?_, List.forall_mem_append.mpr ⟨fun span member =>
      addresses_of_within (read.imports.within span member), List.forall_mem_append.mpr ⟨?_, ?_⟩⟩⟩
    · intro span member
      obtain ⟨clause, listed, rfl⟩ := List.mem_map.mp member
      exact addresses_of_within (read.package clause (Option.mem_toList.mp listed))
    · intro span member
      obtain ⟨decl, listed, part⟩ := List.mem_flatMap.mp member
      exact addresses_of_within
        (declSpans_within (read.parts decl listed) (read.decls.within _ (List.mem_map_of_mem listed)) span part)
    · intro span member
      obtain ⟨reference, listed, rfl⟩ := List.mem_map.mp member
      obtain ⟨token, used, rfl⟩ := List.mem_map.mp listed
      have stands := (ReferencePlacement.inOrder_mem ordered token (sublist.subset used)).2
      have within : Within source 0 token.stop token.span :=
        ⟨start_cut stands, stop_cut stands, Nat.zero_le _, Nat.le_of_lt (start_lt_stop stands), Nat.le_refl _⟩
      exact addresses_of_within within
  · have spans : (TypeRef.collect tokens found.decls).map TypeRef.span = (TypeRef.usesFrom 0 tokens).map Token.span := by
      rw [TypeRef.collect, List.map_map]
      rfl
    rw [spans]
    exact List.pairwise_map.mpr ((inOrder_disjoint ordered).sublist sublist)

/-- Two import clauses behind one keyword, and an annotated object with a self type
that nests a trait. -/
def nestingText : List Char :=
  "import b.c, d._\n@x object S \x7b self =>\n  trait S[F[_]] \x7b def m(p: Int): F[T] \x7d\n\x7d".toList

theorem nestingText_spans : ∃ outline, Outline.parse nestingText = .ok outline ∧
    outline.imports.map Import.span = [⟨0, 10⟩, ⟨12, 15⟩] ∧ outline.decls.map Decl.span = [⟨19, 79⟩] ∧
    SpansPlaced nestingText outline := by
  have read : (Outline.parse nestingText).toOption.map (fun outline =>
      (outline.imports.map Import.span, outline.decls.map Decl.span)) =
        some ([⟨0, 10⟩, ⟨12, 15⟩], [⟨19, 79⟩]) := by decide +kernel
  cases parsed : Outline.parse nestingText with
  | error fault => simp [parsed, Except.toOption] at read
  | ok outline =>
    obtain ⟨imports, decls⟩ : outline.imports.map Import.span = [⟨0, 10⟩, ⟨12, 15⟩] ∧
        outline.decls.map Decl.span = [⟨19, 79⟩] := by simpa [parsed, Except.toOption] using read
    exact ⟨outline, rfl, imports, decls, parse_spans nestingText outline parsed⟩

end KindLift.OutlineSpans
