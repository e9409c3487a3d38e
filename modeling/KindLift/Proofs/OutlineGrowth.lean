import KindLift.Proofs.MendedOutlines

/-! What the steps over a text add to its outline. A step adds a package clause, imports or a
declaration, all of it behind where it begins; a clause ends where the step ends. So what is
found in a text stands in front of a place that has been reached, or behind it. -/
namespace KindLift.OutlineGrowth
open KindLift.Parser Token Text TextBoundary TokenPlacement CursorAdvance CursorPlacement DeclPlacement ParserLogic ParserProgress ParserSimulation
open TokenTiling TraitSpans OutlineSpans Preambles GrownOutlines MendedOutlines

variable {source : List Char} {left middle next last : Cursor} {seen later found : Outline} {low high : Nat} {clauses : List Import}

/-- What has been added to an outline stands behind a place. -/
structure Adds (low : Nat) (seen later : Outline) : Prop where
  decls : ∃ more, later.decls = seen.decls ++ more ∧ ∀ decl ∈ more, low ≤ decl.span.start
  imports : ∃ more, later.imports = seen.imports ++ more ∧ ∀ clause ∈ more, low < clause.span.stop
  package : later.package = seen.package ∨ ∃ clause, later.package = some clause ∧ low < clause.span.stop

theorem Adds.refl (low : Nat) (seen : Outline) : Adds low seen seen :=
  ⟨⟨[], by simp, by simp⟩, ⟨[], by simp, by simp⟩, .inl rfl⟩

theorem Adds.trans (first : Adds low seen later) (second : Adds high later found) (order : low ≤ high) : Adds low seen found := by
  obtain ⟨decls, declared, behind⟩ := first.decls
  obtain ⟨decls', declared', behind'⟩ := second.decls
  obtain ⟨clauses, imported, above⟩ := first.imports
  obtain ⟨clauses', imported', above'⟩ := second.imports
  refine ⟨⟨decls ++ decls', by rw [declared', declared, List.append_assoc], ?_⟩,
    ⟨clauses ++ clauses', by rw [imported', imported, List.append_assoc], ?_⟩, ?_⟩
  · exact List.forall_mem_append.mpr ⟨behind, fun decl member => Nat.le_trans order (behind' decl member)⟩
  · exact List.forall_mem_append.mpr ⟨above, fun clause member => Nat.lt_of_le_of_lt order (above' clause member)⟩
  · rcases second.package with same | ⟨clause, given, stop⟩
    · rw [same]
      exact first.package
    · exact .inr ⟨clause, given, Nat.lt_of_le_of_lt order stop⟩

/-- What a step adds. -/
inductive StepAdds (left next : Cursor) (seen : Outline) : Outline → Prop where
  | package {clause : PackageClause} (last : clause.span.stop = next.lastStop) : StepAdds left next seen { seen with package := some clause }
  | imports {clauses : List Import} (last : ∃ clause ∈ clauses, clause.span.stop = next.lastStop)
      (behind : ∀ clause ∈ clauses, left.lastStop < clause.span.stop) :
      StepAdds left next seen { seen with imports := seen.imports ++ clauses }
  | decl {decl : Decl} (low_le : left.lastStop ≤ decl.span.start) (width : decl.span.start < decl.span.stop)
      (le_high : decl.span.stop ≤ next.lastStop) : StepAdds left next seen { seen with decls := seen.decls ++ [decl] }

theorem lastStop_lt (sound : Sound source left) (leads : Leads left next) (shorter : Shorter left next) : left.lastStop < next.lastStop := by
  rcases leads with rfl | ⟨front, token, shape, stop⟩
  · exact absurd shorter (Nat.lt_irrefl _)
  · have member : token ∈ left.rest := by
      rw [shape]
      exact List.mem_append_right _ List.mem_cons_self
    obtain ⟨behind, addressed⟩ := (inOrder_apart sound.ordered).2 token member
    have := addressed.nonempty
    omega

/-- A path ends where it has been read. -/
theorem path_stop (what : String) (sound : Sound source left) : Ensures source left (path what) fun read next => read.2.stop = next.lastStop := by
  refine ensures_then (expectName_spec what sound) fun first middle took => ?_
  refine ensures_iterate (fun read current => Sound source current ∧ read.2.stop = current.lastStop) ⟨took.sound, took.stop.symm⟩ ?_
  rintro read current ⟨sound, stop⟩
  rw [pathStep, ensures_bind, ensures_isAt, ensures_bind, ensures_secondKind?]
  split
  · refine ensures_then (forward_of inferInstance _ sound) fun _ middle moved => ?_
    refine ensures_then (expectName_spec what moved.sound) fun segment next took => ensures_pure.mpr ⟨took.sound, ?_⟩
    have order := moved.forward
    have place := took.low_le
    have width : segment.start ≤ segment.stop := Nat.le_add_right _ _
    show max read.2.stop segment.stop = next.lastStop
    rw [took.stop]
    omega
  · exact ensures_pure.mpr stop

theorem packageClause_stop {outer : Option PackageClause} (sound : Sound source left)
    (before : ∀ clause ∈ outer, Within source 0 left.lastStop clause.span) :
    Ensures source left (packageClause outer) fun clause next => clause.span.stop = next.lastStop := by
  refine ensures_then (expect_spec _ _ sound) ?_
  rintro keyword begun ⟨took, -⟩
  refine ensures_then (ensures_and (forward_of inferInstance _ took.sound) (path_stop _ took.sound)) ?_
  rintro ⟨name, span⟩ named ⟨moved, stop⟩
  refine ensures_bind.mpr ?_
  rintro _ next refused
  obtain rfl : next = named := by
    obtain ⟨_, _, looked, refused⟩ := bind_eq_ok refused
    cases looked
    split at refused
    · exact absurd refused fail_ne_ok
    · cases refused
      rfl
  have order := moved.forward
  have first := took.stop
  have low := took.low_le
  have width : keyword.start ≤ keyword.stop := Nat.le_add_right _ _
  have covered : (keyword.span.cover span).stop = next.lastStop := by
    show max keyword.stop span.stop = _
    dsimp only at stop
    omega
  rw [ensures_pure]
  unfold nestClause
  split
  · rename_i clause
    have above := (before clause rfl).le_high
    show max clause.span.stop _ = _
    omega
  · exact covered

theorem importClauses_stop (sound : Sound source left) : Ensures source left importClauses fun clauses next =>
    (∃ clause ∈ clauses, clause.span.stop = next.lastStop) ∧ ∀ clause ∈ clauses, left.lastStop < clause.span.stop := by
  refine ensures_then (expect_spec _ _ sound) ?_
  rintro keyword begun ⟨took, -⟩
  have above : left.lastStop < begun.lastStop := by
    have order := took.low_le
    have width := start_lt_stop took.stands
    rw [took.stop]
    omega
  refine ensures_iterate (fun state current => Sound source current ∧ left.lastStop < current.lastStop ∧
    ∀ clause ∈ state.2, left.lastStop < clause.span.stop) ⟨took.sound, above, by simp⟩ ?_
  rintro ⟨start, clauses⟩ current ⟨sound, above, behind⟩
  dsimp only at behind
  have ends : Ensures source current (importClause start) fun clause next => Moves source current next ∧ clause.span.stop = next.lastStop := by
    refine ensures_then (expectName_spec _ sound) fun first named took => ?_
    refine ensures_then (forward_of (Advances.again importStep_advances) _ took.sound) ?_
    rintro ⟨segments, selectors⟩ next moved
    rw [ensures_bind, ensures_lastStop, ensures_pure]
    exact ⟨took.moves.trans moved, rfl⟩
  refine ensures_then ends ?_
  rintro clause ended ⟨moved, stop⟩
  have reached : left.lastStop < clause.span.stop := by
    rw [stop]
    exact Nat.lt_of_lt_of_le above moved.forward
  have all : ∀ other ∈ clauses ++ [clause], left.lastStop < other.span.stop :=
    List.forall_mem_append.mpr ⟨behind, List.forall_mem_singleton.mpr reached⟩
  refine ensures_bind.mpr ?_
  intro more next comma
  split
  · have onward := forward_of (eats_advances .comma) _ moved.sound _ _ comma
    refine ensures_then (here_begins onward.sound) ?_
    rintro offset next ⟨rfl, -⟩
    have forward := moved.forward
    have forward' := onward.forward
    exact ensures_pure.mpr ⟨onward.sound, by omega, all⟩
  · rename_i none
    obtain rfl : next = ended := by
      obtain ⟨tokens, reached⟩ := ended
      by_cases head : tokens.head?.map Token.kind = some .comma
      · obtain ⟨token, first, kind⟩ := Option.map_eq_some_iff.mp head
        obtain ⟨rest, rfl⟩ := List.head?_eq_some_iff.mp first
        cases comma.symm.trans (TokenReaders.eats_run kind rest reached)
        exact absurd rfl none
      · cases comma.symm.trans (TokenReaders.eats_absent head)
        rfl
    exact ensures_pure.mpr ⟨⟨clause, by simp, stop⟩, all⟩

theorem stepAdds (sound : Sound source left) (read : OutlineRead source left.lastStop seen)
    (ran : outlineStep seen source left = .ok (.again later, next)) : StepAdds left next seen later := by
  obtain ⟨middle, ate, stepped⟩ := outlineStep_stepped ran
  have moved := forward_of (eatAll_advances .semi) _ sound _ _ ate
  have order := moved.forward
  cases stepped with
  | package _ _ run =>
    refine .package (packageClause_stop moved.sound (fun clause given => ?_) _ _ run)
    exact (read.package clause given).widen (Nat.le_refl _) order
  | imports _ _ run =>
    obtain ⟨ends, behind⟩ := importClauses_stop moved.sound _ _ run
    exact .imports ends fun clause member => Nat.lt_of_le_of_lt order (behind clause member)
  | decl _ _ run =>
    have passed := topLevel_placed moved.sound _ _ run
    exact .decl (Nat.le_trans order passed.within.low_le) (declPlaced_width passed.placed) passed.within.le_high

theorem StepAdds.adds (step : StepAdds left next seen later) (onward : left.lastStop < next.lastStop) : Adds left.lastStop seen later := by
  cases step with
  | package last => exact ⟨⟨[], by simp, by simp⟩, ⟨[], by simp, by simp⟩, .inr ⟨_, rfl, by omega⟩⟩
  | imports _ behind => exact ⟨⟨[], by simp, by simp⟩, ⟨_, rfl, behind⟩, .inl rfl⟩
  | decl low_le => exact ⟨⟨_, rfl, List.forall_mem_singleton.mpr low_le⟩, ⟨[], by simp, by simp⟩, .inl rfl⟩

/-- What is read from a place on is added behind it. -/
theorem run_adds (sound : Sound source left) (read : OutlineRead source left.lastStop seen)
    (ran : iterateFrom outlineStep seen source left = .ok (found, last)) : Adds left.lastStop seen found := by
  generalize whole : (found, last) = reached at ran
  fun_induction iterateFrom outlineStep seen source left with
  | case1 => cases ran
  | case2 seen left value next stepped =>
    cases ran
    cases whole
    obtain ⟨_, -, done⟩ := outlineStep_stepped stepped
    cases done
    exact .refl _ _
  | case3 seen left later next stepped shorter ih =>
    obtain ⟨sound', read'⟩ := outlineStep_read sound read _ _ stepped
    have onward := lastStop_lt sound (outlineStep_leads stepped) shorter
    exact ((stepAdds sound read stepped).adds onward).trans (ih sound' read' ran) (Nat.le_of_lt onward)
  | case4 => cases ran

/-! ### Places of a text -/

theorem stepRead_onward (known : StepRead source found seen later left next) : left.lastStop < next.lastStop :=
  lastStop_lt known.sound (outlineStep_leads known.ran) ((outlineStep_strides seen).ensures _ _ _ _ known.ran)

theorem stepRead_adds (known : StepRead source found seen later left next) : StepAdds left next seen later :=
  stepAdds known.sound known.before known.ran

theorem stepRead_ahead (known : StepRead source found seen later left next) : Adds next.lastStop later found := by
  obtain ⟨last, ran⟩ := known.ahead
  obtain ⟨sound, read⟩ := outlineStep_read known.sound known.before _ _ known.ran
  exact run_adds sound read ran

/-- Where the last import ends, or else the package clause. -/
def anchor (outline : Outline) : Option Nat :=
  match (outline.imports.map fun clause => clause.span.stop).max? with
  | some last => some last
  | none => outline.package.map fun clause => clause.span.stop

theorem anchor_last {outline : Outline} {last : Nat} (same : (outline.imports.map fun clause => clause.span.stop).max? = some last) :
    anchor outline = some last := by
  rw [anchor, same]

theorem anchor_package {outline : Outline} (none : (outline.imports.map fun clause => clause.span.stop).max? = none) :
    anchor outline = outline.package.map fun clause => clause.span.stop := by
  rw [anchor, none]

/-- The place is in front of a step or behind it, or it is where a clause ends. -/
theorem anchor_step (known : StepRead source found seen later left next) {place : Nat} (stands : anchor found = some place) :
    place ≤ left.lastStop ∨ next.lastStop < place ∨ place = next.lastStop ∧ later.decls = seen.decls := by
  have ahead := stepRead_ahead known
  obtain ⟨more, imports, behind⟩ := ahead.imports
  have before : ∀ clause ∈ seen.imports, clause.span.stop ≤ left.lastStop :=
    fun clause member => (known.before.imports.within _ (List.mem_map_of_mem member)).le_high
  unfold anchor at stands
  split at stands
  · rename_i last greatest
    cases stands
    obtain ⟨reached, greatest⟩ := List.max?_eq_some_iff.mp greatest
    obtain ⟨clause, member, rfl⟩ := List.mem_map.mp reached
    rw [imports] at member
    rcases List.mem_append.mp member with member | member
    on_goal 2 => exact .inr (.inl (behind clause member))
    cases stepRead_adds known with
    | package => exact .inl (before clause member)
    | decl => exact .inl (before clause member)
    | imports ends =>
      rcases List.mem_append.mp member with member | member
      · exact .inl (before clause member)
      · obtain ⟨final, among, stop⟩ := ends
        have above := greatest _ (List.mem_map_of_mem (imports ▸ List.mem_append_left _ (List.mem_append_right _ among)))
        rcases Nat.lt_or_eq_of_le (stop ▸ above) with less | same
        · exact .inr (.inl less)
        · exact .inr (.inr ⟨same.symm, rfl⟩)
  · rename_i none
    have empty : found.imports = [] := List.map_eq_nil_iff.mp (List.max?_eq_none_iff.mp none)
    obtain ⟨clause, given, rfl⟩ := Option.map_eq_some_iff.mp stands
    rcases ahead.package with same | ⟨clause', given', above⟩
    · rw [same] at given
      cases stepRead_adds known with
      | package stop =>
        cases given
        exact .inr (.inr ⟨stop, rfl⟩)
      | decl => exact .inl (known.before.package clause given).le_high
      | imports ends =>
        obtain ⟨final, among, -⟩ := ends
        have listed : final ∈ found.imports := imports ▸ List.mem_append_left _ (List.mem_append_right _ among)
        rw [empty] at listed
        cases listed
    · rw [given'] at given
      cases given
      exact .inr (.inl above)

/-- A declaration of a text is in front of a step or behind it, or the one that is read. -/
theorem decl_step (known : StepRead source found seen later left next) {decl : Decl} (declared : decl ∈ found.decls) :
    decl.span.stop ≤ left.lastStop ∨ next.lastStop ≤ decl.span.start ∨
      later.decls = seen.decls ++ [decl] ∧ left.lastStop ≤ decl.span.start ∧ decl.span.stop ≤ next.lastStop := by
  obtain ⟨more, decls, behind⟩ := (stepRead_ahead known).decls
  have before : ∀ decl ∈ seen.decls, decl.span.stop ≤ left.lastStop :=
    fun decl member => (known.before.decls.within _ (List.mem_map_of_mem member)).le_high
  rw [decls] at declared
  rcases List.mem_append.mp declared with member | member
  on_goal 2 => exact .inr (.inl (behind decl member))
  cases stepRead_adds known with
  | package => exact .inl (before decl member)
  | imports => exact .inl (before decl member)
  | decl low_le _ le_high =>
    rcases List.mem_append.mp member with member | member
    · exact .inl (before decl member)
    · obtain rfl := List.mem_singleton.mp member
      exact .inr (.inr ⟨rfl, low_le, le_high⟩)

end KindLift.OutlineGrowth
