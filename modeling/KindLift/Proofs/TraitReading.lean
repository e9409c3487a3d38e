import KindLift.Proofs.BodyLayouts
import KindLift.Proofs.DeclPlacement

/-! Where the traits of an outline come from. Each of them is what the parser of traits makes
of the tokens of the source from some place on. -/
namespace KindLift.TraitReading
open KindLift.Parser ParserLogic CursorAdvance CursorPlacement BodyLayouts TokenReaders

variable {source : List Char} {tokens : List Token} {left cursor middle next : Cursor} {trait : Interface} {decl : Decl}

/-- The cursor is somewhere in the tokens. -/
structure Inside (source : List Char) (tokens : List Token) (cursor : Cursor) : Prop where
  suffix : cursor.rest <:+ tokens
  sound : Sound source cursor

/-- The trait is read off the tokens from some place on. -/
def ReadOff (source : List Char) (tokens : List Token) (trait : Interface) : Prop :=
  ∃ left next, Inside source tokens left ∧ interface source left = .ok (trait, next)

/-- A parser stays inside of the tokens. -/
theorem Inside.then (inside : Inside source tokens cursor) {parser : Parser α} (advances : Advances parser) :
    Ensures source cursor parser fun _ next => Inside source tokens next := by
  intro _ next ran
  exact ⟨(advances.ensures _ _ _ _ ran).suffix.trans inside.suffix, (forward_of advances _ inside.sound _ _ ran).sound⟩

/-! ### The traits of a source -/

/-- The traits that a declaration is or nests. -/
def declared : Decl → List Interface
  | .interface trait => [trait]
  | .holder holder => holder.nested
  | .other _ => []

theorem interface_readOff (inside : Inside source tokens cursor) :
    Ensures source cursor interface fun trait next => Inside source tokens next ∧ ReadOff source tokens trait :=
  fun _ next ran => ⟨inside.then inferInstance _ _ ran, cursor, next, inside, ran⟩

/-- The parser leaves the cursor inside of the tokens, and the traits it nests are read off them. -/
theorem holderStatement_readOff (start : Nat) {seen : HolderMembers} (inside : Inside source tokens cursor)
    (known : ∀ trait ∈ seen.nested, ReadOff source tokens trait) :
    Ensures source cursor (holderStatement start seen) fun later _ => ∀ trait ∈ later.nested, ReadOff source tokens trait := by
  refine ensures_then (inside.then inferInstance) fun mods middle inside => ?_
  refine ensures_bind.mpr (ensures_peekKind?.mpr ?_)
  split
  · refine ensures_then (interface_readOff inside) fun trait next found => ?_
    refine ensures_bind.mpr (ensures_lastStop.mpr (ensures_pure.mpr ?_))
    intro other member
    rcases List.mem_append.mp member with earlier | last
    · exact known other earlier
    · rw [List.mem_singleton.mp last]
      exact found.2
  · exact ensures_then (fun _ _ _ => trivial) fun _ _ (_ : True) => ensures_pure.mpr known
  · split
    · refine ensures_then (fun _ _ _ => trivial) fun name _ (_ : True) => ?_
      refine ensures_bind.mpr (ensures_lastStop.mpr (ensures_pure.mpr ?_))
      cases name <;> exact known
    · exact ensures_then (fun _ _ _ => trivial) fun _ _ (_ : True) => ensures_pure.mpr known
  · exact ensures_then (fun _ _ _ => trivial) fun _ _ (_ : True) => ensures_pure.mpr known

theorem holderBody_readOff (inside : Inside source tokens cursor) :
    Ensures source cursor holderBody fun found _ => ∀ trait ∈ found.1.nested, ReadOff source tokens trait := by
  refine ensures_then (inside.then inferInstance) fun openBrace begun inside => ?_
  refine ensures_iterate (fun seen current => Inside source tokens current ∧ ∀ trait ∈ seen.nested, ReadOff source tokens trait)
    ⟨inside, by simp⟩ ?_
  rintro seen current ⟨inside, known⟩
  refine ensures_then (inside.then inferInstance) fun closed middle inside => ?_
  split
  · exact ensures_pure.mpr known
  · refine ensures_then (inside.then inferInstance) fun start after inside => ?_
    refine ensures_bind.mpr fun later next ran => ensures_pure.mpr ⟨inside.then inferInstance _ _ ran, ?_⟩
    exact holderStatement_readOff start inside known _ _ ran

theorem holder_readOff (inside : Inside source tokens cursor) :
    Ensures source cursor holder fun holder _ => ∀ trait ∈ holder.nested, ReadOff source tokens trait := by
  refine ensures_then (inside.then inferInstance) fun keyword middle inside => ?_
  refine ensures_then (inside.then inferInstance) fun name middle inside => ?_
  refine ensures_then (inside.then inferInstance) fun parents middle inside => ?_
  have body : Ensures source middle optionalHolderBody fun found _ => ∀ trait ∈ found.1.nested, ReadOff source tokens trait := by
    refine ensures_then (inside.then inferInstance) fun here middle inside => ?_
    split
    · exact ensures_then (holderBody_readOff inside) fun found _ known => ensures_pure.mpr known
    · exact ensures_pure.mpr (by simp)
  refine ensures_then body fun found _ known => ?_
  exact ensures_bind.mpr (ensures_lastStop.mpr (ensures_pure.mpr known))

theorem topLevel_readOff (inside : Inside source tokens cursor) :
    Ensures source cursor topLevel fun decl _ => ∀ trait ∈ declared decl, ReadOff source tokens trait := by
  refine ensures_then (inside.then inferInstance) fun here middle inside => ?_
  split
  · exact ensures_then (fun _ _ _ => trivial) fun _ _ (_ : True) => ensures_pure.mpr (by simp [declared])
  refine ensures_then (inside.then inferInstance) fun mods middle inside => ?_
  refine ensures_then (inside.then inferInstance) fun kind middle inside => ?_
  split
  · refine ensures_then (interface_readOff inside) fun trait _ found => ensures_pure.mpr ?_
    exact List.forall_mem_singleton.mpr found.2
  · split
    · exact ensures_then (holder_readOff inside) fun holder _ known => ensures_pure.mpr known
    split
    · exact ensures_then (fun _ _ _ => trivial) fun _ _ (_ : True) => ensures_pure.mpr (by simp [declared])
    · exact ensures_fail
  · exact ensures_fail

/-- The traits of an outline are read off the tokens of its source. -/
theorem parse_readOff {outline : Outline} (parsed : Outline.parse source = .ok outline) :
    ∃ tokens, Token.scan source = .ok tokens ∧ ∀ decl ∈ outline.decls, ∀ trait ∈ declared decl, ReadOff source tokens trait := by
  obtain ⟨tokens, bare, cursor, scanned, ran, rfl⟩ := DeclPlacement.parse_eq_ok parsed
  refine ⟨tokens, scanned, ?_⟩
  have known : Ensures source ⟨tokens, 0⟩ Parser.outline fun found _ =>
      ∀ decl ∈ found.decls, ∀ trait ∈ declared decl, ReadOff source tokens trait := by
    refine ensures_iterate (fun seen current => Inside source tokens current ∧
      ∀ decl ∈ seen.decls, ∀ trait ∈ declared decl, ReadOff source tokens trait) ⟨⟨List.suffix_refl _, ?_⟩, ?_⟩ ?_
    · exact ⟨TextBoundary.cut_zero source, TokenPlacement.scan_inOrder scanned⟩
    · intro decl member
      cases member
    rintro seen current ⟨inside, known⟩
    refine ensures_then (inside.then inferInstance) fun _ middle inside => ?_
    refine ensures_then (inside.then inferInstance) fun next middle inside => ?_
    split
    · exact ensures_pure.mpr known
    refine ensures_then (inside.then inferInstance) fun clause middle inside => ?_
    split
    · split
      · refine ensures_then (inside.then inferInstance) fun clause middle inside => ?_
        exact ensures_pure.mpr ⟨inside, known⟩
      · exact ensures_fail
    refine ensures_then (inside.then inferInstance) fun clause middle inside => ?_
    split
    · exact ensures_then (inside.then inferInstance) fun imports middle inside => ensures_pure.mpr ⟨inside, known⟩
    · refine ensures_bind.mpr fun decl next ran => ensures_pure.mpr ⟨inside.then inferInstance _ _ ran, ?_⟩
      intro other member
      rcases List.mem_append.mp member with earlier | last
      · exact known other earlier
      · rw [List.mem_singleton.mp last]
        exact topLevel_readOff inside _ _ ran
  exact known bare cursor ran

/-! ### The parts of a trait -/

/-- How the parts of a trait are read, one after the other. -/
structure Parts (source : List Char) (left next : Cursor) (trait : Interface) (keyword name : Token) (rest : List Token)
    (behind skipped extended : Cursor) : Prop where
  shape : left.rest = keyword :: name :: rest
  kind : keyword.kind = .keyword .traitKw
  named : name.isName = true
  text : trait.name = name.text
  span : trait.nameSpan = name.span
  whole : trait.span = ⟨keyword.start, next.lastStop⟩
  typeParams : traitTypeParams source ⟨rest, name.stop⟩ = .ok ((trait.typeParams, trait.typeParamsSpan), behind)
  skips : skipGroups .paren source behind = .ok ((), skipped)
  parents : extendsClause source skipped = .ok (trait.parents, extended)
  body : optionalTraitBody source extended = .ok ((⟨trait.methods, trait.hasConcreteMembers⟩, trait.body), next)

theorem interface_parts (ran : interface source left = .ok (trait, next)) :
    ∃ keyword name rest behind skipped extended, Parts source left next trait keyword name rest behind skipped extended := by
  obtain ⟨keyword, begun, expected, ran⟩ := bind_eq_ok ran
  obtain ⟨name, ⟨rest, stop⟩, called, ran⟩ := bind_eq_ok ran
  obtain ⟨⟨tparams, tparamsSpan⟩, behind, typeParams, ran⟩ := bind_eq_ok ran
  obtain ⟨_, skipped, skips, ran⟩ := bind_eq_ok ran
  obtain ⟨parents, extended, extends', ran⟩ := bind_eq_ok ran
  obtain ⟨⟨members, body⟩, ended, bodied, ran⟩ := bind_eq_ok ran
  obtain ⟨stop', _, stopped, ran⟩ := bind_eq_ok ran
  cases stopped
  cases ran
  obtain ⟨shape, kind, -⟩ := expect_some expected
  obtain ⟨shape', named, stopped⟩ := expectName_some called
  replace stopped : stop = name.stop := stopped
  subst stopped
  exact ⟨keyword, name, rest, behind, skipped, extended, shape.trans (congrArg (keyword :: ·) shape'), kind, named, rfl, rfl, rfl,
    typeParams, skips, extends', bodied⟩

/-- Parents come behind a keyword. -/
theorem extendsClause_some {found : List Parent} (ran : extendsClause source left = .ok (found, next)) (some : found ≠ []) :
    ∃ keyword begun, left.rest = keyword :: begun.rest ∧ keyword.kind = .keyword .extendsKw ∧ begun.lastStop = keyword.stop ∧
      parents source begun = .ok (found, next) := by
  obtain ⟨given, begun, ate, ran⟩ := bind_eq_ok ran
  cases given with
  | false =>
    cases ran
    exact absurd rfl some
  | true =>
    obtain ⟨keyword, shape, kind, stop⟩ := eats_true ate
    exact ⟨keyword, begun, shape, kind, stop, ran⟩

/-- Methods stand in a body. -/
theorem optionalTraitBody_some {members : TraitMembers} {body : Option Body}
    (ran : optionalTraitBody source left = .ok ((members, body), next)) (some : members.methods ≠ []) :
    ∃ found, body = .some found ∧ traitBody source left = .ok ((members, found), next) := by
  obtain ⟨here, _, looked, ran⟩ := bind_eq_ok ran
  cases looked
  split at ran
  · obtain ⟨⟨members, found⟩, _, bodied, ran⟩ := bind_eq_ok ran
    cases ran
    exact ⟨found, rfl, bodied⟩
  · cases ran
    exact absurd rfl some

end KindLift.TraitReading
