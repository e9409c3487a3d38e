import KindLift.Proofs.MigrationCompleteness
import Mathlib.Data.List.Iterate

/-! Runs of the rule for references one after the other. The text that the rule makes
has the references of the text it was given, so every run finds the same ones and
qualifies each of them once more. -/
namespace KindLift.RepeatedQualification
open Token Text TokenPlacement EditApplication QualifiedScan QualifiedTokens QualifiedCursor QualifiedHeader
open QualifiedOutline QualifiedReferences Traversal
open MigrationCompleteness (load_id)

variable {index : Index} {id : UnitId} {text text' : String} {unit unit' : SourceUnit} {scope : Scope}
  {found again : List RelocatedRef} {marked : Token → Bool} {place : Nat → Nat} {tokens others : List Token}
  {outline outline' : Outline} {low shift : Nat} {source : List Char}

/-! ### The scope of the new text -/

theorem targets_names {imports imports' : List Import} (same : imports'.map importNames = imports.map importNames) :
    imports'.flatMap Import.targets = imports.flatMap Import.targets := by
  induction imports generalizing imports' with
  | nil =>
    rw [List.map_nil, List.map_eq_nil_iff] at same
    rw [same]
  | cons clause imports ih =>
    obtain ⟨clause', imports', rfl, first, later⟩ := List.map_eq_cons_iff.mp same
    obtain ⟨path, selectors⟩ := Prod.mk.inj first
    rw [List.flatMap_cons, List.flatMap_cons, ih later, Import.targets, Import.targets, path, selectors]

theorem bindRef_names {imports imports' : List Import} (same : imports'.map importNames = imports.map importNames)
    (package : DottedName) (locals : List String) :
    Scope.bindRef index id package imports' locals = Scope.bindRef index id package imports locals := by
  funext bindings name
  rw [Scope.bindRef, Scope.bindRef, Scope.bind?, Scope.bind?, explicitTargets_names same, wildcardTargets_names same]

/-- Outlines that differ in places only have the same scope, or none for the same reason. -/
theorem resolve_moved (moved : MovedOutline place outline outline')
    (names : outline'.typeRefs.map TypeRef.name = outline.typeRefs.map TypeRef.name) :
    Scope.resolve index id outline' = Scope.resolve index id outline := by
  rw [Scope.resolve, Scope.resolve]
  dsimp only
  rw [targets_names moved.imports, MovedOutline.packageName moved, moved_names moved.decls, names, bindRef_names moved.imports]

/-- The meaning of a name depends on the scope only. -/
theorem resolve_scope (same : unit'.id = unit.id) (scopes : unit'.scope = unit.scope) (name : String) :
    Relocated.resolve unit' name = Relocated.resolve unit name := by
  rw [Relocated.resolve, Relocated.resolve, SourceUnit.scopeOf, SourceUnit.scopeOf, scopes, same]

/-! ### References found again -/

/-- The reference of the new text that corresponds to a reference of the old one. -/
def Corresponds (unit unit' : SourceUnit) (scope : Scope) (tokens others : List Token) (reference reference' : TypeRef) :
    Prop :=
  ∃ token use, token ∈ TypeRef.usesFrom 0 tokens ∧
    MovedUse (isMarked unit scope tokens) (movedTo (isMarked unit scope tokens) tokens) others token use ∧
    reference = referenceAt unit.outline.decls token ∧ reference' = referenceAt unit'.outline.decls use ∧
    reference'.enclosingHolder = reference.enclosingHolder ∧
    Relocated.ofReference unit' scope reference' = Relocated.ofReference unit scope reference

theorem corresponding (scopes : unit'.scope = unit.scope) (ids : unit'.id = unit.id)
    (moved : MovedOutline (movedTo (isMarked unit scope tokens) tokens) unit.outline unit'.outline)
    (references : unit.outline.typeRefs = (TypeRef.usesFrom 0 tokens).map (referenceAt unit.outline.decls))
    (references' : unit'.outline.typeRefs = (TypeRef.usesFrom 0 others).map (referenceAt unit'.outline.decls))
    (apart : ∀ token ∈ TypeRef.usesFrom 0 tokens, OffBraces unit.outline.decls token.start)
    (uses : List.Forall₂ (MovedUse (isMarked unit scope tokens) (movedTo (isMarked unit scope tokens) tokens) others)
      (TypeRef.usesFrom 0 tokens) (TypeRef.usesFrom 0 others)) :
    List.Forall₂ (Corresponds unit unit' scope tokens others) unit.outline.typeRefs unit'.outline.typeRefs := by
  rw [references, references', List.forall₂_map_left_iff, List.forall₂_map_right_iff]
  refine ((List.forall₂_and_left _ _).mpr ⟨fun _ member => member, uses⟩).imp fun token use both => ?_
  obtain ⟨used, movedUse⟩ := both
  have mono := movedTo_strictMono (isMarked unit scope tokens) tokens
  refine ⟨token, use, used, movedUse, rfl, rfl, enclosingHolder?_moved mono moved.decls movedUse.next (apart token used), ?_⟩
  rcases ofReference_moved mono moved rfl rfl (apart token used) movedUse with same | ⟨-, there, here⟩
  · exact same
  · rw [there, here, resolve_scope ids scopes]

/-- The same reference, found once more. -/
structure Again (unit unit' : SourceUnit) (scope : Scope) (tokens others : List Token) (relocated again : RelocatedRef) :
    Prop where
  index : again.index = relocated.index
  target : again.target = relocated.target
  meant : Relocated.ofReference unit scope relocated.reference = .ok (some relocated.target)
  corresponds : Corresponds unit unit' scope tokens others relocated.reference again.reference

theorem findAll_corresponding (inScope : unit.scope = .ok scope) (inScope' : unit'.scope = .ok scope)
    (related : List.Forall₂ (Corresponds unit unit' scope tokens others) unit.outline.typeRefs unit'.outline.typeRefs)
    (ran : RelocatedRef.findAll unit = .ok found) :
    ∃ again, RelocatedRef.findAll unit' = .ok again ∧ List.Forall₂ (Again unit unit' scope tokens others) found again := by
  obtain ⟨scope', known, rest⟩ := bind_eq_ok_iff.mp ran
  cases inScope.symm.trans (SettledUnits.scopeOf_eq_ok_iff.mp known)
  obtain ⟨results, each, same⟩ := bind_eq_ok_iff.mp rest
  cases same
  replace each := mapM_eq_ok_iff.mp each
  have results' : ∃ results', List.Forall₂ (fun item result => (do
        let target ← Relocated.ofReference unit' scope item.1
        return target.map fun target => RelocatedRef.mk item.2 item.1 target) = .ok result)
      (unit'.outline.typeRefs.zipIdx 0) results' ∧
      List.Forall₂ (Option.Rel (Again unit unit' scope tokens others)) results results' := by
    clear ran rest known
    generalize 0 = first at each ⊢
    generalize unit.outline.typeRefs = references at related each
    generalize unit'.outline.typeRefs = references' at related ⊢
    induction related generalizing results first with
    | nil =>
      cases each
      exact ⟨[], .nil, .nil⟩
    | @cons reference reference' references references' corresponds _ ih =>
      rw [List.zipIdx_cons] at each ⊢
      obtain ⟨result, others, here, later, rfl⟩ := List.forall₂_cons_left_iff.mp each
      obtain ⟨target, meant, same⟩ := bind_eq_ok_iff.mp here
      cases same
      obtain ⟨results', later', again⟩ := ih _ _ later
      obtain ⟨_, _, _, _, _, _, _, judged⟩ := id corresponds
      refine ⟨target.map (RelocatedRef.mk first reference') :: results', .cons ?_ later', .cons ?_ again⟩
      · exact bind_eq_ok_iff.mpr ⟨target, judged.trans meant, rfl⟩
      · cases target with
        | none => exact .none
        | some target => exact .some ⟨rfl, rfl, meant, corresponds⟩
  obtain ⟨results', each', alike⟩ := results'
  refine ⟨results'.filterMap fun result => result, ?_, ?_⟩
  · refine bind_eq_ok_iff.mpr ⟨scope, SettledUnits.scopeOf_eq_ok_iff.mpr inScope', ?_⟩
    exact bind_eq_ok_iff.mpr ⟨results', mapM_eq_ok_iff.mpr each', rfl⟩
  · exact List.rel_filterMap (fun _ _ same => same) alike

/-! ### One run -/

/-- The references that were found can be qualified: their targets are named by words, and
a quoted reference does not stand right behind a token that would run on into the name. -/
structure Fit (text : String) (found : List RelocatedRef) : Prop where
  words : ∀ relocated ∈ found, IsWord relocated.target.name.toList
  apart : ∀ relocated ∈ found, IsQuoted text relocated.reference → StandsApart text relocated.reference

/-- The insertions, each moved by its own length and by those of the ones before it. -/
def shifted (shift : Nat) : List Edit → List Edit
  | [] => []
  | edit :: rest =>
    let more := shift + byteLength edit.replacement.toList
    .insertion (edit.start + more) edit.replacement :: shifted more rest

theorem length_shifted (shift : Nat) (edits : List Edit) : (shifted shift edits).length = edits.length := by
  induction edits generalizing shift with
  | nil => rfl
  | cons edit rest ih => rw [shifted, List.length_cons, ih, List.length_cons]

/-- The insertion in front of the same token of the new text. -/
def inFront (place : Nat → Nat) (edit : Edit) : Edit := .insertion (place (edit.start + 1) - 1) edit.replacement

theorem qualifications_shifted (ordered : InOrder source low tokens)
    (agrees : ∀ offset, low ≤ offset → place offset = movedTo marked tokens offset + shift) :
    ((tokens.filter marked).map qualification).map (inFront place) = shifted shift ((tokens.filter marked).map qualification) := by
  induction tokens generalizing low shift with
  | nil => rfl
  | cons token rest ih =>
    obtain ⟨first, stands, later⟩ := id ordered
    have width := start_lt_stop stands
    have next : place (token.start + 1) = token.start + 1 + inserted marked token + shift := by
      rw [agrees _ (Nat.le_succ_of_le first), movedTo_first ordered (Nat.lt_succ_self _) width]
    have behind : ∀ offset, token.stop ≤ offset →
        place offset = movedTo marked rest offset + (shift + inserted marked token) := by
      intro offset bound
      rw [agrees offset (by omega), movedTo_behind _ _ (by omega)]
      omega
    have rest' := ih later behind
    by_cases mark : marked token = true
    · have text : byteLength (token.text ++ ".").toList = inserted marked token := by
        rw [inserted, if_pos mark, String.toList_append, byteLength_append, Token.text, String.toList_ofList]
        rfl
      rw [List.filter_cons_of_pos mark, List.map_cons, List.map_cons, shifted, rest']
      dsimp only [qualification, Edit.insertion, inFront]
      rw [text, next]
      congr 3 <;> omega
    · rw [inserted, if_neg mark] at rest'
      rw [List.filter_cons_of_neg mark]
      exact rest'

/-- Tokens that end at one place are the same. -/
theorem eq_of_stop (ordered : InOrder source low tokens) {first second : Token} (listed : first ∈ tokens)
    (listed' : second ∈ tokens) (same : first.stop = second.stop) : first = second := by
  have distinct : (tokens.map Token.stop).Nodup := by
    refine List.pairwise_map.mpr ((OutlineSpans.inOrder_disjoint ordered).imp_of_mem fun {a b} _ member apart => ?_)
    have width := start_lt_stop (ReferencePlacement.inOrder_mem ordered b member).2
    omega
  exact List.inj_on_of_nodup_map distinct listed listed' same

/-- What stands behind a point stands apart. -/
theorem standsApart_of_qualified {decls : List Decl} {use : Token} (scanned : Token.scan text.toList = .ok tokens)
    (qualified : Qualified tokens use) : StandsApart text (referenceAt decls use) := by
  intro tokens' scanned' before member touches
  cases scanned.symm.trans scanned'
  obtain ⟨front, qualifier, dot, back, shape, -, -, point, written, stop⟩ := qualified
  have listed : dot ∈ tokens := by
    rw [shape]
    simp
  rw [eq_of_stop (scan_inOrder scanned) member listed (touches.trans stop.symm), Running, point, written]
  decide

/-- What a run of the rule leaves: a unit with the same references, of which the rule
finds the same ones again. -/
structure Repeats (index : Index) (id : UnitId) (text text' : String) (found again : List RelocatedRef) : Prop where
  resolved : ∃ scope, (SourceUnit.load index id text').scope = .ok scope
  references : (SourceUnit.load index id text').outline.typeRefs.map (fun reference => (reference.name, reference.enclosingHolder)) =
    (SourceUnit.load index id text).outline.typeRefs.map fun reference => (reference.name, reference.enclosingHolder)
  ran : RelocatedRef.findAll (.load index id text') = .ok again
  same : again.map (fun relocated => (relocated.index, relocated.target)) =
    found.map fun relocated => (relocated.index, relocated.target)
  edits : again.map AdaptReferences.qualify = shifted 0 (found.map AdaptReferences.qualify)

theorem rule_applies (parsed : Outline.parse unit.text.toList = .ok unit.outline) (ran : RelocatedRef.findAll unit = .ok found) :
    ∃ group result, AdaptReferences.editSet unit = .ok group ∧ group.edits = found.map AdaptReferences.qualify ∧
      group.apply unit.text = .ok result := by
  have placed := ReferencePlacement.parse_refs_placed parsed
  have sublist : (found.map RelocatedRef.reference).Sublist unit.outline.typeRefs := by
    have safe := @ReferencePlacement.findAll_safely unit
    rw [ran] at safe
    exact safe
  have apart := ReferencePlacement.qualify_apart placed sublist
  have applies : ∃ result, (EditSet.onText AdaptReferences.ruleName unit.text (found.map AdaptReferences.qualify)).apply unit.text =
      .ok (String.ofList result) ∧ _ := apply_of_apart apart (ReferencePlacement.qualify_cuts placed sublist)
  obtain ⟨result, applied, -⟩ := applies
  refine ⟨_, _, ?_, rfl, applied⟩
  have valid : (EditSet.onText AdaptReferences.ruleName unit.text (found.map AdaptReferences.qualify)).validate = .ok () :=
    validate_of_apart apart
  refine bind_eq_ok_iff.mpr ⟨found, ran, ?_⟩
  simp only [Rule.validated, valid]

/-- The rule over the text that it has made. -/
theorem rule_repeats {group : EditSet} (ran : RelocatedRef.findAll (.load index id text) = .ok found) (fit : Fit text found)
    (returned : AdaptReferences.editSet (.load index id text) = .ok group) (applied : group.apply text = .ok text') :
    ∃ again, Repeats index id text text' found again ∧ Fit text' again := by
  obtain ⟨scope, inScope⟩ := findAll_scope ran
  obtain ⟨parsed, resolved⟩ := load_scope inScope
  have texts := RuleSafety.load_text index id text
  obtain ⟨tokens, scanned, references⟩ := parse_typeRefs parsed
  obtain ⟨others, scanned', aligned⟩ := adapted_aligned (texts.symm ▸ parsed) (texts.symm ▸ scanned) inScope ran
    (fun relocated listed quoted => ⟨fit.words relocated listed, texts.symm ▸ fit.apart relocated listed (texts ▸ quoted)⟩)
    returned (texts.symm ▸ applied)
  have origin : movedTo (isMarked (.load index id text) scope tokens) tokens 0 = 0 :=
    movedTo_front _ fun _ _ => Nat.zero_le _
  obtain ⟨outline', parsed', moved⟩ := parse_aligned scanned scanned' aligned origin parsed
  have uses := uses_aligned aligned
  obtain ⟨_, rescanned, references'⟩ := parse_typeRefs parsed'
  cases scanned'.symm.trans rescanned
  have loaded' : (SourceUnit.load index id text').outline = outline' := SettledUnits.load_outline parsed'
  rw [← loaded'] at moved references'
  have names : (SourceUnit.load index id text').outline.typeRefs.map TypeRef.name =
      (SourceUnit.load index id text).outline.typeRefs.map TypeRef.name := by
    rw [references, references', List.map_map, List.map_map]
    exact map_related uses fun _ _ use => use.text
  have inScope' : (SourceUnit.load index id text').scope = .ok scope := by
    rw [← resolved, ← resolve_moved moved names, loaded', SourceUnit.load, parsed']
  have related := corresponding (inScope'.trans inScope.symm) (by rw [load_id, load_id]) moved references references'
    (fun token used => use_offBraces parsed scanned used) uses
  obtain ⟨again, ran', same⟩ := findAll_corresponding inScope inScope' related ran
  refine ⟨again, ⟨⟨scope, inScope'⟩, ?_, ran', ?_, ?_⟩, ?_, ?_⟩
  · exact map_related related fun _ _ ⟨_, _, _, use, here, there, enclosing, _⟩ => by
      rw [enclosing, here, there, referenceAt, referenceAt, use.text]
  · exact map_related same fun _ _ found => by rw [found.index, found.target]
  · have through : again.map AdaptReferences.qualify = (found.map AdaptReferences.qualify).map
        (inFront (movedTo (isMarked (.load index id text) scope tokens) tokens)) := by
      rw [List.map_map]
      refine map_related same fun relocated other found => ?_
      obtain ⟨token, use, -, moved, here, there, -⟩ := found.corresponds
      rw [Function.comp_apply, AdaptReferences.qualify, AdaptReferences.qualify, inFront, found.target, here, there]
      dsimp only [Edit.insertion, referenceAt, Token.span]
      rw [← moved.next, Nat.add_sub_cancel]
    rw [through, edits_eq (texts.symm ▸ scan_inOrder scanned) references inScope ran]
    exact qualifications_shifted (scan_inOrder scanned) fun offset _ => rfl
  · intro other listed
    obtain ⟨relocated, before, found⟩ := related_before same other listed
    rw [found.target]
    exact fit.words relocated before
  · intro other listed _
    obtain ⟨relocated, before, found⟩ := related_before same other listed
    obtain ⟨token, use, used, moved, here, there, -⟩ := found.corresponds
    rw [there]
    refine standsApart_of_qualified scanned' (moved.origin.resolve_left ?_).2
    rintro ⟨unmarked, -⟩
    have mark := found.meant
    rw [here] at mark
    rw [isMarked, relocation?, mark, List.contains_eq_mem, decide_eq_true used] at unmarked
    cases unmarked

/-! ### Any number of runs -/

/-- Successive runs of the rule over a text, each over the text that the one before it has
made: the edits of every run, and the text in the end. -/
inductive Runs (index : Index) (id : UnitId) : String → List (List Edit) → String → Prop where
  | none (first : String) : Runs index id first [] first
  | run {group : EditSet} {first : String} (returned : AdaptReferences.editSet (.load index id first) = .ok group)
      (applied : group.apply first = .ok second) (later : Runs index id second runs last) :
      Runs index id first (group.edits :: runs) last

theorem rule_applied (ran : RelocatedRef.findAll (.load index id text) = .ok found) :
    ∃ group text', AdaptReferences.editSet (.load index id text) = .ok group ∧
      group.edits = found.map AdaptReferences.qualify ∧ group.apply text = .ok text' := by
  obtain ⟨scope, inScope⟩ := findAll_scope ran
  have texts := RuleSafety.load_text index id text
  obtain ⟨group, text', returned, edits, applied⟩ := rule_applies (texts.symm ▸ (load_scope inScope).1) ran
  exact ⟨group, text', returned, edits, texts ▸ applied⟩

/-- Every run makes the insertions of the run before it, where their references are now. -/
theorem runs_shifted (ran : RelocatedRef.findAll (.load index id text) = .ok found) (fit : Fit text found) (count : Nat) :
    ∃ final, Runs index id text (List.iterate (shifted 0) (found.map AdaptReferences.qualify) count) final := by
  induction count generalizing text found with
  | zero => exact ⟨text, .none text⟩
  | succ count ih =>
    obtain ⟨group, text', returned, edits, applied⟩ := rule_applied ran
    obtain ⟨again, repeats, fit'⟩ := rule_repeats ran fit returned applied
    obtain ⟨final, later⟩ := ih repeats.ran fit'
    rw [repeats.edits, ← edits] at later
    rw [← edits]
    exact ⟨final, .run returned applied later⟩

theorem length_iterate_shifted (edits : List Edit) (count : Nat) :
    (List.iterate (shifted 0) edits count).flatten.length = count * edits.length := by
  induction count generalizing edits with
  | zero => simp
  | succ count ih =>
    rw [List.iterate, List.flatten_cons, List.length_append, ih, length_shifted, Nat.succ_mul, Nat.add_comm]

/-- The rule qualifies every reference it finds once, and nothing else changes: the new
text has the same references, and the rule makes the same insertions in front of the
same references again. So any number of runs makes that many times the insertions. -/
theorem qualified_once_per_run {group : EditSet} (ran : RelocatedRef.findAll (.load index id text) = .ok found)
    (fit : Fit text found) (returned : AdaptReferences.editSet (.load index id text) = .ok group) :
    group.edits = found.map AdaptReferences.qualify ∧
      (∃ text' again group', group.apply text = .ok text' ∧ Repeats index id text text' found again ∧
        AdaptReferences.editSet (.load index id text') = .ok group' ∧ group'.edits = shifted 0 group.edits) ∧
      ∀ count, ∃ runs final, Runs index id text runs final ∧ runs.length = count ∧
        runs.flatten.length = count * group.edits.length := by
  obtain ⟨_, text', returned', edits, applied⟩ := rule_applied ran
  cases returned.symm.trans returned'
  obtain ⟨again, repeats, -⟩ := rule_repeats ran fit returned applied
  obtain ⟨group', _, returned', edits', -⟩ := rule_applied repeats.ran
  refine ⟨edits, ⟨text', again, group', applied, repeats, returned', ?_⟩, fun count => ?_⟩
  · rw [edits', repeats.edits, edits]
  · obtain ⟨final, runs⟩ := runs_shifted ran fit count
    rw [← edits] at runs
    exact ⟨_, final, runs, List.length_iterate .., length_iterate_shifted ..⟩

/-- A relocated service and a class that refers to it twice, once in back quotes. -/
def twiceText : String := "class C(x:\x60Y\x60[F],y:Y[F])\ntrait Y\nobject Y\x7btrait Y[F[_]]\x7d"

theorem twiceText_runs : ∃ found group, RelocatedRef.findAll (.load .empty "A" twiceText) = .ok found ∧ found.length = 2 ∧
    AdaptReferences.editSet (.load .empty "A" twiceText) = .ok group ∧ group.edits.length = 2 ∧
    ∀ count, ∃ runs final, Runs .empty "A" twiceText runs final ∧ runs.length = count ∧
      runs.flatten.length = count * group.edits.length := by
  have seen : (RelocatedRef.findAll (.load .empty "A" twiceText)).toOption.map (fun found =>
      found.map fun relocated => (relocated.target.name, relocated.reference.span.start)) =
      some [("Y", 10), ("Y", 19)] := by decide +kernel
  obtain ⟨found, ran, seen⟩ := Option.map_eq_some_iff.mp seen
  replace ran := toOption_eq_some_iff.mp ran
  obtain ⟨group, _, returned, -, -⟩ := rule_applied ran
  have length : found.length = 2 := by simpa using congrArg List.length seen
  have each : ∀ relocated ∈ found, relocated.target.name = "Y" ∧
      (relocated.reference.span.start = 10 ∨ relocated.reference.span.start = 19) := by
    intro relocated listed
    have member := List.mem_map_of_mem (f := fun relocated : RelocatedRef =>
      (relocated.target.name, relocated.reference.span.start)) listed
    rw [seen] at member
    simpa [and_or_left] using member
  have apart : (Token.scan twiceText.toList).toOption.map (fun tokens => tokens.all fun before =>
      decide ((before.stop = 10 ∨ before.stop = 19) → ¬ Running before)) = some true := by decide +kernel
  obtain ⟨tokens, scanned, apart⟩ := Option.map_eq_some_iff.mp apart
  have fit : Fit twiceText found := by
    refine ⟨fun relocated listed => ?_, fun relocated listed _ tokens' scanned' before member touches => ?_⟩
    · rw [(each relocated listed).1]
      exact ⟨'Y', [], rfl, by decide, rfl⟩
    · cases (toOption_eq_some_iff.mp scanned).symm.trans scanned'
      refine of_decide_eq_true (List.all_eq_true.mp apart before member) ?_
      rw [touches]
      exact (each relocated listed).2
  obtain ⟨edits, -, runs⟩ := qualified_once_per_run ran fit returned
  refine ⟨found, group, ran, length, returned, ?_, runs⟩
  rw [edits, List.length_map, length]

end KindLift.RepeatedQualification
