import KindLift.Proofs.IndexGrowth
import KindLift.Proofs.OutlineSpans
import KindLift.Proofs.QualifiedOutline
import KindLift.Proofs.SettledUnits

/-! The references of a unit before and after the rule for references. The rule
qualifies the words that mean relocated services; every other reference means what
it meant before. -/
namespace KindLift.QualifiedReferences
open Token TokenPlacement EditApplication QualifiedScan QualifiedTokens QualifiedCursor QualifiedHeader
open QualifiedTypeParams QualifiedTrait QualifiedOutline IndexGrowth Traversal
open DeclPlacement (parse_eq_ok)

variable {marked : Token → Bool} {place : Nat → Nat} {source source' : List Char} {outline outline' : Outline}
  {tokens others : List Token} {token other : Token} {name : String} {offset there : Nat}

/-- Aligned tokens have outlines that differ in places only. -/
theorem parse_aligned (scanned : Token.scan source = .ok tokens) (scanned' : Token.scan source' = .ok others)
    (aligned : Aligned marked place 0 tokens others) (origin : place 0 = 0)
    (parsed : Outline.parse source = .ok outline) :
    ∃ outline', Outline.parse source' = .ok outline' ∧ MovedOutline place outline outline' := by
  obtain ⟨_, bare, cursor, same, ran, rfl⟩ := parse_eq_ok parsed
  cases scanned.symm.trans same
  have tied : Tied marked place ⟨tokens, 0⟩ ⟨others, 0⟩ := ⟨origin.symm, 0, aligned⟩
  have agree : ParserSimulation.Agree source source' ⟨tokens, 0⟩ ⟨others, 0⟩ Parser.outline Parser.outline
      fun a _ b _ => MovedOutline place a b := outline_agree tied
  obtain ⟨bare', cursor', ran', moved⟩ := agree bare cursor ran
  refine ⟨{ bare' with typeRefs := TypeRef.collect others bare'.decls }, ?_, moved.package, moved.imports, moved.decls⟩
  simp only [Outline.parse, Parser.onTokens, scanned', ran', bind, Except.bind, pure, Except.pure]

/-! ### Offsets of moved tokens -/

theorem start_le_moved (mono : StrictMono place) (next : there + 1 = place (offset + 1)) {low low' : Nat}
    (moved : low' = place low) : low' ≤ there ↔ low ≤ offset := by
  rw [← Nat.lt_succ_iff, Nat.succ_eq_add_one, next, moved, mono.lt_iff_lt, Nat.lt_succ_iff]

theorem MovedSpan.contains (mono : StrictMono place) {span span' : Span} (moved : MovedSpan place span span')
    (next : there + 1 = place (offset + 1)) : span'.contains there = span.contains offset := by
  have last : there < span'.stop ↔ offset < span.stop := by
    rw [← Nat.succ_le_iff, Nat.succ_eq_add_one, next, moved.2, mono.le_iff_le, Nat.succ_le_iff]
  rw [Span.contains, Span.contains, decide_eq_decide.mpr (start_le_moved mono next moved.1), decide_eq_decide.mpr last]

theorem MovedBody.contains (mono : StrictMono place) {body body' : Body} (moved : MovedBody place body body')
    (next : there + 1 = place (offset + 1)) (apart : body.closeBrace ≠ offset) :
    body'.span.contains there = body.span.contains offset := by
  have last : there < body'.closeBrace + 1 ↔ offset < body.closeBrace + 1 := by
    rw [moved.2]
    constructor
    · intro below
      by_contra above
      have first := mono (show body.closeBrace < body.closeBrace + 1 by omega)
      have second := @mono (body.closeBrace + 1) (offset + 1) (by omega)
      omega
    · intro below
      have above := mono.monotone (show offset + 1 ≤ body.closeBrace by omega)
      omega
  show (decide (body'.openBrace ≤ there) && decide (there < body'.closeBrace + 1)) =
    (decide (body.openBrace ≤ offset) && decide (offset < body.closeBrace + 1))
  rw [decide_eq_decide.mpr (start_le_moved mono next moved.1), decide_eq_decide.mpr last]

/-- No object among the declarations ends its body where the token begins. -/
def OffBraces (decls : List Decl) (offset : Nat) : Prop :=
  ∀ holder ∈ decls.filterMap Decl.holder?, ∀ body ∈ holder.body, body.closeBrace ≠ offset

/-- A name does not begin with a brace. -/
theorem ident_head {glued : Bool} {chars : List Char} (scanned : Token.scanFrom offset glued chars = .ok tokens) :
    ∀ token ∈ tokens, token.kind = .ident → token.lexeme.head? ≠ some '\x7d' := by
  induction tokens generalizing offset glued chars with
  | nil => simp
  | cons first rest ih =>
    obtain ⟨gap, c, body, next, rfl, -, read, shape, later⟩ := ScanSteps.scanFrom_first scanned
    refine List.forall_mem_cons.mpr ⟨?_, ih later⟩
    rw [shape]
    rintro kind same
    cases Option.some.inj same
    have found : Token.readToken (glued && gap.isEmpty) '\x7d' (body ++ next) = .ok (.closer .brace, body ++ next) := rfl
    rw [found, kind] at read
    cases read

/-- Uses are off the braces of the objects. -/
theorem use_offBraces (parsed : Outline.parse source = .ok outline) (scanned : Token.scan source = .ok tokens)
    (used : token ∈ TypeRef.usesFrom 0 tokens) : OffBraces outline.decls token.start := by
  intro holder listed body member same
  obtain ⟨_, bare, cursor, scanned', ran, rfl⟩ := parse_eq_ok parsed
  cases scanned.symm.trans scanned'
  have ordered := scan_inOrder scanned
  have listed' := (ReferencePlacement.usesFrom_sublist 0 tokens).subset used
  have stands := (ReferencePlacement.inOrder_mem ordered token listed').2
  obtain ⟨decl, inside, isHolder⟩ := List.mem_filterMap.mp listed
  have placed := (OutlineSpans.outline_read ⟨TextBoundary.cut_zero source, ordered⟩ bare cursor ran).parts decl inside
  cases decl with
  | interface => cases isHolder
  | other => cases isHolder
  | holder holder =>
    cases isHolder
    obtain ⟨left, right, shape, start⟩ := (placed.body body member).closed
    obtain ⟨left', right', shape', start'⟩ := stands.placed
    obtain ⟨rfl, spelled⟩ := TextBoundary.cut_unique (shape.symm.trans shape') (by omega)
    refine ident_head (scan_eq_ok_iff.mp scanned) token listed' (usesFrom_ident used) ?_
    have nonempty := stands.nonempty
    generalize token.lexeme = lexeme at spelled nonempty
    cases lexeme with
    | nil => exact absurd rfl nonempty
    | cons => exact congrArg some (List.cons.inj spelled).1.symm

/-! ### Declarations -/

theorem moved_holders {decls decls' : List Decl} (moved : List.Forall₂ (MovedDecl place) decls decls') :
    List.Forall₂ (MovedHolder place) (decls.filterMap Decl.holder?) (decls'.filterMap Decl.holder?) := by
  refine List.rel_filterMap (fun decl decl' moved => ?_) moved
  cases moved with
  | interface => exact .none
  | holder moved => exact .some moved
  | other => exact .none

theorem moved_interfaces {decls decls' : List Decl} (moved : List.Forall₂ (MovedDecl place) decls decls') :
    List.Forall₂ (MovedInterface place) (decls.filterMap Decl.interface?) (decls'.filterMap Decl.interface?) := by
  refine List.rel_filterMap (fun decl decl' moved => ?_) moved
  cases moved with
  | interface moved => exact .some moved
  | holder => exact .none
  | other => exact .none

theorem moved_names {decls decls' : List Decl} (moved : List.Forall₂ (MovedDecl place) decls decls') :
    decls'.filterMap Decl.name? = decls.filterMap Decl.name? := by
  induction moved with
  | nil => rfl
  | cons first _ ih =>
    have same : ∀ {decl decl'}, MovedDecl place decl decl' → decl'.name? = decl.name? := by
      rintro _ _ (moved | moved | moved)
      · exact congrArg some moved.name
      · exact congrArg some moved.name
      · exact moved
    rw [List.filterMap_cons, List.filterMap_cons, same first, ih]

theorem enclosingHolder?_moved (mono : StrictMono place) {decls decls' : List Decl}
    (moved : List.Forall₂ (MovedDecl place) decls decls') (next : there + 1 = place (offset + 1))
    (apart : OffBraces decls offset) : TypeRef.enclosingHolder? decls' there = TypeRef.enclosingHolder? decls offset := by
  have holders := moved_holders moved
  unfold OffBraces at apart
  unfold TypeRef.enclosingHolder?
  generalize decls.filterMap Decl.holder? = found at holders apart
  generalize decls'.filterMap Decl.holder? = found' at holders
  induction holders with
  | nil => rfl
  | @cons holder holder' rest rest' first _ ih =>
    have body := first.body
    obtain ⟨here, later⟩ := List.forall_mem_cons.mp apart
    rw [List.findSome?_cons, List.findSome?_cons, ih later]
    generalize holder.body = inside at body here
    generalize holder'.body = inside' at body
    cases body with
    | none => rfl
    | some moved => simp only [MovedBody.contains mono moved next (here _ rfl), first.name]

theorem find?_related {R : α → β → Prop} {test : α → Bool} {test' : β → Bool} {items : List α} {items' : List β}
    (related : List.Forall₂ R items items') (same : ∀ a b, R a b → test' b = test a) :
    Option.Rel R (items.find? test) (items'.find? test') := by
  induction related with
  | nil => exact .none
  | @cons item item' rest rest' first _ ih =>
    rw [List.find?_cons, List.find?_cons, same _ _ first]
    cases test item with
    | true => exact .some first
    | false => exact ih

theorem MovedInterface.isEmpty {interface interface' : Interface} (moved : MovedInterface place interface interface') :
    interface'.typeParams.isEmpty = interface.typeParams.isEmpty := by
  have kinds := congrArg List.isEmpty moved.kinds
  rwa [paramKinds, paramKinds, List.isEmpty_map, List.isEmpty_map] at kinds

theorem isNested_moved (moved : MovedOutline place outline outline') (name : String) :
    Relocated.isNested outline' name = Relocated.isNested outline name := by
  have holders := moved_holders moved.decls
  unfold Relocated.isNested
  generalize outline.decls.filterMap Decl.holder? = found at holders
  generalize outline'.decls.filterMap Decl.holder? = found' at holders
  induction holders with
  | nil => rfl
  | @cons holder holder' rest rest' first _ ih =>
    have nested : Option.Rel (MovedInterface place) (holder.nestedInterface? name) (holder'.nestedInterface? name) :=
      find?_related first.nested fun _ _ moved => by rw [moved.name]
    rw [List.any_cons, List.any_cons, ih]
    generalize holder.nestedInterface? name = inside at nested
    generalize holder'.nestedInterface? name = inside' at nested
    cases nested with
    | none => rfl
    | some moved =>
      have kinds := moved.kinds
      simp only [paramKinds] at kinds
      dsimp only
      rw [kinds]

theorem aliasSpan?_moved (moved : MovedOutline place outline outline') (name : String) :
    Option.Rel (MovedSpan place) (Relocated.aliasSpan? outline name) (Relocated.aliasSpan? outline' name) := by
  have aliases : List.Forall₂ (MovedInterface place) (Relocated.localAliases outline) (Relocated.localAliases outline') := by
    refine List.rel_filter (fun interface interface' moved' => ?_) (moved_interfaces moved.decls)
    dsimp only
    rw [MovedInterface.isEmpty moved', moved'.name, isNested_moved moved]
  have found : Option.Rel (MovedInterface place)
      ((Relocated.localAliases outline).reverse.find? fun interface => interface.name = name)
      ((Relocated.localAliases outline').reverse.find? fun interface => interface.name = name) :=
    find?_related (List.rel_reverse aliases) fun _ _ moved => by rw [moved.name]
  unfold Relocated.aliasSpan?
  generalize (Relocated.localAliases outline).reverse.find? _ = inside at found
  generalize (Relocated.localAliases outline').reverse.find? _ = inside' at found
  cases found with
  | none => exact .none
  | some moved => exact .some moved.span

theorem explicitTargets_names {imports imports' : List Import}
    (same : imports'.map importNames = imports.map importNames) (name : String) :
    Scope.explicitTargets imports' name = Scope.explicitTargets imports name := by
  induction imports generalizing imports' with
  | nil => rw [List.map_eq_nil_iff.mp same]
  | cons clause rest ih =>
    obtain ⟨clause', rest', rfl, first, later⟩ := List.map_eq_cons_iff.mp same
    obtain ⟨path, selectors⟩ := Prod.mk.inj first
    have tail := ih later
    simp only [Scope.explicitTargets, List.flatMap_cons, path, selectors] at tail ⊢
    rw [tail]

theorem wildcardTargets_names {imports imports' : List Import}
    (same : imports'.map importNames = imports.map importNames) (name : String) :
    Scope.wildcardTargets imports' name = Scope.wildcardTargets imports name := by
  have through : ∀ clauses : List Import, Scope.wildcardTargets clauses name =
      ((clauses.map importNames).filter fun clause => clause.2.contains .wildcard &&
        !clause.2.contains (.named name (some "_"))).map fun clause => clause.1.child name := by
    intro clauses
    rw [List.filter_map, List.map_map]
    rfl
  rw [through, through, same]

/-- Names mean the same under the same imports. -/
theorem meanings_names {imports imports' : List Import} (same : imports'.map importNames = imports.map importNames)
    (index : Index) (unit : UnitId) (package : DottedName) (name : String) :
    meanings index unit package imports' name = meanings index unit package imports name := by
  rw [meanings_eq, meanings_eq, explicitTargets_names same, wildcardTargets_names same]

theorem MovedOutline.packageName (moved : MovedOutline place outline outline') :
    outline'.packageName = outline.packageName := by
  have same := moved.package
  unfold Outline.packageName
  generalize outline.package = clause at same
  generalize outline'.package = clause' at same
  cases clause with
  | none =>
    cases clause' with
    | none => rfl
    | some clause' => cases same
  | some clause =>
    cases clause' with
    | none => cases same
    | some clause' => exact Option.some.inj same

theorem resolve_locals {index : Index} {id : UnitId} {scope : Scope} (resolved : Scope.resolve index id outline = .ok scope) :
    scope.locals = outline.decls.filterMap Decl.name? := by
  unfold Scope.resolve at resolved
  split at resolved
  · cases resolved
  · cases resolved
    rfl

theorem resolve_package {index : Index} {id : UnitId} {scope : Scope} (resolved : Scope.resolve index id outline = .ok scope) :
    scope.package = outline.packageName := by
  unfold Scope.resolve at resolved
  split at resolved
  · cases resolved
  · cases resolved
    rfl

/-- A use of a name as a reference of the unit. -/
def referenceAt (decls : List Decl) (token : Token) : TypeRef :=
  ⟨token.text, token.span, TypeRef.enclosingHolder? decls token.start⟩

variable {unit unit' : SourceUnit} {scope scope' : Scope} {target : Relocated}

theorem related_before {R : α → β → Prop} {items : List α} {items' : List β} (related : List.Forall₂ R items items') :
    ∀ b ∈ items', ∃ a ∈ items, R a b := by
  induction related with
  | nil => simp
  | cons first _ ih =>
    refine List.forall_mem_cons.mpr ⟨⟨_, List.mem_cons_self .., first⟩, fun b member => ?_⟩
    obtain ⟨a, listed, holds⟩ := ih b member
    exact ⟨a, List.mem_cons_of_mem _ listed, holds⟩

theorem ofReference_referenceAt (decls : List Decl) (token : Token) :
    Relocated.ofReference unit scope (referenceAt decls token) =
      if TypeRef.enclosingHolder? decls token.start = some token.text then .ok none
      else if scope.isLocal token.text then
        match Relocated.aliasSpan? unit.outline token.text with
        | some span => if span.contains token.start then .ok none else .ok (some ⟨scope.package, token.text⟩)
        | none => .ok none
      else Relocated.resolve unit token.text := rfl

/-- A moved reference is judged as it was before, but for what a name of another unit means. -/
theorem ofReference_moved (mono : StrictMono place) (moved : MovedOutline place unit.outline unit'.outline)
    (locals : scope'.locals = scope.locals) (package : scope'.package = scope.package)
    (apart : OffBraces unit.outline.decls token.start) (use : MovedUse marked place others token other) :
    Relocated.ofReference unit' scope' (referenceAt unit'.outline.decls other) =
        Relocated.ofReference unit scope (referenceAt unit.outline.decls token) ∨
      scope'.isLocal token.text = false ∧
        Relocated.ofReference unit' scope' (referenceAt unit'.outline.decls other) = Relocated.resolve unit' token.text ∧
        Relocated.ofReference unit scope (referenceAt unit.outline.decls token) = Relocated.resolve unit token.text := by
  have enclosing := enclosingHolder?_moved mono moved.decls use.next apart
  have visible : scope'.isLocal token.text = scope.isLocal token.text := by
    rw [Scope.isLocal, Scope.isLocal, locals]
  rw [ofReference_referenceAt, ofReference_referenceAt, enclosing, use.text, visible, package]
  split
  · exact .inl rfl
  split
  · have spans := aliasSpan?_moved moved token.text
    generalize Relocated.aliasSpan? unit.outline token.text = span at spans ⊢
    generalize Relocated.aliasSpan? unit'.outline token.text = span' at spans ⊢
    cases spans with
    | none => exact .inl rfl
    | some movedSpan =>
      dsimp only
      rw [MovedSpan.contains mono movedSpan use.next]
      exact .inl rfl
  · rename_i isForeign
    exact .inr ⟨Bool.not_eq_true _ ▸ isForeign, rfl, rfl⟩

/-- The relocated service a reference means, if it means one. -/
def relocation? (unit : SourceUnit) (scope : Scope) (reference : TypeRef) : Option Relocated :=
  match Relocated.ofReference unit scope reference with
  | .ok target => target
  | .error _ => none

theorem ofReference_name {reference : TypeRef} (inScope : unit.scope = .ok scope)
    (found : Relocated.ofReference unit scope reference = .ok (some target)) : target.name = reference.name := by
  unfold Relocated.ofReference at found
  split at found
  · cases found
  split at found
  · split at found
    · split at found
      · cases found
      · cases found
        rfl
    · cases found
  · exact (resolve_shows inScope found).1

/-- What the rule finds is what its references mean, one by one. -/
theorem findAll_eq_ok {found : List RelocatedRef} (inScope : unit.scope = .ok scope)
    (ran : RelocatedRef.findAll unit = .ok found) :
    (∀ reference ∈ unit.outline.typeRefs, ∃ target, Relocated.ofReference unit scope reference = .ok target) ∧
      found.map (fun relocated => (relocated.reference, relocated.target)) =
        unit.outline.typeRefs.filterMap fun reference =>
          (relocation? unit scope reference).map fun target => (reference, target) := by
  obtain ⟨scope', known, rest⟩ := bind_eq_ok_iff.mp ran
  cases inScope.symm.trans (SettledUnits.scopeOf_eq_ok_iff.mp known)
  obtain ⟨results, each, same⟩ := bind_eq_ok_iff.mp rest
  cases same
  have references : (unit.outline.typeRefs.zipIdx.map Prod.fst) = unit.outline.typeRefs := List.zipIdx_map_fst 0 _
  rw [← references]
  replace each := mapM_eq_ok_iff.mp each
  clear references ran rest known
  generalize unit.outline.typeRefs.zipIdx = items at each ⊢
  induction each with
  | nil => exact ⟨by simp, rfl⟩
  | @cons item result items results first _ ih =>
    obtain ⟨target, meant, same⟩ := bind_eq_ok_iff.mp first
    cases same
    refine ⟨List.forall_mem_cons.mpr ⟨⟨target, meant⟩, ih.1⟩, ?_⟩
    have here : relocation? unit scope item.1 = target := by rw [relocation?, meant]
    rw [List.map_cons, List.filterMap_cons, List.filterMap_cons, here, ← ih.2]
    cases target <;> rfl

theorem filter_mem_sublist {items all : List Token} (sublist : items.Sublist all) (distinct : all.Nodup)
    (test : Token → Bool) : all.filter (fun item => items.contains item && test item) = items.filter test := by
  induction sublist with
  | slnil => rfl
  | @cons items all item sublist ih =>
    obtain ⟨new, rest⟩ := List.nodup_cons.mp distinct
    have absent : items.contains item = false := by
      rw [List.contains_eq_mem, decide_eq_false_iff_not]
      exact fun member => new (sublist.subset member)
    rw [List.filter_cons, absent, Bool.false_and, if_neg Bool.false_ne_true]
    exact ih rest
  | @cons_cons items all item sublist ih =>
    obtain ⟨new, rest⟩ := List.nodup_cons.mp distinct
    have others : all.filter (fun other => (item :: items).contains other && test other) =
        all.filter fun other => items.contains other && test other := by
      refine List.filter_congr fun other member => ?_
      have differs : other ≠ item := fun same => new (same ▸ member)
      simp [differs]
    rw [List.filter_cons, others, ih rest, List.filter_cons, List.contains_cons, beq_self_eq_true, Bool.true_or,
      Bool.true_and]

/-- The token is a use that means a relocated service. -/
def isMarked (unit : SourceUnit) (scope : Scope) (tokens : List Token) (token : Token) : Bool :=
  (TypeRef.usesFrom 0 tokens).contains token && (relocation? unit scope (referenceAt unit.outline.decls token)).isSome

/-- The reference is written in back quotes. -/
def IsQuoted (text : String) (reference : TypeRef) : Prop :=
  (reference.span.chars text.toList).head? = some '\x60'

theorem parse_typeRefs (parsed : Outline.parse source = .ok outline) : ∃ tokens, Token.scan source = .ok tokens ∧
    outline.typeRefs = (TypeRef.usesFrom 0 tokens).map (referenceAt outline.decls) := by
  obtain ⟨tokens, bare, cursor, scanned, -, rfl⟩ := parse_eq_ok parsed
  exact ⟨tokens, scanned, rfl⟩

variable {found : List RelocatedRef}

theorem mem_found_iff (inScope : unit.scope = .ok scope) (ran : RelocatedRef.findAll unit = .ok found)
    {reference : TypeRef} : (∃ relocated ∈ found, relocated.reference = reference ∧ relocated.target = target) ↔
      reference ∈ unit.outline.typeRefs ∧ Relocated.ofReference unit scope reference = .ok (some target) := by
  obtain ⟨each, pairs⟩ := findAll_eq_ok inScope ran
  have listed : (∃ relocated ∈ found, relocated.reference = reference ∧ relocated.target = target) ↔
      (reference, target) ∈ found.map fun relocated => (relocated.reference, relocated.target) := by
    simp only [List.mem_map, Prod.mk.injEq]
  rw [listed, pairs, List.mem_filterMap]
  constructor
  · rintro ⟨_, member, same⟩
    obtain ⟨_, meant, pair⟩ := Option.map_eq_some_iff.mp same
    cases pair
    obtain ⟨outcome, ran⟩ := each reference member
    rw [relocation?, ran] at meant
    exact ⟨member, ran.trans (congrArg _ meant)⟩
  · rintro ⟨member, meant⟩
    exact ⟨reference, member, by rw [relocation?, meant]; rfl⟩

/-- The edits of the rule qualify the marked tokens. -/
theorem edits_eq (ordered : InOrder unit.text.toList 0 tokens)
    (references : unit.outline.typeRefs = (TypeRef.usesFrom 0 tokens).map (referenceAt unit.outline.decls))
    (inScope : unit.scope = .ok scope) (ran : RelocatedRef.findAll unit = .ok found) :
    found.map AdaptReferences.qualify = (tokens.filter (isMarked unit scope tokens)).map qualification := by
  have sublist := ReferencePlacement.usesFrom_sublist 0 tokens
  have distinct : tokens.Nodup := by
    refine (ReferencePlacement.inOrder_increasing ordered).imp fun {a b} less => ?_
    rintro rfl
    exact Nat.lt_irrefl _ less
  have through : found.map AdaptReferences.qualify =
      (found.map fun relocated => (relocated.reference, relocated.target)).map fun pair =>
        Edit.insertion pair.1.span.start (pair.2.name ++ ".") := by
    rw [List.map_map]
    rfl
  have kept : tokens.filter (isMarked unit scope tokens) = (TypeRef.usesFrom 0 tokens).filter fun token =>
      (relocation? unit scope (referenceAt unit.outline.decls token)).isSome := filter_mem_sublist sublist distinct _
  rw [through, (findAll_eq_ok inScope ran).2, references, kept, List.filterMap_map, List.map_filterMap]
  have each : ∀ token ∈ TypeRef.usesFrom 0 tokens, ∀ target,
      relocation? unit scope (referenceAt unit.outline.decls token) = some target →
        Edit.insertion token.start (target.name ++ ".") = qualification token := by
    intro token used target meant
    have named : target.name = token.text := by
      unfold relocation? at meant
      split at meant
      · rename_i ran
        rw [meant] at ran
        exact ofReference_name inScope ran
      · cases meant
    rw [qualification, named]
  clear kept
  generalize TypeRef.usesFrom 0 tokens = uses at each
  induction uses with
  | nil => rfl
  | cons token uses ih =>
    obtain ⟨first, rest⟩ := List.forall_mem_cons.mp each
    rw [List.filterMap_cons, List.filter_cons]
    cases meant : relocation? unit scope (referenceAt unit.outline.decls token) with
    | none => simpa [meant] using ih rest
    | some target =>
      rw [ih rest]
      simp only [Function.comp_apply, meant, Option.map_some, Option.isSome_some, if_true, List.map_cons]
      exact congrArg (· :: _) (first target meant)

/-- No word and no number ends where the reference begins. -/
def StandsApart (text : String) (reference : TypeRef) : Prop :=
  ∀ tokens, Token.scan text.toList = .ok tokens → ∀ before ∈ tokens, before.stop = reference.span.start →
    ¬ Running before

/-- The name of the service can be put in front of the reference. If that is written in back
quotes, the name needs none and does not run together with a word or a number. -/
def Fits (text : String) (relocated : RelocatedRef) : Prop :=
  IsQuoted text relocated.reference → IsWord relocated.target.name.toList ∧ StandsApart text relocated.reference

/-- A marked token is a reference that means a relocated service of its name. -/
theorem found_of_marked (references : unit.outline.typeRefs =
      (TypeRef.usesFrom 0 tokens).map (referenceAt unit.outline.decls))
    (inScope : unit.scope = .ok scope) (ran : RelocatedRef.findAll unit = .ok found)
    (mark : isMarked unit scope tokens token = true) : token ∈ TypeRef.usesFrom 0 tokens ∧
      ∃ relocated ∈ found, relocated.reference = referenceAt unit.outline.decls token ∧ relocated.target.name = token.text := by
  rw [isMarked, Bool.and_eq_true, List.contains_eq_mem, decide_eq_true_eq, Option.isSome_iff_exists] at mark
  obtain ⟨used, target, meant⟩ := mark
  have member : referenceAt unit.outline.decls token ∈ unit.outline.typeRefs := by
    rw [references]
    exact List.mem_map_of_mem used
  obtain ⟨outcome, ran'⟩ := (findAll_eq_ok inScope ran).1 _ member
  rw [relocation?, ran'] at meant
  dsimp only at meant
  subst meant
  obtain ⟨relocated, shown, same, rfl⟩ := (mem_found_iff inScope ran).mpr ⟨member, ran'⟩
  exact ⟨used, relocated, shown, same, ofReference_name inScope ran'⟩

theorem qualifiable_of_found (scanned : Token.scan unit.text.toList = .ok tokens)
    (references : unit.outline.typeRefs = (TypeRef.usesFrom 0 tokens).map (referenceAt unit.outline.decls))
    (inScope : unit.scope = .ok scope) (ran : RelocatedRef.findAll unit = .ok found)
    (fit : ∀ relocated ∈ found, Fits unit.text relocated) :
    Qualifiable (isMarked unit scope tokens) tokens := by
  have ordered := scan_inOrder scanned
  have quoted : ∀ token ∈ tokens, isMarked unit scope tokens token = true → Quoted token →
      IsWord (unquote token.lexeme) ∧ StandsApart unit.text (referenceAt unit.outline.decls token) := by
    intro token listed mark quoted
    obtain ⟨-, relocated, shown, same, named⟩ := found_of_marked references inScope ran mark
    have chars : relocated.target.name.toList = unquote token.lexeme := by
      rw [named, Token.text, String.toList_ofList]
    rw [← chars, ← same]
    refine fit relocated shown ?_
    rw [IsQuoted, same, ← quoted]
    exact congrArg List.head? (chars_span (ReferencePlacement.inOrder_mem ordered token listed).2)
  refine ⟨fun token _ mark => usesFrom_ident (found_of_marked references inScope ran mark).1,
    fun token listed mark marks => (quoted token listed mark marks).1, ?_⟩
  intro token listed mark marks before member touches
  exact (quoted token listed mark marks).2 tokens scanned before member touches

/-- The edits of the rule are spliced in the order in which it makes them. -/
theorem adapted_spliced {group : EditSet} {text : String} (parsed : Outline.parse unit.text.toList = .ok unit.outline)
    (ran : RelocatedRef.findAll unit = .ok found) (returned : AdaptReferences.editSet unit = .ok group)
    (applied : group.apply unit.text = .ok text) :
    Spliced 0 unit.text.toList (found.map AdaptReferences.qualify) text.toList := by
  have placed := ReferencePlacement.parse_refs_placed parsed
  have sublist : (found.map RelocatedRef.reference).Sublist unit.outline.typeRefs := by
    have safe := @ReferencePlacement.findAll_safely unit
    rw [ran] at safe
    exact safe
  have edits : group.edits = found.map AdaptReferences.qualify := by
    obtain ⟨_, same, valid⟩ := bind_eq_ok_iff.mp returned
    cases ran.symm.trans same
    exact SettledUnits.validated_edits valid
  have increasing := ReferencePlacement.qualify_increasing placed sublist
  have apart := ReferencePlacement.qualify_apart placed sublist
  have cuts := ReferencePlacement.qualify_cuts placed sublist
  obtain ⟨result, ran', spliced⟩ := foldlM_replaceRange (mergeSort_descending apart)
    (fun edit member => cuts edit (List.mem_mergeSort.mp member)) []
  rw [List.append_nil, List.append_nil] at ran'
  have descended := applyDescending_of_apply applied
  rw [edits, EditSet.applyDescending, ran', Except.ok.injEq] at descended
  subst descended
  have inOrder : ((found.map AdaptReferences.qualify).mergeSort Edit.ge).reverse = found.map AdaptReferences.qualify := by
    have insertions : ∀ edit ∈ found.map AdaptReferences.qualify, edit.stop = edit.start := by
      intro edit member
      obtain ⟨relocated, -, rfl⟩ := List.mem_map.mp member
      rfl
    have perm : ((found.map AdaptReferences.qualify).mergeSort Edit.ge).reverse.Perm (found.map AdaptReferences.qualify) :=
      (List.reverse_perm _).trans (List.mergeSort_perm _ _)
    have distinct : ((found.map AdaptReferences.qualify).map Edit.start).Nodup :=
      List.pairwise_map.mpr (increasing.imp Nat.ne_of_lt)
    refine @List.Perm.eq_of_pairwise _ (fun a b : Edit => a.stop ≤ b.start) _ _ ?_ ?_ ?_ perm
    · intro a b first second below above
      have first := perm.subset first
      rw [insertions a first] at below
      rw [insertions b second] at above
      exact List.inj_on_of_nodup_map distinct first second (Nat.le_antisymm below above)
    · exact List.pairwise_reverse.mpr (mergeSort_descending apart)
    · refine increasing.imp_of_mem fun {a b} first _ less => ?_
      rw [insertions a first]
      exact Nat.le_of_lt less
  rwa [inOrder] at spliced

/-- The tokens of the new text are those of the old one with the marked ones
qualified. -/
theorem adapted_aligned {group : EditSet} {text : String} (parsed : Outline.parse unit.text.toList = .ok unit.outline)
    (scanned : Token.scan unit.text.toList = .ok tokens) (inScope : unit.scope = .ok scope)
    (ran : RelocatedRef.findAll unit = .ok found)
    (fit : ∀ relocated ∈ found, Fits unit.text relocated)
    (returned : AdaptReferences.editSet unit = .ok group) (applied : group.apply unit.text = .ok text) :
    ∃ others, Token.scan text.toList = .ok others ∧
      Aligned (isMarked unit scope tokens) (movedTo (isMarked unit scope tokens) tokens) 0 tokens others := by
  have ordered := scan_inOrder scanned
  obtain ⟨_, scanned', references⟩ := parse_typeRefs parsed
  cases scanned.symm.trans scanned'
  have qualifiable := qualifiable_of_found scanned references inScope ran fit
  have spliced := adapted_spliced parsed ran returned applied
  rw [edits_eq ordered references inScope ran] at spliced
  have rescanned := @scanFrom_qualified _ _ _ 0 0 _ _ (scan_eq_ok_iff.mp scanned) qualifiable spliced
  refine ⟨qualified (isMarked unit scope tokens) 0 tokens, scan_eq_ok_iff.mpr rescanned, ?_⟩
  refine aligned_qualified ordered qualifiable ?_ fun offset _ => rfl
  intro token _ mark
  rw [isMarked, Bool.and_eq_true, List.contains_eq_mem, decide_eq_true_eq] at mark
  exact mark.1

/-- The reference is written right behind the name of its target and a point. -/
def Preceded (text : String) (relocated : RelocatedRef) : Prop :=
  ∃ front qualifier dot token back, Token.scan text.toList = .ok (front ++ qualifier :: dot :: token :: back) ∧
    token.span = relocated.reference.span ∧ qualifier.kind = .ident ∧ qualifier.text = relocated.target.name ∧
    dot.kind = .dot

theorem load_scope {index : Index} {id : UnitId} {text : String}
    (inScope : (SourceUnit.load index id text).scope = .ok scope) :
    Outline.parse text.toList = .ok (SourceUnit.load index id text).outline ∧
      Scope.resolve index id (SourceUnit.load index id text).outline = .ok scope := by
  unfold SourceUnit.load at inScope ⊢
  split
  · rename_i outline parsed
    rw [parsed] at inScope
    exact ⟨parsed, inScope⟩
  · rename_i parsed
    rw [parsed] at inScope
    cases inScope

theorem findAll_scope (ran : RelocatedRef.findAll unit = .ok found) : ∃ scope, unit.scope = .ok scope := by
  obtain ⟨scope, known, -⟩ := bind_eq_ok_iff.mp ran
  exact ⟨scope, SettledUnits.scopeOf_eq_ok_iff.mp known⟩

/-- A name of another unit that means a relocated service meant one before the
units that do not declare it were added. -/
theorem resolve_before {index later : Index} {added : List Symbol} {id : UnitId} (grows : Grows index added later)
    (moved : MovedOutline place unit.outline unit'.outline) (inScope : unit.scope = .ok scope)
    (inScope' : unit'.scope = .ok scope') (resolved : Scope.resolve index id unit.outline = .ok scope)
    (resolved' : Scope.resolve later id unit'.outline = .ok scope')
    (refers : name ∈ unit.outline.typeRefs.map TypeRef.name) (refers' : name ∈ unit'.outline.typeRefs.map TypeRef.name)
    (foreign : scope'.isLocal name = false) (undeclared : Undeclared added target)
    (meant : Relocated.resolve unit' name = .ok (some target)) : Relocated.resolve unit name ≠ .ok none := by
  have locals : scope.isLocal name = false := by
    rw [← foreign, Scope.isLocal, Scope.isLocal, resolve_locals resolved, resolve_locals resolved',
      moved_names moved.decls]
  obtain ⟨rfl, shown⟩ := resolve_shows inScope' meant
  rw [candidates_eq resolved' refers' foreign, meanings_names moved.imports, MovedOutline.packageName moved] at shown
  have before := grows.shows undeclared shown
  rw [← candidates_eq resolved refers locals] at before
  exact resolve_ne_none inScope before

/-- A unit that the rule has been over, as it is read again later. A reference that
means a relocated service is qualified, unless a unit that was added in between
declares the service. -/
theorem adapted_preceded {index later : Index} {added : List Symbol} {id : UnitId} {text text' : String}
    {group : EditSet} {found' : List RelocatedRef} (grows : Grows index added later)
    (ran : RelocatedRef.findAll (.load index id text) = .ok found)
    (fit : ∀ relocated ∈ found, Fits text relocated) (returned : AdaptReferences.editSet (.load index id text) = .ok group) (applied : group.apply text = .ok text')
    (ran' : RelocatedRef.findAll (.load later id text') = .ok found') :
    ∀ relocated ∈ found', relocated.reference.name ∈ (SourceUnit.load later id text').outline.decls.filterMap Decl.name? ∨
      Undeclared added relocated.target → Preceded text' relocated := by
  intro relocated listed settled
  obtain ⟨scope, inScope⟩ := findAll_scope ran
  obtain ⟨scope', inScope'⟩ := findAll_scope ran'
  obtain ⟨parsed, resolved⟩ := load_scope inScope
  obtain ⟨parsed', resolved'⟩ := load_scope inScope'
  have texts := RuleSafety.load_text index id text
  obtain ⟨tokens, scanned, references⟩ := parse_typeRefs parsed
  obtain ⟨others, scanned', aligned⟩ := adapted_aligned (texts.symm ▸ parsed) (texts.symm ▸ scanned) inScope ran
    (texts.symm ▸ fit) returned (texts.symm ▸ applied)
  obtain ⟨_, rescanned, references'⟩ := parse_typeRefs parsed'
  cases scanned'.symm.trans rescanned
  obtain ⟨member, meant⟩ := (mem_found_iff inScope' ran').mp ⟨relocated, listed, rfl, rfl⟩
  have named := ofReference_name inScope' meant
  rw [references'] at member
  obtain ⟨other, used, same⟩ := List.mem_map.mp member
  obtain ⟨token, usedBefore, use⟩ := related_before (uses_aligned aligned) other used
  rcases use.origin with ⟨unmarked, moved⟩ | ⟨-, front, qualifier, dot, back, shape, isIdent, spelled, point, -⟩
  · -- A use that is not marked would have been found when the rule was run.
    have origin : movedTo (isMarked (.load index id text) scope tokens) tokens 0 = 0 :=
      movedTo_front _ fun _ _ => Nat.zero_le _
    obtain ⟨_, reparsed, outlines⟩ := parse_aligned scanned scanned' aligned origin parsed
    cases parsed'.symm.trans reparsed
    have locals : scope'.locals = scope.locals := by
      rw [resolve_locals resolved, resolve_locals resolved', moved_names outlines.decls]
    have package : scope'.package = scope.package := by
      rw [resolve_package resolved, resolve_package resolved', MovedOutline.packageName outlines]
    have before : referenceAt (SourceUnit.load index id text).outline.decls token ∈
        (SourceUnit.load index id text).outline.typeRefs := by
      rw [references]
      exact List.mem_map_of_mem usedBefore
    have marked : Relocated.ofReference (.load index id text) scope
        (referenceAt (SourceUnit.load index id text).outline.decls token) ≠ .ok none := by
      rw [← same] at meant
      rcases ofReference_moved (movedTo_strictMono _ _) outlines locals package
        (use_offBraces parsed scanned usedBefore) use with
        alike | ⟨isForeign, there, here⟩
      · rw [← alike, meant]
        simp
      · have undeclared : Undeclared added relocated.target := by
          refine settled.resolve_left fun declared => ?_
          rw [← resolve_locals resolved', ← same] at declared
          rw [Scope.isLocal, List.contains_eq_mem, decide_eq_false_iff_not, ← use.text] at isForeign
          exact isForeign declared
        have refers : token.text ∈ (SourceUnit.load index id text).outline.typeRefs.map TypeRef.name :=
          List.mem_map.mpr ⟨_, before, rfl⟩
        have refers' : token.text ∈ (SourceUnit.load later id text').outline.typeRefs.map TypeRef.name :=
          List.mem_map.mpr ⟨_, references' ▸ List.mem_map_of_mem used, use.text⟩
        rw [here]
        exact resolve_before grows outlines inScope inScope' resolved resolved' refers refers' isForeign undeclared
          (there.symm.trans meant)
    obtain ⟨outcome, ran⟩ := (findAll_eq_ok inScope ran).1 _ before
    rw [isMarked, relocation?, ran, List.contains_eq_mem, decide_eq_true usedBefore, Bool.true_and] at unmarked
    rw [ran] at marked
    cases outcome with
    | none => exact absurd rfl marked
    | some target => cases unmarked
  · refine ⟨front, qualifier, dot, other, back, shape ▸ scanned', by rw [← same]; rfl, isIdent, ?_, point⟩
    rw [spelled, named, ← same]
    rfl

end KindLift.QualifiedReferences
