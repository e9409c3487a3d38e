import KindLift.Proofs.DeclPlacement
import KindLift.Proofs.EditApplication
import KindLift.Proofs.ServiceMatching
import KindLift.Rule.AddInstances

/-! Where the rule for instances edits a unit. Every edit of a service belongs to
one declaration of the service's name, which it replaces as a whole or adds to,
and the import is added outside of all declarations. So no two edits conflict. -/
namespace KindLift.InstancePlacement
open TextBoundary CursorPlacement DeclPlacement EditApplication RuleLogic ServiceMatching

variable {source : List Char} {outline : Outline} {high : Nat}

/-- The edit replaces the whole span, or adds text behind its first byte. -/
def Attached (span : Span) (edit : Edit) : Prop :=
  edit.start = span.start ∧ edit.stop = span.stop ∨
    edit.start = edit.stop ∧ span.start < edit.start ∧ edit.start ≤ span.stop

/-- The edit begins and ends between characters. -/
def Addresses (source : List Char) (edit : Edit) : Prop :=
  Cut source edit.start ∧ Cut source edit.stop

/-- Edits of two spans of which one lies in front of the other do not conflict. -/
theorem attached_apart {first second : Span} {a b : Edit} (left : Attached first a)
    (right : Attached second b) (width : first.start < first.stop)
    (width' : second.start < second.stop) (order : first.stop ≤ second.start) :
    a.overlaps b = false := by
  unfold Attached at left right
  unfold Edit.overlaps Edit.isInsertion
  grind

/-- Edits of different declarations do not conflict. -/
theorem decls_apart (placed : OutlinePlaced source high outline) {first second : Nat} {decl other : Decl}
    (here : outline.decls[first]? = some decl) (there : outline.decls[second]? = some other)
    (different : first ≠ second) (left : Attached decl.span a) (right : Attached other.span b) :
    a.overlaps b = false := by
  have width := placed.width decl (List.mem_of_getElem? here)
  have width' := placed.width other (List.mem_of_getElem? there)
  have ordered := List.pairwise_map.mp placed.line.ordered
  rcases Nat.lt_or_gt_of_ne different with less | more
  · obtain ⟨bound, rfl⟩ := List.getElem?_eq_some_iff.mp there
    obtain ⟨_, rfl⟩ := List.getElem?_eq_some_iff.mp here
    exact attached_apart left right width width' (List.pairwise_iff_getElem.mp ordered _ _ _ bound less)
  · obtain ⟨bound, rfl⟩ := List.getElem?_eq_some_iff.mp here
    obtain ⟨_, rfl⟩ := List.getElem?_eq_some_iff.mp there
    rw [overlaps_comm]
    exact attached_apart right left width' width (List.pairwise_iff_getElem.mp ordered _ _ _ bound more)

/-- The last line is what a text ends with. -/
theorem lastLine_suffix (chars : List Char) : ∃ front, chars = front ++ Text.lastLine chars := by
  refine ⟨(chars.reverse.dropWhile (· ≠ '\n')).reverse, ?_⟩
  rw [Text.lastLine, ← List.reverse_append, List.takeWhile_append_dropWhile, List.reverse_reverse]

theorem lineIndent?_of_cut (cut : Cut source offset) :
    ∃ indent, Template.lineIndent? source offset = some indent := by
  obtain ⟨left, taken⟩ := takeBytes?_of_cut cut
  obtain ⟨right, dropped⟩ := dropBytes?_of_cut cut
  exact ⟨_, by rw [Template.lineIndent?, taken, dropped]; rfl⟩

/-- A line of spans between two offsets can be substituted. -/
theorem substitute_of_line {replacement : List Char} (line : InLine source cursor stop spans)
    (first : Cut source cursor) (last : Cut source stop) (order : cursor ≤ stop) :
    ∃ text, Template.substitute source replacement cursor stop spans = some text := by
  induction spans generalizing cursor with
  | nil => exact slice?_of_cuts first last order
  | cons span rest ih =>
    have within := line.within span (List.mem_cons_self ..)
    obtain ⟨behind, ordered⟩ := List.pairwise_cons.mp line.ordered
    have remaining : InLine source span.stop stop rest := by
      refine ⟨fun later member => ?_, ordered⟩
      have other := line.within later (List.mem_cons_of_mem _ member)
      exact ⟨other.first, other.last, behind later member, other.ordered, other.le_high⟩
    obtain ⟨gap, sliced⟩ := slice?_of_cuts first within.first within.low_le
    obtain ⟨text, substituted⟩ := ih remaining within.last within.le_high
    exact ⟨gap ++ replacement ++ text, by rw [Template.substitute, sliced, substituted]; rfl⟩

/-- The heads of result types are in source order as they are. -/
theorem resultHeads_eq {methods : List Method} (line : InLine source low high (headSpans methods)) :
    Template.resultHeads methods = headSpans methods := by
  apply List.mergeSort_of_pairwise
  refine (line.ordered.imp_of_mem fun {a b} member _ order => ?_)
  have width : a.start < a.stop := by simpa using (List.mem_filter.mp member).2
  simp only [Bool.or_eq_true, decide_eq_true_eq]
  omega

theorem extendsText?_of_line {parents : List Parent} (line : InLine source low high (parents.map Parent.span)) :
    ∃ text, Template.extendsText? source parents = some text := by
  unfold Template.extendsText?
  split
  · rename_i first last head tail
    obtain ⟨begins, ends, order⟩ := line.head_le_last
      (show _ = some first.span by rw [List.head?_map, head]; rfl)
      (show _ = some last.span by rw [List.getLast?_map, tail]; rfl)
    obtain ⟨text, sliced⟩ := slice?_of_cuts begins ends order
    exact ⟨_, by rw [sliced]; rfl⟩
  · exact ⟨_, rfl⟩

/-- A trait that is placed in the source can be nested. -/
theorem nestedInterface?_of_placed {interface : Interface} (placed : InterfacePlaced source interface)
    (conventions : Conventions) :
    ∃ text, Template.nestedInterface? source interface conventions = some text := by
  obtain ⟨low, high, line⟩ := placed.parents
  obtain ⟨parents, extended⟩ := extendsText?_of_line line
  simp only [Template.nestedInterface?, extended, Option.bind_eq_bind, Option.bind_some]
  split
  · exact ⟨_, rfl⟩
  · rename_i body shape
    obtain ⟨braces, heads⟩ := placed.body body shape
    obtain ⟨inner, substituted⟩ := substitute_of_line heads braces.opened braces.closed braces.ordered
    exact ⟨_, by rw [resultHeads_eq heads, substituted]; rfl⟩

theorem memberIndent?_of_cuts {members : List Member} (cuts : ∀ member ∈ members, Cut source member.span.start)
    (holderIndent : String) :
    ∃ indent, AddInstances.memberIndent? source holderIndent members = some indent := by
  cases members with
  | nil => exact ⟨_, rfl⟩
  | cons first rest => exact lineIndent?_of_cut (cuts first (List.mem_cons_self ..))

theorem insertion_attached {span : Span} (cut : Cut source offset) (above : span.start < offset)
    (below : offset ≤ span.stop) (text : String) :
    Attached span (.insertion offset text) ∧ Addresses source (.insertion offset text) :=
  ⟨.inr ⟨rfl, above, below⟩, cut, cut⟩

/-- Entries are added between the braces of a body. -/
theorem extendBody?_attached {span : Span} {body : Body} (placed : BodyPlaced source span body)
    (holderIndent rendered : String) :
    ∃ edit, AddInstances.extendBody? source body holderIndent rendered = some edit ∧
      Attached span edit ∧ Addresses source edit := by
  obtain ⟨left, taken⟩ := takeBytes?_of_cut placed.closed
  obtain ⟨inner, sliced⟩ := slice?_of_cuts placed.opened placed.closed placed.ordered
  have inside := placed.inside
  have ordered := placed.ordered
  have last := placed.last
  simp only [AddInstances.extendBody?, taken, Option.bind_eq_bind, Option.bind_some]
  split
  · rename_i ownLine
    simp only [Bool.and_eq_true, decide_eq_true_eq] at ownLine
    obtain ⟨front, shape⟩ := lastLine_suffix left
    obtain ⟨right, whole, length⟩ := takeBytes?_eq_some_iff.mp taken
    have cut : Cut source (body.closeBrace - Text.byteLength (Text.lastLine left)) := by
      refine ⟨front, Text.lastLine left ++ right, ?_, ?_⟩
      · rw [whole, ← List.append_assoc, ← shape]
      · have total := congrArg Text.byteLength shape
        rw [Text.byteLength_append] at total
        omega
    rw [Body.inner?, sliced]
    exact ⟨_, rfl, insertion_attached cut (by omega) (by omega) _⟩
  · exact ⟨_, rfl, insertion_attached placed.closed (by omega) (by omega) _⟩

/-- An object that is placed in the source can be extended, and the edit belongs
to the object. -/
theorem extendHolder?_attached {holder : Holder} (placed : HolderPlaced source holder)
    (within : Within source low high holder.span) (width : holder.span.start < holder.span.stop)
    (entries : List String) :
    ∃ edit, AddInstances.extendHolder? source holder entries = some edit ∧
      Attached holder.span edit ∧ Addresses source edit := by
  obtain ⟨holderIndent, indented⟩ := lineIndent?_of_cut within.first
  obtain ⟨memberIndent, memberIndented⟩ := memberIndent?_of_cuts placed.members holderIndent
  simp only [AddInstances.extendHolder?, indented, memberIndented, Option.bind_eq_bind, Option.bind_some]
  split
  · exact ⟨_, rfl, insertion_attached within.last width (Nat.le_refl _) _⟩
  · rename_i body shape
    exact extendBody?_attached (placed.body body shape) _ _

theorem newHolder?_of_cut {interface : Interface} (cut : Cut source interface.span.start)
    (entries : List String) : ∃ text, AddInstances.newHolder? source interface entries = some text := by
  obtain ⟨indent, indented⟩ := lineIndent?_of_cut cut
  exact ⟨_, by rw [AddInstances.newHolder?, indented]; rfl⟩

theorem replace?_attached {span : Span} (within : Within source low high span) (text : String) :
    ∃ edit, Edit.replace? span.start span.stop text = some edit ∧ Attached span edit ∧
      Addresses source edit := by
  refine ⟨⟨span.start, span.stop, text, within.ordered⟩, ?_, .inl ⟨rfl, rfl⟩, within.first, within.last⟩
  rw [Edit.replace?, dif_pos within.ordered]

/-- The edit belongs to a declaration of the given name and addresses the source. -/
def OwnedBy (source : List Char) (outline : Outline) (name : String) (edit : Edit) : Prop :=
  (∃ (index : Nat) (decl : Decl), outline.decls[index]? = some decl ∧ decl.name? = some name ∧
    Attached decl.span edit) ∧ Addresses source edit

/-- The interface and the object of a service are declarations of one name. -/
structure ServicePlaced (outline : Outline) (service : Service) : Prop where
  interface : outline.decls[service.index]? = some (.interface service.interface)
  holder : ∀ found ∈ service.holder, outline.decls[found.1]? = some (.holder found.2) ∧
    found.2.name = service.interface.name

theorem servicePlaced_of_identified {unit : SourceUnit} {service : Service} (identified : Identified unit service) :
    ServicePlaced unit.outline service := by
  constructor
  · obtain ⟨⟨decl, index⟩, member, found⟩ := List.mem_filterMap.mp identified.listed
    obtain ⟨interface, shape, same⟩ := Option.map_eq_some_iff.mp found
    cases same
    cases decl with
    | interface declared =>
      cases shape
      exact List.mem_zipIdx_iff_getElem?.mp member
    | holder declared => cases shape
    | other declared => cases shape
  · rintro ⟨position, holder⟩ companion
    obtain ⟨listed, named⟩ := identified.holder _ companion
    refine ⟨?_, named⟩
    obtain ⟨⟨decl, index⟩, member, found⟩ := List.mem_filterMap.mp listed
    obtain ⟨holder, shape, same⟩ := Option.map_eq_some_iff.mp found
    cases same
    cases decl with
    | interface declared => cases shape
    | holder declared =>
      cases shape
      exact List.mem_zipIdx_iff_getElem?.mp member
    | other declared => cases shape

/-- The edits for one service can be made; they belong to its declarations and do
not conflict with each other. -/
theorem edits?_owned (placed : OutlinePlaced source high outline) {service : Service}
    (known : ServicePlaced outline service) (conventions : Conventions) (phase : Phase)
    (entries : List String) :
    ∃ edits, AddInstances.edits? source conventions service phase entries = some edits ∧
      PairwiseApart edits ∧
      ∀ edit ∈ edits, OwnedBy source outline service.interface.name edit := by
  have declared := List.mem_of_getElem? known.interface
  have within := placed.line.within _ (List.mem_map_of_mem declared)
  have width := placed.width _ declared
  have ofInterface : ∀ edit, Attached service.interface.span edit → Addresses source edit →
      OwnedBy source outline service.interface.name edit := fun edit attached addresses =>
    ⟨⟨service.index, _, known.interface, rfl, attached⟩, addresses⟩
  obtain ⟨created, made⟩ := newHolder?_of_cut within.first entries
  simp only [AddInstances.edits?]
  cases companion : service.holder with
  | none =>
    split
    · obtain ⟨edit, replaced, attached, addresses⟩ := replace?_attached within
        (AddInstances.aliasText conventions service.interface.name ++ "\n\n" ++ created)
      refine ⟨[edit], ?_, List.pairwise_singleton _ _,
        List.forall_mem_singleton.mpr (ofInterface edit attached addresses)⟩
      simp only [Decl.span] at replaced
      simp only [made, replaced, Option.bind_eq_bind, Option.bind_some]
      rfl
    split
    · exact ⟨[], rfl, .nil, by simp⟩
    · obtain ⟨attached, addresses⟩ := insertion_attached within.last width (Nat.le_refl _) ("\n\n" ++ created)
      refine ⟨[.insertion service.interface.span.stop ("\n\n" ++ created)], ?_, List.pairwise_singleton _ _,
        List.forall_mem_singleton.mpr (ofInterface _ attached addresses)⟩
      simp only [made, Option.bind_eq_bind, Option.bind_some]
      rfl
  | some found =>
    obtain ⟨beside, named⟩ := known.holder found companion
    have listed := List.mem_of_getElem? beside
    obtain ⟨extension, extended, attached, addresses⟩ := extendHolder?_attached (placed.parts _ listed)
      (placed.line.within _ (List.mem_map_of_mem listed)) (placed.width _ listed) entries
    have ofHolder : OwnedBy source outline service.interface.name extension :=
      ⟨⟨found.1, _, beside, congrArg some named, attached⟩, addresses⟩
    split
    · obtain ⟨edit, replaced, attached', addresses'⟩ := replace?_attached within
        (AddInstances.aliasText conventions service.interface.name)
      have different : service.index ≠ found.1 := by
        intro same
        have clash := known.interface
        rw [same, beside] at clash
        cases clash
      refine ⟨[edit, extension], ?_, ?_, ?_⟩
      · simp only [Decl.span] at replaced
        simp only [replaced, extended, Option.bind_eq_bind, Option.bind_some]
        rfl
      · exact List.pairwise_pair.mpr (decls_apart placed known.interface beside different attached' attached)
      · exact List.forall_mem_cons.mpr
          ⟨ofInterface edit attached' addresses', List.forall_mem_singleton.mpr ofHolder⟩
    split
    · exact ⟨[], rfl, .nil, by simp⟩
    · refine ⟨[extension], ?_, List.pairwise_singleton _ _, List.forall_mem_singleton.mpr ofHolder⟩
      simp only [extended, Option.bind_eq_bind, Option.bind_some]
      rfl

/-- There is a plan for every service, and its edits belong to the service. -/
theorem plan?_owned (placed : OutlinePlaced source high outline) {service : Service}
    (known : ServicePlaced outline service) (conventions : Conventions) :
    ∃ plan, AddInstances.plan? source conventions service = some plan ∧ PairwiseApart plan.edits ∧
      ∀ edit ∈ plan.edits, OwnedBy source outline service.interface.name edit := by
  have interface : InterfacePlaced source service.interface :=
    placed.parts _ (List.mem_of_getElem? known.interface)
  obtain ⟨nested, rendered⟩ := nestedInterface?_of_placed interface conventions
  have relocated : ∃ entries, AddInstances.relocatedEntry? source conventions service.interface
      (Phase.ofService service).advance = some entries := by
    unfold AddInstances.relocatedEntry?
    split
    · exact ⟨[nested], by rw [rendered]; rfl⟩
    · exact ⟨[], rfl⟩
  obtain ⟨entries, found⟩ := relocated
  obtain ⟨edits, made, apart, owned⟩ := edits?_owned placed known conventions
    (Phase.ofService service).advance
    (entries ++ (AddInstances.missingInstances conventions service).map Prod.snd)
  refine ⟨⟨service, (Phase.ofService service).advance.advance,
    (AddInstances.missingInstances conventions service).map Prod.fst, edits⟩, ?_, apart, owned⟩
  simp only [AddInstances.plan?, found, made, Option.bind_eq_bind, Option.bind_some]
  rfl

/-- The import is added outside of all declarations. -/
theorem importEdit?_outside (placed : OutlinePlaced source high outline) {conventions : Conventions}
    (found : AddInstances.importEdit? conventions outline = some edit) :
    edit.start = edit.stop ∧ Cut source edit.start ∧
      ∀ decl ∈ outline.decls, edit.start ≤ decl.span.start ∨ decl.span.stop < edit.start := by
  unfold AddInstances.importEdit? at found
  split at found
  · cases found
  split at found
  · rename_i last greatest
    obtain ⟨clause, member, same⟩ := List.mem_map.mp (List.max?_mem greatest)
    cases found
    subst same
    obtain ⟨cut, -, outside⟩ := placed.imports clause member
    exact ⟨rfl, cut, outside⟩
  split at found
  · rename_i clause package
    cases found
    obtain ⟨cut, -, front⟩ := placed.package clause package
    exact ⟨rfl, cut, fun decl member => .inl (front decl member)⟩
  · cases found
    exact ⟨rfl, cut_zero source, fun decl _ => .inl (Nat.zero_le _)⟩

/-- An insertion outside of a span does not conflict with the edits of the span. -/
theorem attached_outside {span : Span} {a b : Edit} (attached : Attached span a)
    (insertion : b.start = b.stop) (outside : b.start ≤ span.start ∨ span.stop < b.start)
    (width : span.start < span.stop) : a.overlaps b = false := by
  unfold Attached at attached
  unfold Edit.overlaps Edit.isInsertion
  grind

/-- Edits of different names do not conflict. -/
theorem OwnedBy.apart (placed : OutlinePlaced source high outline) {name other : String} {a b : Edit}
    (first : OwnedBy source outline name a) (second : OwnedBy source outline other b)
    (different : name ≠ other) : a.overlaps b = false := by
  obtain ⟨⟨index, decl, here, named, attached⟩, -⟩ := first
  obtain ⟨⟨index', decl', there, named', attached'⟩, -⟩ := second
  refine decls_apart placed here there ?_ attached attached'
  rintro rfl
  rw [here] at there
  cases there
  rw [named] at named'
  exact different (Option.some.inj named')

/-- Plans of which each edits the declarations of its service have no conflicts. -/
theorem plans_apart (placed : OutlinePlaced source high outline) {services : List Service}
    {plans : List AddInstances.Plan}
    (each : List.Forall₂ (fun service plan => PairwiseApart plan.edits ∧
      ∀ edit ∈ plan.edits, OwnedBy source outline service.interface.name edit) services plans)
    (names : services.Pairwise fun a b => a.interface.name ≠ b.interface.name) :
    PairwiseApart (plans.flatMap AddInstances.Plan.edits) ∧
      ∀ edit ∈ plans.flatMap AddInstances.Plan.edits, ∃ service ∈ services,
        OwnedBy source outline service.interface.name edit := by
  induction each with
  | nil => exact ⟨.nil, by simp⟩
  | @cons service plan services plans first _ ih =>
    obtain ⟨different, others⟩ := List.pairwise_cons.mp names
    obtain ⟨apart, owned⟩ := ih others
    rw [List.flatMap_cons]
    constructor
    · refine List.pairwise_append.mpr ⟨first.1, apart, ?_⟩
      intro edit member later member'
      obtain ⟨other, listed, owner⟩ := owned later member'
      exact (first.2 edit member).apart placed owner (different other listed)
    · intro edit member
      rcases List.mem_append.mp member with here | there
      · exact ⟨service, List.mem_cons_self .., first.2 edit here⟩
      · obtain ⟨other, listed, owner⟩ := owned edit there
        exact ⟨other, List.mem_cons_of_mem _ listed, owner⟩

theorem plans_safely {unit : SourceUnit} (placed : OutlinePlaced unit.text.toList high unit.outline)
    (conventions : Conventions) :
    Safely (AddInstances.plans conventions unit) fun plans =>
      PairwiseApart (plans.flatMap AddInstances.Plan.edits) ∧
        ∀ edit ∈ plans.flatMap AddInstances.Plan.edits, ∃ service : Service,
          OwnedBy unit.text.toList unit.outline service.interface.name edit := by
  refine findAll_safely.bind fun services found => ?_
  refine Safely.mono (@Safely.mapM _ _ _ (fun service plan => PairwiseApart plan.edits ∧
    ∀ edit ∈ plan.edits, OwnedBy unit.text.toList unit.outline service.interface.name edit) _ ?_) fun plans made => ?_
  · intro service member
    obtain ⟨plan, planned, owned⟩ := plan?_owned placed
      (servicePlaced_of_identified (found.1 service member)) conventions
    rw [planned]
    exact owned
  · obtain ⟨apart, owned⟩ := plans_apart placed made found.2
    exact ⟨apart, fun edit member => (owned edit member).imp fun _ => And.right⟩

/-- Edits that do not conflict and that address the unit's text are validated, and
they can be applied. -/
theorem validated_safely {unit : SourceUnit} (apart : PairwiseApart edits)
    (addresses : ∀ edit ∈ edits, Addresses unit.text.toList edit) (name : String) :
    Safely (Rule.validated name unit edits) fun set => ∃ result, set.apply unit.text = .ok result := by
  have valid : (EditSet.onText name unit.text edits).validate = .ok () := validate_of_apart apart
  obtain ⟨result, applied, -⟩ := apply_of_apart apart addresses
  simp only [Rule.validated, valid]
  exact ⟨_, applied⟩

/-- The rule for instances refuses a unit, or returns edits that can be applied. -/
theorem addInstances_safely {unit : SourceUnit} (placed : OutlinePlaced unit.text.toList high unit.outline)
    (conventions : Conventions) :
    Safely (AddInstances.editSet conventions unit) fun set =>
      ∃ result, set.apply unit.text = .ok result := by
  refine (plans_safely placed conventions).bind fun plans made => ?_
  obtain ⟨apart, owned⟩ := made
  have addressed : ∀ edit ∈ plans.flatMap AddInstances.Plan.edits, Addresses unit.text.toList edit := by
    intro edit member
    obtain ⟨service, owner⟩ := owned edit member
    exact owner.2
  have outside : ∀ imported ∈ (AddInstances.importEdit? conventions unit.outline).toList,
      ∀ edit ∈ plans.flatMap AddInstances.Plan.edits, edit.overlaps imported = false := by
    intro imported found edit member
    obtain ⟨insertion, -, clear⟩ := importEdit?_outside placed (Option.mem_toList.mp found)
    obtain ⟨service, ⟨index, decl, here, -, attached⟩, -⟩ := owned edit member
    have listed := List.mem_of_getElem? here
    exact attached_outside attached insertion (clear decl listed) (placed.width decl listed)
  have imports : ∀ imported ∈ (AddInstances.importEdit? conventions unit.outline).toList,
      Addresses unit.text.toList imported := by
    intro imported found
    obtain ⟨insertion, cut, -⟩ := importEdit?_outside placed (Option.mem_toList.mp found)
    exact ⟨cut, insertion ▸ cut⟩
  have alone : PairwiseApart (AddInstances.importEdit? conventions unit.outline).toList := by
    cases AddInstances.importEdit? conventions unit.outline with
    | none => exact .nil
    | some imported => exact List.pairwise_singleton _ _
  split
  · refine validated_safely (List.pairwise_append.mpr ⟨apart, alone, ?_⟩) ?_ _
    · exact fun edit member imported found => outside imported found edit member
    · intro edit member
      rcases List.mem_append.mp member with here | there
      · exact addressed edit here
      · exact imports edit there
  · simp only [List.append_nil]
    exact validated_safely apart addressed _

end KindLift.InstancePlacement
