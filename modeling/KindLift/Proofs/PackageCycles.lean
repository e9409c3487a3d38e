import KindLift.Proofs.GraphSearch
import KindLift.Proofs.IndexGrowth

/-! When the units of a program can be put in order. All units of a package come
before every unit that imports from it, so the units can be ordered exactly when
the packages can. References within a package are taken into account afterwards,
and only as far as they close no cycle: they change neither what can be ordered nor
the components. -/
namespace KindLift.PackageCycles
open Relation GraphSearch ProcessingOrder DependencyGraph

/-- The packages of the units, by position. -/
def packagesOf (units : List (UnitId × Header)) : List DottedName :=
  (units.map Prod.snd).map Header.packageName

/-- The package is the longest one of the program that the name lies in, and not
the root. -/
structure LongestPackage (packages : List DottedName) (name package : DottedName) : Prop where
  known : package ∈ packages
  proper : package ≠ .root
  encloses : package.segments <+: name.segments
  longest : ∀ other ∈ packages, other.segments <+: name.segments → other.segments.length ≤ package.segments.length

/-- Some unit of the package imports from the other package. -/
def ImportsFrom (units : List (UnitId × Header)) (package other : DottedName) : Prop :=
  other ≠ package ∧ ∃ unit ∈ units, unit.2.packageName = package ∧
    ∃ target ∈ unit.2.targets, LongestPackage (packagesOf units) target other

/-- The units with the edges that come from imports. -/
def importGraph (units : List (UnitId × Header)) : Graph :=
  (units.map Prod.snd).zipIdx.foldl (addImports (packagesOf units)) ⟨units.length, []⟩

/-- A unit refers to a name that it does not declare, and another unit of its
package does. -/
def RefersTo (units : List (UnitId × Header)) (node dependency : Nat) : Prop :=
  ∃ unit other, units[node]? = some unit ∧ units[dependency]? = some other ∧ dependency ≠ node ∧
    other.2.packageName = unit.2.packageName ∧
    ∃ name ∈ unit.2.referenced, name ∉ unit.2.declared ∧ name ∈ other.2.declared

variable {units : List (UnitId × Header)} {packages : List DottedName} {name package : DottedName} {graph : Graph}
  {node dependency source target a b : Nat} {items : List ι}

/-! The longest package. -/

theorem find?_range (test : Nat → Bool) (count found : Nat) : (List.range count).reverse.find? test = some found ↔
    found < count ∧ test found = true ∧ ∀ larger, found < larger → larger < count → test larger = false := by
  induction count with
  | zero => simp
  | succ count ih =>
    rw [List.range_succ, List.reverse_append, List.reverse_singleton, List.singleton_append, List.find?_cons]
    split
    · rename_i passes
      constructor
      · rintro ⟨⟩
        exact ⟨Nat.lt_succ_self _, passes, fun larger above below => by omega⟩
      · rintro ⟨below, holds, none⟩
        by_contra differs
        have above : found < count := by
          have : found ≠ count := fun same => differs (same ▸ rfl)
          omega
        rw [none count above (Nat.lt_succ_self _)] at passes
        cases passes
    · rename_i fails
      rw [ih]
      constructor
      · rintro ⟨below, holds, none⟩
        refine ⟨by omega, holds, fun larger above bound => ?_⟩
        by_cases last : larger = count
        · exact last ▸ fails
        · exact none larger above (by omega)
      · rintro ⟨below, holds, none⟩
        have differs : found ≠ count := by
          rintro rfl
          rw [holds] at fails
          cases fails
        exact ⟨by omega, holds, fun larger above bound => none larger above (by omega)⟩

theorem longestPackage?_eq_some_iff :
    longestPackage? packages name = some package ↔ LongestPackage packages name package := by
  unfold longestPackage?
  rw [List.find?_map, Option.map_eq_some_iff]
  simp only [find?_range, Function.comp_apply, List.contains_iff_mem]
  constructor
  · rintro ⟨count, ⟨below, known, none⟩, rfl⟩
    have length : (name.segments.take (count + 1)).length = count + 1 := List.length_take_of_le below
    refine ⟨known, ?_, List.take_prefix .., fun other listed encloses => ?_⟩
    · intro isRoot
      have empty := congrArg (List.length ∘ DottedName.segments) isRoot
      simp only [Function.comp_apply, length] at empty
      cases empty
    · by_contra larger
      rw [length, Nat.not_le] at larger
      obtain ⟨more, same⟩ := Nat.exists_eq_add_of_lt larger
      have whole : DottedName.mk (name.segments.take (other.segments.length)) = other := by
        rw [← List.prefix_iff_eq_take.mp encloses]
      have bound := encloses.length_le
      have absent := none (other.segments.length - 1) (by omega) (by omega)
      rw [Nat.sub_add_cancel (by omega), whole] at absent
      simp [listed] at absent
  · rintro ⟨known, proper, encloses, longest⟩
    have positive : 0 < package.segments.length := by
      refine List.length_pos_iff.mpr fun empty => proper ?_
      cases package
      cases empty
      rfl
    have bound := encloses.length_le
    have whole : DottedName.mk (name.segments.take (package.segments.length - 1 + 1)) = package := by
      rw [Nat.sub_add_cancel positive, ← List.prefix_iff_eq_take.mp encloses]
    refine ⟨package.segments.length - 1, ⟨by omega, by rw [whole]; exact known, fun larger above below => ?_⟩, whole⟩
    by_contra found
    simp only [Bool.not_eq_false, List.contains_iff_mem] at found
    have short := longest _ found (List.take_prefix ..)
    rw [List.length_take_of_le below] at short
    omega

/-! The edges that come from imports. -/

theorem edge_addEdge : Edge (graph.addEdge source target) a b ↔ Edge graph a b ∨ a = source ∧ b = target := by
  unfold Edge Graph.addEdge
  split
  · rename_i present
    refine ⟨.inl, fun found => found.elim id ?_⟩
    rintro ⟨rfl, rfl⟩
    exact List.contains_iff_mem.mp present
  · simp

theorem edge_foldl {step : Graph → ι → Graph} {adds : ι → Prop}
    (each : ∀ graph item, Edge (step graph item) a b ↔ Edge graph a b ∨ adds item) :
    Edge (items.foldl step graph) a b ↔ Edge graph a b ∨ ∃ item ∈ items, adds item := by
  induction items generalizing graph with
  | nil => simp
  | cons item items ih =>
    rw [List.foldl_cons, ih, each, List.exists_mem_cons_iff, or_assoc]

theorem mem_unitsOf : node ∈ unitsOf packages package ↔ packages[node]? = some package := by
  simp only [unitsOf, List.mem_filterMap, Prod.exists, List.mem_zipIdx_iff_getElem?, Option.ite_none_right_eq_some,
    Option.some.injEq]
  constructor
  · rintro ⟨own, place, found, rfl, rfl⟩
    exact found
  · intro found
    exact ⟨package, node, found, rfl, rfl⟩

theorem edge_addImports (unit : Header × Nat) : Edge (addImports packages graph unit) a b ↔
    Edge graph a b ∨ ∃ package ∈ importedPackages packages unit.1, packages[a]? = some package ∧ b = unit.2 := by
  unfold addImports
  refine edge_foldl fun graph package => ?_
  have each : Edge ((unitsOf packages package).foldl (fun graph dependency => graph.addEdge dependency unit.2) graph) a b ↔
      Edge graph a b ∨ ∃ dependency ∈ unitsOf packages package, a = dependency ∧ b = unit.2 :=
    edge_foldl fun graph dependency => edge_addEdge
  refine each.trans (or_congr_right ?_)
  constructor
  · rintro ⟨dependency, member, rfl, same⟩
    exact ⟨mem_unitsOf.mp member, same⟩
  · rintro ⟨member, same⟩
    exact ⟨a, mem_unitsOf.mpr member, rfl, same⟩

theorem mem_importedPackages {header : Header} : package ∈ importedPackages packages header ↔
    package ≠ header.packageName ∧ ∃ target ∈ header.targets, LongestPackage packages target package := by
  simp only [importedPackages, List.mem_filter, List.mem_filterMap, longestPackage?_eq_some_iff, decide_eq_true_eq]
  exact and_comm

/-- The package at a position. -/
theorem packagesOf_getElem? : (packagesOf units)[node]? = (units[node]?).map fun unit => unit.2.packageName := by
  simp [packagesOf, List.getElem?_map, Function.comp_def]

/-- A unit has an edge to a unit that imports from its package. -/
theorem edge_importGraph : Edge (importGraph units) dependency node ↔
    ∃ unit other, units[node]? = some unit ∧ units[dependency]? = some other ∧
      other.2.packageName ≠ unit.2.packageName ∧
      ∃ target ∈ unit.2.targets, LongestPackage (packagesOf units) target other.2.packageName := by
  have none : ¬ Edge ⟨units.length, []⟩ dependency node := by simp [Edge]
  unfold importGraph
  rw [edge_foldl fun graph unit => edge_addImports unit]
  constructor
  · rintro (old | ⟨⟨header, _⟩, listed, package, imported, known, rfl⟩)
    · exact (none old).elim
    · rw [List.mem_zipIdx_iff_getElem?, List.getElem?_map, Option.map_eq_some_iff] at listed
      rw [packagesOf_getElem?, Option.map_eq_some_iff] at known
      obtain ⟨unit, found, rfl⟩ := listed
      obtain ⟨other, known, rfl⟩ := known
      exact ⟨unit, other, found, known, mem_importedPackages.mp imported⟩
  · rintro ⟨unit, other, listed, known, imported⟩
    refine .inr ⟨(unit.2, node), ?_, other.2.packageName, mem_importedPackages.mpr imported, ?_, rfl⟩
    · rw [List.mem_zipIdx_iff_getElem?, List.getElem?_map, listed]
      rfl
    · rw [packagesOf_getElem?, known]
      rfl

theorem importsFrom_of_edge (edge : Edge (importGraph units) dependency node) :
    ∃ unit other, units[node]? = some unit ∧ units[dependency]? = some other ∧
      ImportsFrom units unit.2.packageName other.2.packageName := by
  obtain ⟨unit, other, listed, known, differs, imported⟩ := edge_importGraph.mp edge
  exact ⟨unit, other, listed, known, differs, unit, List.mem_of_getElem? listed, rfl, imported⟩

/-- Units that depend on each other belong to packages that do. -/
theorem packages_of_units (connected : TransGen (Edge (importGraph units)) a b) :
    ∃ unit other, units[b]? = some unit ∧ units[a]? = some other ∧
      TransGen (ImportsFrom units) unit.2.packageName other.2.packageName := by
  induction connected with
  | single edge =>
    obtain ⟨unit, other, listed, known, imports⟩ := importsFrom_of_edge edge
    exact ⟨unit, other, listed, known, .single imports⟩
  | tail _ edge ih =>
    obtain ⟨unit, other, listed, known, imports⟩ := ih
    obtain ⟨last, middle, found, same, step⟩ := importsFrom_of_edge edge
    cases listed.symm.trans same
    exact ⟨last, other, found, known, .head step imports⟩

/-- A package that depends on another one has a unit that depends on all units of
the other one. -/
theorem units_of_packages {other : DottedName} (connected : TransGen (ImportsFrom units) package other) :
    ∃ node unit, units[node]? = some unit ∧ unit.2.packageName = package ∧
      ∀ dependency origin, units[dependency]? = some origin → origin.2.packageName = other →
        TransGen (Edge (importGraph units)) dependency node := by
  induction connected using TransGen.head_induction_on with
  | single imports =>
    obtain ⟨differs, unit, member, rfl, imported⟩ := imports
    obtain ⟨node, listed⟩ := List.getElem?_of_mem member
    refine ⟨node, unit, listed, rfl, fun dependency origin known same => .single ?_⟩
    subst same
    exact edge_importGraph.mpr ⟨unit, origin, listed, known, differs, imported⟩
  | head imports _ ih =>
    obtain ⟨middle, between, found, same, all⟩ := ih
    obtain ⟨differs, unit, member, rfl, imported⟩ := imports
    obtain ⟨node, listed⟩ := List.getElem?_of_mem member
    refine ⟨node, unit, listed, rfl, fun dependency origin known own => (all dependency origin known own).tail ?_⟩
    subst same
    exact edge_importGraph.mpr ⟨unit, between, listed, found, differs, imported⟩

/-- The import edges close a cycle exactly when the packages import each other in a
cycle. -/
theorem importGraph_cycle_iff : (∃ node, TransGen (Edge (importGraph units)) node node) ↔
    ∃ package, TransGen (ImportsFrom units) package package := by
  constructor
  · rintro ⟨node, cycle⟩
    obtain ⟨unit, other, listed, known, imports⟩ := packages_of_units cycle
    cases listed.symm.trans known
    exact ⟨_, imports⟩
  · rintro ⟨package, cycle⟩
    obtain ⟨node, unit, listed, same, all⟩ := units_of_packages cycle
    exact ⟨node, all node unit listed same⟩

/-! The edges that come from references within a package. -/

theorem path_addEdge (path : Path (graph.addEdge source target) a b) :
    Path graph a b ∨ Path graph a source ∧ Path graph target b := by
  induction path with
  | refl => exact .inl .refl
  | tail _ edge ih =>
    rcases edge_addEdge.mp edge with old | ⟨rfl, rfl⟩
    · exact ih.imp (·.tail old) (And.imp_right (·.tail old))
    · exact .inr ⟨ih.elim id And.left, .refl⟩

/-- An edge whose target has no path to its source joins no components. -/
theorem mutual_addEdge (safe : ¬ Path graph target source) (both : Mutual (graph.addEdge source target) a b) :
    Mutual graph a b := by
  obtain ⟨there, back⟩ := both
  rcases path_addEdge there with there | ⟨first, last⟩
  · rcases path_addEdge back with back | ⟨first, last⟩
    · exact ⟨there, back⟩
    · exact absurd ((last.trans there).trans first) safe
  · rcases path_addEdge back with back | ⟨first', last'⟩
    · exact absurd ((last.trans back).trans first) safe
    · exact absurd (last.trans first') safe

theorem cycle_addEdge (safe : ¬ Path graph target source) (cycle : TransGen (Edge (graph.addEdge source target)) a a) :
    TransGen (Edge graph) a a := by
  obtain ⟨next, edge, rest⟩ := TransGen.head'_iff.mp cycle
  obtain ⟨-, back⟩ := mutual_addEdge safe ⟨.single edge, rest⟩
  rcases edge_addEdge.mp edge with old | ⟨rfl, rfl⟩
  · exact .head' old back
  · exact absurd back safe

/-- The graph has the edges of the base and others for references within a package,
and they close no cycle and join no components. -/
structure Extends (units : List (UnitId × Header)) (base graph : Graph) : Prop where
  size : graph.size = base.size
  bounded : Bounded graph
  kept : ∀ a b, Edge base a b → Edge graph a b
  added : ∀ a b, Edge graph a b → Edge base a b ∨ RefersTo units b a
  components : ∀ a b, Mutual graph a b → Mutual base a b
  cycles : ∀ a, TransGen (Edge graph) a a → TransGen (Edge base) a a

theorem Extends.addSibling {base : Graph} (extended : Extends units base graph) (size : base.size = units.length)
    (refers : RefersTo units node dependency) : Extends units base (addSibling node graph dependency) := by
  obtain ⟨unit, other, listed, known, -⟩ := id refers
  have inside : node < graph.size := by
    rw [extended.size, size]
    exact (List.getElem?_eq_some_iff.mp listed).1
  have inside' : dependency < graph.size := by
    rw [extended.size, size]
    exact (List.getElem?_eq_some_iff.mp known).1
  unfold DependencyGraph.addSibling
  split
  · exact extended
  · rename_i apart
    rw [reaches_iff extended.bounded inside] at apart
    refine ⟨(addEdge_size ..).trans extended.size, fun a b edge => ?_, fun a b edge => ?_, fun a b edge => ?_,
      fun a b both => extended.components a b (mutual_addEdge apart both),
      fun a cycle => extended.cycles a (cycle_addEdge apart cycle)⟩
    · rw [addEdge_size]
      rcases edge_addEdge.mp edge with old | ⟨rfl, rfl⟩
      · exact extended.bounded a b old
      · exact ⟨inside', inside⟩
    · exact edge_addEdge.mpr (.inl (extended.kept a b edge))
    · rcases edge_addEdge.mp edge with old | ⟨rfl, rfl⟩
      · exact extended.added a b old
      · exact .inr refers

theorem foldl_keeps {σ : Type} {invariant : σ → Prop} {step : σ → ι → σ} {state : σ}
    (each : ∀ item ∈ items, ∀ state, invariant state → invariant (step state item)) (begins : invariant state) :
    invariant (items.foldl step state) := by
  induction items generalizing state with
  | nil => exact begins
  | cons item items ih =>
    obtain ⟨first, others⟩ := List.forall_mem_cons.mp each
    exact ih others (first state begins)

/-- The siblings of a unit that declare a name. -/
theorem mem_siblings {name : String} :
    dependency ∈ ((unitsOf (packagesOf units) package).filter fun dependency => dependency ≠ node &&
      ((units.map Prod.snd)[dependency]?.any fun other => other.declared.contains name)) ↔
    ∃ other, units[dependency]? = some other ∧ dependency ≠ node ∧ other.2.packageName = package ∧
      name ∈ other.2.declared := by
  simp only [List.mem_filter, mem_unitsOf, packagesOf_getElem?, List.getElem?_map, Option.map_eq_some_iff, Bool.and_eq_true,
    decide_eq_true_eq]
  constructor
  · rintro ⟨⟨other, known, same⟩, differs, declares⟩
    exact ⟨other, known, differs, same, by simpa [known] using declares⟩
  · rintro ⟨other, known, differs, same, declares⟩
    exact ⟨⟨other, known, same⟩, differs, by simpa [known] using declares⟩

theorem mem_zipIdx_headers {header : Header} : (header, node) ∈ (units.map Prod.snd).zipIdx ↔
    ∃ unit, units[node]? = some unit ∧ unit.2 = header := by
  rw [List.mem_zipIdx_iff_getElem?, List.getElem?_map, Option.map_eq_some_iff]

theorem refersTo_of_siblings {unit : UnitId × Header} {name : String} (listed : units[node]? = some unit)
    (wanted : name ∈ unit.2.referenced.filter fun name => !unit.2.declared.contains name)
    (sibling : dependency ∈ (unitsOf (packagesOf units) unit.2.packageName).filter fun dependency => dependency ≠ node &&
      ((units.map Prod.snd)[dependency]?.any fun other => other.declared.contains name)) :
    RefersTo units node dependency := by
  obtain ⟨refers, undeclared⟩ := List.mem_filter.mp wanted
  obtain ⟨other, known, differs, same, declares⟩ := mem_siblings.mp sibling
  exact ⟨unit, other, listed, known, differs, same, name, refers, by simpa using undeclared, declares⟩

theorem Extends.addSiblings {base : Graph} (extended : Extends units base graph) (size : base.size = units.length)
    {header : Header} (listed : (header, node) ∈ (units.map Prod.snd).zipIdx) :
    Extends units base (addSiblings (units.map Prod.snd) (packagesOf units) graph (header, node)) := by
  obtain ⟨unit, known, rfl⟩ := mem_zipIdx_headers.mp listed
  refine foldl_keeps (fun name wanted graph extended => ?_) extended
  exact foldl_keeps (fun _ sibling _ extended =>
    extended.addSibling size (refersTo_of_siblings known wanted sibling)) extended

theorem importGraph_size : (importGraph units).size = units.length :=
  foldl_size (fun graph _ => foldl_size (fun graph _ => foldl_size (fun _ _ => addEdge_size ..) _ graph) _ graph) _ _

theorem importGraph_bounded : Bounded (importGraph units) := by
  intro dependency node edge
  obtain ⟨unit, other, listed, known, -⟩ := edge_importGraph.mp edge
  rw [importGraph_size]
  exact ⟨(List.getElem?_eq_some_iff.mp known).1, (List.getElem?_eq_some_iff.mp listed).1⟩

theorem extends_importGraph : Extends units (importGraph units) (importGraph units) :=
  ⟨rfl, importGraph_bounded, fun _ _ => id, fun _ _ => .inl, fun _ _ => id, fun _ => id⟩

/-- The references within packages extend the graph of the imports. -/
theorem build_extends (units : List (UnitId × Header)) : Extends units (importGraph units) (build units).graph :=
  foldl_keeps (fun _ listed _ extended => extended.addSiblings importGraph_size listed) extends_importGraph

/-- The reference of a unit to a sibling is heeded: there is an edge from the sibling,
or the sibling depends on the unit itself. -/
def Heeded (node dependency : Nat) (graph : Graph) : Prop := Edge graph dependency node ∨ Path graph node dependency

theorem Heeded.mono {larger : Graph} (heeded : Heeded node dependency graph)
    (kept : ∀ a b, Edge graph a b → Edge larger a b) : Heeded node dependency larger :=
  heeded.imp (kept _ _) (ReflTransGen.mono kept _ _)

theorem addSibling_kept (graph : Graph) (node dependency : Nat) (edge : Edge graph a b) :
    Edge (addSibling node graph dependency) a b := by
  unfold DependencyGraph.addSibling
  split
  · exact edge
  · exact edge_addEdge.mpr (.inl edge)

theorem addSiblings_kept (headers : List Header) (packages : List DottedName) (unit : Header × Nat) (graph : Graph)
    (edge : Edge graph a b) : Edge (addSiblings headers packages graph unit) a b :=
  foldl_keeps (fun _ _ _ edge => foldl_keeps (fun dependency _ graph => addSibling_kept graph unit.2 dependency) edge) edge

theorem addSibling_heeded (bounded : Bounded graph) (inside : node < graph.size) (dependency : Nat) :
    Heeded node dependency (addSibling node graph dependency) := by
  unfold DependencyGraph.addSibling
  split
  · rename_i path
    exact .inr ((reaches_iff bounded inside).mp path)
  · exact .inl (edge_addEdge.mpr (.inr ⟨rfl, rfl⟩))

/-- What one item of a list brings about, and the others keep. -/
theorem foldl_achieves {σ : Type} {invariant goal : σ → Prop} {step : σ → ι → σ} {state : σ} {item : ι}
    (each : ∀ item ∈ items, ∀ state, invariant state → invariant (step state item)) (begins : invariant state)
    (member : item ∈ items) (achieved : ∀ state, invariant state → goal (step state item))
    (kept : ∀ item ∈ items, ∀ state, goal state → goal (step state item)) : goal (items.foldl step state) := by
  obtain ⟨front, back, rfl⟩ := List.append_of_mem member
  rw [List.foldl_append, List.foldl_cons]
  apply foldl_keeps fun other later => kept other (List.mem_append_right _ (List.mem_cons_of_mem _ later))
  apply achieved
  exact foldl_keeps (fun other earlier => each other (List.mem_append_left _ earlier)) begins

/-- A unit comes after each sibling that declares a name it refers to, unless the
sibling depends on the unit. -/
theorem build_heeded (refers : RefersTo units node dependency) : Heeded node dependency (build units).graph := by
  obtain ⟨unit, other, listed, known, differs, same, name, wanted, foreign, declares⟩ := refers
  have listed' : (unit.2, node) ∈ (units.map Prod.snd).zipIdx := mem_zipIdx_headers.mpr ⟨unit, listed, rfl⟩
  have sibling := mem_siblings.mpr ⟨other, known, differs, same, declares⟩
  have wanted' : name ∈ unit.2.referenced.filter fun name => !unit.2.declared.contains name := by simp [wanted, foreign]
  have inside : node < (importGraph units).size := by
    rw [importGraph_size]
    exact (List.getElem?_eq_some_iff.mp listed).1
  apply foldl_achieves (fun _ listed _ extended => extended.addSiblings importGraph_size listed) extends_importGraph listed'
  · intro graph extended
    apply foldl_achieves (fun name wanted graph extended => foldl_keeps (fun _ sibling _ extended =>
      extended.addSibling importGraph_size (refersTo_of_siblings listed wanted sibling)) extended) extended wanted'
    · intro graph extended
      apply foldl_achieves (fun _ sibling _ extended =>
        extended.addSibling importGraph_size (refersTo_of_siblings listed wanted' sibling)) extended sibling
      · intro graph extended
        exact addSibling_heeded extended.bounded (extended.size.symm ▸ inside) dependency
      · exact fun other _ graph heeded => heeded.mono fun a b => addSibling_kept graph node other
    · intro name _ graph heeded
      exact foldl_keeps (fun other _ graph heeded => heeded.mono fun a b => addSibling_kept graph node other) heeded
  · exact fun unit _ graph heeded => heeded.mono fun a b => addSiblings_kept _ _ unit graph

/-! The names in a report. -/

theorem compare_lt_of_ne {first second : String} (below : (compare first second).isLE = true) (differs : first ≠ second) :
    compare first second = .lt := by
  cases order : compare first second with
  | lt => rfl
  | eq => exact absurd (Std.LawfulEqOrd.eq_of_compare order) differs
  | gt =>
    rw [order] at below
    cases below

theorem eraseReps_loop_increasing {items taken : List String} {first : String}
    (sorted : (first :: items).Pairwise fun a b => (compare a b).isLE = true)
    (increasing : (first :: taken).Pairwise fun a b => compare b a = .lt) :
    (List.eraseRepsBy.loop (· == ·) first items taken).Pairwise fun a b => compare a b = .lt := by
  induction items generalizing first taken with
  | nil => exact List.pairwise_reverse.mpr increasing
  | cons second items ih =>
    rw [List.eraseRepsBy.loop]
    obtain ⟨below, rest⟩ := List.pairwise_cons.mp sorted
    split
    · rename_i same
      have equal : first = second := eq_of_beq same
      subst equal
      exact ih rest increasing
    · rename_i differs
      have less : compare first second = .lt :=
        compare_lt_of_ne (below second (List.mem_cons_self ..)) fun same => by simp [same] at differs
      refine ih rest (List.pairwise_cons.mpr ⟨?_, increasing⟩)
      refine List.forall_mem_cons.mpr ⟨less, fun earlier member => ?_⟩
      exact Std.TransCmp.lt_trans ((List.pairwise_cons.mp increasing).1 earlier member) less

/-- A set of texts is listed in increasing order. -/
theorem sortedSet_increasing (items : List String) : (sortedSet items).Pairwise fun a b => compare a b = .lt := by
  have total : ∀ a b : String, ((compare a b).isLE || (compare b a).isLE) = true := by
    intro a b
    have swapped : compare b a = (compare a b).swap := Std.OrientedOrd.eq_swap
    rw [swapped]
    cases compare a b <;> rfl
  have sorted : (items.mergeSort fun a b => (compare a b).isLE).Pairwise fun a b => (compare a b).isLE = true :=
    List.pairwise_mergeSort (fun _ _ _ => Std.TransCmp.isLE_trans) total items
  unfold sortedSet
  generalize items.mergeSort (fun a b => (compare a b).isLE) = ordered at sorted
  cases ordered with
  | nil => exact .nil
  | cons first rest => exact eraseReps_loop_increasing sorted (List.pairwise_singleton ..)

theorem mem_sortedSet {item : String} {items : List String} : item ∈ sortedSet items ↔ item ∈ items :=
  IndexGrowth.mem_eraseReps.trans List.mem_mergeSort

/-- The nodes that have paths both ways to one of them, each once. -/
structure IsComponent (graph : Graph) (component : List Nat) : Prop where
  distinct : component.Nodup
  members : ∃ node ∈ component, ∀ other, other ∈ component ↔ other < graph.size ∧ Mutual graph node other

theorem no_loops (units : List (UnitId × Header)) (node : Nat) : ¬ Edge (build units).graph node node := by
  intro loop
  rcases (build_extends units).added node node loop with edge | ⟨-, -, -, -, differs, -⟩
  · obtain ⟨unit, other, listed, known, differs, -⟩ := edge_importGraph.mp edge
    cases listed.symm.trans known
    exact differs rfl
  · exact differs rfl

/-- An order in which all edges lead forward leaves no room for a cycle. -/
theorem acyclic_of_order {order : List Nat}
    (forward : ∀ source target, Edge graph source target → order.idxOf source < order.idxOf target) (node : Nat) :
    ¬ TransGen (Edge graph) node node := by
  have rises : ∀ target, TransGen (Edge graph) node target → order.idxOf node < order.idxOf target := by
    intro target connected
    induction connected with
    | single edge => exact forward _ _ edge
    | tail _ edge ih => exact Nat.lt_trans ih (forward _ _ edge)
  exact fun cycle => Nat.lt_irrefl _ (rises node cycle)

theorem leafFirst_ok {order : List Nat} (sorted : (build units).leafFirst = .ok order) :
    order.Perm (List.range units.length) ∧ ∀ dependency dependent, Edge (build units).graph dependency dependent →
      order.idxOf dependency < order.idxOf dependent := by
  unfold leafFirst at sorted
  split at sorted
  · rename_i found
    cases sorted
    obtain ⟨perm, forward⟩ := topologicalOrder_ok (build_extends units).bounded found
    rw [Graph.nodes, build_size] at perm
    refine ⟨perm, fun dependency dependent edge => forward dependency dependent edge ?_⟩
    rintro rfl
    exact no_loops units dependency edge
  · cases sorted

theorem mem_component_ids {component : List Nat} (inside : ∀ node ∈ component, node < units.length) {name : UnitId} :
    name ∈ component.map (build units).idAt ↔ ∃ node ∈ component, ∃ unit, units[node]? = some unit ∧ unit.1 = name := by
  rw [List.mem_map]
  refine exists_congr fun node => and_congr_right fun member => ?_
  have bound := inside node member
  have listed := List.getElem?_eq_getElem bound
  have named : (build units).idAt node = units[node].1 := by
    simp [idAt, build, List.getD, listed]
  simp [named, listed]

/-- A report of a cycle names the units of a component, and there are at least two. -/
theorem leafFirst_error {cycle : DependencyCycle} (failed : (build units).leafFirst = .error cycle) :
    (∃ node, TransGen (Edge (build units).graph) node node) ∧
      ∃ component, IsComponent (build units).graph component ∧ 2 ≤ component.length ∧
        cycle.units.Pairwise (fun a b => compare a b = .lt) ∧
        ∀ name, name ∈ cycle.units ↔ ∃ node ∈ component, ∃ unit, units[node]? = some unit ∧ unit.1 = name := by
  have bounded := (build_extends units).bounded
  unfold leafFirst at failed
  split at failed
  · cases failed
  · rename_i node stopped
    cases failed
    obtain ⟨target, differs, edge, back⟩ := topologicalOrder_error bounded stopped
    obtain ⟨inside, inside'⟩ := bounded node target edge
    have members : ∀ other, other ∈ (build units).graph.component node ↔ _ := fun other => mem_component bounded inside
    have own : node ∈ (build units).graph.component node := (members node).mpr ⟨inside, .refl, .refl⟩
    have other : target ∈ (build units).graph.component node := (members target).mpr ⟨inside', .single edge, back⟩
    have distinct : ((build units).graph.component node).Nodup := List.nodup_range.filter _
    refine ⟨⟨node, .head' edge back⟩, _, ⟨distinct, node, own, members⟩, ?_, sortedSet_increasing _, fun name => ?_⟩
    · have pair : [node, target].Nodup := by simp [differs]
      have both : [node, target] ⊆ (build units).graph.component node := by simp [own, other]
      exact (List.subperm_of_subset pair both).length_le
    · rw [mem_sortedSet, mem_component_ids]
      intro member listed
      rw [← build_size units]
      exact ((members member).mp listed).1

/-- The units of a program cannot be ordered exactly when its packages import from
each other in a cycle. References within a package add edges that neither close a
cycle nor join components. An order holds every position once, with dependencies
first. A cycle is reported as the names of a component of at least two units, in
increasing order and without repetitions. -/
theorem leafFirst_characterized (units : List (UnitId × Header)) :
    ((∃ cycle, (build units).leafFirst = .error cycle) ↔ ∃ package, TransGen (ImportsFrom units) package package) ∧
    (∀ a b, Edge (importGraph units) a b → Edge (build units).graph a b) ∧
    (∀ a b, Edge (build units).graph a b → Edge (importGraph units) a b ∨ RefersTo units b a) ∧
    (∀ a b, Mutual (build units).graph a b ↔ Mutual (importGraph units) a b) ∧
    (∀ a, TransGen (Edge (build units).graph) a a ↔ TransGen (Edge (importGraph units)) a a) ∧
    (∀ order, (build units).leafFirst = .ok order → order.Perm (List.range units.length) ∧
      ∀ dependency dependent, Edge (build units).graph dependency dependent →
        order.idxOf dependency < order.idxOf dependent) ∧
    ∀ cycle, (build units).leafFirst = .error cycle →
      ∃ component, IsComponent (build units).graph component ∧ 2 ≤ component.length ∧
        cycle.units.Pairwise (fun a b => compare a b = .lt) ∧
        ∀ name, name ∈ cycle.units ↔ ∃ node ∈ component, ∃ unit, units[node]? = some unit ∧ unit.1 = name := by
  have extended := build_extends units
  have path : ∀ a b, Path (importGraph units) a b → Path (build units).graph a b :=
    ReflTransGen.mono extended.kept
  have walk : ∀ a b, TransGen (Edge (importGraph units)) a b → TransGen (Edge (build units).graph) a b :=
    TransGen.mono extended.kept
  refine ⟨?_, extended.kept, extended.added, fun a b => ?_, fun a => ?_, fun order => leafFirst_ok,
    fun cycle failed => (leafFirst_error failed).2⟩
  · rw [← importGraph_cycle_iff]
    constructor
    · rintro ⟨cycle, failed⟩
      obtain ⟨⟨node, round⟩, -⟩ := leafFirst_error failed
      exact ⟨node, extended.cycles node round⟩
    · rintro ⟨node, round⟩
      cases ordered : (build units).leafFirst with
      | error cycle => exact ⟨cycle, rfl⟩
      | ok order =>
        exact absurd (walk node node round) (acyclic_of_order (leafFirst_ok ordered).2 node)
  · exact ⟨extended.components a b, And.imp (path a b) (path b a)⟩
  · exact ⟨extended.cycles a, walk a a⟩

end KindLift.PackageCycles
