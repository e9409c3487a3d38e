import KindLift.Proofs.IndexMirror
import KindLift.Proofs.LocalAliases
import KindLift.Proofs.PackageCycles

/-! The order of processing against the resolution of names. The order follows the
packages that import targets lie in, and resolution looks for the symbols that the
targets name. Both agree on a name from another package, so that the unit that
declares it comes first. They part where longer packages of the program, called like
the declaration itself or the object around it, take away every target that leads to it. -/
namespace KindLift.ResolutionOrder
open Traversal MigrationCompleteness IndexMirror IndexGrowth PackageCycles LocalAliases

/-- No segment holds the separator of the keys of the index. -/
def Slashless (name : DottedName) : Prop := ∀ segment ∈ name.segments, '/' ∉ segment.toList

instance (name : DottedName) : Decidable (Slashless name) :=
  inferInstanceAs (Decidable (∀ segment ∈ name.segments, '/' ∉ segment.toList))

/-- What the order depends on. -/
def headersOf (units : List (UnitId × String)) : List (UnitId × Header) :=
  units.map fun unit => (unit.1, .ofText unit.2)

/-- The packages of a program, by position. -/
def packages (units : List (UnitId × String)) : List DottedName := packagesOf (headersOf units)

/-- A program with an order of its units, and the index that has all of them, in
whatever order they were registered. -/
structure Prepared (units : List (UnitId × String)) (order : List Nat) (index : Index) : Prop where
  distinct : (units.map Prod.fst).Nodup
  parsed : ∀ unit ∈ units, ∃ outline, Outline.parse unit.2.toList = .ok outline
  ordered : (DependencyGraph.build (headersOf units)).leafFirst = .ok order
  registered : ∃ others, others.Perm units ∧ registerAll .empty others = .ok index

/-- A name declared in a package, at top level or in an object. -/
inductive DeclaredIn (package : DottedName) : DottedName → Prop where
  | top (name : String) : DeclaredIn package (package.child name)
  | member (object name : String) : DeclaredIn package ((package.child object).child name)

variable {units others : List (UnitId × String)} {unit other : UnitId × String} {order : List Nat} {index last : Index}
  {node dependency : Nat} {scope : Scope} {symbol holder : Symbol} {path package target : DottedName} {name : String}
  {imports : List Import}

/-! Keys. -/

theorem splitOn_key (slashless : Slashless path) (proper : path.segments ≠ []) :
    (Index.key path).toList.splitOn '/' = path.segments.map String.toList := by
  have each : ∀ chars ∈ path.segments.map String.toList, '/' ∉ chars := by
    intro chars member
    obtain ⟨segment, inside, rfl⟩ := List.mem_map.mp member
    exact slashless segment inside
  have separator : "/".toList = ['/'] := rfl
  rw [Index.key, DottedName.join, String.toList_intercalate, separator]
  exact List.splitOn_intercalate '/' each (mt List.map_eq_nil_iff.mp proper)

/-- The key of a name inside of a package belongs to no other name. -/
theorem key_inj {deep : DottedName} (inside : 2 ≤ deep.segments.length) (slashless : Slashless path)
    (slashless' : Slashless deep) (same : Index.key deep = Index.key path) : deep = path := by
  have segments := splitOn_key slashless' fun empty => by simp [empty] at inside
  rw [same] at segments
  obtain ⟨names⟩ := path
  cases names with
  | nil =>
    have lengths := congrArg List.length segments
    have root : ((Index.key ⟨[]⟩).toList.splitOn '/').length = 1 := rfl
    rw [root, List.length_map] at lengths
    omega
  | cons first rest =>
    rw [splitOn_key slashless (List.cons_ne_nil first rest)] at segments
    obtain ⟨_⟩ := deep
    have names := List.map_injective_iff.mpr (fun _ _ => String.toList_inj.mp) segments
    exact congrArg DottedName.mk names.symm

/-! The index of a program. -/

theorem registerAll_lookup (fresh : ∀ unit ∈ others, index.units.get? unit.1 = none)
    (distinct : (others.map Prod.fst).Nodup) (registered : registerAll index others = .ok last) (path : DottedName) :
    last.lookup path =
      index.lookup path ++ (others.flatMap declared).filter fun symbol => Index.key symbol.name = Index.key path := by
  induction others generalizing index with
  | nil =>
    cases registered
    exact (List.append_nil _).symm
  | cons unit others ih =>
    obtain ⟨next, first, rest⟩ := bind_eq_ok_iff.mp registered
    obtain ⟨here, there⟩ := List.forall_mem_cons.mp fresh
    rw [List.map_cons, List.nodup_cons] at distinct
    rw [register_load] at first
    have later : ∀ other ∈ others, next.units.get? other.1 = none := by
      intro other member
      rw [register_units here first fun same => distinct.1 (same ▸ List.mem_map_of_mem member)]
      exact there other member
    rw [ih later distinct.2 rest, register_lookup here first, List.flatMap_cons, List.filter_append, List.append_assoc]

theorem Prepared.mem_lookup (prepared : Prepared units order index) (found : symbol ∈ index.lookup path) :
    ∃ unit ∈ units, symbol ∈ declared unit ∧ Index.key symbol.name = Index.key path := by
  obtain ⟨others, same, registered⟩ := prepared.registered
  have distinct : (others.map Prod.fst).Nodup := (same.map Prod.fst).nodup_iff.mpr prepared.distinct
  rw [registerAll_lookup (fun _ _ => rfl) distinct registered] at found
  obtain ⟨listed, filed⟩ := List.mem_filter.mp ((List.mem_append.mp found).resolve_left List.not_mem_nil)
  obtain ⟨unit, member, offered⟩ := List.mem_flatMap.mp listed
  exact ⟨unit, same.mem_iff.mp member, offered, of_decide_eq_true filed⟩

theorem simpleName_child {kind : SymbolKind} {id : UnitId} {params : List ParamKind} {members : List Symbol} :
    (Symbol.mk (path.child name) kind id params members).simpleName = name := by
  simp [Symbol.simpleName, Symbol.name, DottedName.last?, DottedName.child]

theorem parent_child (named : symbol.name = path.child name) : symbol.parent = path := by
  simp [Symbol.parent, named, DottedName.parent?, DottedName.child]

/-- The members of an object belong to the unit of the object and stand inside of
it. -/
theorem declared_member (offered : holder ∈ declared unit) (inside : symbol ∈ holder.members) :
    symbol.unit = unit.1 ∧ symbol.name = holder.name.child symbol.simpleName := by
  obtain ⟨decl, -, exported⟩ := List.mem_filterMap.mp offered
  rw [load_id] at exported
  unfold SourceUnit.declSymbol? at exported
  split at exported
  · cases exported
    exact (List.not_mem_nil inside).elim
  · cases exported
    rcases List.mem_append.mp inside with nested | member
    · obtain ⟨interface, -, rfl⟩ := List.mem_map.mp nested
      exact ⟨rfl, by rw [SourceUnit.interfaceSymbol, simpleName_child]; rfl⟩
    · obtain ⟨member, -, known⟩ := List.mem_filterMap.mp member
      obtain ⟨kind, -, rfl⟩ := Option.map_eq_some_iff.mp known
      exact ⟨rfl, by rw [simpleName_child]; rfl⟩
  · split at exported <;> cases exported
    exact (List.not_mem_nil inside).elim

theorem declared_name (offered : symbol ∈ declared unit) : ∃ name, symbol.name = (packageOf unit).child name :=
  exported_name offered

theorem Prepared.unit_eq (prepared : Prepared units order index) (listed : unit ∈ units) (listed' : other ∈ units)
    (same : unit.1 = other.1) : unit = other :=
  List.inj_on_of_nodup_map prepared.distinct listed listed' same

theorem child_deep (proper : package ≠ .root) (name : String) : 2 ≤ (package.child name).segments.length := by
  obtain ⟨segments⟩ := package
  have filled : segments ≠ [] := fun empty => proper (empty ▸ rfl)
  have positive := List.length_pos_iff.mpr filled
  simp only [DottedName.child, List.length_append, List.length_singleton]
  omega

theorem key_child (proper : path.segments ≠ []) (name : String) :
    Index.key (path.child name) = Index.key path ++ "/" ++ name := by
  obtain ⟨segments⟩ := path
  rw [Index.key, Index.key, DottedName.join, DottedName.join, DottedName.child,
    String.intercalate_append_of_ne_nil proper (List.cons_ne_nil _ _)]
  rfl

theorem key_ne_root (filled : path.segments ≠ []) (name : String) : Index.key (path.child name) ≠ Index.key .root := by
  intro same
  rw [key_child filled] at same
  have separator := congrArg ('/' ∈ ·.toList) same
  simp [Index.key, DottedName.join, DottedName.root] at separator

/-- What is found under a path is filed as the path is. -/
theorem Prepared.mem_lookupPath (prepared : Prepared units order index) (listed : other ∈ units)
    (proper : packageOf other ≠ .root) (owner : symbol.unit = other.1)
    (found : symbol ∈ Scope.lookupPath index path) :
    Index.key path = Index.key symbol.name ∧ DeclaredIn (packageOf other) symbol.name := by
  by_cases missing : index.lookup path = []
  · rw [lookupPath_members missing] at found
    obtain ⟨parent, last, holder, isParent, isLast, listed', -, inside, named⟩ := mem_membersAt.mp found
    obtain ⟨unit, member, offered, filed⟩ := prepared.mem_lookup listed'
    obtain ⟨own, name⟩ := declared_member offered inside
    cases prepared.unit_eq member listed (own.symm.trans owner)
    obtain ⟨object, stands⟩ := declared_name offered
    unfold DottedName.parent? at isParent
    split at isParent
    · cases isParent
    · rename_i filled
      cases isParent
      have around : path.segments.dropLast ≠ [] := by
        intro empty
        rw [stands, empty] at filed
        exact key_ne_root (fun empty => proper (congrArg DottedName.mk empty)) object filed
      have whole : path = (DottedName.mk path.segments.dropLast).child last :=
        congrArg DottedName.mk (List.dropLast_append_getLast? last isLast).symm
      refine ⟨?_, by rw [name, stands]; exact .member ..⟩
      have inside : holder.name.segments ≠ [] := stands ▸ List.append_ne_nil_of_right_ne_nil _ (List.cons_ne_nil _ _)
      rw [whole, name, named, key_child around, key_child inside, filed]
  · rw [lookupPath_found missing] at found
    obtain ⟨unit, member, offered, filed⟩ := prepared.mem_lookup found
    cases prepared.unit_eq member listed ((declared_owned unit symbol offered).symm.trans owner)
    obtain ⟨name, stands⟩ := declared_name offered
    refine ⟨filed.symm, ?_⟩
    rw [stands]
    exact .top name

/-! Where the meaning of a name comes from. -/

/-- The path that an import gives a name: a target, or the name behind one. -/
def Reaches (imports : List Import) (name : String) (path : DottedName) : Prop :=
  ∃ target ∈ imports.flatMap Import.targets, path = target ∨ path = target.child name

theorem mem_candidates {id : UnitId} {outline : Outline} (resolved : Scope.resolve index id outline = .ok scope)
    (member : symbol ∈ scope.candidates name) :
    symbol ∈ meanings index id outline.packageName outline.imports name := by
  unfold Scope.resolve at resolved
  split at resolved
  · cases resolved
  · cases resolved
    have bound := @foldl_bindRef index outline.packageName id outline.imports (outline.decls.filterMap Decl.name?)
      (outline.typeRefs.map TypeRef.name) .empty name
    have unbound : ((Table.empty : Table String Binding).get? name).isSome = false := rfl
    rw [unbound, if_neg Bool.false_ne_true] at bound
    simp only [Scope.candidates] at member
    rw [bound] at member
    split at member
    · rename_i binding found
      split at found
      · rw [meanings, found]
        exact member
      · cases found
    · cases member

theorem reaches_of_explicit (member : path ∈ Scope.explicitTargets imports name) : Reaches imports name path := by
  obtain ⟨clause, listed, member⟩ := List.mem_flatMap.mp member
  obtain ⟨selector, chosen, selects⟩ := List.mem_filterMap.mp member
  split at selects
  · dsimp only at selects
    split at selects
    · cases selects
      exact ⟨_, List.mem_flatMap.mpr ⟨clause, listed, List.mem_map.mpr ⟨_, chosen, rfl⟩⟩, .inl rfl⟩
    · cases selects
  · cases selects

theorem reaches_of_wildcard (member : path ∈ Scope.wildcardTargets imports name) : Reaches imports name path := by
  obtain ⟨clause, kept, rfl⟩ := List.mem_map.mp member
  obtain ⟨listed, open'⟩ := List.mem_filter.mp kept
  rw [Bool.and_eq_true] at open'
  have wildcard : Selector.wildcard ∈ clause.selectors := List.contains_iff_mem.mp open'.1
  exact ⟨clause.path, List.mem_flatMap.mpr ⟨clause, listed, List.mem_map.mpr ⟨_, wildcard, rfl⟩⟩, .inr rfl⟩

/-- A meaning comes through an import, or from another unit of the package. -/
theorem mem_meanings {id : UnitId} (member : symbol ∈ meanings index id package imports name) :
    (∃ path, Reaches imports name path ∧ symbol ∈ Scope.lookupPath index path) ∨
      symbol ∈ index.lookup (package.child name) := by
  rw [meanings_eq] at member
  split at member
  · obtain ⟨path, target, found⟩ := List.mem_flatMap.mp member
    exact .inl ⟨path, reaches_of_explicit target, found⟩
  · split at member
    · obtain ⟨path, target, found⟩ := List.mem_flatMap.mp member
      exact .inl ⟨path, reaches_of_wildcard target, found⟩
    · exact .inr (List.mem_filter.mp member).1

/-! The package of a declaration among those of the program. -/

theorem parent_above (symbol : Symbol) : symbol.parent.segments <+: symbol.name.segments := by
  unfold Symbol.parent DottedName.parent?
  split
  · exact List.nil_prefix
  · exact List.dropLast_prefix _

theorem DeclaredIn.prefix_parent (stands : DeclaredIn package symbol.name) :
    package.segments <+: symbol.parent.segments := by
  generalize declared : symbol.name = path at stands
  cases stands with
  | top name => exact (parent_child declared).symm ▸ List.prefix_rfl
  | member object name => exact (parent_child declared).symm ▸ List.prefix_append ..

theorem segments_inj {first second : DottedName} (same : first.segments = second.segments) : first = second :=
  congrArg DottedName.mk same

/-- Between the package and the declaration there is at most the object. -/
theorem DeclaredIn.between {middle : DottedName} (stands : DeclaredIn package symbol.name)
    (outer : package.segments <+: middle.segments) (inner : middle.segments <+: symbol.name.segments) :
    middle = package ∨ middle = symbol.parent ∨ middle = symbol.name := by
  have last (path : DottedName) (inner : middle.segments <+: path.segments) (whole : path.segments <+: middle.segments) :
      middle = path := segments_inj (inner.eq_of_length (Nat.le_antisymm inner.length_le whole.length_le))
  generalize declared : symbol.name = path at stands
  rw [declared] at inner
  cases stands with
  | top name =>
    rcases List.prefix_concat_iff.mp inner with whole | inner
    · exact .inr (.inr (segments_inj whole))
    · exact .inl (last package inner outer)
  | member object name =>
    rcases List.prefix_concat_iff.mp inner with whole | inner
    · exact .inr (.inr (segments_inj whole))
    · rcases List.prefix_concat_iff.mp inner with whole | inner
      · exact .inr (.inl ((segments_inj whole).trans (parent_child declared).symm))
      · exact .inl (last package inner outer)

/-- A target inside of a package of the program has a longest one. -/
theorem exists_longestPackage {packages : List DottedName} (known : package ∈ packages) (proper : package ≠ .root)
    (encloses : package.segments <+: target.segments) :
    ∃ longest, LongestPackage packages target longest ∧ package.segments <+: longest.segments := by
  cases found : DependencyGraph.longestPackage? packages target with
  | some longest =>
    have longest := longestPackage?_eq_some_iff.mp found
    exact ⟨_, longest, List.prefix_of_prefix_length_le encloses longest.encloses (longest.longest _ known encloses)⟩
  | none =>
    have positive : 0 < package.segments.length :=
      List.length_pos_iff.mpr fun empty => proper (congrArg DottedName.mk empty)
    have bound := encloses.length_le
    have whole : DottedName.mk (target.segments.take (package.segments.length - 1 + 1)) = package := by
      rw [Nat.sub_add_cancel positive, ← List.prefix_iff_eq_take.mp encloses]
    have absent := List.find?_eq_none.mp found package (List.mem_map.mpr ⟨_, by simp; omega, whole⟩)
    exact absurd (List.contains_iff_mem.mpr known) absent

theorem header_outline {text : String} {outline : Outline} (parsed : Outline.parse text.toList = .ok outline) :
    (Header.ofText text).packageName = outline.packageName ∧ (Header.ofText text).imports = outline.imports := by
  rw [Header.ofText, parsed]
  exact ⟨rfl, rfl⟩

theorem packageOf_outline {outline : Outline} (parsed : Outline.parse unit.2.toList = .ok outline) :
    packageOf unit = outline.packageName := by
  rw [packageOf, SourceUnit.load, parsed]
  rfl

theorem Prepared.header_package (prepared : Prepared units order index) (listed : unit ∈ units) :
    (Header.ofText unit.2).packageName = packageOf unit := by
  obtain ⟨outline, parsed⟩ := prepared.parsed unit listed
  rw [(header_outline parsed).1, packageOf_outline parsed]

theorem Prepared.mem_packages (prepared : Prepared units order index) (listed : unit ∈ units) :
    packageOf unit ∈ packages units := by
  rw [← prepared.header_package listed]
  exact List.mem_map.mpr ⟨_, List.mem_map.mpr ⟨_, List.mem_map.mpr ⟨unit, listed, rfl⟩, rfl⟩, rfl⟩

/-- A unit whose package is the longest one around an import target comes first. -/
theorem Prepared.imported_first (prepared : Prepared units order index) (at_node : units[node]? = some unit)
    (at_dependency : units[dependency]? = some other) (differs : packageOf other ≠ packageOf unit)
    (imported : target ∈ (Header.ofText unit.2).targets) (longest : LongestPackage (packages units) target (packageOf other)) :
    order.idxOf dependency < order.idxOf node := by
  have own := prepared.header_package (List.mem_of_getElem? at_node)
  have foreign := prepared.header_package (List.mem_of_getElem? at_dependency)
  have edge : GraphSearch.Edge (importGraph (headersOf units)) dependency node := by
    refine edge_importGraph.mpr ⟨_, _, by rw [headersOf, List.getElem?_map, at_node]; rfl,
      by rw [headersOf, List.getElem?_map, at_dependency]; rfl, ?_, target, imported, ?_⟩
    · rw [own, foreign]
      exact differs
    · rw [foreign]
      exact longest
  exact (leafFirst_ok prepared.ordered).2 _ _ ((build_extends _).kept _ _ edge)

/-- A target leads to a declaration of a package: it lies between the two. -/
def LeadsTo (package declared target : DottedName) : Prop :=
  package.segments <+: target.segments ∧ target.segments <+: declared.segments

/-- A path that names the declaration comes from a target inside of its package. -/
theorem Reaches.enclosed (reaches : Reaches imports name symbol.name) (stands : DeclaredIn package symbol.name) :
    ∃ target ∈ imports.flatMap Import.targets, LeadsTo package symbol.name target := by
  have above := stands.prefix_parent
  obtain ⟨target, listed, same | same⟩ := reaches
  · refine ⟨target, listed, ?_, same ▸ List.prefix_rfl⟩
    rw [← same]
    exact above.trans (parent_above symbol)
  · rw [parent_child same] at above
    exact ⟨target, listed, above, same ▸ List.prefix_append ..⟩

/-- The longest package of the program that the target lies in is another one than that of the
declaration, and is called like the declaration or the object around it. -/
def TakenAway (packages : List DottedName) (package : DottedName) (symbol : Symbol) (target : DottedName) : Prop :=
  ∃ longest, LongestPackage packages target longest ∧ longest ≠ package ∧
    (longest = symbol.name ∨ longest = symbol.parent)

/-- Targets lead to the declaration, and all of them are taken away. -/
def Shadowed (packages : List DottedName) (package : DottedName) (symbol : Symbol) (targets : List DottedName) : Prop :=
  (∃ target ∈ targets, LeadsTo package symbol.name target) ∧
    ∀ target ∈ targets, LeadsTo package symbol.name target → TakenAway packages package symbol target

/-- The paths that import targets give a name. -/
def importedPaths (targets : List DottedName) (name : String) : List DottedName :=
  targets.flatMap fun target => [target, target.child name]

/-- Some path under which a unit of the package looks a name up is not that of the declaration
and has its key all the same, as a slash in a segment can bring about; and no import gives the
declaration by its own path. -/
def Mistaken (package : DottedName) (targets : List DottedName) (name : String) (declared : DottedName) : Prop :=
  (∃ path ∈ package.child name :: importedPaths targets name, Index.key path = Index.key declared ∧ path ≠ declared) ∧
    declared ∉ importedPaths targets name

/-- No path is mistaken for another one where no segment has a slash. -/
theorem not_mistaken {declared : DottedName} {targets : List DottedName} (deep : 2 ≤ declared.segments.length)
    (plain : Slashless declared) (paths : ∀ path ∈ package.child name :: importedPaths targets name, Slashless path) :
    ¬ Mistaken package targets name declared := by
  rintro ⟨⟨path, listed, same, differs⟩, -⟩
  exact differs (key_inj deep (paths path listed) plain same.symm).symm

theorem reaches_iff : Reaches imports name path ↔ path ∈ importedPaths (imports.flatMap Import.targets) name := by
  rw [importedPaths, List.mem_flatMap]
  exact exists_congr fun target => and_congr_right fun _ => by simp

/-- A unit that an import path of another names a declaration of comes first, unless all
targets that lead to the declaration are taken away. -/
theorem Prepared.reached_first (prepared : Prepared units order index) (at_node : units[node]? = some unit)
    (at_dependency : units[dependency]? = some other) (proper : packageOf other ≠ .root)
    (differs : packageOf other ≠ packageOf unit) (stands : DeclaredIn (packageOf other) symbol.name)
    (reaches : Reaches (Header.ofText unit.2).imports name symbol.name)
    (clear : ¬ Shadowed (packages units) (packageOf other) symbol (Header.ofText unit.2).targets) :
    order.idxOf dependency < order.idxOf node := by
  have listed' := List.mem_of_getElem? at_dependency
  obtain ⟨target, imported, leads⟩ := reaches.enclosed stands
  have some_kept : ∃ target ∈ (Header.ofText unit.2).targets, LeadsTo (packageOf other) symbol.name target ∧
      ¬ TakenAway (packages units) (packageOf other) symbol target := by
    by_contra none_kept
    push Not at none_kept
    exact clear ⟨⟨target, imported, leads⟩, none_kept⟩
  obtain ⟨kept, imported, ⟨outer, inner⟩, free⟩ := some_kept
  obtain ⟨longest, isLongest, wide⟩ := exists_longestPackage (prepared.mem_packages listed') proper outer
  have same : longest = packageOf other := by
    by_contra other_package
    rcases stands.between wide (isLongest.encloses.trans inner) with same | around | whole
    · exact other_package same
    · exact free ⟨longest, isLongest, other_package, .inr around⟩
    · exact free ⟨longest, isLongest, other_package, .inl whole⟩
  exact prepared.imported_first at_node at_dependency differs imported (same ▸ isLongest)

/-- A unit comes after every unit of another package that declares what one of its
names may mean, unless all import targets that lead to the declaration lie in longer packages
with its name or that of the object around it. -/
theorem candidates_ordered (prepared : Prepared units order index) (at_node : units[node]? = some unit)
    (at_dependency : units[dependency]? = some other)
    (resolved : (SourceUnit.load index unit.1 unit.2).scope = .ok scope) (member : symbol ∈ scope.candidates name)
    (owner : symbol.unit = other.1) (proper : packageOf other ≠ .root) (differs : packageOf other ≠ packageOf unit)
    (apart : ¬ Mistaken (packageOf unit) (Header.ofText unit.2).targets name symbol.name)
    (clear : ¬ Shadowed (packages units) (packageOf other) symbol (Header.ofText unit.2).targets) :
    order.idxOf dependency < order.idxOf node := by
  have listed := List.mem_of_getElem? at_node
  have listed' := List.mem_of_getElem? at_dependency
  obtain ⟨outline, parsed⟩ := prepared.parsed unit listed
  have imports : (Header.ofText unit.2).imports = outline.imports := (header_outline parsed).2
  have own := packageOf_outline parsed
  rw [SourceUnit.load, parsed] at resolved
  have own_path (path : DottedName)
      (looked : path ∈ (packageOf unit).child name :: importedPaths (Header.ofText unit.2).targets name)
      (filed : Index.key path = Index.key symbol.name) :
      path = symbol.name ∨ Reaches (Header.ofText unit.2).imports name symbol.name := by
    by_cases same : path = symbol.name
    · exact .inl same
    · refine .inr (reaches_iff.mpr ?_)
      by_contra missing
      exact apart ⟨⟨path, looked, filed, same⟩, missing⟩
  rcases mem_meanings (mem_candidates resolved member) with ⟨path, reaches, found⟩ | found
  · obtain ⟨filed, stands⟩ := prepared.mem_lookupPath listed' proper owner found
    rw [← imports] at reaches
    have named : Reaches (Header.ofText unit.2).imports name symbol.name := by
      rcases own_path path (List.mem_cons_of_mem _ (reaches_iff.mp reaches)) filed with same | named
      · exact same ▸ reaches
      · exact named
    exact prepared.reached_first at_node at_dependency proper differs stands named clear
  · -- A name of the unit's own package stands for no declaration of another one.
    obtain ⟨unit', listed'', offered, filed⟩ := prepared.mem_lookup found
    cases prepared.unit_eq listed'' listed' ((declared_owned unit' symbol offered).symm.trans owner)
    obtain ⟨name', stands⟩ := declared_name offered
    rw [← own] at filed
    rcases own_path _ (List.mem_cons_self ..) filed.symm with same | reaches
    · have packages := (parent_child stands).symm.trans (parent_child same.symm)
      exact absurd packages differs
    · exact prepared.reached_first at_node at_dependency proper differs (stands ▸ .top name') reaches clear

theorem sortedSet_singleton (item : String) : sortedSet [item] = [item] := by
  rw [sortedSet_of_sorted (List.pairwise_singleton ..)]
  rfl

theorem sortedSet_nil : sortedSet [] = [] := by
  rw [sortedSet_of_sorted .nil]
  rfl

theorem parsed_of_all (parsed : units.all fun unit => (Outline.parse unit.2.toList).toOption.isSome) :
    ∀ unit ∈ units, ∃ outline, Outline.parse unit.2.toList = .ok outline := by
  intro unit listed
  obtain ⟨outline, parsed⟩ := Option.isSome_iff_exists.mp (List.all_eq_true.mp parsed unit listed)
  exact ⟨outline, toOption_eq_some_iff.mp parsed⟩

/-- What a name of a unit may mean, in a program that is registered as it is listed. -/
def candidatesIn (units : List (UnitId × String)) (unit : UnitId × String) (name : String) :
    Option (List (UnitId × DottedName)) :=
  (registerAll .empty units).toOption.bind fun index => (SourceUnit.load index unit.1 unit.2).scope.toOption.map fun scope =>
    (scope.candidates name).map fun symbol => (symbol.unit, symbol.name)

theorem candidate_found {id : UnitId} (only : candidatesIn units unit name = some [(id, path)]) :
    ∃ index scope symbol, registerAll .empty units = .ok index ∧ (SourceUnit.load index unit.1 unit.2).scope = .ok scope ∧
      symbol ∈ scope.candidates name ∧ symbol.unit = id ∧ symbol.name = path := by
  obtain ⟨index, registered, resolved⟩ := Option.bind_eq_some_iff.mp only
  obtain ⟨scope, resolved, only⟩ := Option.map_eq_some_iff.mp resolved
  obtain ⟨symbol, rest, candidates, named, -⟩ := List.map_eq_cons_iff.mp only
  obtain ⟨owner, name⟩ := Prod.mk.inj named
  exact ⟨index, scope, symbol, toOption_eq_some_iff.mp registered, toOption_eq_some_iff.mp resolved,
    candidates ▸ List.mem_cons_self .., owner, name⟩

/-- A class that refers to a nested interface under another name. -/
def renamingText : String := "package x\nimport a.O.\x7bB => C\x7d\nclass X(y:C[I])"

/-- The class in front of the unit that declares the interface. -/
def renamingUnits : List (UnitId × String) := [("X", renamingText), ("Y", "package a\nobject O\x7btrait B[F[_]]\x7d")]

theorem renamingText_header : Header.ofText renamingText =
    ⟨some ⟨⟨["x"]⟩, ⟨0, 9⟩⟩, [⟨⟨["a", "O"]⟩, [.named "B" (some "C")], ⟨10, 29⟩⟩], ["X"], ["C"], none⟩ := by
  rw [← sortedSet_singleton "X", ← sortedSet_singleton "C"]
  exact header_eq (by decide +kernel)

theorem renamingUnits_headers : headersOf renamingUnits =
    [("X", ⟨some ⟨⟨["x"]⟩, ⟨0, 9⟩⟩, [⟨⟨["a", "O"]⟩, [.named "B" (some "C")], ⟨10, 29⟩⟩], ["X"], ["C"], none⟩),
      ("Y", ⟨some ⟨⟨["a"]⟩, ⟨0, 9⟩⟩, [], ["O"], [], none⟩)] := by
  have owner : Header.ofText "package a\nobject O\x7btrait B[F[_]]\x7d" =
      ⟨some ⟨⟨["a"]⟩, ⟨0, 9⟩⟩, [], ["O"], [], none⟩ := by
    rw [← sortedSet_singleton "O", ← sortedSet_nil]
    exact header_eq (by decide +kernel)
  rw [headersOf, renamingUnits, List.map_cons, List.map_cons, List.map_nil, renamingText_header, owner]

/-- The unit that declares the interface is processed first. -/
theorem renamingUnits_ordered : ∃ index scope symbol, Prepared renamingUnits [1, 0] index ∧
    (SourceUnit.load index "X" renamingText).scope = .ok scope ∧ symbol ∈ scope.candidates "C" ∧ symbol.unit = "Y" ∧
    [1, 0].idxOf 1 < [1, 0].idxOf 0 := by
  have only : candidatesIn renamingUnits ("X", renamingText) "C" = some [("Y", ⟨["a", "O", "B"]⟩)] := by decide +kernel
  obtain ⟨index, scope, symbol, registered, resolved, member, owner, named⟩ := candidate_found only
  have prepared : Prepared renamingUnits [1, 0] index := by
    refine ⟨by decide, parsed_of_all (by decide +kernel), ?_, renamingUnits, .refl _, registered⟩
    rw [renamingUnits_headers]
    exact toOption_eq_some_iff.mp (by decide +kernel)
  have targets : (Header.ofText renamingText).targets = [⟨["a", "O", "B"]⟩] := by rw [renamingText_header]; rfl
  have known : packages renamingUnits = [⟨["x"]⟩, ⟨["a"]⟩] := by rw [packages, renamingUnits_headers]; rfl
  refine ⟨index, scope, symbol, prepared, resolved, member, owner, ?_⟩
  refine candidates_ordered prepared rfl rfl resolved member owner (by decide +kernel) (by decide +kernel) ?_ ?_
  · rintro ⟨-, missing⟩
    rw [targets, named] at missing
    exact missing (by decide)
  · rintro ⟨⟨target, imported, leads⟩, taken⟩
    obtain ⟨package, longest, -, same⟩ := taken target imported leads
    have parent : symbol.parent = ⟨["a", "O"]⟩ := @parent_child symbol ⟨["a", "O"]⟩ "B" named
    have listed := longest.known
    rw [known] at listed
    rw [named, parent] at same
    have absent : ∀ package ∈ [DottedName.mk ["x"], ⟨["a"]⟩], package ≠ ⟨["a", "O", "B"]⟩ ∧ package ≠ ⟨["a", "O"]⟩ := by decide
    exact same.elim (absent package listed).1 (absent package listed).2

/-- A class that refers to a class of another package, between the unit that declares
it and a package of the same name. -/
def shadowingUnits : List (UnitId × String) :=
  [("Y", "package a\nclass b"), ("X", "package x\nimport a.b\nclass X(y:b[I])"), ("Z", "package a.b\nclass C")]

theorem shadowingUnits_headers : headersOf shadowingUnits =
    [("Y", ⟨some ⟨⟨["a"]⟩, ⟨0, 9⟩⟩, [], ["b"], [], none⟩),
      ("X", ⟨some ⟨⟨["x"]⟩, ⟨0, 9⟩⟩, [⟨⟨["a"]⟩, [.named "b" none], ⟨10, 20⟩⟩], ["X"], ["b"], none⟩),
      ("Z", ⟨some ⟨⟨["a", "b"]⟩, ⟨0, 11⟩⟩, [], ["C"], [], none⟩)] := by
  rw [← sortedSet_singleton "b", ← sortedSet_singleton "X", ← sortedSet_singleton "C", ← sortedSet_nil]
  simp only [headersOf, shadowingUnits, List.map_cons, List.map_nil, List.cons.injEq, Prod.mk.injEq, true_and, and_true]
  exact ⟨header_eq (by decide +kernel), header_eq (by decide +kernel), header_eq (by decide +kernel)⟩

/-- The import lies in the package with the name of the class, so nothing puts the
unit that declares the class first. -/
theorem shadowed_candidate_later : ∃ index scope symbol, Prepared shadowingUnits [2, 1, 0] index ∧
    (SourceUnit.load index "X" "package x\nimport a.b\nclass X(y:b[I])").scope = .ok scope ∧
    symbol ∈ scope.candidates "b" ∧ symbol.unit = "Y" ∧ packageOf ("Y", "package a\nclass b") ≠ .root ∧
    packageOf ("Y", "package a\nclass b") ≠ packageOf ("X", "package x\nimport a.b\nclass X(y:b[I])") ∧
    ¬ [2, 1, 0].idxOf 0 < [2, 1, 0].idxOf 1 := by
  have only : candidatesIn shadowingUnits ("X", "package x\nimport a.b\nclass X(y:b[I])") "b" =
      some [("Y", ⟨["a", "b"]⟩)] := by decide +kernel
  obtain ⟨index, scope, symbol, registered, resolved, member, owner, -⟩ := candidate_found only
  have prepared : Prepared shadowingUnits [2, 1, 0] index := by
    refine ⟨by decide, parsed_of_all (by decide +kernel), ?_, shadowingUnits, .refl _, registered⟩
    rw [shadowingUnits_headers]
    exact toOption_eq_some_iff.mp (by decide +kernel)
  exact ⟨index, scope, symbol, prepared, resolved, member, owner, by decide +kernel, by decide +kernel, by decide⟩

end KindLift.ResolutionOrder
