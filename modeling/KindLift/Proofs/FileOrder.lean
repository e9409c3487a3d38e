import KindLift.Proofs.PackageCycles
import KindLift.Proofs.RunSession

/-! The files of a run in the order in which they are processed. A file comes after
all files of the packages it imports from. A file that refers to a sibling comes
before it only if the sibling depends on the file. -/
namespace KindLift.FileOrder
open Traversal RunSession GraphSearch PackageCycles

/-- The program that the order of processing is computed from. -/
def headersOf (files : List SourceFile) : List (UnitId × Header) := files.map fun file => (file.path, file.header)

/-- The file imports from the other file's package, which is not its own. -/
def Imports (files : List SourceFile) (file other : SourceFile) : Prop :=
  other.header.packageName ≠ file.header.packageName ∧
    ∃ target ∈ file.header.targets, LongestPackage (packagesOf (headersOf files)) target other.header.packageName

/-- The file refers to a name that it does not declare, and the other file of its
package does. -/
def Refers (file other : SourceFile) : Prop :=
  other.header.packageName = file.header.packageName ∧
    ∃ name ∈ file.header.referenced, name ∉ file.header.declared ∧ name ∈ other.header.declared

/-- In the program of the files, edges lead from the other file to the file. -/
def DependsOn (files : List SourceFile) (file other : SourceFile) : Prop :=
  ∃ node dependency, files[node]? = some file ∧ files[dependency]? = some other ∧
    Path (DependencyGraph.build (headersOf files)).graph dependency node

variable {run : Run} {files read : List SourceFile} {file other : SourceFile} {order : List Nat} {graph : Graph}
  {node dependency : Nat} {target package : DottedName}

theorem longestPackage_of_perm {packages others : List DottedName} (longest : LongestPackage packages target package)
    (perm : packages.Perm others) : LongestPackage others target package :=
  ⟨perm.mem_iff.mp longest.known, longest.proper, longest.encloses,
    fun other listed => longest.longest other (perm.mem_iff.mpr listed)⟩

theorem Imports.of_perm (imports : Imports files file other) (perm : files.Perm read) : Imports read file other := by
  obtain ⟨foreign, target, imported, longest⟩ := imports
  exact ⟨foreign, target, imported, longestPackage_of_perm longest (((perm.map _).map _).map _)⟩

theorem headersOf_getElem? (found : read[node]? = some file) :
    (headersOf read)[node]? = some (file.path, file.header) := by
  simp [headersOf, found]

theorem Imports.edge (imports : Imports read file other) (found : read[node]? = some file)
    (found' : read[dependency]? = some other) : Edge (DependencyGraph.build (headersOf read)).graph dependency node := by
  obtain ⟨foreign, target, imported, longest⟩ := imports
  apply (build_extends _).kept
  exact edge_importGraph.mpr ⟨_, _, headersOf_getElem? found, headersOf_getElem? found', foreign, target, imported, longest⟩

theorem Refers.heeded (refers : Refers file other) (found : read[node]? = some file)
    (found' : read[dependency]? = some other) (differs : dependency ≠ node) :
    Heeded node dependency (DependencyGraph.build (headersOf read)).graph := by
  obtain ⟨same, name, wanted, foreign, declares⟩ := refers
  exact build_heeded ⟨_, _, headersOf_getElem? found, headersOf_getElem? found', differs, same, name, wanted, foreign,
    declares⟩

/-- In an order that edges lead forward in, no edge leads back. -/
theorem pairwise_forward (distinct : order.Nodup)
    (forward : ∀ source target, Edge graph source target → order.idxOf source < order.idxOf target) :
    order.Pairwise fun first later => first ≠ later ∧ ¬ Edge graph later first := by
  refine List.pairwise_iff_getElem.mpr fun i j first later less => ?_
  have places : ∀ k (bound : k < order.length), order.idxOf order[k] = k := fun k bound => distinct.idxOf_getElem k bound
  constructor
  · intro same
    have i_eq := places i first
    rw [same, places j later] at i_eq
    omega
  · intro edge
    have back := forward _ _ edge
    rw [places i first, places j later] at back
    omega

/-- What comes later in a run. -/
theorem loaded_order [Storage σ] {storage : σ} {paths : List String} (loaded : run.loadAll storage paths = .ok files) :
    ∃ read, paths.mapM (SourceFile.load run.settings.maxFileSize storage) = .ok read ∧ files.Perm read ∧
      files.Pairwise fun first later => ¬ Imports read first later ∧ (Refers first later → DependsOn read later first) := by
  obtain ⟨read, order, fetched, sorted, -, ordered, perm⟩ := loadAll_eq_ok loaded
  obtain ⟨places, forward⟩ := leafFirst_ok sorted
  refine ⟨read, fetched, perm, ?_⟩
  rw [ordered]
  refine (pairwise_forward (places.nodup_iff.mpr List.nodup_range) forward).filterMap _ ?_
  rintro node dependency ⟨differs, back⟩ first found later found'
  constructor
  · intro imports
    exact back (imports.edge found found')
  · intro refers
    rcases refers.heeded found found' differs.symm with edge | path
    · exact absurd edge back
    · exact ⟨dependency, node, found', found, path⟩

theorem pairwise_behind {relation : SourceFile → SourceFile → Prop} {front behind : List Run.Processed}
    {processed : Run.Processed} (ordered : ((front ++ processed :: behind).map Run.Processed.file).Pairwise relation) :
    ∀ later ∈ behind, relation processed.file later.file := by
  rw [List.pairwise_map, List.pairwise_append] at ordered
  exact (List.pairwise_cons.mp ordered.2.1).1

end KindLift.FileOrder
