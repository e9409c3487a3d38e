import KindLift.Proofs.InstancePlacement
import KindLift.Rule.AdaptReferences

/-! Where the rule for references edits a unit. It inserts in front of names that
the source uses, each of which is a token of its own, so that no two insertions
are made at the same place. -/
namespace KindLift.ReferencePlacement
open TextBoundary TokenPlacement EditApplication RuleLogic InstancePlacement

variable {source : List Char} {unit : SourceUnit}

theorem usesFrom_sublist (hidden : Nat) (tokens : List Token) :
    (TypeRef.usesFrom hidden tokens).Sublist tokens := by
  fun_induction TypeRef.usesFrom hidden tokens with
  | case1 => exact .slnil
  | case2 =>
    rename_i ih
    exact ih.cons_cons _
  | case3 =>
    rename_i ih
    exact ih.cons _

theorem inOrder_mem (ordered : InOrder source low tokens) :
    ∀ token ∈ tokens, low ≤ token.start ∧ Stands source token := by
  induction tokens generalizing low with
  | nil => simp
  | cons token rest ih =>
    obtain ⟨first, stands, later⟩ := ordered
    refine List.forall_mem_cons.mpr ⟨⟨first, stands⟩, fun other member => ?_⟩
    obtain ⟨above, placed⟩ := ih later other member
    have width := start_lt_stop stands
    exact ⟨by omega, placed⟩

theorem inOrder_increasing (ordered : InOrder source low tokens) :
    tokens.Pairwise fun a b => a.start < b.start := by
  induction tokens generalizing low with
  | nil => exact .nil
  | cons token rest ih =>
    obtain ⟨-, stands, later⟩ := ordered
    refine List.pairwise_cons.mpr ⟨fun other member => ?_, ih later⟩
    exact Nat.lt_of_lt_of_le (start_lt_stop stands) (inOrder_mem later other member).1

/-- References are written one behind the other. -/
structure RefsPlaced (source : List Char) (references : List TypeRef) : Prop where
  cuts : ∀ reference ∈ references, Cut source reference.span.start
  increasing : references.Pairwise fun a b => a.span.start < b.span.start

theorem collect_placed (ordered : InOrder source 0 tokens) (decls : List Decl) :
    RefsPlaced source (TypeRef.collect tokens decls) := by
  have sublist := usesFrom_sublist 0 tokens
  constructor
  · intro reference member
    obtain ⟨token, used, rfl⟩ := List.mem_map.mp member
    exact start_cut (inOrder_mem ordered token (sublist.subset used)).2
  · exact List.pairwise_map.mpr ((inOrder_increasing ordered).sublist sublist)

theorem parse_refs_placed (parsed : Outline.parse source = .ok outline) :
    RefsPlaced source outline.typeRefs := by
  unfold Outline.parse at parsed
  cases scanned : Token.scan source with
  | error error => simp [scanned, bind, Except.bind] at parsed
  | ok tokens =>
    simp only [scanned, bind, Except.bind] at parsed
    split at parsed
    · cases parsed
    · cases parsed
      exact collect_placed (scan_inOrder scanned) _

theorem resolve_safely (name : String) : Safely (Relocated.resolve unit name) fun _ => True := by
  refine ServiceMatching.scopeOf_safely.bind fun scope _ => ?_
  dsimp only
  split <;> trivial

theorem ofReference_safely (scope : Scope) (reference : TypeRef) :
    Safely (Relocated.ofReference unit scope reference) fun _ => True := by
  unfold Relocated.ofReference
  split
  · trivial
  split
  · split
    · split <;> trivial
    · trivial
  · exact resolve_safely reference.name

/-- The relocated references are some of the references, in their order. -/
theorem findAll_safely : Safely (RelocatedRef.findAll unit) fun found =>
    (found.map RelocatedRef.reference).Sublist unit.outline.typeRefs := by
  refine ServiceMatching.scopeOf_safely.bind fun scope _ => ?_
  have each : ∀ item ∈ unit.outline.typeRefs.zipIdx, Safely
      (do
        let target ← Relocated.ofReference unit scope item.1
        return target.map fun target => RelocatedRef.mk item.2 item.1 target)
      fun found => ∀ relocated ∈ found, relocated.reference = item.1 := by
    intro item _
    refine (ofReference_safely scope item.1).bind fun target _ => ?_
    intro relocated member
    obtain ⟨_, _, rfl⟩ := Option.map_eq_some_iff.mp member
    rfl
  refine (Safely.mapM each).bind fun found related => ?_
  have references : (unit.outline.typeRefs.zipIdx.map Prod.fst) = unit.outline.typeRefs :=
    List.zipIdx_map_fst 0 _
  show ((found.filterMap id).map RelocatedRef.reference).Sublist unit.outline.typeRefs
  rw [← references]
  clear references each
  generalize unit.outline.typeRefs.zipIdx = items at related ⊢
  induction related with
  | nil => exact .slnil
  | @cons item option items options first _ ih =>
    cases option with
    | none => exact ih.cons _
    | some relocated =>
      have same := first relocated rfl
      rw [List.filterMap_cons, List.map_cons, id, List.map_cons, same]
      exact ih.cons_cons _

section Qualify

variable {references : List TypeRef} {found : List RelocatedRef} (placed : RefsPlaced source references)
  (sublist : (found.map RelocatedRef.reference).Sublist references)
include placed sublist

theorem qualify_increasing : (found.map AdaptReferences.qualify).Pairwise fun a b => a.start < b.start := by
  have increasing := List.pairwise_map.mp (placed.increasing.sublist sublist)
  exact List.pairwise_map.mpr increasing

theorem qualify_apart : PairwiseApart (found.map AdaptReferences.qualify) := by
  have increasing := List.pairwise_map.mp (qualify_increasing placed sublist)
  refine List.pairwise_map.mpr (increasing.imp fun {a b} less => ?_)
  simp only [Edit.overlaps, Edit.isInsertion, AdaptReferences.qualify, Edit.insertion]
  simp only [decide_true, Bool.and_self, if_true]
  exact decide_eq_false (Nat.ne_of_lt less)

theorem qualify_cuts : ∀ edit ∈ found.map AdaptReferences.qualify, Cut source edit.start ∧ Cut source edit.stop := by
  intro edit member
  obtain ⟨relocated, listed, rfl⟩ := List.mem_map.mp member
  have cut := placed.cuts _ (sublist.subset (List.mem_map_of_mem listed))
  exact ⟨cut, cut⟩

end Qualify

/-- The rule for references refuses a unit, or returns edits that can be applied. -/
theorem adaptReferences_safely (placed : RefsPlaced unit.text.toList unit.outline.typeRefs) :
    Safely (AdaptReferences.editSet unit) fun set => ∃ result, set.apply unit.text = .ok result := by
  refine findAll_safely.bind fun found sublist => ?_
  exact validated_safely (qualify_apart placed sublist) (qualify_cuts placed sublist) _

end KindLift.ReferencePlacement
