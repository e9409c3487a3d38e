import KindLift.Program.Order
import Mathlib.Data.List.Nodup
import Mathlib.Data.List.Perm.Basic

/-! The processing order holds every unit of the program once. The depth-first
search keeps apart the nodes it has not seen and those it has finished, and
whatever it has seen but not finished waits on the stack. -/
namespace KindLift.ProcessingOrder

variable {graph : Graph} {unseen finished : List Nat}

/-- No node is listed twice, and none is both unseen and finished. -/
structure Separate (unseen finished : List Nat) : Prop where
  before : unseen.Nodup
  after : finished.Nodup
  disjoint : ∀ node ∈ finished, node ∉ unseen

theorem Separate.discover (separate : Separate unseen finished) (node : Nat) :
    Separate (unseen.erase node) finished :=
  ⟨separate.before.erase node, separate.after, fun other done member =>
    separate.disjoint other done (List.mem_of_mem_erase member)⟩

theorem Separate.finish (separate : Separate unseen finished) (seen : node ∉ unseen) :
    Separate unseen (if finished.contains node then finished else finished ++ [node]) := by
  split
  · exact separate
  · rename_i absent
    have new : node ∉ finished := by simpa using absent
    refine ⟨separate.before, ?_, ?_⟩
    · rw [← List.concat_eq_append]
      exact separate.after.concat new
    · intro other member
      rcases List.mem_append.mp member with done | last
      · exact separate.disjoint other done
      · rwa [List.mem_singleton.mp last]

theorem mem_finish {node other : Nat} :
    other ∈ (if finished.contains node then finished else finished ++ [node]) ↔
      other = node ∨ other ∈ finished := by
  split
  · rename_i present
    have done : node ∈ finished := by simpa using present
    exact ⟨.inr, fun found => found.elim (· ▸ done) id⟩
  · rw [List.mem_append, List.mem_singleton]
    exact or_comm

/-- What a search from a stack leaves: nothing of the stack is unseen, nothing
comes back, and every node that was unseen, finished or on the stack is now
unseen or finished. -/
structure Finished (unseen finished stack : List Nat) (after : List Nat × List Nat) : Prop where
  separate : Separate after.1 after.2
  shrinks : ∀ node ∈ after.1, node ∈ unseen
  seen : ∀ node ∈ stack, node ∉ after.1
  same : ∀ node, node ∈ after.1 ∨ node ∈ after.2 ↔ node ∈ unseen ∨ node ∈ finished ∨ node ∈ stack

theorem finish_finished (graph : Graph) (stack : List Nat) (separate : Separate unseen finished) :
    Finished unseen finished stack (graph.finish unseen finished stack) := by
  fun_induction Graph.finish graph unseen finished stack with
  | case1 unseen finished =>
    exact ⟨separate, fun _ member => member, by simp, by simp⟩
  | case2 =>
    rename_i unseen finished node rest member unseen' ih
    have done := ih (separate.discover node)
    refine ⟨done.separate, fun other found => List.mem_of_mem_erase (done.shrinks other found), ?_, ?_⟩
    · intro other waiting
      exact done.seen other (List.mem_append_right _ waiting)
    · intro other
      rw [done.same other, List.mem_append, List.mem_reverse, List.mem_filter, List.mem_cons,
        separate.before.mem_erase_iff]
      simp only [List.contains_iff_mem, unseen', separate.before.mem_erase_iff]
      grind
  | case3 =>
    rename_i unseen finished node rest absent ih
    simp only [dite_eq_ite] at ih
    have done := ih (separate.finish absent)
    refine ⟨done.separate, done.shrinks, ?_, ?_⟩
    · refine List.forall_mem_cons.mpr ⟨fun back => absent (done.shrinks node back), done.seen⟩
    · intro other
      rw [done.same other, mem_finish, List.mem_cons]
      grind

/-- One round of the outer loop, which searches from a node it has not seen. -/
def visit (graph : Graph) (state : List Nat × List Nat) (node : Nat) : List Nat × List Nat :=
  if state.1.contains node then graph.finish state.1 state.2 [node] else state

/-- What the rounds for a list of nodes leave: none of them is unseen, and no node
is lost. -/
structure Visited (state : List Nat × List Nat) (nodes : List Nat) (after : List Nat × List Nat) :
    Prop where
  separate : Separate after.1 after.2
  shrinks : ∀ node ∈ after.1, node ∈ state.1
  seen : ∀ node ∈ nodes, node ∉ after.1
  same : ∀ node, node ∈ after.1 ∨ node ∈ after.2 ↔ node ∈ state.1 ∨ node ∈ state.2

theorem visit_visited (graph : Graph) {state : List Nat × List Nat} (separate : Separate state.1 state.2)
    (node : Nat) :
    Visited state [node] (visit graph state node) := by
  unfold visit
  split
  · rename_i present
    have member : node ∈ state.1 := List.contains_iff_mem.mp present
    have done := finish_finished graph [node] separate
    refine ⟨done.separate, done.shrinks, done.seen, fun other => ?_⟩
    rw [done.same other, List.mem_singleton]
    grind
  · rename_i absent
    refine ⟨separate, fun _ member => member, ?_, fun _ => Iff.rfl⟩
    exact List.forall_mem_singleton.mpr fun member => absent (List.contains_iff_mem.mpr member)

theorem foldl_visited {state : List Nat × List Nat} {nodes : List Nat}
    (separate : Separate state.1 state.2) : Visited state nodes (nodes.foldl (visit graph) state) := by
  induction nodes generalizing state with
  | nil => exact ⟨separate, fun _ member => member, by simp, fun _ => Iff.rfl⟩
  | cons node nodes ih =>
    have first := visit_visited graph separate node
    have rest := ih first.separate
    refine ⟨rest.separate, fun other member => first.shrinks other (rest.shrinks other member), ?_, ?_⟩
    · refine List.forall_mem_cons.mpr ⟨fun back => ?_, rest.seen⟩
      exact first.seen node (List.mem_singleton_self node) (rest.shrinks node back)
    · intro other
      exact (rest.same other).trans (first.same other)

/-- The order of finishing holds every node once. -/
theorem finishOrder_perm (graph : Graph) : graph.finishOrder.Perm graph.nodes := by
  have separate : Separate graph.nodes [] := ⟨List.nodup_range, List.nodup_nil, by simp⟩
  have done : Visited (graph.nodes, []) graph.nodes (graph.nodes.foldl (visit graph) (graph.nodes, [])) :=
    foldl_visited separate
  refine (List.perm_ext_iff_of_nodup (List.nodup_reverse.mpr done.separate.after) List.nodup_range).mpr ?_
  intro node
  have same := done.same node
  have seen := done.seen node
  show node ∈ (graph.nodes.foldl (visit graph) (graph.nodes, [])).2.reverse ↔ node ∈ graph.nodes
  rw [List.mem_reverse]
  simp only [List.not_mem_nil, or_false] at same
  constructor
  · exact fun finished => same.mp (.inr finished)
  · exact fun member => (same.mpr member).resolve_left (seen member)

theorem addEdge_size (graph : Graph) (source target : Nat) :
    (graph.addEdge source target).size = graph.size := by
  unfold Graph.addEdge
  split <;> rfl

theorem foldl_size {step : Graph → ι → Graph} (each : ∀ graph item, (step graph item).size = graph.size)
    (items : List ι) (graph : Graph) : (items.foldl step graph).size = graph.size := by
  induction items generalizing graph with
  | nil => rfl
  | cons item rest ih => rw [List.foldl_cons, ih, each]

theorem addSibling_size (node : Nat) (graph : Graph) (dependency : Nat) :
    (DependencyGraph.addSibling node graph dependency).size = graph.size := by
  unfold DependencyGraph.addSibling
  split
  · rfl
  · exact addEdge_size ..

/-- Building adds edges and no nodes. -/
theorem build_size (units : List (UnitId × Header)) :
    (DependencyGraph.build units).graph.size = units.length := by
  have siblings : ∀ headers packages graph unit,
      (DependencyGraph.addSiblings headers packages graph unit).size = graph.size := by
    intro headers packages graph unit
    exact foldl_size (fun graph name => foldl_size (addSibling_size unit.2) _ graph) _ graph
  have imports : ∀ packages graph unit,
      (DependencyGraph.addImports packages graph unit).size = graph.size := by
    intro packages graph unit
    exact foldl_size (fun graph package => foldl_size (fun graph dependency => addEdge_size ..) _ graph) _ graph
  exact (foldl_size (siblings _ _) _ _).trans (foldl_size (imports _) _ _)

/-- The units of a program in the order of processing: every position once. -/
theorem leafFirst_perm {units : List (UnitId × Header)} {order : List Nat}
    (ordered : (DependencyGraph.build units).leafFirst = .ok order) :
    order.Perm (List.range units.length) := by
  unfold DependencyGraph.leafFirst Graph.topologicalOrder at ordered
  dsimp only at ordered
  split at ordered
  · rename_i found sorted
    cases ordered
    split at sorted
    · cases sorted
    · cases sorted
      have perm := finishOrder_perm (DependencyGraph.build units).graph
      rwa [Graph.nodes, build_size] at perm
  · cases ordered

end KindLift.ProcessingOrder
