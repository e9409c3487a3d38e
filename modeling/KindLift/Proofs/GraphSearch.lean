import KindLift.Proofs.ProcessingOrder
import Mathlib.Logic.Relation

/-! What the searches of a graph find. A search from a node sees what the node has
a path to, so components are the classes of nodes with paths both ways. The order
of finishing either leads along all edges, or there is an edge back to a node that
has a path to its source. -/
namespace KindLift.GraphSearch
open Relation ProcessingOrder

def Edge (graph : Graph) (source target : Nat) : Prop := (source, target) ∈ graph.edges

/-- The edges lead along a path, which may be empty. -/
abbrev Path (graph : Graph) : Nat → Nat → Prop := ReflTransGen (Edge graph)

/-- The edges join nodes of the graph. -/
def Bounded (graph : Graph) : Prop := ∀ source target, Edge graph source target → source < graph.size ∧ target < graph.size

/-- There are paths both ways. -/
def Mutual (graph : Graph) (a b : Nat) : Prop := Path graph a b ∧ Path graph b a

variable {graph : Graph} {unseen finished stack : List Nat} {node source target : Nat}

theorem mem_successors : target ∈ graph.successors source ↔ Edge graph source target := by
  simp [Graph.successors, Edge]

theorem mem_predecessors : source ∈ graph.predecessors target ↔ Edge graph source target := by
  simp [Graph.predecessors, Edge]

/-! Reachability. -/

/-- What a search from a stack leaves unseen. Whatever it has seen has a path from
the stack, and leads to nothing that is still unseen. -/
structure Searched (graph : Graph) (unseen stack after : List Nat) : Prop where
  shrinks : ∀ node ∈ after, node ∈ unseen
  seen : ∀ node ∈ stack, node ∉ after
  closed : ∀ node ∈ unseen, node ∉ after → ∀ next, Edge graph node next → next ∉ after
  reached : ∀ node ∈ unseen, node ∉ after → ∃ start ∈ stack, Path graph start node

theorem search_searched (graph : Graph) (unseen stack : List Nat) (distinct : unseen.Nodup) :
    Searched graph unseen stack (graph.search unseen stack) := by
  fun_induction Graph.search graph unseen stack with
  | case1 unseen => exact ⟨fun _ member => member, by simp, fun _ member absent => absurd member absent,
      fun _ member absent => absurd member absent⟩
  | case2 unseen node rest member ih =>
    have done := ih (distinct.erase node)
    have gone : node ∉ graph.search (unseen.erase node) (graph.successors node ++ rest) := fun found =>
      distinct.not_mem_erase (done.shrinks node found)
    refine ⟨fun other found => List.mem_of_mem_erase (done.shrinks other found), ?_, ?_, ?_⟩
    · exact List.forall_mem_cons.mpr ⟨gone, fun other waiting => done.seen other (List.mem_append_right _ waiting)⟩
    · intro other known absent next edge
      by_cases same : other = node
      · subst same
        exact done.seen next (List.mem_append_left _ (mem_successors.mpr edge))
      · exact done.closed other ((List.mem_erase_of_ne same).mpr known) absent next edge
    · intro other known absent
      by_cases same : other = node
      · exact ⟨node, List.mem_cons_self .., same ▸ .refl⟩
      · obtain ⟨start, waiting, path⟩ := done.reached other ((List.mem_erase_of_ne same).mpr known) absent
        rcases List.mem_append.mp waiting with next | waiting
        · exact ⟨node, List.mem_cons_self .., .head (mem_successors.mp next) path⟩
        · exact ⟨start, List.mem_cons_of_mem _ waiting, path⟩
  | case3 unseen node rest absent ih =>
    have done := ih distinct
    refine ⟨done.shrinks, ?_, done.closed, fun other known gone => ?_⟩
    · exact List.forall_mem_cons.mpr ⟨fun found => absent (done.shrinks node found), done.seen⟩
    · obtain ⟨start, waiting, path⟩ := done.reached other known gone
      exact ⟨start, List.mem_cons_of_mem _ waiting, path⟩

/-- The search from a node sees exactly what the node has a path to. -/
theorem reaches_iff (bounded : Bounded graph) (inside : source < graph.size) :
    graph.reaches source target = true ↔ Path graph source target := by
  have done := search_searched graph graph.nodes [source] List.nodup_range
  simp only [Graph.reaches, Bool.and_eq_true, decide_eq_true_eq, Bool.not_eq_true', List.contains_eq_mem,
    decide_eq_false_iff_not]
  constructor
  · rintro ⟨known, seen⟩
    obtain ⟨start, waiting, path⟩ := done.reached target (List.mem_range.mpr known) seen
    exact List.mem_singleton.mp waiting ▸ path
  · intro path
    induction path with
    | refl => exact ⟨inside, done.seen source (List.mem_singleton_self _)⟩
    | tail _ edge ih =>
      exact ⟨(bounded _ _ edge).2, done.closed _ (List.mem_range.mpr ih.1) ih.2 _ edge⟩

theorem mem_component (bounded : Bounded graph) (inside : node < graph.size) :
    target ∈ graph.component node ↔ target < graph.size ∧ Mutual graph node target := by
  simp only [Graph.component, List.mem_filter, Graph.nodes, List.mem_range, Bool.and_eq_true, Mutual]
  refine and_congr_right fun known => ?_
  rw [reaches_iff bounded inside, reaches_iff bounded known]

/-! The order of finishing. -/

/-- What is put on the stack when a node is discovered. -/
def pending (graph : Graph) (unseen : List Nat) (node : Nat) : List Nat :=
  ((graph.successors node).filter (unseen.contains ·)).reverse

theorem mem_pending : target ∈ pending graph unseen node ↔ Edge graph node target ∧ target ∈ unseen := by
  simp [pending, mem_successors]

theorem finish_nil : graph.finish unseen finished [] = (unseen, finished) := by
  rw [Graph.finish]

theorem finish_discover (member : node ∈ unseen) : graph.finish unseen finished (node :: stack) =
    graph.finish (unseen.erase node) finished (pending graph (unseen.erase node) node ++ node :: stack) := by
  rw [Graph.finish, if_pos member]
  rfl

theorem finish_done (absent : node ∉ unseen) : graph.finish unseen finished (node :: stack) =
    graph.finish unseen (if finished.contains node then finished else finished ++ [node]) stack := by
  rw [Graph.finish, if_neg absent]

/-- The upper part of a stack is done before the lower part is looked at. -/
theorem finish_append (graph : Graph) (unseen finished stack below : List Nat) :
    graph.finish unseen finished (stack ++ below) =
      graph.finish (graph.finish unseen finished stack).1 (graph.finish unseen finished stack).2 below := by
  fun_induction Graph.finish graph unseen finished stack with
  | case1 unseen finished => rfl
  | case2 unseen finished node rest member unseen' ih =>
    rw [List.cons_append, finish_discover member, ← List.cons_append, ← List.append_assoc]
    exact ih
  | case3 unseen finished node rest absent ih =>
    rw [List.cons_append, finish_done absent]
    simpa using ih

/-- A node is finished when all it leads to has been seen. -/
theorem finish_visit (separate : Separate unseen finished) (member : node ∈ unseen) :
    ∃ unseen' finished', graph.finish (unseen.erase node) finished (pending graph (unseen.erase node) node) =
        (unseen', finished') ∧ node ∉ unseen' ∧ node ∉ finished' ∧
      graph.finish unseen finished (node :: stack) = graph.finish unseen' (finished' ++ [node]) stack := by
  have done := finish_finished graph (pending graph (unseen.erase node) node) (separate.discover node)
  rw [finish_discover member, finish_append]
  generalize graph.finish (unseen.erase node) finished (pending graph (unseen.erase node) node) = after at done ⊢
  have gone : node ∉ unseen.erase node := separate.before.not_mem_erase
  have absent : node ∉ after.1 := fun found => gone (done.shrinks node found)
  have unfinished : node ∉ after.2 := by
    intro found
    rcases (done.same node).mp (.inr found) with known | old | next
    · exact gone known
    · exact separate.disjoint node old member
    · exact gone (mem_pending.mp next).2
  refine ⟨after.1, after.2, rfl, absent, unfinished, ?_⟩
  rw [finish_done absent, if_neg (by simpa using unfinished)]

/-- Whatever a finished node leads to was finished earlier, or has a path back. -/
def Ordered (graph : Graph) (finished : List Nat) : Prop :=
  ∀ earlier node later, finished = earlier ++ node :: later →
    ∀ next, Edge graph node next → next ∈ earlier ∨ Path graph next node

theorem Ordered.snoc (ordered : Ordered graph finished)
    (last : ∀ next, Edge graph node next → next ∈ finished ∨ Path graph next node) :
    Ordered graph (finished ++ [node]) := by
  intro earlier other later shape
  rcases List.eq_nil_or_concat later with rfl | ⟨later, final, rfl⟩
  · obtain ⟨rfl, same⟩ := List.append_inj' shape rfl
    cases same
    exact last
  · rw [List.concat_eq_append, ← List.cons_append, ← List.append_assoc] at shape
    exact ordered earlier other later (List.append_inj' shape rfl).1

/-- The stack holds nodes that are unseen or finished, and every node that is
neither has a path to all of them. -/
structure Waiting (graph : Graph) (unseen finished stack : List Nat) : Prop where
  ready : ∀ node ∈ stack, node ∈ unseen ∨ node ∈ finished
  open_paths : ∀ node, node < graph.size → node ∉ unseen → node ∉ finished → ∀ other ∈ stack, Path graph node other

/-- After a discovery the node itself is open, and has an edge to all it puts on the
stack. -/
theorem Waiting.discover (waiting : Waiting graph unseen finished (node :: stack)) :
    Waiting graph (unseen.erase node) finished (pending graph (unseen.erase node) node) := by
  refine ⟨fun other next => .inl (mem_pending.mp next).2, fun other inside absent unfinished next member => ?_⟩
  have edge := (mem_pending.mp member).1
  by_cases same : other = node
  · exact same ▸ .single edge
  · have unknown : other ∉ unseen := fun known => absent ((List.mem_erase_of_ne same).mpr known)
    exact (waiting.open_paths other inside unknown unfinished node (List.mem_cons_self ..)).tail edge

theorem Waiting.tail (waiting : Waiting graph unseen finished (node :: stack)) : Waiting graph unseen finished stack :=
  ⟨fun other member => waiting.ready other (List.mem_cons_of_mem _ member), fun other inside absent undone next member =>
    waiting.open_paths other inside absent undone next (List.mem_cons_of_mem _ member)⟩

section Visit
variable {after : List Nat × List Nat}
  (done : Finished (unseen.erase node) finished (pending graph (unseen.erase node) node) after)
include done

/-- What is open when a node is finished was open when it was discovered. -/
theorem open_before (differs : target ≠ node) (absent : target ∉ after.1) (undone : target ∉ after.2) :
    target ∉ unseen ∧ target ∉ finished := by
  have lost : ¬ (target ∈ after.1 ∨ target ∈ after.2) := fun found => found.elim absent undone
  rw [done.same, not_or, not_or] at lost
  exact ⟨fun known => lost.1 ((List.mem_erase_of_ne differs).mpr known), lost.2.1⟩

/-- Whatever a node leads to is finished before it, or has a path back to it. -/
theorem Waiting.settled (waiting : Waiting graph unseen finished (node :: stack)) (bounded : Bounded graph)
    (edge : Edge graph node target) : target ∈ after.2 ∨ Path graph target node := by
  by_cases known : target ∈ after.2
  · exact .inl known
  by_cases same : target = node
  · exact .inr (same ▸ .refl)
  have absent : target ∉ after.1 := fun found =>
    done.seen target (mem_pending.mpr ⟨edge, done.shrinks target found⟩) found
  obtain ⟨unknown, undone⟩ := open_before done same absent known
  exact .inr (waiting.open_paths target (bounded node target edge).2 unknown undone node (List.mem_cons_self ..))

/-- The lower part of a stack goes on waiting when the node on top of it is finished. -/
theorem Waiting.visited (waiting : Waiting graph unseen finished (node :: stack)) :
    Waiting graph after.1 (after.2 ++ [node]) stack := by
  refine ⟨fun other waits => ?_, fun other inside absent undone => ?_⟩
  · by_contra lost
    simp only [List.mem_append, List.mem_singleton, not_or] at lost
    obtain ⟨unknown, undone⟩ := open_before done lost.2.2 lost.1 lost.2.1
    exact (waiting.tail.ready other waits).elim unknown undone
  · simp only [List.mem_append, List.mem_singleton, not_or] at undone
    obtain ⟨unknown, unfinished⟩ := open_before done undone.2 absent undone.1
    exact waiting.tail.open_paths other inside unknown unfinished

end Visit

theorem finish_ordered (bounded : Bounded graph) (separate : Separate unseen finished)
    (waiting : Waiting graph unseen finished stack) (ordered : Ordered graph finished) :
    Ordered graph (graph.finish unseen finished stack).2 := by
  -- The stack of a discovery is searched with fewer unseen nodes, and so is what waits below it.
  induction length : unseen.length using Nat.strongRecOn generalizing unseen finished stack with
  | _ count fewer =>
  induction stack with
  | nil => rwa [finish_nil]
  | cons node stack ih =>
    by_cases member : node ∈ unseen
    · obtain ⟨unseen', finished', visited, gone, unfinished, same⟩ := @finish_visit graph _ _ stack node separate member
      have done := finish_finished graph (pending graph (unseen.erase node) node) (separate.discover node)
      have shorter : (unseen.erase node).length < count := by
        rw [List.length_erase_of_mem member, ← length]
        exact Nat.pred_lt (Nat.ne_of_gt (List.length_pos_of_mem member))
      have inner := fewer _ shorter (separate.discover node) waiting.discover ordered rfl
      rw [visited] at done inner
      have apart : Separate unseen' (finished' ++ [node]) := by
        have apart := done.separate.finish gone
        rwa [if_neg (by simpa using unfinished)] at apart
      have fewer' : unseen'.length < count :=
        Nat.lt_of_le_of_lt (List.subperm_of_subset done.separate.before done.shrinks).length_le shorter
      rw [same]
      exact fewer _ fewer' apart (waiting.visited done) (inner.snoc fun _ edge => waiting.settled done bounded edge) rfl
    · rw [finish_done member, if_pos (by simpa using (waiting.ready node (List.mem_cons_self ..)).resolve_left member)]
      exact ih waiting.tail

theorem foldl_ordered (bounded : Bounded graph) {state : List Nat × List Nat} {nodes : List Nat}
    (separate : Separate state.1 state.2) (total : ∀ node, node < graph.size → node ∈ state.1 ∨ node ∈ state.2)
    (ordered : Ordered graph state.2) : Ordered graph (nodes.foldl (visit graph) state).2 := by
  induction nodes generalizing state with
  | nil => exact ordered
  | cons node nodes ih =>
    have visited := visit_visited graph separate node
    refine ih visited.separate (fun other inside => (visited.same other).mpr (total other inside)) ?_
    unfold visit
    split
    · rename_i present
      -- Between the rounds no node is open, so the stack of a single node has nothing to answer for.
      refine finish_ordered bounded separate ⟨?_, ?_⟩ ordered
      · exact List.forall_mem_singleton.mpr (.inl (List.contains_iff_mem.mp present))
      · intro other inside absent undone
        exact ((total other inside).elim absent undone).elim
    · exact ordered

theorem finishOrder_ordered (bounded : Bounded graph) : Ordered graph graph.finishOrder.reverse := by
  have separate : Separate graph.nodes [] := ⟨List.nodup_range, List.nodup_nil, by simp⟩
  have ordered : Ordered graph (graph.nodes.foldl (visit graph) (graph.nodes, [])).2 := by
    refine foldl_ordered bounded separate (fun node inside => .inl (List.mem_range.mpr inside)) ?_
    intro earlier node later shape
    exact absurd shape.symm (by simp)
  unfold Graph.finishOrder
  rw [List.reverse_reverse]
  exact ordered

/-- Without a misplaced node all edges lead from nodes that were placed. -/
theorem misplaced?_eq_none {placed order : List Nat} (none : graph.misplaced? placed order = none)
    {front back : List Nat} (shape : order = front ++ node :: back) (edge : Edge graph source node) :
    source = node ∨ source ∈ front ∨ source ∈ placed := by
  induction order generalizing placed front with
  | nil => exact absurd shape.symm (by simp)
  | cons first rest ih =>
    rw [Graph.misplaced?] at none
    split at none
    · cases none
    · rename_i fine
      rw [List.getLast?_eq_none_iff, List.filter_eq_nil_iff] at fine
      cases front with
      | nil =>
        cases shape
        have found := fine source (mem_predecessors.mpr edge)
        simp only [Bool.not_eq_true, Bool.not_eq_false', List.contains_iff_mem, List.mem_cons] at found
        exact found.imp_right .inr
      | cons head front =>
        obtain ⟨rfl, rfl⟩ := List.cons.inj shape
        have found := ih none rfl
        simp only [List.mem_cons] at found ⊢
        tauto

/-- A misplaced node has an edge to one that was placed before it. -/
theorem misplaced?_eq_some {placed order : List Nat} (some : graph.misplaced? placed order = some source) :
    ∃ front node back, order = front ++ node :: back ∧ Edge graph source node ∧ source ≠ node ∧ source ∉ front ∧
      source ∉ placed := by
  induction order generalizing placed with
  | nil => cases some
  | cons first rest ih =>
    rw [Graph.misplaced?] at some
    split at some
    · rename_i other found
      cases some
      have member := List.mem_of_getLast? found
      rw [List.mem_filter, mem_predecessors] at member
      obtain ⟨edge, fresh⟩ := member
      simp only [Bool.not_eq_eq_eq_not, Bool.not_true, List.contains_eq_mem, decide_eq_false_iff_not, List.mem_cons,
        not_or] at fresh
      exact ⟨[], first, rest, rfl, edge, fresh.1, by simp, fresh.2⟩
    · obtain ⟨front, node, back, rfl, edge, differs, absent, fresh⟩ := ih some
      rw [List.mem_cons, not_or] at fresh
      refine ⟨first :: front, node, back, rfl, edge, differs, ?_, fresh.2⟩
      rw [List.mem_cons, not_or]
      exact ⟨fresh.1, absent⟩

/-- An order of the nodes in which every edge leads forward, loops apart. -/
theorem topologicalOrder_ok {order : List Nat} (bounded : Bounded graph) (sorted : graph.topologicalOrder = .ok order) :
    order.Perm graph.nodes ∧ ∀ source target, Edge graph source target → source ≠ target →
      order.idxOf source < order.idxOf target := by
  unfold Graph.topologicalOrder at sorted
  dsimp only at sorted
  split at sorted
  · cases sorted
  · rename_i none
    cases sorted
    have perm := finishOrder_perm graph
    have distinct : graph.finishOrder.Nodup := perm.nodup_iff.mpr List.nodup_range
    refine ⟨perm, fun source target edge differs => ?_⟩
    have listed : target ∈ graph.finishOrder := perm.symm.subset (List.mem_range.mpr (bounded source target edge).2)
    obtain ⟨front, back, shape⟩ := List.append_of_mem listed
    have before : source ∈ front := by
      rcases misplaced?_eq_none none shape edge with same | before | nowhere
      · exact absurd same differs
      · exact before
      · cases nowhere
    rw [shape] at distinct ⊢
    have behind : target ∉ front := fun member =>
      (List.nodup_append.mp distinct).2.2 target member target (List.mem_cons_self ..) rfl
    rw [List.idxOf_append_of_mem before, List.idxOf_append_of_notMem behind]
    exact Nat.lt_of_lt_of_le (List.idxOf_lt_length_of_mem before) (Nat.le_add_right ..)

/-- A node that cannot be placed lies on a cycle with another one. -/
theorem topologicalOrder_error (bounded : Bounded graph) (failed : graph.topologicalOrder = .error source) :
    ∃ target, source ≠ target ∧ Edge graph source target ∧ Path graph target source := by
  unfold Graph.topologicalOrder at failed
  dsimp only at failed
  split at failed
  · rename_i found
    cases failed
    obtain ⟨front, target, back, shape, edge, differs, absent, -⟩ := misplaced?_eq_some found
    refine ⟨target, differs, edge, ?_⟩
    have perm := finishOrder_perm graph
    have distinct : graph.finishOrder.Nodup := perm.nodup_iff.mpr List.nodup_range
    have listed : source ∈ graph.finishOrder := perm.symm.subset (List.mem_range.mpr (bounded source target edge).1)
    rw [shape, List.mem_append, List.mem_cons] at listed
    obtain ⟨left, right, split⟩ := List.append_of_mem ((listed.resolve_left absent).resolve_left differs)
    -- The source was finished before its target, so the target has a path back to it.
    have ordered := finishOrder_ordered bounded
    have reversed : graph.finishOrder.reverse = right.reverse ++ source :: (left.reverse ++ target :: front.reverse) := by
      rw [shape, split]
      simp
    refine (ordered _ _ _ reversed target edge).resolve_left fun early => ?_
    rw [shape, split] at distinct
    have twice := (List.nodup_cons.mp (List.nodup_append.mp distinct).2.1).1
    exact twice (List.mem_append_right _ (List.mem_cons_of_mem _ (List.mem_reverse.mp early)))
  · cases failed

end KindLift.GraphSearch
