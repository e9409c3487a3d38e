/-! Finite directed graphs over the numbers below a size, searched with an
explicit stack. The nodes not yet seen are kept as a list that every discovery
shortens, which bounds the search. -/
namespace KindLift

/-- The edges come in the order in which they were added, each once. -/
structure Graph where
  size : Nat
  edges : List (Nat × Nat)
deriving DecidableEq, Repr

namespace Graph

def nodes (graph : Graph) : List Nat := List.range graph.size

/-- The targets of the edges from a node. -/
def successors (graph : Graph) (node : Nat) : List Nat :=
  graph.edges.filterMap fun (source, target) => if source = node then some target else none

/-- The sources of the edges to a node. -/
def predecessors (graph : Graph) (node : Nat) : List Nat :=
  graph.edges.filterMap fun (source, target) => if target = node then some source else none

/-- An edge that is there already is not added again. -/
def addEdge (graph : Graph) (source target : Nat) : Graph :=
  if graph.edges.contains (source, target) then graph
  else { graph with edges := graph.edges ++ [(source, target)] }

theorem successors_length_le (graph : Graph) (node : Nat) :
    (graph.successors node).length ≤ graph.edges.length :=
  List.length_filterMap_le ..

/-- Every discovery pays for the nodes it puts on the stack. -/
def searchBound (graph : Graph) (unseen stack : List Nat) : Nat :=
  unseen.length * (graph.edges.length + 2) + stack.length

theorem searchBound_discover (graph : Graph) {unseen stack next : List Nat} {node : Nat}
    (member : node ∈ unseen) (more : next.length ≤ graph.edges.length + stack.length) :
    graph.searchBound (unseen.erase node) next < graph.searchBound unseen stack := by
  obtain ⟨count, length⟩ := Nat.exists_eq_add_of_lt (List.length_pos_of_mem member)
  rw [Nat.zero_add] at length
  rw [searchBound, searchBound, List.length_erase_of_mem member, length, Nat.add_sub_cancel, Nat.succ_mul]
  omega

/-- What is left unseen after all nodes on the stack have been searched. -/
def search (graph : Graph) (unseen : List Nat) (stack : List Nat) : List Nat :=
  match stack with
  | [] => unseen
  | node :: rest =>
    if node ∈ unseen then search graph (unseen.erase node) (graph.successors node ++ rest)
    else search graph unseen rest
termination_by graph.searchBound unseen stack
decreasing_by
  · rename_i member
    apply searchBound_discover graph member
    have bound := graph.successors_length_le node
    rw [List.length_append, List.length_cons]
    omega
  · simp [searchBound]

/-- There is a path between the nodes, which may be empty. -/
def reaches (graph : Graph) (source target : Nat) : Bool :=
  target < graph.size && !(graph.search graph.nodes [source]).contains target

/-- The nodes that lie on a cycle with the given one, and itself. -/
def component (graph : Graph) (node : Nat) : List Nat :=
  graph.nodes.filter fun other => graph.reaches node other && graph.reaches other node

/-- Depth-first search that appends each node when all it leads to is done; the
node on top of the stack stays there until then. -/
def finish (graph : Graph) (unseen finished stack : List Nat) : List Nat × List Nat :=
  match stack with
  | [] => (unseen, finished)
  | node :: rest =>
    if node ∈ unseen then
      let unseen' := unseen.erase node
      finish graph unseen' finished
        (((graph.successors node).filter (unseen'.contains ·)).reverse ++ node :: rest)
    else finish graph unseen (if finished.contains node then finished else finished ++ [node]) rest
termination_by graph.searchBound unseen stack
decreasing_by
  · rename_i member
    apply searchBound_discover graph member
    have bound := graph.successors_length_le node
    have fewer := List.length_filter_le ((unseen.erase node).contains ·) (graph.successors node)
    rw [List.length_append, List.length_reverse]
    omega
  · simp [searchBound]

/-- All nodes, those that were finished last first. -/
def finishOrder (graph : Graph) : List Nat :=
  let done := graph.nodes.foldl (fun (state : List Nat × List Nat) node =>
    if state.1.contains node then graph.finish state.1 state.2 [node] else state) (graph.nodes, [])
  done.2.reverse

/-- A node that an edge leads from to one placed before it: the last such
predecessor of the first node that has one. -/
def misplaced? (graph : Graph) (placed : List Nat) : List Nat → Option Nat
  | [] => none
  | node :: rest =>
    match ((graph.predecessors node).filter fun other => !(node :: placed).contains other).getLast? with
    | some other => some other
    | none => misplaced? graph (node :: placed) rest

/-- An order in which every edge leads forward, or else a node on a cycle. -/
def topologicalOrder (graph : Graph) : Except Nat (List Nat) :=
  let order := graph.finishOrder
  match graph.misplaced? [] order with
  | some node => .error node
  | none => .ok order

end Graph
end KindLift
