import AbilityGraph.Graph

/-!
# Control flow

Execution flows from node to node along control edges; edges that carry values play no part here.
`reachableFrom` finds the nodes that the flow can come to from a node. `wouldCloseLoop` says whether
a new edge would let the flow come back to where it was, and `loopEdges` finds the edges of a graph
on which it does.

All of them look links up in an `Adjacency` and follow them by one search, `search`. Edges on loops
are those within a strongly connected component. Components are found in two passes: the first takes
down in which order a depth-first walk is done with the nodes, and the second follows the links
backwards from the nodes in that order, the one done last first.
-/

set_option autoImplicit false

namespace AbilityGraph

namespace ControlFlow

/-- A link from one node to another, by their ids. -/
abbrev Link := String × String

/-- The links that the control edges make. -/
def links (edges : List Edge) : List Link :=
  (edges.filter (·.kind == .control)).map fun e => (e.source.nodeId, e.target.nodeId)

/-- The nodes that links lead to, by the node that the links go out of: an entry for each node with
links out of it. -/
abbrev Adjacency := List (String × List String)

namespace Adjacency

/-- Adds a link, after the others out of its node. -/
def addLink (link : Link) : Adjacency → Adjacency
  | [] => [(link.1, [link.2])]
  | entry :: rest =>
    if entry.1 = link.1 then (entry.1, entry.2 ++ [link.2]) :: rest
    else entry :: addLink link rest

/-- The entries for some links. -/
def ofLinks (links : List Link) : Adjacency :=
  links.foldl (fun adjacency link => adjacency.addLink link) []

/-- The entries for the control edges among some edges. -/
def ofEdges (edges : List Edge) : Adjacency := ofLinks (links edges)

/-- The nodes that the links out of a node lead to. -/
def targets (adjacency : Adjacency) (node : String) : List String :=
  (adjacency.lookup node).getD []

/-- The nodes at the ends of the links, entry by entry. -/
def ends (adjacency : Adjacency) : List String := adjacency.flatMap fun e => e.1 :: e.2

/-- The links in the other direction. -/
def reversed (adjacency : Adjacency) : Adjacency :=
  ofLinks (adjacency.flatMap fun e => e.2.map (·, e.1))

/-- What a link leads to is an end of a link. -/
theorem mem_ends_of_mem_targets {adjacency : Adjacency} {node target : String}
    (h : target ∈ adjacency.targets node) : target ∈ adjacency.ends := by
  unfold targets at h
  cases hlookup : adjacency.lookup node with
  | none =>
    rw [hlookup] at h
    cases h
  | some found =>
    rw [hlookup] at h
    obtain ⟨before, after, rfl, -⟩ := List.lookup_eq_some_iff.1 hlookup
    exact List.mem_flatMap.2 ⟨(node, found), by simp, List.mem_cons_of_mem _ h⟩

/-- No links go out of a node that is not an end of a link. -/
theorem targets_eq_nil_of_not_mem_ends {adjacency : Adjacency} {node : String}
    (h : node ∉ adjacency.ends) : adjacency.targets node = [] := by
  have hlookup : adjacency.lookup node = none := by
    refine List.lookup_eq_none_iff.2 fun entry hentry => ?_
    refine bne_iff_ne.2 fun heq => h (List.mem_flatMap.2 ⟨entry, hentry, ?_⟩)
    exact heq ▸ List.mem_cons_self
  simp [targets, hlookup]

end Adjacency

/-- Whatever is counted by a narrower test, some entry being left out, is less. -/
theorem countP_lt_of_mem {α : Type} {p q : α → Bool} {entries : List α} {x : α}
    (himp : ∀ y, q y = true → p y = true) (hx : x ∈ entries) (hp : p x = true)
    (hq : q x = false) : entries.countP q < entries.countP p := by
  obtain ⟨before, after, rfl⟩ := List.append_of_mem hx
  have hbefore := List.countP_mono_left (l := before) fun y _ => himp y
  have hafter := List.countP_mono_left (l := after) fun y _ => himp y
  simp only [List.countP_append, List.countP_cons, hp, hq, if_true, Bool.false_eq_true, if_false]
  omega

/-! ## Searching -/

/-- Nodes that have been found, each with a mark. -/
abbrev Marks (α : Type) := List (String × α)

/-- Whether a node has a mark. -/
def Marks.has {α : Type} (marks : Marks α) (node : String) : Bool := (marks.lookup node).isSome

/-- Which of the nodes that wait is taken next: the one that has waited longest, or the one that
came last. -/
inductive Turn where
  | oldest
  | newest

/-- Lets a node wait. -/
def Turn.add (turn : Turn) (waiting : List String) (node : String) : List String :=
  match turn with
  | oldest => waiting ++ [node]
  | newest => node :: waiting

section Search

variable {α : Type}

/-- Marks those of some nodes that have no mark, and lets them wait. -/
def markAll (turn : Turn) (mark : α) (marks : Marks α) (waiting : List String) :
    List String → Marks α × List String
  | [] => (marks, waiting)
  | node :: rest =>
    if marks.has node then markAll turn mark marks waiting rest
    else markAll turn mark ((node, mark) :: marks) (turn.add waiting node) rest

/-- The number of links to nodes without a mark. -/
def unmarked (adjacency : Adjacency) (marks : Marks α) : Nat :=
  adjacency.ends.countP (!marks.has ·)

/-- For each node that comes to wait there is one node less without a mark. -/
theorem markAll_decreases (adjacency : Adjacency) (turn : Turn) (mark : α) {nodes : List String}
    (hnodes : ∀ node ∈ nodes, node ∈ adjacency.ends) (marks : Marks α) (waiting : List String) :
    unmarked adjacency (markAll turn mark marks waiting nodes).1
        + (markAll turn mark marks waiting nodes).2.length
      ≤ unmarked adjacency marks + waiting.length := by
  induction nodes generalizing marks waiting with
  | nil => exact Nat.le_refl _
  | cons node rest ih =>
    have hrest := fun n hn => hnodes n (List.mem_cons_of_mem _ hn)
    unfold markAll
    split
    · exact ih hrest marks waiting
    next hnew =>
      have hnew : marks.has node = false := by simpa using hnew
      have hlength : (turn.add waiting node).length = waiting.length + 1 := by
        cases turn <;> simp [Turn.add]
      have hfewer : unmarked adjacency ((node, mark) :: marks) < unmarked adjacency marks := by
        refine countP_lt_of_mem (fun n hn => ?_) (hnodes node List.mem_cons_self)
          (by simp [hnew]) (by simp [Marks.has])
        simp only [Marks.has, List.lookup_cons] at hn ⊢
        split at hn
        · simp at hn
        · exact hn
      have := ih hrest ((node, mark) :: marks) (turn.add waiting node)
      omega

/-- Follows links from the nodes that wait and marks the nodes that they lead to, until none waits
or one at which to stop is taken. -/
def search (turn : Turn) (mark : α) (adjacency : Adjacency) (stop : String → Bool)
    (marks : Marks α) : List String → Marks α
  | [] => marks
  | node :: waiting =>
    if stop node then marks else
      let next := markAll turn mark marks waiting (adjacency.targets node)
      search turn mark adjacency stop next.1 next.2
termination_by waiting => unmarked adjacency marks + waiting.length
decreasing_by
  have hends : ∀ target ∈ adjacency.targets node, target ∈ adjacency.ends :=
    fun _ h => Adjacency.mem_ends_of_mem_targets h
  have := markAll_decreases adjacency turn mark hends marks waiting
  simp only [List.length_cons]
  omega

end Search

/-- The nodes that a breadth-first search from a node comes to, itself included. -/
def breadthFirst (adjacency : Adjacency) (stop : String → Bool) (start : String) : List String :=
  (search .oldest () adjacency stop [(start, ())] [start]).map (·.1)

/-- The nodes that the flow can come to from a node, itself included. -/
def reachableFrom (edges : List Edge) (start : String) : List String :=
  breadthFirst (.ofEdges edges) (fun _ => false) start

/-- Whether the flow could come back to the start of an edge once the edge is there. The search
from its end stops where its start is found. -/
def wouldCloseLoop (edges : List Edge) (candidate : Edge) : Bool :=
  candidate.kind == .control &&
    (breadthFirst (.ofEdges (edges ++ [candidate])) (· == candidate.source.nodeId)
      candidate.target.nodeId).contains candidate.source.nodeId

/-! ## Edges on loops -/

/-- A node that a depth-first walk is not done with, and the ends of its links that have not been
looked at. -/
structure Frame where
  node : String
  rest : List String

/-- The length of the rest of a walk while it comes to no new node. -/
def stackWork : List Frame → Nat
  | [] => 0
  | frame :: below => 2 * frame.rest.length + 1 + stackWork below

/-- The number of links to nodes that have not been visited. -/
def unvisited (adjacency : Adjacency) (visited : List String) : Nat :=
  adjacency.ends.countP (!visited.contains ·)

/-- A visit to a new node leaves fewer links to new nodes, or it is to a node without links. -/
theorem unvisited_cons (adjacency : Adjacency) {visited : List String} {node : String}
    (hnew : visited.contains node = false) :
    unvisited adjacency (node :: visited) < unvisited adjacency visited ∨
      (unvisited adjacency (node :: visited) ≤ unvisited adjacency visited ∧
        adjacency.targets node = []) := by
  have himp : ∀ n, (!(node :: visited).contains n) = true → (!visited.contains n) = true := by
    intro n hn
    simp only [List.contains_cons, Bool.not_or, Bool.and_eq_true] at hn
    exact hn.2
  by_cases hmem : node ∈ adjacency.ends
  · exact .inl (countP_lt_of_mem himp hmem (by simpa using hnew) (by simp))
  · exact .inr ⟨List.countP_mono_left fun n _ => himp n,
      Adjacency.targets_eq_nil_of_not_mem_ends hmem⟩

/-- Walks depth first from the nodes on a stack, and gives the nodes visited and the nodes that the
walk is done with, the one done last first. -/
def finishStack (adjacency : Adjacency) (visited finished : List String) :
    List Frame → List String × List String
  | [] => (visited, finished)
  | ⟨node, []⟩ :: stack => finishStack adjacency visited (node :: finished) stack
  | ⟨node, target :: rest⟩ :: stack =>
    if _hvisited : visited.contains target then
      finishStack adjacency visited finished (⟨node, rest⟩ :: stack)
    else
      finishStack adjacency (target :: visited) finished
        (⟨target, adjacency.targets target⟩ :: ⟨node, rest⟩ :: stack)
termination_by stack => (unvisited adjacency visited, stackWork stack)
decreasing_by
  · refine .right _ ?_
    simp only [stackWork]
    omega
  · refine .right _ ?_
    simp only [stackWork, List.length_cons]
    omega
  · rcases unvisited_cons adjacency (by simpa using _hvisited) with h | ⟨h, htargets⟩
    · exact .left _ _ h
    · rcases Nat.lt_or_eq_of_le h with h | h
      · exact .left _ _ h
      · rw [h, htargets]
        refine .right _ ?_
        simp only [stackWork, List.length_cons, List.length_nil]
        omega

/-- Walks depth first from each of some nodes that has not been visited, and gives the nodes that
the walk is done with, the one done last first. -/
def finishAll (adjacency : Adjacency) (visited finished : List String) :
    List String → List String
  | [] => finished
  | root :: rest =>
    if visited.contains root then finishAll adjacency visited finished rest
    else
      let done := finishStack adjacency (root :: visited) finished
        [⟨root, adjacency.targets root⟩]
      finishAll adjacency done.1 done.2 rest

/-- The nodes at the ends of links in the order in which a depth-first walk is done with them, the
one done last first. -/
def finishingOrder (adjacency : Adjacency) : List String := finishAll adjacency [] [] adjacency.ends

/-- Numbers components: each node that has no number yet gets a new one, and so do the nodes without
a number from which it can be reached. -/
def numberComponents (reverse : Adjacency) (numbers : Marks Nat) (next : Nat) :
    List String → Marks Nat
  | [] => numbers
  | root :: rest =>
    if numbers.has root then numberComponents reverse numbers (next + 1) rest
    else
      numberComponents reverse
        (search .newest next reverse (fun _ => false) ((root, next) :: numbers) [root])
        (next + 1) rest

/-- The number of the strongly connected component of each node. -/
def components (adjacency : Adjacency) : Marks Nat :=
  numberComponents adjacency.reversed [] 0 (finishingOrder adjacency)

/-- The control edges whose two nodes lie in one component, found with the entries of the adjacency
taken in the given order. -/
def loopEdgesIn (adjacency : Adjacency) (edges : List Edge) : List Edge :=
  let numbers := components adjacency
  edges.filter fun e => e.kind == .control &&
    match numbers.lookup e.source.nodeId with
    | some number => numbers.lookup e.target.nodeId == some number
    | none => false

/-- The control edges that lie on a loop of control edges, in the order of the graph. -/
def loopEdges (edges : List Edge) : List Edge := loopEdgesIn (.ofEdges edges) edges

end ControlFlow

end AbilityGraph
