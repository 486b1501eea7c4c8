import AbilityGraph.Proofs.ControlFlow.Paths

/-!
# What a search finds

A search marks exactly the nodes that paths lead to from the nodes that wait
(`has_search_iff`), as long as the nodes already marked have no unmarked successors other than those
(`Settled`). In which turn waiting nodes are taken plays no part. If the search may stop early it
still finds a node at which it would stop, if there is one within reach.

From this follow the two searches over the control edges of a graph: `mem_reachableFrom_iff` and
`wouldCloseLoop_iff`, put together in `searches_follow_paths`.
-/

set_option autoImplicit false

namespace AbilityGraph

namespace ControlFlow

open Relation (ReflTransGen)

section Search

variable {α : Type}

/-! ## Marks -/

/-- A new mark is found at its node, and at other nodes what was found before. -/
theorem Marks.lookup_cons (marks : Marks α) (node other : String) (mark : α) :
    List.lookup other ((node, mark) :: marks) =
      if other = node then some mark else marks.lookup other := by
  rw [List.lookup_cons]
  by_cases h : other = node
  · simp [h]
  · simp [beq_false_of_ne h, h]

/-- With a new mark, its node is marked and those that were marked before. -/
theorem Marks.has_cons (marks : Marks α) (node other : String) (mark : α) :
    Marks.has ((node, mark) :: marks) other = true ↔ other = node ∨ marks.has other = true := by
  unfold Marks.has
  rw [Marks.lookup_cons]
  split <;> simp [*]

/-- The nodes with an entry are those that are marked. -/
theorem Marks.mem_keys_iff (marks : Marks α) (node : String) :
    node ∈ marks.map (·.1) ↔ marks.has node = true := by
  unfold Marks.has
  simp only [List.lookup_isSome_iff, List.mem_map]
  constructor
  · rintro ⟨entry, hentry, rfl⟩
    exact ⟨entry, hentry, by simp⟩
  · rintro ⟨entry, hentry, heq⟩
    exact ⟨entry, hentry, (beq_iff_eq.1 heq).symm⟩

/-- A node that is added waits with those that wait already, in either turn. -/
theorem mem_add_iff (turn : Turn) (waiting : List String) (node other : String) :
    other ∈ turn.add waiting node ↔ other = node ∨ other ∈ waiting := by
  cases turn <;> simp [Turn.add, or_comm]

/-- Marking nodes keeps the marks that there are and gives the mark to all others of the nodes. -/
theorem lookup_markAll (turn : Turn) (mark : α) (nodes : List String) (marks : Marks α)
    (waiting : List String) (other : String) :
    (markAll turn mark marks waiting nodes).1.lookup other =
      (marks.lookup other).or (if other ∈ nodes then some mark else none) := by
  induction nodes generalizing marks waiting with
  | nil => simp [markAll]
  | cons node rest ih =>
    unfold markAll
    split
    next hmarked =>
      rw [ih]
      by_cases h : other = node
      · obtain ⟨found, hfound⟩ := Option.isSome_iff_exists.1 hmarked
        simp [h, hfound]
      · simp [h]
    next hnew =>
      have hnone : marks.lookup node = none := Option.not_isSome_iff_eq_none.1 hnew
      rw [ih, Marks.lookup_cons]
      by_cases h : other = node
      · simp [h, hnone]
      · simp [h]

/-- After marking nodes, those wait that waited before and those of the nodes that had no mark. -/
theorem mem_markAll_waiting (turn : Turn) (mark : α) (nodes : List String) (marks : Marks α)
    (waiting : List String) (other : String) :
    other ∈ (markAll turn mark marks waiting nodes).2 ↔
      other ∈ waiting ∨ (other ∈ nodes ∧ marks.has other = false) := by
  induction nodes generalizing marks waiting with
  | nil => simp [markAll]
  | cons node rest ih =>
    unfold markAll
    split
    next hmarked =>
      rw [ih]
      by_cases h : other = node
      · simp [h, hmarked]
      · simp [h]
    next hnew =>
      have hnew : marks.has node = false := by simpa using hnew
      have hcons := Marks.has_cons marks node other mark
      rw [ih, mem_add_iff]
      by_cases h : other = node
      · simp [h, hnew]
      · have heq : Marks.has ((node, mark) :: marks) other = marks.has other := by
          rw [Bool.eq_iff_iff, hcons]
          simp [h]
        simp [h, heq]

/-- After marking nodes, these are marked and those that were marked before. -/
theorem has_markAll_iff (turn : Turn) (mark : α) (nodes : List String) (marks : Marks α)
    (waiting : List String) (other : String) :
    (markAll turn mark marks waiting nodes).1.has other = true ↔
      marks.has other = true ∨ other ∈ nodes := by
  unfold Marks.has
  rw [lookup_markAll]
  cases marks.lookup other <;> simp

/-- Marking nodes gives no node a second mark. -/
theorem nodup_markAll (turn : Turn) (mark : α) (nodes : List String) {marks : Marks α}
    (h : (marks.map (·.1)).Nodup) (waiting : List String) :
    ((markAll turn mark marks waiting nodes).1.map (·.1)).Nodup := by
  induction nodes generalizing marks waiting with
  | nil => exact h
  | cons node rest ih =>
    unfold markAll
    split
    next => exact ih h waiting
    next hnew =>
      refine ih ?_ _
      rw [List.map_cons, List.nodup_cons, Marks.mem_keys_iff]
      exact ⟨hnew, h⟩

/-! ## The search -/

/-- A search keeps the marks that there are and gives one mark to all nodes that it finds. -/
theorem lookup_search (turn : Turn) (mark : α) (adjacency : Adjacency) (stop : String → Bool)
    (marks : Marks α) (waiting : List String) (node : String) :
    (search turn mark adjacency stop marks waiting).lookup node =
      (marks.lookup node).or
        (if (search turn mark adjacency stop marks waiting).has node then some mark else none) := by
  fun_induction search turn mark adjacency stop marks waiting with
  | case1 marks => cases h : marks.lookup node <;> simp [Marks.has, h]
  | case2 marks first waiting hstop =>
    cases h : marks.lookup node <;> simp [Marks.has, h]
  | case3 marks first waiting hstop next ih =>
    have hmarked : marks.lookup node = none → node ∈ adjacency.targets first →
        (search turn mark adjacency stop next.1 next.2).has node = true := by
      intro hnone htarget
      unfold Marks.has
      rw [ih, lookup_markAll]
      simp [hnone, htarget]
    rw [ih, lookup_markAll]
    cases hmark : marks.lookup node with
    | some found => simp
    | none =>
      by_cases htarget : node ∈ adjacency.targets first
      · have := hmarked hmark htarget
        simpa [htarget, next] using this
      · simp [htarget, next]

/-- A node that is marked stays marked during a search. -/
theorem has_search_of_has (turn : Turn) (mark : α) (adjacency : Adjacency) (stop : String → Bool)
    {marks : Marks α} (waiting : List String) {node : String} (h : marks.has node = true) :
    (search turn mark adjacency stop marks waiting).has node = true := by
  obtain ⟨found, hfound⟩ := Option.isSome_iff_exists.1 h
  unfold Marks.has
  rw [lookup_search, hfound]
  rfl

/-- A search marks no node twice. -/
theorem nodup_search (turn : Turn) (mark : α) (adjacency : Adjacency) (stop : String → Bool)
    {marks : Marks α} (h : (marks.map (·.1)).Nodup) (waiting : List String) :
    ((search turn mark adjacency stop marks waiting).map (·.1)).Nodup := by
  fun_induction search turn mark adjacency stop marks waiting with
  | case1 marks => exact h
  | case2 marks first waiting hstop => exact h
  | case3 marks first waiting hstop next ih => exact ih (nodup_markAll turn mark _ h waiting)

/-- A search marks only nodes that paths lead to from those that wait. -/
theorem exists_path_of_has_search (turn : Turn) (mark : α) (adjacency : Adjacency)
    (stop : String → Bool) (marks : Marks α) (waiting : List String) (node : String)
    (h : (search turn mark adjacency stop marks waiting).has node = true) :
    marks.has node = true ∨ ∃ first ∈ waiting, adjacency.Path first node := by
  fun_induction search turn mark adjacency stop marks waiting with
  | case1 marks =>
    exact .inl h
  | case2 marks first waiting hstop =>
    exact .inl h
  | case3 marks first waiting hstop next ih =>
    rcases ih h with h | ⟨start, hstart, hpath⟩
    · rcases (has_markAll_iff ..).1 h with h | htarget
      · exact .inl h
      · exact .inr ⟨first, List.mem_cons_self, .single htarget⟩
    · rcases (mem_markAll_waiting ..).1 hstart with hstart | ⟨htarget, -⟩
      · exact .inr ⟨start, List.mem_cons_of_mem _ hstart, hpath⟩
      · exact .inr ⟨first, List.mem_cons_self, .head htarget hpath⟩

/-- Every marked node waits or has only marked successors. -/
def Settled (adjacency : Adjacency) (marks : Marks α) (waiting : List String) : Prop :=
  ∀ node, marks.has node = true → node ∈ waiting ∨
    ∀ target, adjacency.HasLink node target → marks.has target = true

/-- Taking a node and marking its successors keeps all marked nodes settled. -/
theorem Settled.markAll {adjacency : Adjacency} {marks : Marks α} {first : String}
    {waiting : List String} (h : Settled adjacency marks (first :: waiting)) (turn : Turn)
    (mark : α) :
    Settled adjacency (markAll turn mark marks waiting (adjacency.targets first)).1
      (markAll turn mark marks waiting (adjacency.targets first)).2 := by
  intro node hnode
  simp only [mem_markAll_waiting, has_markAll_iff] at hnode ⊢
  cases hmarked : marks.has node with
  | false =>
    have htarget := hnode.resolve_left (by simp [hmarked])
    exact .inl (.inr ⟨htarget, rfl⟩)
  | true =>
    rcases h node hmarked with hwaits | hclosed
    · rcases List.mem_cons.1 hwaits with rfl | hwaits
      · exact .inr fun target htarget => .inr htarget
      · exact .inl (.inl hwaits)
    · exact .inr fun target htarget => .inl (hclosed target htarget)

/-- A search that was settled has in the end a node at which it stops, or only marked successors of
marked nodes. -/
theorem stops_or_closed (turn : Turn) (mark : α) (adjacency : Adjacency) (stop : String → Bool)
    (marks : Marks α) (waiting : List String) (hwaiting : ∀ node ∈ waiting, marks.has node = true)
    (h : Settled adjacency marks waiting) :
    (∃ node, stop node = true ∧
        (search turn mark adjacency stop marks waiting).has node = true) ∨
      ∀ node target, (search turn mark adjacency stop marks waiting).has node = true →
        adjacency.HasLink node target →
        (search turn mark adjacency stop marks waiting).has target = true := by
  fun_induction search turn mark adjacency stop marks waiting with
  | case1 marks =>
    refine .inr fun node target hnode htarget => ?_
    rcases h node hnode with hwaits | hclosed
    · cases hwaits
    · exact hclosed target htarget
  | case2 marks first waiting hstop =>
    exact .inl ⟨first, hstop, hwaiting first List.mem_cons_self⟩
  | case3 marks first waiting hstop next ih =>
    refine ih (fun node hnode => ?_) (h.markAll turn mark)
    rcases (mem_markAll_waiting ..).1 hnode with hnode | ⟨htarget, -⟩
    · exact (has_markAll_iff ..).2 (.inl (hwaiting node (List.mem_cons_of_mem _ hnode)))
    · exact (has_markAll_iff ..).2 (.inr htarget)

/-- If all successors of marked nodes are marked, then so is every node that a path leads to from a
marked one. -/
theorem has_of_path {adjacency : Adjacency} {marks : Marks α}
    (hclosed : ∀ node target, marks.has node = true → adjacency.HasLink node target →
      marks.has target = true)
    {first node : String} (hfirst : marks.has first = true)
    (hpath : adjacency.Path first node) : marks.has node = true := by
  induction hpath with
  | refl => exact hfirst
  | tail _ hlink ih => exact hclosed _ _ ih hlink

/-- A search that does not stop early marks the nodes to which paths lead from those that wait. -/
theorem has_search_iff (turn : Turn) (mark : α) (adjacency : Adjacency) (marks : Marks α)
    (waiting : List String) (hwaiting : ∀ node ∈ waiting, marks.has node = true)
    (h : Settled adjacency marks waiting) (node : String) :
    (search turn mark adjacency (fun _ => false) marks waiting).has node = true ↔
      marks.has node = true ∨ ∃ first ∈ waiting, adjacency.Path first node := by
  refine ⟨exists_path_of_has_search turn mark adjacency _ marks waiting node, ?_⟩
  rintro (hmarked | ⟨first, hfirst, hpath⟩)
  · exact has_search_of_has turn mark adjacency _ waiting hmarked
  · have hclosed := (stops_or_closed turn mark adjacency (fun _ => false) marks waiting hwaiting
      h).resolve_left (by simp)
    exact has_of_path hclosed
      (has_search_of_has turn mark adjacency _ waiting (hwaiting first hfirst)) hpath

end Search

/-! ## The searches over the control edges of a graph -/

/-- A single node that is marked and waits is settled. -/
theorem settled_single (adjacency : Adjacency) (start : String) :
    Settled adjacency [(start, ())] [start] := by
  intro node hnode
  rw [Marks.has_cons] at hnode
  exact .inl (List.mem_singleton.2 (hnode.resolve_right (by simp [Marks.has])))

/-- A search finds only nodes that paths lead to, even if it stops early. -/
theorem path_of_mem_breadthFirst {adjacency : Adjacency} {stop : String → Bool}
    {start node : String} (h : node ∈ breadthFirst adjacency stop start) :
    adjacency.Path start node := by
  rw [breadthFirst, Marks.mem_keys_iff] at h
  rcases exists_path_of_has_search _ _ _ _ _ _ _ h with h | ⟨first, hfirst, hpath⟩
  · rw [Marks.has_cons] at h
    obtain rfl := h.resolve_right (by simp [Marks.has])
    exact .refl
  · obtain rfl := List.mem_singleton.1 hfirst
    exact hpath

/-- A search finds every node that a path leads to, unless it finds one at which it stops. -/
theorem mem_breadthFirst_of_path {adjacency : Adjacency} {stop : String → Bool}
    {start node : String} (hpath : adjacency.Path start node) :
    node ∈ breadthFirst adjacency stop start ∨
      ∃ found ∈ breadthFirst adjacency stop start, stop found = true := by
  have hstart : ∀ first ∈ [start], Marks.has [(start, ())] first = true := by simp [Marks.has]
  simp only [breadthFirst, Marks.mem_keys_iff]
  rcases stops_or_closed .oldest () adjacency stop [(start, ())] [start] hstart
    (settled_single adjacency start) with ⟨found, hstop, hfound⟩ | hclosed
  · exact .inr ⟨found, hfound, hstop⟩
  · exact .inl (has_of_path hclosed
      (has_search_of_has _ _ _ _ _ (hstart start List.mem_cons_self)) hpath)

/-- A breadth-first search that stops nowhere but at one node finds that node if and only if a path
leads to it. -/
theorem mem_breadthFirst_iff (adjacency : Adjacency) {stop : String → Bool} {goal : String}
    (hstop : ∀ node, stop node = true → node = goal) (start : String) :
    goal ∈ breadthFirst adjacency stop start ↔ adjacency.Path start goal := by
  refine ⟨path_of_mem_breadthFirst, fun hpath => ?_⟩
  have hfound : goal ∈ breadthFirst adjacency stop start ∨ _ := mem_breadthFirst_of_path hpath
  rcases hfound with h | ⟨found, hfound, hfoundStop⟩
  · exact h
  · exact hstop found hfoundStop ▸ hfound

/-- A search finds no node twice. -/
theorem nodup_breadthFirst (adjacency : Adjacency) (stop : String → Bool) (start : String) :
    (breadthFirst adjacency stop start).Nodup :=
  nodup_search _ _ _ _ (by simp) _

/-- The paths in the adjacency of edges are those along the control edges. -/
theorem path_ofEdges (edges : List Edge) :
    (Adjacency.ofEdges edges).Path = Reaches edges := by
  have hlinks : (Adjacency.ofEdges edges).HasLink = Flows edges := by
    funext a b
    exact propext (Adjacency.hasLink_ofEdges edges a b)
  rw [Adjacency.Path, hlinks]

/-- A node is reachable from another just if a path of control edges leads to it. -/
theorem mem_reachableFrom_iff (edges : List Edge) (start node : String) :
    node ∈ reachableFrom edges start ↔ Reaches edges start node := by
  unfold reachableFrom
  rw [← path_ofEdges]
  exact mem_breadthFirst_iff _ (by simp) start

/-- An edge is of no help on the way back from its target to its source. -/
theorem reaches_back_concat_iff (edges : List Edge) (candidate : Edge) :
    Reaches (edges ++ [candidate]) candidate.target.nodeId candidate.source.nodeId ↔
      Reaches edges candidate.target.nodeId candidate.source.nodeId := by
  rw [reaches_concat_iff]
  constructor
  · rintro (hpath | ⟨-, hpath, -⟩)
    · exact hpath
    · exact hpath
  · exact .inl

/-- An edge would close a loop if and only if it is a control edge and a path of the edges that are
there leads from its target back to its source. -/
theorem wouldCloseLoop_iff (edges : List Edge) (candidate : Edge) :
    wouldCloseLoop edges candidate = true ↔
      candidate.kind = .control ∧
        Reaches edges candidate.target.nodeId candidate.source.nodeId := by
  unfold wouldCloseLoop
  simp only [Bool.and_eq_true, beq_iff_eq, List.contains_iff_mem]
  refine and_congr_right fun _ => ?_
  rw [mem_breadthFirst_iff _ (by simp), path_ofEdges, reaches_back_concat_iff]

/-- The searches over the control edges are exact. From a node exactly those nodes are found, each
once, to which paths of control edges lead. An edge would close a loop if and only if it is a
control edge and a path of the edges that are there leads from its target back to its source;
whether the search stops at the source, and whether the edge itself is there, does not change the
answer. -/
theorem searches_follow_paths (edges : List Edge) :
    (∀ start, (reachableFrom edges start).Nodup ∧
      ∀ node, node ∈ reachableFrom edges start ↔ Reaches edges start node) ∧
    ∀ candidate : Edge,
      (wouldCloseLoop edges candidate = true ↔ candidate.kind = .control ∧
        Reaches edges candidate.target.nodeId candidate.source.nodeId) ∧
      ∀ stops isThere : Bool, wouldCloseLoop edges candidate = (candidate.kind == .control &&
        (breadthFirst (.ofEdges (if isThere then edges ++ [candidate] else edges))
          (fun node => stops && node == candidate.source.nodeId)
          candidate.target.nodeId).contains candidate.source.nodeId) := by
  refine ⟨fun start => ⟨nodup_breadthFirst _ _ _, mem_reachableFrom_iff edges start⟩, ?_⟩
  intro candidate
  refine ⟨wouldCloseLoop_iff edges candidate, fun stops isThere => ?_⟩
  have hstop : ∀ node, (stops && node == candidate.source.nodeId) = true →
      node = candidate.source.nodeId := by
    simp
  have hreaches : Reaches (if isThere then edges ++ [candidate] else edges)
      candidate.target.nodeId candidate.source.nodeId ↔
        Reaches edges candidate.target.nodeId candidate.source.nodeId := by
    cases isThere with
    | true => exact reaches_back_concat_iff edges candidate
    | false => exact Iff.rfl
  rw [Bool.eq_iff_iff, wouldCloseLoop_iff, Bool.and_eq_true, beq_iff_eq, List.contains_iff_mem,
    mem_breadthFirst_iff _ hstop, path_ofEdges, hreaches]

end ControlFlow

end AbilityGraph
