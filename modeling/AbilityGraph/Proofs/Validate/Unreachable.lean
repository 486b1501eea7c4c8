import AbilityGraph.Proofs.Validate.WellFormed

/-!
# Nodes that are reported as unreachable

Of all passes only the one that looks at the flow reports a node as unreachable. It reports those
with control pins that no path of control edges leads to from the first start, whatever outputs the
edges leave from.
-/

set_option autoImplicit false

namespace AbilityGraph

open ControlFlow (Reaches mem_reachableFrom_iff)

/-- Whether a node is among those that issues report as unreachable. -/
def reportsUnreachable (issues : List Issue) (nodeId : String) : Bool :=
  issues.any fun issue => issue.code == .unreachableNode && issue.place == some (.node nodeId)

/-- A node is reported as unreachable just if this was found of a node with its id. -/
theorem reportsUnreachable_iff (found : List Finding) (nodeId : String) :
    reportsUnreachable ((if found.isEmpty then [.ok] else found).map Finding.report) nodeId = true ↔
      ∃ node, .unreachableNode node ∈ found ∧ node.id = nodeId := by
  have hreport : ∀ finding : Finding, (finding.report.code == .unreachableNode &&
      finding.report.place == some (.node nodeId)) = true ↔
        ∃ node, finding = .unreachableNode node ∧ node.id = nodeId := by
    intro finding
    cases finding <;> simp [Finding.report, Finding.code, Finding.place]
  have hmem : ∀ node, .unreachableNode node ∈ (if found.isEmpty then [.ok] else found) ↔
      .unreachableNode node ∈ found := by
    intro node
    cases found <;> simp
  unfold reportsUnreachable
  rw [List.any_map, List.any_eq_true]
  constructor
  · rintro ⟨finding, hfinding, hcode⟩
    obtain ⟨node, rfl, hid⟩ := (hreport finding).1 hcode
    exact ⟨node, (hmem node).1 hfinding, hid⟩
  · rintro ⟨node, hnode, hid⟩
    exact ⟨_, (hmem node).2 hnode, (hreport _).2 ⟨node, rfl, hid⟩⟩

namespace Graph

/-- The check of a node by itself does not find it unreachable. -/
theorem unreachableNode_not_mem_nodeFindings (catalog : Catalog) (graph : Graph)
    (node other : Node) :
    Finding.unreachableNode node ∉ nodeFindings catalog graph other := by
  unfold nodeFindings
  cases catalog.lookup? other.nodeType with
  | none => simp
  | some definition =>
    have hconfig : Finding.unreachableNode node ∉ configFindings definition other := by
      intro h
      obtain ⟨entry, -, hentry⟩ := List.mem_filterMap.1 h
      unfold configFinding? at hentry
      split at hentry
      · cases hentry
      · split at hentry
        · cases hentry
        · obtain ⟨fault, -, hfault⟩ := Option.map_eq_some_iff.1 hentry
          cases hfault
    simp [hconfig, requiredPinFindings]

/-- That a node is unreachable is found by following the flow, and by no other check. -/
theorem unreachableNode_mem_foundIn_iff {catalog : Catalog} {graph : Graph} {node : Node} :
    .unreachableNode node ∈ foundIn catalog graph ↔
      .unreachableNode node ∈ flowFindings catalog graph (graph.pinTable catalog) := by
  have hnodes : Finding.unreachableNode node ∉
      graph.nodes.flatMap (nodeFindings catalog graph) := by
    intro h
    obtain ⟨other, -, hother⟩ := List.mem_flatMap.1 h
    exact unreachableNode_not_mem_nodeFindings catalog graph node other hother
  have hedges : Finding.unreachableNode node ∉
      graph.edges.flatMap (graph.edgeFindings (graph.pinTable catalog)) := by
    intro h
    obtain ⟨edge, -, hedge⟩ := List.mem_flatMap.1 h
    cases severity_of_mem_edgeFindings hedge
  have hcapacity : Finding.unreachableNode node ∉
      graph.capacityFindings (graph.pinTable catalog) := by
    intro h
    cases severity_of_mem_capacityFindings h
  unfold foundIn
  simp only [List.mem_append, hnodes, hedges, hcapacity, List.mem_map, reduceCtorEq, and_false,
    exists_false, false_or, or_false]

/-- The nodes found unreachable are those with control pins that are no start and to which no path
leads from the first start. -/
theorem unreachableNode_mem_flowFindings_iff {catalog : Catalog} {graph : Graph} {start : Node}
    {others : List Node} (hstarts : startNodes catalog graph = start :: others) (table : PinTable)
    (node : Node) :
    .unreachableNode node ∈ flowFindings catalog graph table ↔ node ∈ graph.nodes ∧
      catalog.isStart node.nodeType = false ∧ ¬Reaches graph.edges start.id node.id ∧
        ((table.lookup node.id).getD []).any (·.kind == .control) = true := by
  have hstart : Finding.unreachableNode node ∉ startFindings catalog graph start := by
    unfold startFindings
    dsimp only
    split <;> simp
  unfold flowFindings unreachableFindings
  rw [hstarts]
  simp only [List.mem_append, List.mem_map, reduceCtorEq, and_false, exists_false, hstart, false_or,
    Finding.unreachableNode.injEq, exists_eq_right, List.mem_filter, Bool.and_eq_true,
    Bool.not_eq_true', List.contains_eq_mem, decide_eq_false_iff_not, mem_reachableFrom_iff]
  simp only [and_assoc]

end Graph

end AbilityGraph
