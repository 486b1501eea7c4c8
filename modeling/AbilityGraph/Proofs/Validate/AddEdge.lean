import AbilityGraph.Proofs.Connect
import Mathlib.Data.List.Flatten

/-!
# Issues after an accepted connection

The passes of validation are compared one by one before and after an accepted connection is added to
a graph, which may be at fault in any way. Each pass finds what it found before or less, in the same
order. So no issue is new and none is changed (`connect_issues_sublist`).
-/

set_option autoImplicit false

namespace AbilityGraph

open ControlFlow (Reaches OnLoop loopEdges_eq_filter mem_reachableFrom_iff)

namespace Graph

/-! ## Nodes -/

/-- An edge that was there is still there with a new one. -/
theorem any_filter_addEdge (graph : Graph) (edge : Edge) {p q : Edge → Bool}
    (h : (graph.edges.filter p).any q = true) :
    ((graph.addEdge edge).edges.filter p).any q = true := by
  unfold addEdge
  rw [List.filter_append, List.any_append, h, Bool.true_or]

/-- A pin that was connected stays connected. -/
theorem isConnected_addEdge {graph : Graph} {node : Node} {pin : Pin} (edge : Edge)
    (h : graph.isConnected node pin = true) :
    (graph.addEdge edge).isConnected node pin = true := by
  unfold isConnected at h ⊢
  cases hdirection : pin.direction with
  | input =>
    rw [hdirection] at h
    exact any_filter_addEdge graph edge h
  | output =>
    rw [hdirection] at h
    exact any_filter_addEdge graph edge h

/-- A new edge brings no findings at a node by itself; it may take away that a pin is not
connected. -/
theorem nodeFindings_addEdge_sublist (catalog : Catalog) (graph : Graph) (edge : Edge)
    (node : Node) :
    (nodeFindings catalog (graph.addEdge edge) node).Sublist (nodeFindings catalog graph node) := by
  unfold nodeFindings
  cases catalog.lookup? node.nodeType with
  | none => exact List.Sublist.refl _
  | some definition =>
    apply List.Sublist.append_left
    unfold requiredPinFindings
    apply List.Sublist.map
    apply List.monotone_filter_right
    intro pin hpin
    simp only [Bool.and_eq_true, Bool.not_eq_true'] at hpin ⊢
    refine ⟨hpin.1, ?_⟩
    cases hconnected : graph.isConnected node pin with
    | false => rfl
    | true =>
      rw [isConnected_addEdge edge hconnected] at hpin
      exact absurd hpin.2 (by simp)

/-! ## Capacity -/

/-- An accepted connection changes nothing about how many edges arrive at an input that has too
many: its target has room for it, and no other pin is touched. -/
theorem capacityFindings_addEdge {catalog : Catalog} {graph : Graph} {source target : PinRef}
    {sourcePin targetPin : Pin} (h : Allowed catalog graph source target sourcePin targetPin)
    (stamp : EdgeStamp) :
    (graph.addEdge (joiningEdge stamp source target sourcePin targetPin)).capacityFindings
        (graph.pinTable catalog) = graph.capacityFindings (graph.pinTable catalog) := by
  obtain ⟨targetNode, targetPins, htargetNode, htargetPins, htarget⟩ := h.targetFound
  unfold capacityFindings
  apply List.flatMap_congr
  intro node _
  apply List.filterMap_congr
  intro pin hpin
  by_cases hhit : target = ⟨node.id, pin.id⟩ ∧ sourcePin.kind = pin.kind
  · -- The pin with the target's id among those of its node is the target itself.
    obtain ⟨rfl, -⟩ := hhit
    have hlookup := lookup_pinTable htargetNode htargetPins
    rw [hlookup, Option.getD_some] at hpin
    have hsame := Pin.find?_eq_some_of_mem (Catalog.pinsOf?_nodup htargetPins) hpin
    rw [htarget] at hsame
    cases hsame
    have hbefore : graph.capacityFinding? node targetPin = none := by
      rw [capacityFinding?_eq_none_iff]
      intro _ limit hlimit
      exact Nat.le_of_lt (h.capacity limit hlimit)
    rw [hbefore, capacityFinding?_eq_none_iff]
    exact h.withinCapacity stamp
  · have hcount : (graph.addEdge (joiningEdge stamp source target sourcePin targetPin)).inboundCount
        node.id pin = graph.inboundCount node.id pin := by
      rw [inboundCount_addEdge, if_neg (by exact hhit), Nat.add_zero]
    unfold capacityFinding?
    rw [hcount]

/-! ## Start, reachability and loops -/

/-- A new edge brings no findings about the start. -/
theorem startFindings_addEdge_sublist (catalog : Catalog) (graph : Graph) (edge : Edge)
    (start : Node) :
    (startFindings catalog (graph.addEdge edge) start).Sublist
      (startFindings catalog graph start) := by
  unfold startFindings
  dsimp only
  cases startOutput? catalog start with
  | none => exact List.Sublist.refl _
  | some output =>
    rw [Option.any_some, Option.any_some]
    by_cases hconnected :
        (graph.edgesFrom ⟨start.id, output⟩).any (·.kind == .control) = true
    · have hafter : ((graph.addEdge edge).edgesFrom ⟨start.id, output⟩).any
          (·.kind == .control) = true := any_filter_addEdge graph edge hconnected
      rw [if_pos hafter]
      exact List.nil_sublist _
    · rw [if_neg hconnected]
      split
      · exact List.nil_sublist _
      · exact List.Sublist.refl _

/-- A new edge makes no node unreachable. -/
theorem unreachableFindings_addEdge_sublist (catalog : Catalog) (graph : Graph) (table : PinTable)
    (edge : Edge) (start : Node) :
    (unreachableFindings catalog (graph.addEdge edge) table start).Sublist
      (unreachableFindings catalog graph table start) := by
  unfold unreachableFindings
  apply List.Sublist.map
  apply List.monotone_filter_right
  intro node hnode
  simp only [Bool.and_eq_true, Bool.not_eq_true', List.contains_eq_mem, decide_eq_false_iff_not,
    mem_reachableFrom_iff] at hnode ⊢
  obtain ⟨⟨hstart, hreaches⟩, hcontrol⟩ := hnode
  exact ⟨⟨hstart, fun h => hreaches (h.mono (List.subset_append_left _ _))⟩, hcontrol⟩

/-- A new edge brings no findings about the start and the flow from it. -/
theorem flowFindings_addEdge_sublist (catalog : Catalog) (graph : Graph) (table : PinTable)
    (edge : Edge) :
    (flowFindings catalog (graph.addEdge edge) table).Sublist
      (flowFindings catalog graph table) := by
  unfold flowFindings
  have hstarts : startNodes catalog (graph.addEdge edge) = startNodes catalog graph := rfl
  rw [hstarts]
  cases startNodes catalog graph with
  | nil => exact List.Sublist.refl _
  | cons start others =>
    have hstart := startFindings_addEdge_sublist catalog graph edge start
    have hunreachable := unreachableFindings_addEdge_sublist catalog graph table edge start
    exact ((List.Sublist.refl _).append hstart).append hunreachable

/-- A new edge that closes no loop leaves the edges on loops as they were. -/
theorem loopEdges_addEdge {edges : List Edge} {edge : Edge}
    (hloop : edge.kind = .control → ¬ Reaches edges edge.target.nodeId edge.source.nodeId) :
    ControlFlow.loopEdges (edges ++ [edge]) = ControlFlow.loopEdges edges := by
  classical
  rw [loopEdges_eq_filter, loopEdges_eq_filter, List.filter_append]
  have hself : [edge].filter (fun e => decide (OnLoop (edges ++ [edge]) e)) = [] := by
    simp [not_onLoop_concat_self hloop]
  rw [hself, List.append_nil]
  apply List.filter_congr
  intro e he
  rw [decide_eq_decide]
  exact onLoop_concat_iff hloop he

/-! ## All passes -/

/-- An accepted connection with an id that is not in use takes findings away or leaves them. -/
theorem foundIn_addEdge_sublist {catalog : Catalog} {graph : Graph} {source target : PinRef}
    {sourcePin targetPin : Pin} (h : Allowed catalog graph source target sourcePin targetPin)
    {stamp : EdgeStamp} (hstamp : stamp.id ∉ graph.edges.map (·.id)) :
    (foundIn catalog
        (graph.addEdge (joiningEdge stamp source target sourcePin targetPin))).Sublist
      (foundIn catalog graph) := by
  have hcapacity := capacityFindings_addEdge h stamp
  have hedge : graph.edgeFindings (graph.pinTable catalog)
      (joiningEdge stamp source target sourcePin targetPin) = [] := by
    rw [edgeFindings_of_resolves h.sourceFound h.targetFound, joinFindings_eq_nil_iff]
    exact h.joinsWell stamp
  have hloop : (joiningEdge stamp source target sourcePin targetPin).kind = .control →
      ¬ Reaches graph.edges target.nodeId source.nodeId := h.loop
  generalize hnew : joiningEdge stamp source target sourcePin targetPin = edge
    at hcapacity hedge hloop ⊢
  have hids : repeats ((graph.edges ++ [edge]).map (·.id)) = repeats (graph.edges.map (·.id)) := by
    subst hnew
    rw [List.map_append]
    exact repeats_concat hstamp
  have hedges : (graph.edges ++ [edge]).flatMap
        ((graph.addEdge edge).edgeFindings (graph.pinTable catalog)) =
      graph.edges.flatMap (graph.edgeFindings (graph.pinTable catalog)) := by
    have hlast : (graph.addEdge edge).edgeFindings (graph.pinTable catalog) edge = [] := hedge
    rw [List.flatMap_append, List.flatMap_singleton, hlast, List.append_nil]
    rfl
  have hloops : ControlFlow.loopEdges (graph.edges ++ [edge]) =
      ControlFlow.loopEdges graph.edges := by
    subst hnew
    exact loopEdges_addEdge hloop
  have hnodes := List.Sublist.flatMap_right graph.nodes fun node _ =>
    nodeFindings_addEdge_sublist catalog graph edge node
  have hflow := flowFindings_addEdge_sublist catalog graph (graph.pinTable catalog) edge
  unfold foundIn
  show (_ ++ (repeats ((graph.edges ++ [edge]).map Edge.id)).map Finding.duplicateEdgeId ++ _
    ++ (graph.edges ++ [edge]).flatMap
      ((graph.addEdge edge).edgeFindings (graph.pinTable catalog))
    ++ (graph.addEdge edge).capacityFindings (graph.pinTable catalog)
    ++ flowFindings catalog (graph.addEdge edge) (graph.pinTable catalog)
    ++ (ControlFlow.loopEdges (graph.edges ++ [edge])).map _).Sublist _
  rw [hids, hedges, hcapacity, hloops]
  exact (((((List.Sublist.refl _).append hnodes).append_right _).append_right _).append
    hflow).append_right _

end Graph

/-- The issues that report something, without the one that says that a graph is valid. -/
def faults (issues : List Issue) : List Issue := issues.filter (·.code != .ok)

/-- What is reported without the issue that all is well does not depend on whether there is anything
else. -/
theorem faults_report (found : List Finding) :
    faults ((if found.isEmpty then [.ok] else found).map Finding.report) =
      faults (found.map Finding.report) := by
  cases found with
  | nil => rfl
  | cons first rest => rfl

/-- If a graph can be validated, then so it can after an accepted connection with an id that is not
in use, and what is reported then is what was reported before or less, in the same order. -/
theorem connect_issues_sublist {catalog : Catalog} {graph next : Graph} {stamp : EdgeStamp}
    {source target : PinRef} {issues : List Issue}
    (hconnect : connect catalog graph stamp source target = .ok next)
    (hstamp : stamp.id ∉ graph.edges.map (·.id))
    (hvalidate : graph.validate catalog = .ok issues) :
    ∃ later, next.validate catalog = .ok later ∧ (faults later).Sublist (faults issues) := by
  obtain ⟨sourcePin, targetPin, hallowed, rfl⟩ := connect_eq_ok hconnect
  obtain ⟨hall, rfl⟩ := (Graph.validate_eq_ok_iff catalog graph issues).1 hvalidate
  refine ⟨_, (Graph.validate_eq_ok_iff catalog _ _).2 ⟨hall, rfl⟩, ?_⟩
  rw [faults_report, faults_report]
  exact ((Graph.foundIn_addEdge_sublist hallowed hstamp).map _).filter _

/-- Where the two nodes are not joined there are two faults, and joining them can only take these
away. -/
theorem joined_issues_sublist :
    ∃ issues later, unjoined.validate .builtin = .ok issues ∧ joined.validate .builtin = .ok later ∧
      (faults later).Sublist (faults issues) := by
  have hvalidate := (Graph.validate_eq_ok_iff .builtin unjoined _).2 ⟨materializes_unjoined, rfl⟩
  have hjoined := connect_issues_sublist connect_unjoined List.not_mem_nil hvalidate
  obtain ⟨later, hlater, hsublist⟩ := hjoined
  exact ⟨_, later, hvalidate, hlater, hsublist⟩

end AbilityGraph
