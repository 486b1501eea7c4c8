import AbilityGraph.Edit
import AbilityGraph.Proofs.Connect

/-!
# What edits keep

Connections, changes of configs, new nodes and removed edges keep a graph in which every edge joins
pins as it should, no input has too many edges and no control edge lies on a loop (`Sound`). Each of
these changes only prunes edges, only replaces nodes, or adds one edge that was checked, and each of
the three is shown to keep the invariant once.
-/

set_option autoImplicit false

namespace AbilityGraph

open Relation (ReflTransGen)
open ControlFlow (Reaches OnLoop loopEdges_eq_filter)

namespace Graph

variable {catalog : Catalog} {graph : Graph}

/-- The edges of a graph are as they should be, and no node id is used twice. -/
structure Sound (catalog : Catalog) (graph : Graph) : Prop where
  nodup : (graph.nodes.map (·.id)).Nodup
  joins : ∀ e ∈ graph.edges, ∃ source target, graph.Resolves catalog e.source source ∧
    graph.Resolves catalog e.target target ∧ JoinsWell e source target
  capacity : ∀ ref pin, graph.Resolves catalog ref pin → graph.WithinCapacity ref.nodeId pin
  acyclic : ∀ e ∈ graph.edges, ¬ OnLoop graph.edges e

/-! ## The three kinds of changes -/

/-- With fewer edges, no more of them arrive at a pin. -/
theorem inboundCount_le_of_sublist {edges : List Edge} (hsub : edges.Sublist graph.edges)
    (nodeId : String) (pin : Pin) :
    ({ graph with edges := edges } : Graph).inboundCount nodeId pin ≤
      graph.inboundCount nodeId pin := by
  unfold inboundCount edgesInto
  exact ((hsub.filter _).filter _).length_le

/-- Pruning edges keeps a graph sound. -/
theorem Sound.prune (h : Sound catalog graph) {edges : List Edge}
    (hsub : edges.Sublist graph.edges) : Sound catalog { graph with edges := edges } where
  nodup := h.nodup
  joins e he := h.joins e (hsub.subset he)
  capacity ref pin hpin hinput limit hlimit :=
    Nat.le_trans (inboundCount_le_of_sublist hsub ref.nodeId pin)
      (h.capacity ref pin hpin hinput limit hlimit)
  acyclic e he hloop :=
    h.acyclic e (hsub.subset he) ⟨hloop.1, hloop.2.mono hsub.subset⟩

/-- Replacing nodes keeps a graph sound if all pins at edges stay the same. A pin that was not there
before then has no edges. -/
theorem Sound.replaceNodes (h : Sound catalog graph) {nodes : List Node}
    (hnodup : (nodes.map (·.id)).Nodup)
    (hkeep : ∀ e ∈ graph.edges, ∀ ref, ref = e.source ∨ ref = e.target → ∀ pin,
      graph.Resolves catalog ref pin →
        ({ graph with nodes := nodes } : Graph).Resolves catalog ref pin) :
    Sound catalog { graph with nodes := nodes } where
  nodup := hnodup
  joins e he := by
    obtain ⟨source, target, hsource, htarget, hjoins⟩ := h.joins e he
    exact ⟨source, target, hkeep e he _ (.inl rfl) source hsource,
      hkeep e he _ (.inr rfl) target htarget, hjoins⟩
  capacity ref pin hpin hinput limit hlimit := by
    have hcount : ({ graph with nodes := nodes } : Graph).inboundCount ref.nodeId pin =
        graph.inboundCount ref.nodeId pin := rfl
    rw [hcount]
    by_cases hedge : ∃ e ∈ graph.edges, e.target = ref
    · obtain ⟨e, he, rfl⟩ := hedge
      obtain ⟨-, target, -, htarget, -⟩ := h.joins e he
      obtain rfl := (hkeep e he _ (.inr rfl) target htarget).unique hpin
      exact h.capacity _ target htarget hinput limit hlimit
    · have hnone : graph.edgesInto ⟨ref.nodeId, pin.id⟩ = [] := by
        unfold edgesInto
        rw [List.filter_eq_nil_iff]
        intro e he htarget
        refine hedge ⟨e, he, ?_⟩
        rw [hpin.id_eq] at htarget
        exact eq_of_beq htarget
      rw [inboundCount, hnone]
      exact Nat.zero_le limit
  acyclic := h.acyclic

/-- An accepted connection keeps a graph sound. -/
theorem Sound.addEdge (h : Sound catalog graph) {source target : PinRef}
    {sourcePin targetPin : Pin} (hallowed : Allowed catalog graph source target sourcePin targetPin)
    (stamp : EdgeStamp) :
    Sound catalog (graph.addEdge (joiningEdge stamp source target sourcePin targetPin)) where
  nodup := h.nodup
  joins e he := by
    rcases List.mem_append.1 he with he | he
    · exact h.joins e he
    · rw [List.mem_singleton.1 he]
      exact ⟨sourcePin, targetPin, hallowed.sourceFound, hallowed.targetFound,
        hallowed.joinsWell stamp⟩
  capacity ref pin hpin := by
    have hpin : graph.Resolves catalog ref pin := hpin
    by_cases hhit : target = ref
    · subst hhit
      obtain rfl := hallowed.targetFound.unique hpin
      exact hallowed.withinCapacity stamp
    · have hcount : (graph.addEdge
          (joiningEdge stamp source target sourcePin targetPin)).inboundCount ref.nodeId pin =
          graph.inboundCount ref.nodeId pin := by
        rw [inboundCount_addEdge, if_neg ?_, Nat.add_zero]
        rintro ⟨htarget, -⟩
        rw [hpin.id_eq] at htarget
        exact hhit htarget
      intro hinput limit hlimit
      rw [hcount]
      exact h.capacity ref pin hpin hinput limit hlimit
  acyclic e he := by
    rcases List.mem_append.1 he with he | he
    · rw [Graph.addEdge, onLoop_concat_iff hallowed.loop he]
      exact h.acyclic e he
    · rw [List.mem_singleton.1 he]
      exact not_onLoop_concat_self hallowed.loop

/-! ## New nodes and configs -/

/-- Adding a node with a new id keeps the edges of a graph as they should be. -/
theorem Sound.addNode (h : Sound catalog graph) {node : Node}
    (hnew : node.id ∉ graph.nodes.map (·.id)) : Sound catalog (graph.addNode node) := by
  apply h.replaceNodes
  · rw [List.map_append, List.nodup_append]
    refine ⟨h.nodup, by simp, fun id hid other hother heq => hnew ?_⟩
    rw [List.map_singleton, List.mem_singleton] at hother
    rw [← hother, ← heq]
    exact hid
  · rintro e he ref - pin ⟨found, pins, hfound, hpins, hpin⟩
    refine ⟨found, pins, ?_, hpins, hpin⟩
    unfold node? at hfound ⊢
    rw [List.find?_append, hfound]
    rfl

/-- Changing a config changes no id. -/
theorem map_id_setConfig (nodeId : String) (config : Config) (nodes : List Node) :
    (setConfig nodeId config nodes).map (·.id) = nodes.map (·.id) := by
  induction nodes with
  | nil => rfl
  | cons node rest ih =>
    unfold setConfig
    split
    · rfl
    · rw [List.map_cons, List.map_cons, ih]

/-- A new config changes the first node with its id and no other. -/
theorem find?_setConfig (nodeId : String) (config : Config) (nodes : List Node) (id : String) :
    (setConfig nodeId config nodes).find? (·.id == id) =
      if id = nodeId then (nodes.find? (·.id == id)).map ({ · with config := config })
      else nodes.find? (·.id == id) := by
  induction nodes with
  | nil => simp [setConfig]
  | cons node rest ih =>
    unfold setConfig
    by_cases hnode : node.id = nodeId
    · by_cases hid : id = nodeId
      · simp [hnode, hid]
      · have hne : ¬ nodeId = id := fun heq => hid heq.symm
        simp [hnode, hid, hne]
    · rw [if_neg hnode, List.find?_cons, List.find?_cons]
      cases hfirst : node.id == id with
      | false => exact ih
      | true =>
        have hid : ¬ id = nodeId := fun heq => hnode ((eq_of_beq hfirst).trans heq)
        rw [if_neg hid]

/-- If an edge is not at a removed pin of the changed node, and its pin was there before, then a pin
with this id is still there. -/
theorem isRemovedPin_eq_false {nodeId : String} {oldPins newPins : List Pin} {ref : PinRef}
    (h : isRemovedPin nodeId oldPins newPins ref = false) (hnode : ref.nodeId = nodeId)
    {pin : Pin} (hpin : Pin.find? oldPins ref.pinId = some pin) :
    newPins.any (·.id == ref.pinId) = true := by
  have hold : oldPins.any (·.id == ref.pinId) = true := by
    obtain ⟨hmem, hid⟩ := Pin.mem_of_find? hpin
    rw [List.any_eq_true]
    exact ⟨pin, hmem, by simpa using hid⟩
  unfold isRemovedPin at h
  rw [hnode, beq_self_eq_true, hold, Bool.true_and, Bool.true_and, Bool.not_eq_false'] at h
  exact h

/-- A pin that a node does not lose by a new config is the same pin as before. -/
theorem Resolves.setConfig {nodeId : String} {config : Config} {node : Node}
    {definition : Definition} {oldPins newPins : List Pin}
    (hnode : graph.node? nodeId = some node)
    (hdefinition : catalog.lookup? node.nodeType = some definition)
    (hold : definition.materialize node.config = .ok oldPins)
    (hnew : definition.materialize config = .ok newPins) {ref : PinRef} {pin : Pin}
    (h : graph.Resolves catalog ref pin)
    (hstays : isRemovedPin nodeId oldPins newPins ref = false) :
    ({ graph with nodes := Graph.setConfig nodeId config graph.nodes } : Graph).Resolves catalog
      ref pin := by
  obtain ⟨found, pins, hfound, hpins, hpin⟩ := h
  have hfind := find?_setConfig nodeId config graph.nodes ref.nodeId
  by_cases hid : ref.nodeId = nodeId
  · rw [hid, hnode] at hfound
    cases hfound
    have hsame : catalog.pinsOf? node = some oldPins :=
      Catalog.pinsOf?_eq_some_iff.2 ⟨definition, hdefinition, hold⟩
    rw [hsame] at hpins
    cases hpins
    have hafter : catalog.pinsOf? { node with config := config } = some newPins :=
      Catalog.pinsOf?_eq_some_iff.2 ⟨definition, hdefinition, hnew⟩
    have hnew := Definition.find?_of_materialize hold hnew hpin
      (isRemovedPin_eq_false hstays hid hpin)
    refine ⟨{ node with config := config }, newPins, ?_, hafter, hnew⟩
    have hbefore : graph.nodes.find? (·.id == ref.nodeId) = some node := hid ▸ hnode
    rw [if_pos hid, hbefore] at hfind
    exact hfind
  · rw [if_neg hid] at hfind
    exact ⟨found, pins, hfind.trans hfound, hpins, hpin⟩

/-- A new config for a node of a known type prunes the edges at the pins that it loses, and any
other changes nothing. -/
theorem applyConfig_eq_ok {nodeId : String} {config : Config} {next : Graph}
    (h : graph.applyConfig catalog nodeId config = .ok next) :
    (next = graph ∧ ∀ node, graph.node? nodeId = some node →
      catalog.lookup? node.nodeType = none) ∨
    ∃ node definition oldPins newPins, graph.node? nodeId = some node ∧
      catalog.lookup? node.nodeType = some definition ∧
      definition.materialize node.config = .ok oldPins ∧
      definition.materialize config = .ok newPins ∧
      next = { graph with
        nodes := setConfig nodeId config graph.nodes
        edges := reconcile nodeId oldPins newPins graph.edges } := by
  unfold Graph.applyConfig at h
  cases hnode : graph.node? nodeId with
  | none =>
    rw [hnode] at h
    cases h
    exact .inl ⟨rfl, by simp⟩
  | some node =>
    rw [hnode] at h
    dsimp only at h
    cases hdefinition : catalog.lookup? node.nodeType with
    | none =>
      rw [hdefinition] at h
      cases h
      exact .inl ⟨rfl, by simp [hdefinition]⟩
    | some definition =>
      rw [hdefinition] at h
      obtain ⟨oldPins, hold, h⟩ := bind_eq_ok_iff.1 h
      obtain ⟨newPins, hnew, h⟩ := bind_eq_ok_iff.1 h
      cases h
      exact .inr ⟨node, definition, oldPins, newPins, rfl, hdefinition, hold, hnew, rfl⟩

/-- A change of a config keeps a graph sound: the edges at vanished pins go, and all others stay at
the same pins. -/
theorem Sound.applyConfig (h : Sound catalog graph) {nodeId : String} {config : Config}
    {next : Graph} (happly : graph.applyConfig catalog nodeId config = .ok next) :
    Sound catalog next := by
  rcases applyConfig_eq_ok happly with ⟨rfl, -⟩ |
    ⟨node, definition, oldPins, newPins, hnode, hdefinition, hold, hnew, rfl⟩
  · exact h
  · have hsub : (reconcile nodeId oldPins newPins graph.edges).Sublist graph.edges :=
      List.filter_sublist
    apply (h.prune hsub).replaceNodes
    · rw [map_id_setConfig]
      exact h.nodup
    · intro e he ref href pin hpin
      obtain ⟨-, hstays⟩ := List.mem_filter.1 he
      rw [Bool.and_eq_true, Bool.not_eq_true', Bool.not_eq_true'] at hstays
      have hends : isRemovedPin nodeId oldPins newPins ref = false := by
        rcases href with rfl | rfl
        · exact hstays.1
        · exact hstays.2
      exact Resolves.setConfig hnode hdefinition hold hnew hpin hends

/-! ## Runs -/

/-- A change that an editor makes, unless it is refused: joining pins, a new config, a node with an
id that is not in use, and removing edges. -/
inductive Change (catalog : Catalog) (graph : Graph) : Graph → Prop
  | connect (stamp : EdgeStamp) (source target : PinRef) :
      Change catalog graph (Edit.run catalog graph [.connect stamp source target])
  | setConfig (nodeId : String) (config : Config) :
      Change catalog graph (Edit.run catalog graph [.setConfig nodeId config])
  | addNode (node : Node) (hnew : node.id ∉ graph.nodes.map (·.id)) :
      Change catalog graph (graph.addNode node)
  | removeEdges (edges : List Edge) (hsub : edges.Sublist graph.edges) :
      Change catalog graph { graph with edges := edges }

/-- Every change keeps the edges of a graph as they should be. -/
theorem Sound.change (h : Sound catalog graph) {next : Graph}
    (hchange : Change catalog graph next) : Sound catalog next := by
  cases hchange with
  | connect stamp source target =>
    simp only [Edit.run, Edit.apply, List.foldl_cons, List.foldl_nil]
    split
    next next hconnect =>
      obtain ⟨sourcePin, targetPin, hallowed, rfl⟩ := connect_eq_ok hconnect
      exact h.addEdge hallowed stamp
    next => exact h
  | setConfig nodeId config =>
    simp only [Edit.run, Edit.apply, List.foldl_cons, List.foldl_nil]
    cases happly : graph.applyConfig catalog nodeId config with
    | error fault => exact h
    | ok next => exact h.applyConfig happly
  | addNode node hnew => exact h.addNode hnew
  | removeEdges edges hsub => exact h.prune hsub

/-- However many changes follow one another, the edges stay as they should be. -/
theorem Sound.run (h : Sound catalog graph) {later : Graph}
    (hrun : ReflTransGen (Change catalog) graph later) : Sound catalog later := by
  induction hrun with
  | refl => exact h
  | tail _ hchange ih => exact ih.change hchange

/-- A graph without edges whose node ids differ has nothing wrong with its edges. -/
theorem sound_of_no_edges (hnodup : (graph.nodes.map (·.id)).Nodup) (hedges : graph.edges = []) :
    Sound catalog graph where
  nodup := hnodup
  joins e he := by
    rw [hedges] at he
    cases he
  capacity ref pin _ _ limit _ := by
    unfold inboundCount edgesInto
    rw [hedges]
    exact Nat.zero_le limit
  acyclic e he := by
    rw [hedges] at he
    cases he

/-! ## Issues -/

/-- What is found at a node by itself is not about edges. -/
theorem code_of_mem_nodeFindings {node : Node} {finding : Finding}
    (h : finding ∈ nodeFindings catalog graph node) :
    finding.code ∈ [.unknownNode, .unknownConfigField, .invalidConfig, .requiredPin] := by
  unfold nodeFindings at h
  split at h
  · rw [List.mem_singleton.1 h]
    simp [Finding.code]
  next definition hdefinition =>
    rcases List.mem_append.1 h with h | h
    · obtain ⟨entry, -, hentry⟩ := List.mem_filterMap.1 h
      unfold configFinding? at hentry
      split at hentry
      · cases hentry
        simp [Finding.code]
      · split at hentry
        · cases hentry
        · obtain ⟨fault, -, rfl⟩ := Option.map_eq_some_iff.1 hentry
          simp [Finding.code]
    · obtain ⟨pin, -, rfl⟩ := List.mem_map.1 h
      simp [Finding.code]

/-- What is found about the start and the flow from it is not about edges that are there. -/
theorem code_of_mem_flowFindings {table : PinTable} {finding : Finding}
    (h : finding ∈ flowFindings catalog graph table) :
    finding.code ∈ [.missingStart, .multipleStart, .startUnconnected, .unreachableNode] := by
  unfold flowFindings at h
  split at h
  · rw [List.mem_singleton.1 h]
    simp [Finding.code]
  · rw [List.mem_append, List.mem_append] at h
    rcases h with (h | h) | h
    · obtain ⟨node, -, rfl⟩ := List.mem_map.1 h
      simp [Finding.code]
    · unfold startFindings at h
      dsimp only at h
      split at h
      · cases h
      · rw [List.mem_singleton.1 h]
        simp [Finding.code]
    · obtain ⟨node, -, rfl⟩ := List.mem_map.1 h
      simp [Finding.code]

/-- The codes of what may be wrong with edges, and with the edges at a pin taken together. -/
def edgeCodes : List IssueCode :=
  [.edgeNodeMissing, .edgePinMissing, .edgeDirection, .pinKindMismatch, .edgeKindIncorrect,
    .dataTypeMismatch, .targetOverCapacity, .controlCycle]

/-- Validation finds nothing wrong with the edges of a sound graph. -/
theorem Sound.code_not_mem (h : Sound catalog graph) {finding : Finding}
    (hfound : finding ∈ foundIn catalog graph) : finding.code ∉ edgeCodes := by
  have hedges : graph.edges.flatMap (graph.edgeFindings (graph.pinTable catalog)) = [] := by
    rw [List.flatMap_eq_nil_iff]
    intro e he
    obtain ⟨source, target, hsource, htarget, hjoins⟩ := h.joins e he
    rw [edgeFindings_of_resolves hsource htarget, joinFindings_eq_nil_iff]
    exact hjoins
  have hcapacity : graph.capacityFindings (graph.pinTable catalog) = [] := by
    apply capacityFindings_eq_nil
    intro node hnode pins hpins pin hpin
    exact h.capacity ⟨node.id, pin.id⟩ pin ⟨node, pins, node?_eq_some_of_mem h.nodup hnode, hpins,
      Pin.find?_eq_some_of_mem (Catalog.pinsOf?_nodup hpins) hpin⟩
  have hloops : ControlFlow.loopEdges graph.edges = [] := by
    classical
    rw [loopEdges_eq_filter, List.filter_eq_nil_iff]
    intro e he
    rw [decide_eq_true_iff]
    exact h.acyclic e he
  -- The three checks of edges find nothing, and no other check gives a code of theirs.
  unfold foundIn at hfound
  rw [hedges, hcapacity, hloops, List.map_nil, List.append_nil, List.append_nil,
    List.append_nil] at hfound
  simp only [List.mem_append] at hfound
  rcases hfound with ((hfound | hfound) | hfound) | hfound
  · obtain ⟨id, -, rfl⟩ := List.mem_map.1 hfound
    simp [Finding.code, edgeCodes]
  · obtain ⟨id, -, rfl⟩ := List.mem_map.1 hfound
    simp [Finding.code, edgeCodes]
  · obtain ⟨node, -, hfound⟩ := List.mem_flatMap.1 hfound
    have hcode := code_of_mem_nodeFindings hfound
    generalize finding.code = code at hcode ⊢
    revert code
    decide
  · have hcode := code_of_mem_flowFindings hfound
    generalize finding.code = code at hcode ⊢
    revert code
    decide

/-- Whatever an editor does to a graph without edges, whose nodes have different ids, validation
finds nothing wrong with an edge later: edges join pins that are there, from outputs to inputs, with
kinds and types that agree, no input has too many of them, and none lies on a loop. -/
theorem edges_valid_after_changes {start later : Graph} {issues : List Issue}
    (hedges : start.edges = []) (hnodup : (start.nodes.map (·.id)).Nodup)
    (hrun : ReflTransGen (Change catalog) start later)
    (hvalidate : later.validate catalog = .ok issues) :
    ∀ issue ∈ issues, issue.code ∉ edgeCodes := by
  have hsound := (sound_of_no_edges hnodup hedges).run hrun
  obtain ⟨-, rfl⟩ := (validate_eq_ok_iff catalog later issues).1 hvalidate
  intro issue hissue
  obtain ⟨finding, hfinding, rfl⟩ := List.mem_map.1 hissue
  split at hfinding
  · rw [List.mem_singleton.1 hfinding]
    simp [Finding.report, Finding.code, edgeCodes]
  · exact hsound.code_not_mem hfinding

/-- After the connection of the start node to the node that heals, no issue is about edges. -/
theorem edges_valid_after_joining :
    ∃ issues, joined.validate .builtin = .ok issues ∧
      ∀ issue ∈ issues, issue.code ∉ edgeCodes := by
  have hchange : Change .builtin unjoined joined := by
    have hconnect : Change .builtin unjoined (Edit.run .builtin unjoined
        [.connect ⟨"flow", none⟩ ⟨"start", "execOut"⟩ ⟨"heal", "execIn"⟩]) := .connect _ _ _
    simp only [Edit.run, Edit.apply, List.foldl_cons, List.foldl_nil, connect_unjoined] at hconnect
    exact hconnect
  have hvalidate := (validate_eq_ok_iff .builtin joined _).2 ⟨materializes_unjoined, rfl⟩
  exact ⟨_, hvalidate, edges_valid_after_changes rfl (by decide) (.single hchange) hvalidate⟩

end Graph

end AbilityGraph
