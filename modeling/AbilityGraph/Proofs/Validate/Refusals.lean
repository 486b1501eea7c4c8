import AbilityGraph.Proofs.Catalog.Builtin
import AbilityGraph.Proofs.Connect

/-!
# Refusals that validation bears out

A connection that is refused is one that validation would report: if an edge is added in spite of
the refusal, then there is an error at it that corresponds to the reason (`refusal_has_error`). Only
the edges of a node to itself and edges that are there already are no errors as such.

Validation passes over an edge at a node of an unknown type. A pin that is missing because of that
is reported at the node.
-/

set_option autoImplicit false

namespace AbilityGraph

open ControlFlow (Reaches OnLoop wouldCloseLoop_iff mem_loopEdges_iff)

/-! ## Reasons -/

/-- What two pins that are there are not joined for, by the code of the refusal. -/
inductive Objection (graph : Graph) (source target : PinRef) (sourcePin targetPin : Pin) :
    RefusalCode → Prop
  | sourceNotOut (h : sourcePin.direction ≠ .output) :
      Objection graph source target sourcePin targetPin .sourceNotOut
  | targetNotIn (h : targetPin.direction ≠ .input) :
      Objection graph source target sourcePin targetPin .targetNotIn
  | selfEdge (h : source.nodeId = target.nodeId) :
      Objection graph source target sourcePin targetPin .selfEdge
  | kindMismatch (h : sourcePin.kind ≠ targetPin.kind) :
      Objection graph source target sourcePin targetPin .kindMismatch
  | dataTypeMismatch (hkind : sourcePin.kind = targetPin.kind) (hdata : sourcePin.kind = .data)
      (h : ¬DataType.compatible sourcePin.dataType targetPin.dataType = true) :
      Objection graph source target sourcePin targetPin .dataTypeMismatch
  | duplicate (e : Edge) (he : e ∈ graph.edges)
      (h : e.kind = sourcePin.kind ∧ e.source = source ∧ e.target = target) :
      Objection graph source target sourcePin targetPin .duplicate
  | targetAtMax (hkind : sourcePin.kind = targetPin.kind) (hinput : targetPin.direction = .input)
      (limit : Nat) (hlimit : targetPin.capacity = some limit)
      (h : limit ≤ graph.inboundCount target.nodeId targetPin) :
      Objection graph source target sourcePin targetPin .targetAtMax
  | controlCycle (hcontrol : sourcePin.kind = .control)
      (h : Reaches graph.edges target.nodeId source.nodeId) :
      Objection graph source target sourcePin targetPin .controlCycle

/-- What a connection is refused for. -/
inductive Refused (catalog : Catalog) (graph : Graph) (source target : PinRef) :
    RefusalCode → Prop
  | sourcePinMissing (h : ∀ pin, ¬graph.Resolves catalog source pin) :
      Refused catalog graph source target .sourcePinMissing
  | targetPinMissing (h : ∀ pin, ¬graph.Resolves catalog target pin) :
      Refused catalog graph source target .targetPinMissing
  | objection (code : RefusalCode) (sourcePin targetPin : Pin)
      (hsource : graph.Resolves catalog source sourcePin)
      (htarget : graph.Resolves catalog target targetPin)
      (h : Objection graph source target sourcePin targetPin code) :
      Refused catalog graph source target code

section Inversion

variable {catalog : Catalog} {graph : Graph} {source target : PinRef} {sourcePin targetPin : Pin}

/-- A pin that is not found is refused for just that: the reference resolves to no pin. -/
theorem requirePin_eq_refused {ref : PinRef} {missing refusal : Refusal}
    (h : catalog.requirePin graph ref missing = .error (.refused refusal)) :
    refusal = missing ∧ ∀ pin, ¬graph.Resolves catalog ref pin := by
  unfold Catalog.requirePin at h
  split at h
  · cases h
  next hnone =>
    cases h
    refine ⟨rfl, fun pin hpin => ?_⟩
    rw [Graph.resolvePin_eq_some_iff.2 hpin] at hnone
    cases hnone
  · cases h

/-- If there is a reason to refuse an edge between two pins, then it is an objection to joining
them. -/
theorem objection_of_refusal? {edge : Edge} {refusal : Refusal}
    (hid : targetPin.id = target.pinId)
    (hedge : edge.kind = sourcePin.kind ∧ edge.source = source ∧ edge.target = target)
    (h : refusal? graph source target sourcePin targetPin edge = some refusal) :
    Objection graph source target sourcePin targetPin refusal.code := by
  obtain ⟨hedgeKind, rfl, rfl⟩ := hedge
  unfold refusal? at h
  dsimp only at h
  split at h
  next houtput =>
    cases h
    exact .sourceNotOut houtput
  split at h
  next hinput =>
    cases h
    exact .targetNotIn hinput
  next hinput =>
    have hinput : targetPin.direction = .input := Decidable.not_not.1 hinput
    split at h
    next hself =>
      cases h
      exact .selfEdge hself
    split at h
    next hkinds =>
      cases h
      exact .kindMismatch hkinds
    next hkinds =>
      have hkinds : sourcePin.kind = targetPin.kind := Decidable.not_not.1 hkinds
      split at h
      next htypes =>
        cases h
        exact .dataTypeMismatch hkinds htypes.1 htypes.2
      split at h
      next hduplicate =>
        cases h
        obtain ⟨e, he, hsame⟩ := List.any_eq_true.1 hduplicate
        simp only [Bool.and_eq_true, beq_iff_eq] at hsame
        exact .duplicate e he ⟨hsame.1.1, hsame.1.2, hsame.2⟩
      split at h
      next limit hlimit =>
        cases h
        obtain ⟨hcapacity, hfull⟩ := Option.filter_eq_some_iff.1 hlimit
        refine .targetAtMax hkinds hinput limit hcapacity ?_
        simpa [Graph.inboundCount, hid, hkinds] using hfull
      split at h
      next hloop =>
        cases h
        obtain ⟨hcontrol, hreaches⟩ := (wouldCloseLoop_iff _ _).1 hloop
        exact .controlCycle (hedgeKind ▸ hcontrol) hreaches
      · cases h

/-- If a connection is refused, then it is for one of its ends that is missing, or for an objection
to joining its pins. -/
theorem refused_of_checkConnection {stamp : EdgeStamp} {refusal : Refusal}
    (h : checkConnection catalog graph stamp source target = .error (.refused refusal)) :
    Refused catalog graph source target refusal.code := by
  rcases checkConnection_eq_error h with hsource | htarget |
    ⟨sourcePin, targetPin, found, hsource, htarget, hrefusal, hfault⟩
  · obtain ⟨rfl, hmissing⟩ := requirePin_eq_refused hsource
    exact .sourcePinMissing hmissing
  · obtain ⟨rfl, hmissing⟩ := requirePin_eq_refused htarget
    exact .targetPinMissing hmissing
  · cases hfault
    have hsourceFound := requirePin_eq_ok hsource
    have htargetFound := requirePin_eq_ok htarget
    exact .objection _ sourcePin targetPin hsourceFound htargetFound
      (objection_of_refusal? htargetFound.id_eq ⟨rfl, rfl, rfl⟩ hrefusal)

end Inversion

/-! ## What validation finds -/

namespace Graph

section Members

variable {catalog : Catalog} {graph : Graph} {finding : Finding}

/-- What is wrong with a node by itself is found in the graph. -/
theorem mem_foundIn_of_node {node : Node} (hnode : node ∈ graph.nodes)
    (h : finding ∈ nodeFindings catalog graph node) : finding ∈ foundIn catalog graph := by
  have hmem : finding ∈ graph.nodes.flatMap (nodeFindings catalog graph) :=
    List.mem_flatMap.2 ⟨node, hnode, h⟩
  simp [foundIn, hmem]

/-- What is wrong with an edge is found in the graph. -/
theorem mem_foundIn_of_edge {edge : Edge} (hedge : edge ∈ graph.edges)
    (h : finding ∈ graph.edgeFindings (graph.pinTable catalog) edge) :
    finding ∈ foundIn catalog graph := by
  have hmem : finding ∈ graph.edges.flatMap (graph.edgeFindings (graph.pinTable catalog)) :=
    List.mem_flatMap.2 ⟨edge, hedge, h⟩
  simp [foundIn, hmem]

/-- What is wrong with the number of edges at a pin is found in the graph. -/
theorem mem_foundIn_of_capacity (h : finding ∈ graph.capacityFindings (graph.pinTable catalog)) :
    finding ∈ foundIn catalog graph := by
  simp [foundIn, h]

/-- That an edge is on a loop is found in the graph. -/
theorem mem_foundIn_of_loop {edge : Edge} (h : edge ∈ ControlFlow.loopEdges graph.edges) :
    .controlCycle edge ∈ foundIn catalog graph := by
  simp [foundIn, h]

end Members

/-- An edge of which an end is no pin is reported, or a node at one of its ends is. -/
theorem exists_finding_of_unresolved {catalog : Catalog} {graph : Graph} {edge : Edge}
    (hall : ∀ node ∈ graph.nodes, catalog.Materializes node) (hedge : edge ∈ graph.edges)
    (hmissing : ∀ source target, graph.Resolves catalog edge.source source →
      ¬graph.Resolves catalog edge.target target) :
    ∃ finding ∈ foundIn catalog graph, finding = .edgeNodeMissing edge ∨
      finding = .edgePinMissing edge ∨ ∃ node, finding = .unknownNode node ∧
        (node.id = edge.source.nodeId ∨ node.id = edge.target.nodeId) := by
  -- The pins of a node can be found unless its type is unknown, and that is an error of its own.
  have hpinsOf : ∀ id node, graph.node? id = some node →
      node.id = id ∧ (.unknownNode node ∈ foundIn catalog graph ∨
        ∃ pins, catalog.pinsOf? node = some pins) := by
    intro id node hnode
    have hmem : node ∈ graph.nodes := List.mem_of_find?_eq_some hnode
    refine ⟨by simpa using List.find?_some hnode, ?_⟩
    cases hlookup : catalog.lookup? node.nodeType with
    | none =>
      refine .inl (mem_foundIn_of_node hmem ?_)
      simp [nodeFindings, hlookup]
    | some definition =>
      obtain ⟨pins, hpins⟩ := hall node hmem definition hlookup
      exact .inr ⟨pins, Catalog.pinsOf?_eq_some_iff.2 ⟨definition, hlookup, hpins⟩⟩
  cases hsourceNode : graph.node? edge.source.nodeId with
  | none =>
    refine ⟨_, mem_foundIn_of_edge hedge ?_, .inl rfl⟩
    simp [edgeFindings, hsourceNode]
  | some sourceNode =>
    cases htargetNode : graph.node? edge.target.nodeId with
    | none =>
      refine ⟨_, mem_foundIn_of_edge hedge ?_, .inl rfl⟩
      simp [edgeFindings, htargetNode]
    | some targetNode =>
      obtain ⟨hsourceId, hunknown | ⟨sourcePins, hsourcePins⟩⟩ := hpinsOf _ _ hsourceNode
      · exact ⟨_, hunknown, .inr (.inr ⟨sourceNode, rfl, .inl hsourceId⟩)⟩
      obtain ⟨htargetId, hunknown | ⟨targetPins, htargetPins⟩⟩ := hpinsOf _ _ htargetNode
      · exact ⟨_, hunknown, .inr (.inr ⟨targetNode, rfl, .inr htargetId⟩)⟩
      refine ⟨_, mem_foundIn_of_edge hedge ?_, .inr (.inl rfl)⟩
      unfold edgeFindings
      rw [hsourceNode, htargetNode, lookup_pinTable hsourceNode hsourcePins,
        lookup_pinTable htargetNode htargetPins, if_neg (by simp)]
      dsimp only
      split
      next source target hsource htarget =>
        exact absurd ⟨targetNode, targetPins, htargetNode, htargetPins, htarget⟩
          (hmissing source target ⟨sourceNode, sourcePins, hsourceNode, hsourcePins, hsource⟩)
      · exact List.mem_cons_self

/-- For each node there is a first one with its id, unless the id was seen before. -/
theorem exists_mem_firstNodes {seen : List String} {nodes : List Node} {node : Node}
    (hnode : node ∈ nodes) (hseen : node.id ∉ seen) :
    ∃ first ∈ firstNodes seen nodes, first.id = node.id := by
  induction nodes generalizing seen with
  | nil => cases hnode
  | cons head rest ih =>
    unfold firstNodes
    by_cases hid : head.id = node.id
    · have hhead : ¬seen.contains head.id = true := by simpa [hid] using hseen
      rw [if_neg hhead]
      exact ⟨head, List.mem_cons_self, hid⟩
    · have hrest : node ∈ rest := (List.mem_cons.1 hnode).resolve_left fun heq => hid (heq ▸ rfl)
      split
      · exact ih hrest hseen
      · have hnew : node.id ∉ head.id :: seen := by
          simp [hseen, Ne.symm hid]
        obtain ⟨first, hfirst, heq⟩ := ih hrest hnew
        exact ⟨first, List.mem_cons_of_mem _ hfirst, heq⟩

/-- An input that a reference names is reported if more edges arrive at it than it takes. -/
theorem exists_finding_of_overfull {catalog : Catalog} {graph : Graph} {ref : PinRef} {pin : Pin}
    (hpin : graph.Resolves catalog ref pin) (hinput : pin.direction = .input) {limit : Nat}
    (hlimit : pin.capacity = some limit) (hfull : limit < graph.inboundCount ref.nodeId pin) :
    ∃ node, node.id = ref.nodeId ∧ .targetOverCapacity node pin
      (graph.inboundCount ref.nodeId pin) limit ∈ foundIn catalog graph := by
  obtain ⟨owner, pins, howner, hpins, hfind⟩ := hpin
  have hownerId : owner.id = ref.nodeId := by simpa using List.find?_some howner
  obtain ⟨first, hfirst, hfirstId⟩ :=
    exists_mem_firstNodes (List.mem_of_find?_eq_some howner) List.not_mem_nil
  have hid : first.id = ref.nodeId := hfirstId.trans hownerId
  refine ⟨first, hid, mem_foundIn_of_capacity ?_⟩
  refine List.mem_flatMap.2 ⟨first, hfirst, List.mem_filterMap.2 ⟨pin, ?_, ?_⟩⟩
  · rw [hid, lookup_pinTable howner hpins]
    exact (Pin.mem_of_find? hfind).1
  · simp [capacityFinding?, hinput, hlimit, hid, hfull]

end Graph

/-! ## Refusals and errors -/

/-- The errors that correspond to the code of a refusal, for an edge with the ends of the
connection: their codes, and where they are reported. -/
def RefusalCode.errors (code : RefusalCode) (edge : Edge) : List (IssueCode × Place) :=
  match code with
  | .sourcePinMissing | .targetPinMissing =>
    [(.edgeNodeMissing, .edge edge.id), (.edgePinMissing, .edge edge.id),
      (.unknownNode, .node edge.source.nodeId), (.unknownNode, .node edge.target.nodeId)]
  | .sourceNotOut | .targetNotIn => [(.edgeDirection, .edge edge.id)]
  | .kindMismatch => [(.pinKindMismatch, .edge edge.id)]
  | .dataTypeMismatch => [(.dataTypeMismatch, .edge edge.id)]
  | .targetAtMax => [(.targetOverCapacity, .pin edge.target.nodeId edge.target.pinId)]
  | .controlCycle => [(.controlCycle, .edge edge.id)]
  | .selfEdge | .duplicate => []

/-- A finding is an error that corresponds to the code of a refusal. -/
def Finding.BearsOut (finding : Finding) (code : RefusalCode) (edge : Edge) : Prop :=
  finding.severity = .error ∧ ∃ place, finding.place = some place ∧
    (finding.code, place) ∈ code.errors edge

section BearsOut

variable {catalog : Catalog} {graph : Graph} {edge : Edge}

/-- If not both ends of an edge resolve, then an error is found that a refusal for a missing pin
corresponds to. -/
theorem exists_bearsOut_of_unresolved {code : RefusalCode}
    (hcode : code = .sourcePinMissing ∨ code = .targetPinMissing)
    (hall : ∀ node ∈ graph.nodes, catalog.Materializes node) (hedge : edge ∈ graph.edges)
    (hmissing : ∀ source target, graph.Resolves catalog edge.source source →
      ¬graph.Resolves catalog edge.target target) :
    ∃ finding ∈ Graph.foundIn catalog graph, finding.BearsOut code edge := by
  obtain ⟨finding, hmem, hfinding⟩ := Graph.exists_finding_of_unresolved hall hedge hmissing
  have herrors : code.errors edge = RefusalCode.errors .sourcePinMissing edge := by
    rcases hcode with rfl | rfl <;> rfl
  refine ⟨finding, hmem, ?_⟩
  rw [Finding.BearsOut, herrors]
  rcases hfinding with rfl | rfl | ⟨node, rfl, hid | hid⟩
  · exact ⟨rfl, _, rfl, by simp [RefusalCode.errors, Finding.code]⟩
  · exact ⟨rfl, _, rfl, by simp [RefusalCode.errors, Finding.code]⟩
  · exact ⟨rfl, _, rfl, by simp [RefusalCode.errors, Finding.code, hid]⟩
  · exact ⟨rfl, _, rfl, by simp [RefusalCode.errors, Finding.code, hid]⟩

/-- Whatever two pins are not joined for is found at an edge that joins them in spite of it. -/
theorem exists_bearsOut_of_objection {code : RefusalCode} {sourcePin targetPin : Pin}
    (hself : code ≠ .selfEdge) (hduplicate : code ≠ .duplicate)
    (hsource : graph.Resolves catalog edge.source sourcePin)
    (htarget : graph.Resolves catalog edge.target targetPin) (hkind : edge.kind = sourcePin.kind)
    (h : Objection graph edge.source edge.target sourcePin targetPin code) :
    ∃ finding ∈ Graph.foundIn catalog (graph.addEdge edge), finding.BearsOut code edge := by
  have hmem : edge ∈ (graph.addEdge edge).edges := List.mem_append_right _ List.mem_cons_self
  have hfindings : (graph.addEdge edge).edgeFindings ((graph.addEdge edge).pinTable catalog) edge =
      Graph.joinFindings edge sourcePin targetPin :=
    Graph.edgeFindings_of_resolves hsource htarget
  have hjoin : ∀ finding ∈ Graph.joinFindings edge sourcePin targetPin,
      finding ∈ Graph.foundIn catalog (graph.addEdge edge) :=
    fun finding hfinding => Graph.mem_foundIn_of_edge hmem (hfindings ▸ hfinding)
  cases h with
  | sourceNotOut houtput =>
    refine ⟨.edgeDirection edge, hjoin _ ?_, rfl, _, rfl, List.mem_cons_self⟩
    simp [Graph.joinFindings, houtput]
  | targetNotIn hinput =>
    refine ⟨.edgeDirection edge, hjoin _ ?_, rfl, _, rfl, List.mem_cons_self⟩
    simp [Graph.joinFindings, hinput]
  | selfEdge => exact absurd rfl hself
  | kindMismatch hkinds =>
    refine ⟨.pinKindMismatch edge sourcePin.kind targetPin.kind, hjoin _ ?_, rfl, _, rfl,
      List.mem_cons_self⟩
    simp [Graph.joinFindings, hkinds]
  | dataTypeMismatch hkinds hdata htypes =>
    refine ⟨.dataTypeMismatch edge, hjoin _ ?_, rfl, _, rfl, List.mem_cons_self⟩
    simp [Graph.joinFindings, ← hkinds, hkind, hdata, htypes]
  | duplicate => exact absurd rfl hduplicate
  | targetAtMax hkinds hinput limit hlimit hfull =>
    have hcount : limit < (graph.addEdge edge).inboundCount edge.target.nodeId targetPin := by
      rw [Graph.inboundCount_addEdge, htarget.id_eq, if_pos ⟨rfl, hkind.trans hkinds⟩]
      omega
    have htargetAfter : (graph.addEdge edge).Resolves catalog edge.target targetPin := htarget
    obtain ⟨node, hid, hfinding⟩ :=
      Graph.exists_finding_of_overfull htargetAfter hinput hlimit hcount
    refine ⟨_, hfinding, rfl, _, rfl, ?_⟩
    simp [RefusalCode.errors, Finding.code, hid, htarget.id_eq]
  | controlCycle hcontrol hreaches =>
    have hloop : OnLoop (graph.addEdge edge).edges edge :=
      ⟨hkind.trans hcontrol, hreaches.mono (List.subset_append_left _ _)⟩
    have hfound := (mem_loopEdges_iff _ edge).2 ⟨hmem, hloop⟩
    exact ⟨_, Graph.mem_foundIn_of_loop hfound, rfl, _, rfl, List.mem_cons_self⟩

end BearsOut

/-- If a connection is refused, other than that of a node to itself or of pins joined already, and
an edge with its ends is added in spite of that, then validation reports an error that corresponds
to the refusal. The edge has the kind of the source pin, if there is one. -/
theorem refusal_has_error {catalog : Catalog} {graph : Graph} {stamp : EdgeStamp} {edge : Edge}
    {refusal : Refusal} {issues : List Issue}
    (hrefused : checkConnection catalog graph stamp edge.source edge.target =
      .error (.refused refusal))
    (hself : refusal.code ≠ .selfEdge) (hduplicate : refusal.code ≠ .duplicate)
    (hkind : ∀ pin, catalog.resolvePin graph edge.source = .ok (some pin) → edge.kind = pin.kind)
    (hvalidate : (graph.addEdge edge).validate catalog = .ok issues) :
    ∃ issue ∈ issues, issue.isError = true ∧ ∃ place, issue.place = some place ∧
      (issue.code, place) ∈ refusal.code.errors edge := by
  obtain ⟨hall, rfl⟩ := (Graph.validate_eq_ok_iff catalog _ issues).1 hvalidate
  have hedge : edge ∈ (graph.addEdge edge).edges := List.mem_append_right _ List.mem_cons_self
  have hfound : ∃ finding ∈ Graph.foundIn catalog (graph.addEdge edge),
      finding.BearsOut refusal.code edge := by
    have hcase := refused_of_checkConnection hrefused
    generalize refusal.code = code at hself hduplicate hcase
    cases hcase with
    | sourcePinMissing hmissing =>
      exact exists_bearsOut_of_unresolved (.inl rfl) hall hedge fun source _ hsource =>
        absurd hsource (hmissing source)
    | targetPinMissing hmissing =>
      exact exists_bearsOut_of_unresolved (.inr rfl) hall hedge fun _ target _ => hmissing target
    | objection code sourcePin targetPin hsource htarget hobjection =>
      have hsourceKind := hkind sourcePin (Graph.resolvePin_eq_some_iff.2 hsource)
      exact exists_bearsOut_of_objection hself hduplicate hsource htarget hsourceKind hobjection
  obtain ⟨finding, hmem, herror, place, hplace, herrors⟩ := hfound
  have hne : (Graph.foundIn catalog (graph.addEdge edge)).isEmpty = false :=
    List.isEmpty_eq_false_iff_exists_mem.2 ⟨finding, hmem⟩
  refine ⟨finding.report, ?_, by simp [Issue.isError, Finding.report, herror], place, hplace,
    herrors⟩
  rw [hne]
  exact List.mem_map_of_mem hmem

/-- Two nodes that heal, one after the other. -/
def healTwice : Graph :=
  ⟨"heal", [⟨"first", "heal", .empty⟩, ⟨"second", "heal", .empty⟩],
    [.plain "on" .control ⟨"first", "execOut"⟩ ⟨"second", "execIn"⟩]⟩

/-- The way back from the second node to the first. -/
def wayBack : Edge := .plain "back" .control ⟨"second", "execOut"⟩ ⟨"first", "execIn"⟩

/-- The way back would close a loop, and is reported if it is there in spite of that. -/
theorem wayBack_has_error :
    checkConnection .builtin healTwice ⟨"new", none⟩ wayBack.source wayBack.target =
        .error (.refused (.controlCycle "second" "first")) ∧
      ∃ issues, (healTwice.addEdge wayBack).validate .builtin = .ok issues ∧
        ∃ issue ∈ issues, issue.isError = true ∧ ∃ place, issue.place = some place ∧
          (issue.code, place) ∈ [(.controlCycle, .edge "back")] := by
  have hrefused : checkConnection .builtin healTwice ⟨"new", none⟩ wayBack.source wayBack.target =
      .error (.refused (.controlCycle "second" "first")) := by
    with_unfolding_all rfl
  have hsource : Catalog.builtin.resolvePin healTwice wayBack.source =
      .ok (some (Pin.controlOut "execOut" "Out")) := by
    with_unfolding_all rfl
  have hall : ∀ node ∈ (healTwice.addEdge wayBack).nodes, Catalog.builtin.Materializes node :=
    fun node _ => Catalog.materializes_builtin node
  have hvalidate := (Graph.validate_eq_ok_iff .builtin (healTwice.addEdge wayBack) _).2 ⟨hall, rfl⟩
  refine ⟨hrefused, _, hvalidate,
    refusal_has_error hrefused (by decide) (by decide) (fun pin hpin => ?_) hvalidate⟩
  rw [hsource] at hpin
  cases hpin
  rfl

end AbilityGraph
