import AbilityGraph.Catalog.Builtin
import AbilityGraph.Proofs.ControlFlow.Components
import AbilityGraph.Proofs.Validate.Edges

/-!
# What an accepted connection is

`Allowed` lists all that is known when two pins are joined (`connect_eq_ok`). The edge that is added
then joins pins that are there as it should, keeps its target within its capacity, and lies on no
loop and closes none (`onLoop_concat_iff`).
-/

set_option autoImplicit false

namespace AbilityGraph

open ControlFlow (Reaches OnLoop wouldCloseLoop_iff reaches_concat_iff)

/-- All checks of a connection between two pins. -/
structure Allowed (catalog : Catalog) (graph : Graph) (source target : PinRef)
    (sourcePin targetPin : Pin) : Prop where
  sourceFound : graph.Resolves catalog source sourcePin
  targetFound : graph.Resolves catalog target targetPin
  output : sourcePin.direction = .output
  input : targetPin.direction = .input
  apart : source.nodeId ≠ target.nodeId
  kind : sourcePin.kind = targetPin.kind
  dataType : sourcePin.kind = .data →
    DataType.compatible sourcePin.dataType targetPin.dataType = true
  fresh : ∀ e ∈ graph.edges, e.kind = sourcePin.kind → e.source = source → e.target ≠ target
  capacity : ∀ limit, targetPin.capacity = some limit →
    graph.inboundCount target.nodeId targetPin < limit
  loop : sourcePin.kind = .control → ¬ Reaches graph.edges target.nodeId source.nodeId

section Inversion

variable {catalog : Catalog} {graph : Graph} {source target : PinRef} {sourcePin targetPin : Pin}

/-- A pin that is found at a reference is the pin to which the reference resolves. -/
theorem requirePin_eq_ok {ref : PinRef} {missing : Refusal} {pin : Pin}
    (h : catalog.requirePin graph ref missing = .ok pin) : graph.Resolves catalog ref pin := by
  unfold Catalog.requirePin at h
  split at h
  · cases h
  · cases h
  next found hfound =>
    injection h with heq
    exact Catalog.resolvePin_eq_some (heq ▸ hfound)

/-- If there is no reason to refuse an edge between two pins, then all checks of the connection
hold. -/
theorem allowed_of_refusal?_eq_none {edge : Edge}
    (hsource : graph.Resolves catalog source sourcePin)
    (htarget : graph.Resolves catalog target targetPin)
    (hedge : edge.kind = sourcePin.kind ∧ edge.source = source ∧ edge.target = target)
    (h : refusal? graph source target sourcePin targetPin edge = none) :
    Allowed catalog graph source target sourcePin targetPin := by
  obtain ⟨hkind, rfl, rfl⟩ := hedge
  have hid : targetPin.id = edge.target.pinId := by
    obtain ⟨node, pins, -, -, hpin⟩ := htarget
    exact (Pin.mem_of_find? hpin).2
  simp only [refusal?, ite_eq_iff, reduceCtorEq, and_false, false_or] at h
  obtain ⟨houtput, hinput, hapart, hkinds, htypes, hfresh, h⟩ := h
  split at h
  · cases h
  next hcapacity =>
    have hkinds : sourcePin.kind = targetPin.kind := Decidable.not_not.1 hkinds
    refine ⟨hsource, htarget, Decidable.not_not.1 houtput, Decidable.not_not.1 hinput, hapart,
      hkinds, fun hdata => ?_, fun e he hekind hesource hetarget => hfresh ?_,
      fun limit hlimit => ?_, fun hcontrol hreaches => ?_⟩
    · exact Decidable.byContradiction fun hnot => htypes ⟨hdata, hnot⟩
    · rw [List.any_eq_true]
      exact ⟨e, he, by simp [hekind, hesource, hetarget]⟩
    · have hnot := hcapacity
      rw [hlimit, hkinds] at hnot
      have hlt : ¬ limit ≤ graph.inboundCount edge.target.nodeId targetPin := by
        simpa [Graph.inboundCount, hid] using hnot
      exact Nat.not_le.1 hlt
    · have hloop := (wouldCloseLoop_iff graph.edges edge).2 ⟨hkind.trans hcontrol, hreaches⟩
      simp [hloop] at h

/-- A connection passes its check if both pins are found and nothing speaks against joining them. -/
theorem checkConnection_eq_ok_iff {stamp : EdgeStamp} {edge : Edge} :
    checkConnection catalog graph stamp source target = .ok edge ↔ ∃ sourcePin targetPin,
      catalog.requirePin graph source (.sourcePinMissing source) = .ok sourcePin ∧
      catalog.requirePin graph target (.targetPinMissing target) = .ok targetPin ∧
      joiningEdge stamp source target sourcePin targetPin = edge ∧
      refusal? graph source target sourcePin targetPin edge = none := by
  unfold checkConnection
  simp only [bind_eq_ok_iff, exists_and_left]
  refine exists_congr fun sourcePin => and_congr_right fun _ =>
    exists_congr fun targetPin => and_congr_right fun _ => ?_
  split
  next refusal hrefusal =>
    constructor
    · intro h
      cases h
    · rintro ⟨rfl, hnone⟩
      rw [hrefusal] at hnone
      cases hnone
  next hrefusal =>
    constructor
    · intro h
      cases h
      exact ⟨rfl, hrefusal⟩
    · rintro ⟨rfl, -⟩
      rfl

/-- The check of a connection fails at the first pin that is not found, or with what speaks against
joining the two. -/
theorem checkConnection_eq_error {stamp : EdgeStamp} {fault : ConnectError}
    (h : checkConnection catalog graph stamp source target = .error fault) :
    catalog.requirePin graph source (.sourcePinMissing source) = .error fault ∨
    catalog.requirePin graph target (.targetPinMissing target) = .error fault ∨
    ∃ sourcePin targetPin refusal,
      catalog.requirePin graph source (.sourcePinMissing source) = .ok sourcePin ∧
      catalog.requirePin graph target (.targetPinMissing target) = .ok targetPin ∧
      refusal? graph source target sourcePin targetPin
        (joiningEdge stamp source target sourcePin targetPin) = some refusal ∧
      fault = .refused refusal := by
  unfold checkConnection at h
  simp only [bind_eq_error_iff] at h
  rcases h with hsource | ⟨sourcePin, hsource, htarget | ⟨targetPin, htarget, h⟩⟩
  · exact .inl hsource
  · exact .inr (.inl htarget)
  · split at h
    next refusal hrefusal =>
      cases h
      exact .inr (.inr ⟨sourcePin, targetPin, refusal, hsource, htarget, hrefusal, rfl⟩)
    · cases h

/-- A connection is made just by adding the edge that joins two pins, after all checks. -/
theorem connect_eq_ok {stamp : EdgeStamp} {next : Graph}
    (h : connect catalog graph stamp source target = .ok next) :
    ∃ sourcePin targetPin, Allowed catalog graph source target sourcePin targetPin ∧
      next = graph.addEdge (joiningEdge stamp source target sourcePin targetPin) := by
  obtain ⟨edge, hcheck, rfl⟩ := map_eq_ok_iff.1 h
  obtain ⟨sourcePin, targetPin, hsource, htarget, rfl, hrefusal⟩ :=
    checkConnection_eq_ok_iff.1 hcheck
  have hallowed : Allowed catalog graph source target sourcePin targetPin :=
    allowed_of_refusal?_eq_none (requirePin_eq_ok hsource) (requirePin_eq_ok htarget)
      ⟨rfl, rfl, rfl⟩ hrefusal
  exact ⟨sourcePin, targetPin, hallowed, rfl⟩

/-- The pin to which a reference resolves is found. -/
theorem requirePin_of_resolves {ref : PinRef} {pin : Pin} (missing : Refusal)
    (h : graph.Resolves catalog ref pin) : catalog.requirePin graph ref missing = .ok pin := by
  have hresolve := Graph.resolvePin_eq_some_iff.2 h
  simp only [Catalog.requirePin, hresolve]

/-- If all checks of a connection hold, then there is no reason to refuse its edge. -/
theorem refusal?_eq_none_of_allowed {edge : Edge}
    (hedge : edge.kind = sourcePin.kind ∧ edge.source = source ∧ edge.target = target)
    (h : Allowed catalog graph source target sourcePin targetPin) :
    refusal? graph source target sourcePin targetPin edge = none := by
  obtain ⟨hkind, hsource, htarget⟩ := hedge
  have htypes : ¬(sourcePin.kind = .data ∧
      ¬DataType.compatible sourcePin.dataType targetPin.dataType = true) :=
    fun hdata => hdata.2 (h.dataType hdata.1)
  have hfresh : ¬(graph.edges.any fun e =>
      e.kind == sourcePin.kind && e.source == source && e.target == target) = true := by
    simp only [List.any_eq_true, Bool.and_eq_true, beq_iff_eq]
    rintro ⟨e, he, ⟨hekind, hesource⟩, hetarget⟩
    exact h.fresh e he hekind hesource hetarget
  have hcapacity : targetPin.capacity.filter
      (· ≤ ((graph.edgesInto target).filter (·.kind == sourcePin.kind)).length) = none := by
    rw [Option.filter_eq_none_iff]
    intro limit hlimit
    have hlt := h.capacity limit hlimit
    simp only [Graph.inboundCount, h.targetFound.id_eq, ← h.kind] at hlt
    simpa using hlt
  have hloop : ¬ControlFlow.wouldCloseLoop graph.edges edge = true := by
    rw [wouldCloseLoop_iff, hkind, hsource, htarget]
    exact fun hcloses => h.loop hcloses.1 hcloses.2
  simp only [refusal?, h.output, h.input, h.apart, h.kind, ne_eq, not_true_eq_false, if_false]
  rw [h.kind] at htypes hfresh hcapacity
  rw [if_neg htypes, if_neg hfresh, hcapacity, if_neg hloop]

/-- If all checks pass, then the connection is made. -/
theorem connect_of_allowed (stamp : EdgeStamp)
    (h : Allowed catalog graph source target sourcePin targetPin) :
    connect catalog graph stamp source target =
      .ok (graph.addEdge (joiningEdge stamp source target sourcePin targetPin)) := by
  have hcheck : checkConnection catalog graph stamp source target =
      .ok (joiningEdge stamp source target sourcePin targetPin) :=
    checkConnection_eq_ok_iff.2 ⟨sourcePin, targetPin, requirePin_of_resolves _ h.sourceFound,
      requirePin_of_resolves _ h.targetFound, rfl, refusal?_eq_none_of_allowed ⟨rfl, rfl, rfl⟩ h⟩
  exact map_eq_ok_iff.2 ⟨_, hcheck, rfl⟩

end Inversion

/-! ## The graph with the edge added -/

/-- A new edge counts at the pin at which it arrives, if it is of the kind of this pin, and nowhere
else. -/
theorem Graph.inboundCount_addEdge (graph : Graph) (edge : Edge) (nodeId : String) (pin : Pin) :
    (graph.addEdge edge).inboundCount nodeId pin = graph.inboundCount nodeId pin +
      if edge.target = ⟨nodeId, pin.id⟩ ∧ edge.kind = pin.kind then 1 else 0 := by
  unfold Graph.inboundCount Graph.edgesInto Graph.addEdge
  rw [List.filter_append, List.filter_append, List.length_append]
  by_cases htarget : edge.target = ⟨nodeId, pin.id⟩ <;>
    by_cases hkind : edge.kind = pin.kind <;> simp [htarget, hkind]

/-- An edge that joins two nodes without closing a loop puts no other edge on a loop. -/
theorem onLoop_concat_iff {edges : List Edge} {edge : Edge}
    (hloop : edge.kind = .control → ¬ Reaches edges edge.target.nodeId edge.source.nodeId)
    {e : Edge} (he : e ∈ edges) : OnLoop (edges ++ [edge]) e ↔ OnLoop edges e := by
  unfold OnLoop
  rw [and_congr_right_iff]
  intro hcontrol
  rw [reaches_concat_iff, or_iff_left_iff_imp]
  rintro ⟨hkind, hto, hfrom⟩
  -- The new edge and the old one would lie on one loop, which the new one alone would close.
  have hflow : Reaches edges e.source.nodeId e.target.nodeId := .single (.of_mem he hcontrol)
  exact absurd (hfrom.trans (hflow.trans hto)) (hloop hkind)

/-- A new edge lies on no loop if no path leads back from its target to its source. -/
theorem not_onLoop_concat_self {edges : List Edge} {edge : Edge}
    (hloop : edge.kind = .control → ¬ Reaches edges edge.target.nodeId edge.source.nodeId) :
    ¬ OnLoop (edges ++ [edge]) edge := by
  rintro ⟨hkind, hreaches⟩
  rcases reaches_concat_iff.1 hreaches with h | ⟨-, h, -⟩
  · exact hloop hkind h
  · exact hloop hkind h

namespace Allowed

variable {catalog : Catalog} {graph : Graph} {source target : PinRef} {sourcePin targetPin : Pin}

/-- The edge of an allowed connection joins its pins well. -/
theorem joinsWell (h : Allowed catalog graph source target sourcePin targetPin)
    (stamp : EdgeStamp) :
    JoinsWell (joiningEdge stamp source target sourcePin targetPin) sourcePin targetPin where
  output := h.output
  input := h.input
  sourceKind := rfl
  targetKind := h.kind.symm
  dataType := h.dataType

/-- The target of an accepted connection stays within its capacity. -/
theorem withinCapacity (h : Allowed catalog graph source target sourcePin targetPin)
    (stamp : EdgeStamp) :
    (graph.addEdge (joiningEdge stamp source target sourcePin targetPin)).WithinCapacity
      target.nodeId targetPin := by
  intro _ limit hlimit
  have hlt := h.capacity limit hlimit
  rw [Graph.inboundCount_addEdge]
  split <;> omega

end Allowed

/-! ## The least graph that does something -/

/-- A start node and a node that heals, not joined. -/
def unjoined : Graph :=
  ⟨"heal", [⟨"start", "start", .empty⟩, ⟨"heal", "heal", .empty⟩], []⟩

/-- The two nodes with the flow from the one to the other. -/
def joined : Graph :=
  unjoined.addEdge (.plain "flow" .control ⟨"start", "execOut"⟩ ⟨"heal", "execIn"⟩)

/-- Connecting the start node to the node that heals is accepted and gives the graph with this
edge. -/
theorem connect_unjoined :
    connect .builtin unjoined ⟨"flow", none⟩ ⟨"start", "execOut"⟩ ⟨"heal", "execIn"⟩ =
      .ok joined := by
  with_unfolding_all rfl

/-- The pins of both nodes can be determined. -/
theorem materializes_unjoined : ∀ node ∈ unjoined.nodes, Catalog.builtin.Materializes node := by
  have hvalidate : unjoined.validate .builtin =
      .ok ([.startUnconnected ⟨"start", "start", .empty⟩ "execOut",
        .unreachableNode ⟨"heal", "heal", .empty⟩].map Finding.report) := by
    with_unfolding_all rfl
  exact ((Graph.validate_eq_ok_iff _ _ _).1 hvalidate).1

end AbilityGraph
