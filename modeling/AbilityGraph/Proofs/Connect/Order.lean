import AbilityGraph.Proofs.Catalog
import AbilityGraph.Proofs.Connect
import Mathlib.Data.List.Perm.Basic

/-!
# Connections in any order

Whether a connection is allowed depends on the nodes of a graph and on which edges it has, but
neither on the order of the edges nor on their ids and times (`Allowed.congr`). If two connections
are allowed one after the other, then they are so the other way round (`Allowed.of_addEdge`,
`Allowed.swap`): a loop that the first would close through the second is one that the second has
closed through the first. So any order of connections that are made one after the other leads to the
same graph (`connectAll_of_perm`).
-/

set_option autoImplicit false

namespace AbilityGraph

open ControlFlow (Reaches reaches_concat_iff)

/-- A request to join two pins, with what is given to the new edge from outside. -/
structure Request where
  stamp : EdgeStamp
  source : PinRef
  target : PinRef

/-- The two pins that a request is to join. -/
def Request.ends (request : Request) : PinRef × PinRef := (request.source, request.target)

/-- Joins pins as requested, one pair after the other; the first refusal stops this. -/
def connectAll (catalog : Catalog) (graph : Graph) (requests : List Request) :
    Except ConnectError Graph :=
  requests.foldlM
    (fun graph request => connect catalog graph request.stamp request.source request.target) graph

/-- An edge without its id and without the time at which it was made. -/
def Edge.unstamped (edge : Edge) : Edge := { edge with id := "", createdAt := none }

/-! ## What acceptance depends on -/

/-- Two graphs have the same nodes, and the same edges up to their order, ids and times. -/
structure Alike (graph other : Graph) : Prop where
  nodes : graph.nodes = other.nodes
  edges : (graph.edges.map Edge.unstamped).Perm (other.edges.map Edge.unstamped)

section Alike

variable {catalog : Catalog} {graph other : Graph} {source target : PinRef}
  {sourcePin targetPin : Pin}

/-- Every graph is like itself. -/
theorem Alike.refl (graph : Graph) : Alike graph graph := ⟨rfl, .refl _⟩

/-- If one graph is like another, then the other is like the one. -/
theorem Alike.symm (h : Alike graph other) : Alike other graph := ⟨h.nodes.symm, h.edges.symm⟩

/-- If one graph is like a second and that is like a third, then the first is like the third. -/
theorem Alike.trans {third : Graph} (h : Alike graph other) (hother : Alike other third) :
    Alike graph third :=
  ⟨h.nodes.trans hother.nodes, h.edges.trans hother.edges⟩

/-- For each edge of a graph there is one of the same kind between the same pins in a graph like
it. -/
theorem Alike.exists_mem (h : Alike graph other) {e : Edge} (he : e ∈ graph.edges) :
    ∃ same ∈ other.edges, same.kind = e.kind ∧ same.source = e.source ∧ same.target = e.target := by
  have hmem : e.unstamped ∈ other.edges.map Edge.unstamped :=
    h.edges.mem_iff.1 (List.mem_map_of_mem he)
  obtain ⟨same, hsame, heq⟩ := List.mem_map.1 hmem
  obtain ⟨-, hkind, -, hsource, htarget, -⟩ := (Edge.mk.injEq ..).mp heq
  exact ⟨same, hsame, hkind, hsource, htarget⟩

/-- Graphs that are alike have the same paths. -/
theorem Alike.reaches (h : Alike graph other) {a b : String} (hreaches : Reaches graph.edges a b) :
    Reaches other.edges a b := by
  refine Relation.ReflTransGen.mono (fun _ _ => ?_) _ _ hreaches
  rintro ⟨e, he, hkind, rfl, rfl⟩
  obtain ⟨same, hsame, hsameKind, hsource, htarget⟩ := h.exists_mem he
  exact ⟨same, hsame, hsameKind.trans hkind, by rw [hsource], by rw [htarget]⟩

/-- A reference resolves to the same pin in graphs that are alike. -/
theorem Alike.resolves (h : Alike graph other) {ref : PinRef} {pin : Pin}
    (hpin : graph.Resolves catalog ref pin) : other.Resolves catalog ref pin := by
  unfold Graph.Resolves Graph.node? at hpin ⊢
  rw [← h.nodes]
  exact hpin

/-- As many edges arrive at a pin in graphs that are alike. -/
theorem Alike.inboundCount_eq (h : Alike graph other) (nodeId : String) (pin : Pin) :
    graph.inboundCount nodeId pin = other.inboundCount nodeId pin := by
  have hcount : ∀ g : Graph, g.inboundCount nodeId pin = (g.edges.map Edge.unstamped).countP
      fun e => e.kind == pin.kind && e.target == ⟨nodeId, pin.id⟩ := by
    intro g
    rw [Graph.inboundCount, Graph.edgesInto, List.filter_filter, ← List.countP_eq_length_filter,
      List.countP_map]
    rfl
  rw [hcount, hcount]
  exact h.edges.countP_eq _

/-- Graphs stay alike when an edge is added to each and the two edges differ at most in id and
time. -/
theorem Alike.addEdge (h : Alike graph other) {edge same : Edge}
    (hsame : edge.unstamped = same.unstamped) :
    Alike (graph.addEdge edge) (other.addEdge same) := by
  refine ⟨h.nodes, ?_⟩
  simp only [Graph.addEdge, List.map_append, List.map_cons, List.map_nil, hsame]
  exact h.edges.append_right _

/-- What is allowed in a graph is allowed in any that is like it. -/
theorem Allowed.congr (h : Allowed catalog graph source target sourcePin targetPin)
    (halike : Alike graph other) : Allowed catalog other source target sourcePin targetPin where
  sourceFound := halike.resolves h.sourceFound
  targetFound := halike.resolves h.targetFound
  output := h.output
  input := h.input
  apart := h.apart
  kind := h.kind
  dataType := h.dataType
  fresh e he hkind hsource := by
    obtain ⟨same, hsame, hsameKind, hsameSource, hsameTarget⟩ := halike.symm.exists_mem he
    rw [← hsameTarget]
    exact h.fresh same hsame (hsameKind.trans hkind) (hsameSource.trans hsource)
  capacity limit hlimit := by
    rw [← halike.inboundCount_eq]
    exact h.capacity limit hlimit
  loop hcontrol hreaches := h.loop hcontrol (halike.symm.reaches hreaches)

end Alike

/-! ## Two connections -/

section Swap

variable {catalog : Catalog} {graph : Graph} {source target otherSource otherTarget : PinRef}
  {sourcePin targetPin otherSourcePin otherTargetPin : Pin}

/-- What is allowed in a graph is allowed before an edge of it was added. -/
theorem Allowed.of_addEdge {edge : Edge}
    (h : Allowed catalog (graph.addEdge edge) source target sourcePin targetPin) :
    Allowed catalog graph source target sourcePin targetPin where
  sourceFound := h.sourceFound
  targetFound := h.targetFound
  output := h.output
  input := h.input
  apart := h.apart
  kind := h.kind
  dataType := h.dataType
  fresh e he := h.fresh e (List.mem_append_left _ he)
  capacity limit hlimit := by
    have hlt := h.capacity limit hlimit
    rw [Graph.inboundCount_addEdge] at hlt
    omega
  loop hcontrol hreaches := h.loop hcontrol (hreaches.mono (List.subset_append_left _ _))

/-- If a connection is allowed after another one, then the other is allowed after it. -/
theorem Allowed.swap {stamp : EdgeStamp} (otherStamp : EdgeStamp)
    (h : Allowed catalog graph source target sourcePin targetPin)
    (hother : Allowed catalog
      (graph.addEdge (joiningEdge stamp source target sourcePin targetPin))
      otherSource otherTarget otherSourcePin otherTargetPin) :
    Allowed catalog
      (graph.addEdge
        (joiningEdge otherStamp otherSource otherTarget otherSourcePin otherTargetPin))
      source target sourcePin targetPin where
  sourceFound := h.sourceFound
  targetFound := h.targetFound
  output := h.output
  input := h.input
  apart := h.apart
  kind := h.kind
  dataType := h.dataType
  fresh e he hkind hsource htarget := by
    rcases List.mem_append.1 he with he | he
    · exact h.fresh e he hkind hsource htarget
    · rw [List.mem_singleton.1 he] at hkind hsource htarget
      have hnew : joiningEdge stamp source target sourcePin targetPin ∈
          (graph.addEdge (joiningEdge stamp source target sourcePin targetPin)).edges :=
        List.mem_append_right _ List.mem_cons_self
      exact hother.fresh _ hnew hkind.symm hsource.symm htarget.symm
  capacity limit hlimit := by
    have hlt := h.capacity limit hlimit
    rw [Graph.inboundCount_addEdge]
    split
    next hhit =>
      -- Both connections have the same target, so there was room at it for two.
      obtain ⟨htarget, hkind⟩ := hhit
      have htarget : otherTarget = target := by
        rw [show otherTarget = _ from htarget, h.targetFound.id_eq]
      subst htarget
      have hpin : otherTargetPin = targetPin := hother.targetFound.unique h.targetFound
      subst hpin
      have hroom := hother.capacity limit hlimit
      rw [Graph.inboundCount_addEdge, if_pos ⟨by rw [h.targetFound.id_eq]; rfl, h.kind⟩] at hroom
      exact hroom
    next => exact hlt
  loop hcontrol hreaches := by
    rcases reaches_concat_iff.1 hreaches with hbefore | ⟨hotherControl, hto, hfrom⟩
    · exact h.loop hcontrol hbefore
    · -- The loop runs through both edges, whichever was added first.
      apply hother.loop hotherControl
      rw [Graph.addEdge, reaches_concat_iff]
      exact .inr ⟨hcontrol, hfrom, hto⟩

end Swap

/-! ## Lists of connections -/

section Lists

variable {catalog : Catalog} {graph other final : Graph}

/-- Requests are accepted in turn just if the first is allowed and the others are accepted in the
graph with its edge. -/
theorem connectAll_cons_eq_ok_iff {request : Request} {rest : List Request} :
    connectAll catalog graph (request :: rest) = .ok final ↔ ∃ sourcePin targetPin,
      Allowed catalog graph request.source request.target sourcePin targetPin ∧
        connectAll catalog (graph.addEdge (joiningEdge request.stamp request.source request.target
          sourcePin targetPin)) rest = .ok final := by
  unfold connectAll
  rw [List.foldlM_cons, bind_eq_ok_iff]
  constructor
  · rintro ⟨next, hnext, hrest⟩
    obtain ⟨sourcePin, targetPin, hallowed, rfl⟩ := connect_eq_ok hnext
    exact ⟨sourcePin, targetPin, hallowed, hrest⟩
  · rintro ⟨sourcePin, targetPin, hallowed, hrest⟩
    exact ⟨_, connect_of_allowed request.stamp hallowed, hrest⟩

/-- Connections only add edges at the end. -/
theorem edges_of_connectAll {requests : List Request}
    (h : connectAll catalog graph requests = .ok final) :
    ∃ added, final = { graph with edges := graph.edges ++ added } := by
  induction requests generalizing graph with
  | nil =>
    cases h
    exact ⟨[], by rw [List.append_nil]⟩
  | cons request rest ih =>
    obtain ⟨sourcePin, targetPin, -, hrest⟩ := connectAll_cons_eq_ok_iff.1 h
    obtain ⟨added, rfl⟩ := ih hrest
    refine ⟨joiningEdge request.stamp request.source request.target sourcePin targetPin :: added,
      ?_⟩
    simp [Graph.addEdge]

/-- The same connections are made in graphs that are alike. -/
theorem connectAll_congr {requests others : List Request}
    (hends : requests.map Request.ends = others.map Request.ends) (halike : Alike graph other)
    (h : connectAll catalog graph requests = .ok final) :
    ∃ otherFinal, connectAll catalog other others = .ok otherFinal ∧ Alike final otherFinal := by
  induction requests generalizing graph other others with
  | nil =>
    obtain rfl : others = [] := List.map_eq_nil_iff.1 hends.symm
    cases h
    exact ⟨other, rfl, halike⟩
  | cons request rest ih =>
    obtain ⟨same, sames, rfl, hsame, hsames⟩ := List.map_eq_cons_iff.1 hends.symm
    obtain ⟨hsource, htarget⟩ := Prod.ext_iff.1 hsame
    obtain ⟨sourcePin, targetPin, hallowed, hrest⟩ := connectAll_cons_eq_ok_iff.1 h
    have hsource : same.source = request.source := hsource
    have htarget : same.target = request.target := htarget
    have hedge : (joiningEdge request.stamp request.source request.target sourcePin
        targetPin).unstamped = (joiningEdge same.stamp same.source same.target sourcePin
        targetPin).unstamped := by
      rw [hsource, htarget]
      rfl
    obtain ⟨otherFinal, hotherRest, hfinal⟩ := ih hsames.symm (halike.addEdge hedge) hrest
    have hotherAllowed : Allowed catalog other same.source same.target sourcePin targetPin := by
      rw [hsource, htarget]
      exact hallowed.congr halike
    exact ⟨otherFinal,
      connectAll_cons_eq_ok_iff.2 ⟨sourcePin, targetPin, hotherAllowed, hotherRest⟩, hfinal⟩

/-- Two connections at the head of a list may be swapped. -/
theorem connectAll_swap {first second : Request} {rest : List Request}
    (h : connectAll catalog graph (first :: second :: rest) = .ok final) :
    ∃ otherFinal, connectAll catalog graph (second :: first :: rest) = .ok otherFinal ∧
      Alike final otherFinal := by
  obtain ⟨sourcePin, targetPin, hfirst, h⟩ := connectAll_cons_eq_ok_iff.1 h
  obtain ⟨otherSourcePin, otherTargetPin, hsecond, h⟩ := connectAll_cons_eq_ok_iff.1 h
  have halike : ∀ edge same : Edge, Alike ((graph.addEdge edge).addEdge same)
      ((graph.addEdge same).addEdge edge) := by
    intro edge same
    refine ⟨rfl, List.Perm.map _ ?_⟩
    simp only [Graph.addEdge, List.append_assoc]
    exact (List.Perm.swap same edge []).append_left _
  obtain ⟨otherFinal, hrest, hfinal⟩ := connectAll_congr rfl (halike _ _) h
  refine ⟨otherFinal, connectAll_cons_eq_ok_iff.2 ⟨_, _, hsecond.of_addEdge, ?_⟩, hfinal⟩
  exact connectAll_cons_eq_ok_iff.2 ⟨_, _, hfirst.swap second.stamp hsecond, hrest⟩

/-- Connections in another order are made too, and lead to a graph that is alike. -/
theorem exists_alike_of_perm {requests others : List Request} (hperm : requests.Perm others)
    (h : connectAll catalog graph requests = .ok final) :
    ∃ otherFinal, connectAll catalog graph others = .ok otherFinal ∧ Alike final otherFinal := by
  induction hperm generalizing graph final with
  | nil => exact ⟨final, h, .refl final⟩
  | cons request _ ih =>
    obtain ⟨sourcePin, targetPin, hallowed, hrest⟩ := connectAll_cons_eq_ok_iff.1 h
    obtain ⟨otherFinal, hotherRest, hfinal⟩ := ih hrest
    exact ⟨otherFinal,
      connectAll_cons_eq_ok_iff.2 ⟨sourcePin, targetPin, hallowed, hotherRest⟩, hfinal⟩
  | swap second first rest => exact connectAll_swap h
  | trans _ _ ih ihOther =>
    obtain ⟨middle, hmiddle, halike⟩ := ih h
    obtain ⟨otherFinal, hotherFinal, hotherAlike⟩ := ihOther hmiddle
    exact ⟨otherFinal, hotherFinal, halike.trans hotherAlike⟩

end Lists

/-- If pins are joined one pair after the other, then so they can be in any other order, with
whatever ids and times. The graph is the same in the end, but for the order, the ids and the times
of the edges that were added. -/
theorem connectAll_of_perm {catalog : Catalog} {graph final : Graph}
    {requests others : List Request}
    (hconnect : connectAll catalog graph requests = .ok final)
    (hperm : (requests.map Request.ends).Perm (others.map Request.ends)) :
    ∃ added otherAdded, final = { graph with edges := graph.edges ++ added } ∧
      connectAll catalog graph others =
        .ok { graph with edges := graph.edges ++ otherAdded } ∧
      (added.map Edge.unstamped).Perm (otherAdded.map Edge.unstamped) := by
  have hreordered : Relation.Comp (· = List.map Request.ends ·) List.Perm
      (others.map Request.ends) requests := by
    rw [List.eq_map_comp_perm]
    exact hperm.symm
  obtain ⟨reordered, hends, hpermRequests⟩ := hreordered
  obtain ⟨middle, hmiddle, halikeMiddle⟩ := exists_alike_of_perm hpermRequests.symm hconnect
  obtain ⟨otherFinal, hother, halikeOther⟩ := connectAll_congr hends.symm (.refl graph) hmiddle
  have halike : Alike final otherFinal := halikeMiddle.trans halikeOther
  obtain ⟨added, rfl⟩ := edges_of_connectAll hconnect
  obtain ⟨otherAdded, rfl⟩ := edges_of_connectAll hother
  refine ⟨added, otherAdded, rfl, hother, ?_⟩
  have hedges := halike.edges
  rw [List.map_append, List.map_append, List.perm_append_left_iff] at hedges
  exact hedges

/-- A start and two nodes that heal, none of them joined. -/
def allApart : Graph :=
  ⟨"heal", [⟨"start", "start", .empty⟩, ⟨"first", "heal", .empty⟩, ⟨"second", "heal", .empty⟩], []⟩

/-- The flow from the start to the one node, and from that one to the other. -/
def flowRequests : List Request :=
  [⟨⟨"in", none⟩, ⟨"start", "execOut"⟩, ⟨"first", "execIn"⟩⟩,
    ⟨⟨"on", none⟩, ⟨"first", "execOut"⟩, ⟨"second", "execIn"⟩⟩]

/-- The flow may also be joined from its end. -/
theorem flowRequests_reversed :
    ∃ final, connectAll .builtin allApart flowRequests = .ok final ∧
      ∃ added otherAdded, final = { allApart with edges := allApart.edges ++ added } ∧
        connectAll .builtin allApart flowRequests.reverse =
          .ok { allApart with edges := allApart.edges ++ otherAdded } ∧
        (added.map Edge.unstamped).Perm (otherAdded.map Edge.unstamped) := by
  have hconnect : connectAll .builtin allApart flowRequests =
      .ok ((allApart.addEdge
        (.plain "in" .control ⟨"start", "execOut"⟩ ⟨"first", "execIn"⟩)).addEdge
        (.plain "on" .control ⟨"first", "execOut"⟩ ⟨"second", "execIn"⟩)) := by
    with_unfolding_all rfl
  have hperm : (flowRequests.map Request.ends).Perm (flowRequests.reverse.map Request.ends) :=
    (List.reverse_perm flowRequests).symm.map _
  exact ⟨_, hconnect, connectAll_of_perm hconnect hperm⟩

end AbilityGraph
