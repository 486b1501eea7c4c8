import AbilityGraph.Catalog.Builtin
import AbilityGraph.Compile
import AbilityGraph.Proofs.Catalog
import AbilityGraph.Proofs.Connect
import AbilityGraph.Reconcile

/-!
# Where pins may collide

With a catalog that was loaded, pins collide only at nodes that have more slots than were tried out
when it was loaded (`Definition.Untried`). As long as a graph has no such node, nothing that is done
with it fails because of colliding pins (`Catalog.no_collisions_of_load`).

A node that does have more slots may have colliding pins, and then everything that needs its pins
fails (`fan_collides`).
-/

set_option autoImplicit false

namespace AbilityGraph

namespace Graph

/-- No node has more slots than are tried out when a catalog is loaded. -/
def Tried (catalog : Catalog) (graph : Graph) : Prop :=
  ∀ node ∈ graph.nodes, ∀ definition, catalog.lookup? node.nodeType = some definition →
    ¬definition.Untried node.config

/-- In a graph without nodes that have more slots than were tried out, the pins of all nodes can be
found. -/
theorem Tried.materializes {definitions : List Definition} {startType : String} {catalog : Catalog}
    (hload : Catalog.load definitions startType = .ok catalog) {graph : Graph}
    (htried : graph.Tried catalog) : ∀ node ∈ graph.nodes, catalog.Materializes node := by
  intro node hnode definition hlookup
  have hcheck := Catalog.check_of_lookup? hload hlookup
  exact Definition.materialize_of_check hcheck (htried node hnode definition hlookup)

section Faults

variable {catalog : Catalog} {graph : Graph}
  (hall : ∀ node ∈ graph.nodes, catalog.Materializes node)

include hall

/-- If the pins of all nodes can be found, then validation gives issues. -/
theorem exists_validate : ∃ issues, graph.validate catalog = .ok issues :=
  ⟨_, (validate_eq_ok_iff catalog graph _).2 ⟨hall, rfl⟩⟩

/-- If the pins of all nodes can be found, then looking up a pin does not fail, though there may be
no such pin. -/
theorem exists_resolvePin (ref : PinRef) : ∃ found, catalog.resolvePin graph ref = .ok found := by
  unfold Catalog.resolvePin
  cases hnode : graph.node? ref.nodeId with
  | none => exact ⟨none, rfl⟩
  | some node =>
    cases hlookup : catalog.lookup? node.nodeType with
    | none => exact ⟨none, by simp only [hlookup]⟩
    | some definition =>
      obtain ⟨pins, hpins⟩ := hall node (List.mem_of_find?_eq_some hnode) definition hlookup
      exact ⟨Pin.find? pins ref.pinId, by simp only [hlookup, hpins, Except.map]⟩

/-- If the pins of all nodes can be found, then a pin that is required is never missed because pins
collide. -/
theorem requirePin_ne_duplicatePin (ref : PinRef) (missing : Refusal) (fault : DuplicatePin) :
    catalog.requirePin graph ref missing ≠ .error (.duplicatePin fault) := by
  obtain ⟨found, hfound⟩ := exists_resolvePin hall ref
  unfold Catalog.requirePin
  rw [hfound]
  cases found <;> simp

/-- If the pins of all nodes can be found, then no connection is turned down because pins
collide. -/
theorem checkConnection_ne_duplicatePin (stamp : EdgeStamp) (source target : PinRef)
    (fault : DuplicatePin) :
    checkConnection catalog graph stamp source target ≠ .error (.duplicatePin fault) := by
  intro h
  rcases checkConnection_eq_error h with hsource | htarget | ⟨_, _, refusal, -, -, -, hfault⟩
  · exact requirePin_ne_duplicatePin hall source _ fault hsource
  · exact requirePin_ne_duplicatePin hall target _ fault htarget
  · cases hfault

/-- If the pins of all nodes can be found, before and after the change of a config, then the config
is changed. -/
theorem exists_applyConfig {nodeId : String} {config : Config}
    (hconfig : ∀ node definition, graph.node? nodeId = some node →
      catalog.lookup? node.nodeType = some definition →
      ∃ pins, definition.materialize config = .ok pins) :
    ∃ next, graph.applyConfig catalog nodeId config = .ok next := by
  unfold applyConfig
  cases hnode : graph.node? nodeId with
  | none => exact ⟨graph, rfl⟩
  | some node =>
    cases hlookup : catalog.lookup? node.nodeType with
    | none => exact ⟨graph, by simp only [hlookup]⟩
    | some definition =>
      obtain ⟨oldPins, hold⟩ := hall node (List.mem_of_find?_eq_some hnode) definition hlookup
      obtain ⟨newPins, hnew⟩ := hconfig node definition hnode hlookup
      refine ⟨{ graph with
        nodes := setConfig nodeId config graph.nodes
        edges := reconcile nodeId oldPins newPins graph.edges }, ?_⟩
      simp only [hlookup]
      rw [hold, hnew]
      rfl

end Faults

end Graph

/-- A node of a type of a loaded catalog has pins with different ids, or it has more slots than were
tried out and two of its pins have the id that is named in the fault. -/
theorem Catalog.materialize_or_untried {definitions : List Definition} {startType : String}
    {catalog : Catalog} (hload : Catalog.load definitions startType = .ok catalog)
    {nodeType : String} {definition : Definition}
    (hlookup : catalog.lookup? nodeType = some definition) (config : Config) :
    (∃ pins, catalog.materialize nodeType config = .ok pins ∧ (pins.map (·.id)).Nodup) ∨
      (definition.Untried config ∧ ∃ pinId,
        catalog.materialize nodeType config = .error (.duplicatePin ⟨nodeType, pinId⟩) ∧
        1 < ((definition.pinsWithSlots (definition.slotCount config)).map (·.id)).count pinId) := by
  have hcheck := check_of_lookup? hload hlookup
  have htype : definition.nodeType = nodeType := (mem_of_lookup? hlookup).2
  unfold materialize
  rw [hlookup]
  dsimp only
  cases hpins : definition.materialize config with
  | ok pins => exact .inl ⟨pins, rfl, (Definition.instantiate_eq_ok_iff.1 hpins).2⟩
  | error fault =>
    obtain ⟨hfault, hcount⟩ := Definition.one_lt_count_of_instantiate hpins
    have huntried : definition.Untried config := by
      by_contra htried
      obtain ⟨pins, hfound⟩ := Definition.materialize_of_check hcheck htried
      rw [hpins] at hfound
      cases hfound
    refine .inr ⟨huntried, fault.pinId, ?_, hcount⟩
    rw [← htype, ← hfault]
    rfl

/-- With a catalog that was loaded, the pins of a node of one of its types can be found and have
different ids, or else it has more slots than were tried out, and the id named in the fault is that
of two of its pins. In a graph without such nodes nothing fails because pins collide: not
validation, not the check of a connection, not compilation, and not a change to a config with which
the node has no more slots than were tried out. -/
theorem Catalog.no_collisions_of_load {definitions : List Definition} {startType : String}
    {catalog : Catalog} (hload : Catalog.load definitions startType = .ok catalog) :
    (∀ nodeType definition config, catalog.lookup? nodeType = some definition →
      (∃ pins, catalog.materialize nodeType config = .ok pins ∧ (pins.map (·.id)).Nodup) ∨
      (definition.Untried config ∧ ∃ pinId,
        catalog.materialize nodeType config = .error (.duplicatePin ⟨nodeType, pinId⟩) ∧
        1 < ((definition.pinsWithSlots (definition.slotCount config)).map (·.id)).count pinId)) ∧
    (∀ graph : Graph, graph.Tried catalog →
      (∃ issues, graph.validate catalog = .ok issues) ∧
      (∀ stamp source target fault,
        checkConnection catalog graph stamp source target ≠ .error (.duplicatePin fault)) ∧
      ∀ nodeId config,
        (∀ node definition, graph.node? nodeId = some node →
          catalog.lookup? node.nodeType = some definition → ¬definition.Untried config) →
        ∃ next, graph.applyConfig catalog nodeId config = .ok next) ∧
    ∀ (graph : Graph) (aliases : TypeAliases), (graph.resolveAliases aliases).Tried catalog →
      ∃ compiled, graph.compile catalog aliases = .ok compiled := by
  refine ⟨?materialize, ?graph, ?compile⟩
  case materialize =>
    intro nodeType definition config hlookup
    exact materialize_or_untried hload hlookup config
  case graph =>
    intro graph htried
    have hall := htried.materializes hload
    refine ⟨Graph.exists_validate hall, Graph.checkConnection_ne_duplicatePin hall, ?_⟩
    intro nodeId config hconfig
    apply Graph.exists_applyConfig hall
    intro node definition hnode hlookup
    have hcheck := check_of_lookup? hload hlookup
    exact Definition.materialize_of_check hcheck (hconfig node definition hnode hlookup)
  case compile =>
    intro graph aliases htried
    obtain ⟨issues, hissues⟩ := Graph.exists_validate (htried.materializes hload)
    exact ⟨_, bind_eq_ok_iff.2 ⟨issues, hissues, rfl⟩⟩

/-! ## A collision -/

/-- A node with as many outputs as its config says, of which the third has the id of one more. -/
def fan : Definition where
  nodeType := "fan"
  label := "Fan"
  category := "data"
  schema := .ofList [("n", .ofType .integer)]
  pins := [Pin.dataOut "out_2" "Last" (.single DataType.any)]
  slots := some {
    countField := "n"
    pins := [Pin.dataOut "out_\x7bi\x7d" "Out" (.single DataType.any)] }
  lowering := .data

def Catalog.fans : Catalog := ⟨[Builtin.start, fan], "start"⟩

/-- A config for some number of outputs. -/
def outputs (n : Nat) : Config := .ofList [("n", .integer n)]

/-- A start and a node with some number of outputs. -/
def fanned (n : Nat) : Graph :=
  ⟨"fans", [⟨"start", "start", .empty⟩, ⟨"fan", "fan", outputs n⟩], []⟩

/-- Loading the catalog with the fan goes through, because no more than two outputs are tried
out. -/
theorem load_fans : Catalog.load [Builtin.start, fan] "start" = .ok .fans := by
  with_unfolding_all rfl

/-- Two outputs are no more than were tried out. -/
theorem fan_apart : (fanned 2).Tried .fans ∧ ∃ issues, (fanned 2).validate .fans = .ok issues := by
  have htried : (fanned 2).Tried .fans := by
    intro node hnode definition hlookup
    have hnode : node ∈ [(⟨"start", "start", .empty⟩ : Node), ⟨"fan", "fan", outputs 2⟩] := hnode
    rw [List.mem_cons, List.mem_singleton] at hnode
    rcases hnode with rfl | rfl
    · have hstart : Catalog.fans.lookup? "start" = some Builtin.start := by
        with_unfolding_all rfl
      rw [hstart] at hlookup
      cases hlookup
      rintro ⟨template, field, hslots, -⟩
      cases hslots
    · have hfan : Catalog.fans.lookup? "fan" = some fan := by
        with_unfolding_all rfl
      have hcount : fan.slotCount (outputs 2) = 2 := by
        with_unfolding_all rfl
      rw [hfan] at hlookup
      cases hlookup
      rintro ⟨template, field, -, -, -, hmore⟩
      rw [hcount] at hmore
      exact absurd hmore (Nat.lt_irrefl 2)
  exact ⟨htried, ((Catalog.no_collisions_of_load load_fans).2.1 _ htried).1⟩

/-- With three outputs two pins have one id, although the catalog has been loaded. -/
theorem fan_collides :
    Catalog.load [Builtin.start, fan] "start" = .ok .fans ∧
      Catalog.materialize .fans "fan" (outputs 3) = .error (.duplicatePin ⟨"fan", "out_2"⟩) ∧
      (fanned 3).validate .fans = .error ⟨"fan", "out_2"⟩ ∧
      checkConnection .fans (fanned 3) ⟨"new", none⟩ ⟨"fan", "out_0"⟩ ⟨"start", "execOut"⟩ =
        .error (.duplicatePin ⟨"fan", "out_2"⟩) ∧
      (fanned 3).compile .fans = .error ⟨"fan", "out_2"⟩ ∧
      (fanned 2).applyConfig .fans "fan" (outputs 3) = .error ⟨"fan", "out_2"⟩ := by
  refine ⟨load_fans, ?_, ?_, ?_, ?_, ?_⟩
  all_goals with_unfolding_all rfl

end AbilityGraph
