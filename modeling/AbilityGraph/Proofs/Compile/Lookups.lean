import AbilityGraph.Proofs.Catalog.Builtin
import AbilityGraph.Proofs.Compile.Visits

/-!
# The pins that lowering looks up

To lower a node, the walk looks for control edges at the outputs that the lowering names
(`Definition.flowOutputs`) and for data edges at the inputs at which it looks for conditions
(`Definition.conditionInputs`), and nowhere else (`Walk.expand_congr`). The walk puts the numbers of
slots into ids by itself, while loading checks fixed pins and templates. The two agree: each id that
is looked up is that of one of the node's pins, of the kind and the direction that are wanted
(`Definition.lookups_found`).
-/

set_option autoImplicit false

namespace AbilityGraph

namespace Definition

/-! ## Fixed pins and templates -/

/-- The inputs at which the lowering of a node looks for conditions. -/
def conditionInputs (definition : Definition) (config : Config) : List String :=
  match definition.lowering with
  | .branch _ condition _ elseIf _ _ =>
    let clauseInputs := match elseIf with
      | some pins => (List.range (definition.slotCount config)).map (substitute pins.condition)
      | none => []
    condition :: clauseInputs
  | .entry _ | .step _ _ _ | .literal _ | .data => []

/-- The first pin of a list with an id has a kind and a direction. -/
def Finds (pins : List Pin) (kind : PinKind) (direction : PinDirection) (id : String) : Prop :=
  ∃ pin, Pin.find? pins id = some pin ∧ pin.kind = kind ∧ pin.direction = direction

/-- A pin is tested for both its kind and its direction. -/
theorem isOf_iff {pin : Pin} {kind : PinKind} {direction : PinDirection} :
    pin.isOf kind direction = true ↔ pin.kind = kind ∧ pin.direction = direction := by
  simp [Pin.isOf]

section Materialized

variable {definition : Definition} {config : Config} {pins : List Pin} {kind : PinKind}
  {direction : PinDirection}

/-- A fixed pin comes before all pins of the template, so it is the one that is found. -/
theorem finds_of_checkStaticPin (hpins : definition.materialize config = .ok pins) {id : String}
    (hcheck : definition.checkStaticPin kind direction id = .ok ()) :
    Finds pins kind direction id := by
  obtain ⟨rfl, -⟩ := instantiate_eq_ok_iff.1 hpins
  unfold checkStaticPin at hcheck
  split at hcheck
  next pin hpin =>
    split at hcheck
    next hof =>
      refine ⟨pin, ?_, isOf_iff.1 hof⟩
      have hfound : definition.pins.find? (·.id == id) = some pin := hpin
      rw [Pin.find?, pinsWithSlots, List.find?_append, hfound]
      rfl
    · cases hcheck
  · cases hcheck

/-- A pin of the template is found at every slot, because no other pin of the node has its id. -/
theorem finds_of_template (hpins : definition.materialize config = .ok pins)
    {slots : SlotTemplate} (hslots : definition.slots = some slots) {template : String}
    (hany : slots.pins.any (fun p => p.id == template && p.isOf kind direction) = true) :
    ∀ id ∈ (List.range (definition.slotCount config)).map (substitute template),
      Finds pins kind direction id := by
  intro id hid
  obtain ⟨index, hindex, rfl⟩ := List.mem_map.1 hid
  obtain ⟨pin, hpin, hany⟩ := List.any_eq_true.1 hany
  obtain ⟨hid, hof⟩ := Bool.and_eq_true_iff.1 hany
  obtain rfl : pin.id = template := eq_of_beq hid
  obtain ⟨rfl, hnodup⟩ := instantiate_eq_ok_iff.1 hpins
  have hmem : pin.atSlot index ∈ definition.pinsWithSlots (definition.slotCount config) := by
    rw [pinsWithSlots, hslots]
    exact List.mem_append_right _
      (List.mem_flatMap.2 ⟨index, hindex, List.mem_map_of_mem hpin⟩)
  exact ⟨pin.atSlot index, Pin.find?_eq_some_of_mem hnodup hmem, isOf_iff.1 hof⟩

/-- The output at which the flow goes on is found, if the lowering names one. -/
theorem finds_of_checkNext (hpins : definition.materialize config = .ok pins)
    {next : Option String} (hcheck : definition.checkNext next = .ok ()) :
    ∀ id ∈ next.toList, Finds pins .control .output id := by
  intro id hid
  rw [Option.mem_toList] at hid
  subst hid
  exact finds_of_checkStaticPin hpins hcheck

/-- The condition and the output of every else-if clause are found. -/
theorem finds_of_checkElseIf (hpins : definition.materialize config = .ok pins)
    {elseIf : ElseIfPins} (hcheck : definition.checkElseIf elseIf = .ok ()) :
    (∀ id ∈ (List.range (definition.slotCount config)).map (substitute elseIf.condition),
      Finds pins .data .input id) ∧
    ∀ id ∈ (List.range (definition.slotCount config)).map (substitute elseIf.thenOut),
      Finds pins .control .output id := by
  unfold checkElseIf at hcheck
  split at hcheck
  · cases hcheck
  next slots hslots =>
    split at hcheck
    · cases hcheck
    next hcondition =>
      split at hcheck
      · cases hcheck
      next hthen =>
        exact ⟨finds_of_template hpins hslots (by simpa using hcondition),
          finds_of_template hpins hslots (by simpa using hthen)⟩

/-- What the lowering of a checked definition names is found among the pins of every node. -/
theorem finds_of_checkLowering (hpins : definition.materialize config = .ok pins)
    (hcheck : definition.checkLowering = .ok ()) :
    (∀ id ∈ definition.flowOutputs config, Finds pins .control .output id) ∧
      ∀ id ∈ definition.conditionInputs config, Finds pins .data .input id := by
  unfold checkLowering at hcheck
  unfold flowOutputs conditionInputs
  cases hlowering : definition.lowering with
  | entry next =>
    rw [hlowering] at hcheck
    simpa using finds_of_checkStaticPin hpins hcheck
  | step type fields next =>
    rw [hlowering] at hcheck
    obtain ⟨_, -, hnext⟩ := bind_eq_ok_iff.1 hcheck
    exact ⟨finds_of_checkNext hpins hnext, by simp⟩
  | branch type condition thenOut elseIf elseOut next =>
    rw [hlowering] at hcheck
    obtain ⟨_, hcondition, hcheck⟩ := bind_eq_ok_iff.1 hcheck
    obtain ⟨_, hthen, hcheck⟩ := bind_eq_ok_iff.1 hcheck
    obtain ⟨_, helse, hcheck⟩ := bind_eq_ok_iff.1 hcheck
    obtain ⟨_, hnext, helseIf⟩ := bind_eq_ok_iff.1 hcheck
    have hcondition := finds_of_checkStaticPin hpins hcondition
    have hthen := finds_of_checkStaticPin hpins hthen
    have helse := finds_of_checkStaticPin hpins helse
    have hnext := finds_of_checkNext hpins hnext
    cases elseIf with
    | none =>
      constructor
      · simpa using ⟨hthen, helse, by simpa using hnext⟩
      · simpa using hcondition
    | some elseIf =>
      obtain ⟨hclauseInputs, hclauseOuts⟩ := finds_of_checkElseIf hpins helseIf
      constructor
      · intro id hid
        rcases List.mem_append.1 hid with hid | hid
        · rcases List.mem_cons.1 hid with rfl | hid
          · exact hthen
          · exact hclauseOuts id hid
        · rcases List.mem_cons.1 hid with rfl | hid
          · exact helse
          · exact hnext id hid
      · exact List.forall_mem_cons.2 ⟨hcondition, hclauseInputs⟩
  | literal field => simp
  | data => simp

end Materialized

end Definition

/-! ## What the walk looks up -/

namespace Walk

/-- Two walks find the same at the pins that the lowering of a node names: the same nodes after its
outputs, and the same conditions at its inputs. -/
structure AgreesAt (walk other : Walk) (definition : Definition) (node : Node) : Prop where
  targets : ∀ pinId ∈ definition.flowOutputs node.config,
    walk.graph.controlTargets node.id pinId = other.graph.controlTargets node.id pinId
  conditions : ∀ pinId ∈ definition.conditionInputs node.config,
    walk.conditionAt node.id pinId = other.conditionAt node.id pinId

section Agree

variable {walk other : Walk} {definition : Definition} {node : Node}

/-- At an output that the lowering names the flow goes on to the same nodes. -/
theorem AgreesAt.targetsOf (h : walk.AgreesAt other definition node) (output : Option String)
    (houtput : ∀ pinId ∈ output, pinId ∈ definition.flowOutputs node.config) :
    walk.targetsOf node output = other.targetsOf node output := by
  cases output with
  | none => rfl
  | some pinId => exact h.targets pinId (houtput pinId rfl)

/-- A branch node has the same else-if clauses in both walks. -/
theorem AgreesAt.clauses (h : walk.AgreesAt other definition node)
    {type condition thenOut : String} {elseIf : Option ElseIfPins} {elseOut : String}
    {next : Option String}
    (hlowering : definition.lowering = .branch type condition thenOut elseIf elseOut next)
    (first : Nat) :
    walk.clauses definition node elseIf first = other.clauses definition node elseIf first := by
  cases elseIf with
  | none => rfl
  | some pins =>
    refine List.map_congr_left fun index hindex => ?_
    have hinput : substitute pins.condition index ∈ definition.conditionInputs node.config := by
      rw [Definition.conditionInputs, hlowering]
      exact List.mem_cons_of_mem _ (List.mem_map_of_mem hindex)
    rw [h.conditions _ hinput]

/-- The output of an else-if clause is one that the lowering names. -/
theorem output_mem_flowOutputs {type condition thenOut : String} {elseIf : Option ElseIfPins}
    {elseOut : String} {next : Option String}
    (hlowering : definition.lowering = .branch type condition thenOut elseIf elseOut next)
    {first : Nat} {clause : Clause} (hclause : clause ∈ walk.clauses definition node elseIf first) :
    clause.output ∈ definition.flowOutputs node.config := by
  have hmem := List.mem_map_of_mem (f := fun c : Clause => (c.condition, c.output)) hclause
  rw [map_clauses] at hmem
  rw [walk.flowOutputs_branch hlowering]
  exact List.mem_append_left _ (List.mem_cons_of_mem _ (List.mem_map_of_mem (f := (·.2)) hmem))

/-- What a node is lowered to, and where the walk goes on, depends only on what is found at the
pins that its lowering names. -/
theorem expand_congr (h : walk.AgreesAt other definition node) (sequence : Nat) (state : State) :
    walk.expand definition node sequence state = other.expand definition node sequence state := by
  cases hlowering : definition.lowering with
  | entry next =>
    have htargets := h.targetsOf (some next) (by
      simp [Definition.flowOutputs, hlowering])
    simp only [expand, hlowering, htargets]
  | step type fields next =>
    have htargets := h.targetsOf next (by
      simp [Definition.flowOutputs, hlowering])
    simp only [expand, hlowering, htargets]
  | branch type condition thenOut elseIf elseOut next =>
    have hclauses := h.clauses hlowering (state.sequences.length + 1)
    have hcondition : walk.conditionAt node.id condition = other.conditionAt node.id condition :=
      h.conditions condition (by simp [Definition.conditionInputs, hlowering])
    have houtputs : definition.flowOutputs node.config = thenOut ::
        (walk.clauseOutputs definition node elseIf).map (·.2) ++ elseOut :: next.toList :=
      walk.flowOutputs_branch hlowering
    have hthen := h.targetsOf (some thenOut) (by simp [houtputs])
    have helse := h.targetsOf (some elseOut) (by simp [houtputs])
    -- The output after a branch counts only if it is no output of a part; it is one of those named
    -- all the same.
    have hnext := h.targetsOf (afterBranch thenOut elseOut next) (by
      intro pinId hpin
      have hnext : next = some pinId := (Option.filter_eq_some_iff.1 hpin).1
      simp [houtputs, hnext])
    have htasks : walk.clauseTasks node
          (other.clauses definition node elseIf (state.sequences.length + 1)) =
        other.clauseTasks node
          (other.clauses definition node elseIf (state.sequences.length + 1)) := by
      refine List.flatMap_congr fun clause hclause => ?_
      rw [h.targetsOf (some clause.output) (by
        simpa using output_mem_flowOutputs hlowering hclause)]
    rw [walk.expand_branch node sequence state hlowering hclauses,
      other.expand_branch node sequence state hlowering rfl, hthen, helse, hnext, htasks,
      branchStep, branchStep, hcondition]
  | literal field => simp only [expand, hlowering]
  | data => simp only [expand, hlowering]

/-- With else-if pins, the branch that is emitted for a node has one clause for each slot. -/
theorem exists_clauses_of_expand (walk : Walk) {definition : Definition} (node : Node)
    {type condition thenOut : String} {elseIf : ElseIfPins} {elseOut : String}
    {next : Option String}
    (hlowering : definition.lowering = .branch type condition thenOut (some elseIf) elseOut next)
    {sequence : Nat} {state : State} {earlier : List Pending}
    (hsequence : state.sequences[sequence]? = some earlier) :
    ∃ thenSequence clauses elseSequence,
      (walk.expand definition node sequence state).sequences[sequence]? =
        some (earlier ++ [.branch type (walk.conditionAt node.id condition) thenSequence clauses
          elseSequence]) ∧
      clauses.length = definition.slotCount node.config := by
  have hlt : sequence < state.sequences.length := (List.getElem?_eq_some_iff.1 hsequence).1
  obtain ⟨clauses, hclauses⟩ : ∃ clauses, walk.clauses definition node (some elseIf)
      (state.sequences.length + 1) = clauses := ⟨_, rfl⟩
  refine ⟨state.sequences.length, clauses.map fun c => (c.condition, c.sequence),
    state.sequences.length + 1 + clauses.length, ?_, ?_⟩
  · rw [walk.expand_branch node sequence state hlowering hclauses, List.getElem?_modify,
      List.getElem?_append_left hlt, hsequence]
    simp only [if_true]
    rfl
  · rw [← hclauses]
    simp [Walk.clauses]

end Agree

end Walk

/-- For a definition that passed its checks and a config with which its pins can be found, each pin
id that the walk looks up for a node is found among them: the outputs as outputs for execution flow,
the inputs of conditions as inputs for values. These are all pins of the node that the walk looks
up, since what it does with the node depends on what is found there only, and the branch that it
emits has as many else-if clauses as the node has slots, if there are else-if pins. -/
theorem Definition.lookups_found {definition : Definition} {config : Config} {pins : List Pin}
    (hcheck : definition.check = .ok ()) (hpins : definition.materialize config = .ok pins) :
    (∀ id ∈ definition.flowOutputs config, Finds pins .control .output id) ∧
    (∀ id ∈ definition.conditionInputs config, Finds pins .data .input id) ∧
    ∀ (walk : Walk) (node : Node), node.config = config →
      (∀ other, walk.AgreesAt other definition node → ∀ sequence state,
        walk.expand definition node sequence state =
          other.expand definition node sequence state) ∧
      ∀ type condition thenOut elseIf elseOut next,
        definition.lowering = .branch type condition thenOut (some elseIf) elseOut next →
        ∀ sequence state earlier, state.sequences[sequence]? = some earlier →
          ∃ thenSequence clauses elseSequence,
            (walk.expand definition node sequence state).sequences[sequence]? =
              some (earlier ++ [.branch type (walk.conditionAt node.id condition) thenSequence
                clauses elseSequence]) ∧
            clauses.length = definition.slotCount config := by
  obtain ⟨-, hlowering⟩ := check_eq_ok hcheck
  obtain ⟨houtputs, hinputs⟩ := finds_of_checkLowering hpins hlowering
  refine ⟨houtputs, hinputs, fun walk node hconfig => ⟨?_, ?_⟩⟩
  · intro other hagrees sequence state
    exact Walk.expand_congr hagrees sequence state
  · intro type condition thenOut elseIf elseOut next hbranch sequence state earlier hsequence
    rw [← hconfig]
    exact walk.exists_clauses_of_expand node hbranch hsequence

/-- A config with which a branch has two else-if clauses. -/
def twoClauses : Config := .ofList [("elseIfCount", .integer 2)]

/-- The pins that are looked up for a branch with two clauses are its own. -/
theorem branch_lookups_found :
    Builtin.branch.check = .ok () ∧ ∃ pins, Builtin.branch.materialize twoClauses = .ok pins ∧
      (∀ id ∈ ["thenOut", "elseIfExecOut_0", "elseIfExecOut_1", "elseOut", "execOut"],
        Definition.Finds pins .control .output id) ∧
      ∀ id ∈ ["condIn", "elseIfCondIn_0", "elseIfCondIn_1"],
        Definition.Finds pins .data .input id := by
  have hcheck : Builtin.branch.check = .ok () := by
    decide +kernel
  have houtputs : Builtin.branch.flowOutputs twoClauses =
      ["thenOut", "elseIfExecOut_0", "elseIfExecOut_1", "elseOut", "execOut"] := by
    decide +kernel
  have hinputs : Builtin.branch.conditionInputs twoClauses =
      ["condIn", "elseIfCondIn_0", "elseIfCondIn_1"] := by
    decide +kernel
  obtain ⟨pins, hpins⟩ := Builtin.Shape.branch.materialize twoClauses
  obtain ⟨hflow, hconditions, -⟩ := Definition.lookups_found hcheck hpins
  rw [houtputs] at hflow
  rw [hinputs] at hconditions
  exact ⟨hcheck, pins, hpins, hflow, hconditions⟩

end AbilityGraph
