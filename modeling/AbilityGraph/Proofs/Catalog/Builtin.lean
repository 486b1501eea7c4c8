import AbilityGraph.Catalog.Builtin
import AbilityGraph.Proofs.Catalog
import AbilityGraph.Proofs.Validate.Findings

/-!
# The pins of built-in nodes

Every definition of the built-in catalog is made in one of five ways (`Builtin.Shape`). Only a
branch has slots, and its count field allows eight of them at most, so the pins of a node of a
built-in type can be found whatever its config is (`Catalog.materializes_builtin`).
-/

set_option autoImplicit false

namespace AbilityGraph

namespace Definition

/-- Without a template, all nodes have the pins of the definition, whatever number of slots is
given. -/
theorem pinsWithSlots_of_no_slots {definition : Definition} (hslots : definition.slots = none)
    (count : Nat) : definition.pinsWithSlots count = definition.pins := by
  simp only [pinsWithSlots, hslots, List.append_nil]

/-- Without a template, the pins of a node can be found under any config if their ids are
different. -/
theorem materialize_of_no_slots {definition : Definition} (hslots : definition.slots = none)
    (hnodup : (definition.pins.map (·.id)).Nodup) (config : Config) :
    definition.materialize config = .ok definition.pins := by
  rw [materialize, instantiate_eq_ok_iff, pinsWithSlots_of_no_slots hslots]
  exact ⟨rfl, hnodup⟩

end Definition

namespace Builtin

/-- How the definitions of the built-in catalog are made. -/
inductive Shape : Definition → Prop
  | start : Shape start
  | branch : Shape branch
  | action (nodeType label stepType : String) (fields : List (String × ConfigField)) :
      Shape (action nodeType label stepType fields)
  | constant (nodeType label dataType : String) (field : ConfigField) :
      Shape (constant nodeType label dataType field)
  | valueNode (nodeType label field : String) (declared : ConfigField) (pins : List Pin)
      (hnodup : (pins.map (·.id)).Nodup) (hdata : ∀ pin ∈ pins, pin.kind = .data) :
      Shape (valueNode nodeType label field declared pins)

/-- Every built-in definition has one of the shapes. -/
theorem shape_of_mem {definition : Definition}
    (h : definition ∈ Catalog.builtin.definitions) : Shape definition := by
  have hpins : ∀ pins ∈ [[Pin.dataOut valueOut "Value" (.single DataType.any)],
      [Pin.dataIn "left" "Left" comparable, Pin.dataIn "right" "Right" comparable,
        Pin.dataOut "result" "Result" (.single "boolean")]],
      (pins.map (·.id)).Nodup ∧ ∀ pin ∈ pins, pin.kind = .data := by
    decide
  simp only [Catalog.builtin, actions, constants, valueNodes, List.cons_append, List.nil_append,
    List.mem_cons, List.not_mem_nil, or_false] at h
  rcases h with rfl | rfl | rfl | rfl | rfl | rfl | rfl | rfl | rfl | rfl | rfl | rfl
  · exact .start
  · exact .branch
  · exact .action ..
  · exact .action ..
  · exact .action ..
  · exact .action ..
  · exact .action ..
  · exact .constant ..
  · exact .constant ..
  · exact .constant ..
  · exact .valueNode _ _ _ _ _ (hpins _ (by simp)).1 (hpins _ (by simp)).2
  · exact .valueNode _ _ _ _ _ (hpins _ (by simp)).1 (hpins _ (by simp)).2

/-- No config gives a branch more than eight else-if clauses. -/
theorem slotCount_branch_le (config : Config) : branch.slotCount config ≤ 8 := by
  have height : min (Double.ofInt 8).floor.toNat maxSlots = 8 := by
    decide +kernel
  have hmaximum : (boundedField 0 8).maximum = some (.ofInt 8) := rfl
  rw [← height]
  exact Definition.slotCount_le_of_maximum rfl rfl hmaximum config

/-- The pins of a branch with all the else-if clauses that it may have are different. -/
theorem instantiate_branch : branch.instantiate 8 = .ok (branch.pinsWithSlots 8) := by
  have hnodup : ((branch.pinsWithSlots 8).map (·.id)).Nodup := by
    decide +kernel
  exact Definition.instantiate_eq_ok_iff.2 ⟨rfl, hnodup⟩

/-- The pins of a built-in node can be found under any config. -/
theorem Shape.materialize {definition : Definition} (h : Shape definition) (config : Config) :
    ∃ pins, definition.materialize config = .ok pins := by
  cases h with
  | start => exact ⟨_, Definition.materialize_of_no_slots rfl (by decide) config⟩
  | branch =>
    exact ⟨_, Definition.instantiate_of_le (slotCount_branch_le config) instantiate_branch⟩
  | action nodeType label stepType fields =>
    have hnodup : ((Builtin.action nodeType label stepType fields).pins.map (·.id)).Nodup := by
      show [execIn, execOut].Nodup
      decide
    exact ⟨_, Definition.materialize_of_no_slots rfl hnodup config⟩
  | constant nodeType label dataType field =>
    have hnodup : ((Builtin.constant nodeType label dataType field).pins.map (·.id)).Nodup := by
      simp [Builtin.constant]
    exact ⟨_, Definition.materialize_of_no_slots rfl hnodup config⟩
  | valueNode nodeType label field declared pins hnodup hdata =>
    exact ⟨_, Definition.materialize_of_no_slots rfl hnodup config⟩

end Builtin

namespace Catalog

/-- The built-in catalog passes all checks of loading. -/
theorem load_builtin : Catalog.load Catalog.builtin.definitions "start" = .ok .builtin := by
  have hrepeats : repeats (Catalog.builtin.definitions.map (·.nodeType)) = [] := by
    decide +kernel
  have hcheck : Catalog.builtin.check = .ok () := by
    decide +kernel
  unfold load
  rw [hrepeats]
  show (do
    Catalog.builtin.check
    return Catalog.builtin) = _
  rw [hcheck]
  rfl

/-- The pins of every node of a built-in type can be found. -/
theorem materializes_builtin (node : Node) : Catalog.builtin.Materializes node := by
  intro definition hlookup
  have hshape : Builtin.Shape definition := Builtin.shape_of_mem (mem_of_lookup? hlookup).1
  exact hshape.materialize node.config

/-- A node of which the pins are known has a type of one of the shapes. -/
theorem shape_of_pinsOf? {node : Node} {pins : List Pin}
    (h : Catalog.builtin.pinsOf? node = some pins) : ∃ definition,
      Catalog.builtin.lookup? node.nodeType = some definition ∧ Builtin.Shape definition ∧
        definition.materialize node.config = .ok pins := by
  obtain ⟨definition, hlookup, hpins⟩ := pinsOf?_eq_some_iff.1 h
  exact ⟨definition, hlookup, Builtin.shape_of_mem (mem_of_lookup? hlookup).1, hpins⟩

end Catalog

end AbilityGraph
