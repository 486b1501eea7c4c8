import AbilityGraph.Compile
import AbilityGraph.Proofs.Compile.Mirror

/-!
# Null counts as unset

A config may hold null for a field. The pins of a node and the steps of a graph are found as if its
configs did not have these entries (`Definition.materialize_dropNulls`, `Graph.lower_dropNulls`).
So it makes no difference to them whether a field is set to null or is not there at all, because
either way the same entries are left (`FieldMap.dropNulls_insert_null`).
-/

set_option autoImplicit false

namespace AbilityGraph

/-! ## Entries that are null or removed -/

namespace FieldMap

/-- A map without one of its fields. -/
def erase {α : Type} (m : FieldMap α) (name : String) : FieldMap α :=
  ⟨m.entries.filter (·.1 != name), m.ordered.filter _⟩

/-- A map without the entries that are null. -/
def dropNulls (m : FieldMap Value) : FieldMap Value :=
  ⟨m.entries.filter (!·.2.isNull), m.ordered.filter _⟩

/-- A field that is set stands between the same entries from which it is removed. -/
theorem exists_entries_around {α : Type} (m : FieldMap α) (name : String) (value : α) :
    ∃ before after, (m.insert name value).entries = before ++ (name, value) :: after ∧
      (m.erase name).entries = before ++ after := by
  -- Entries are in order, so those after the place of the field do not have its name.
  have hkeep : ∀ entries : List (String × α), (∀ e ∈ entries, name < e.1) →
      entries.filter (·.1 != name) = entries := by
    intro entries hless
    rw [List.filter_eq_self]
    intro e he
    exact bne_iff_ne.2 fun heq => String.lt_irrefl name (heq ▸ hless e he)
  obtain ⟨entries, hordered⟩ := m
  show ∃ before after, place name value entries = before ++ (name, value) :: after ∧
    entries.filter (·.1 != name) = before ++ after
  induction entries with
  | nil => exact ⟨[], [], rfl, rfl⟩
  | cons entry rest ih =>
    obtain ⟨hentry, hrest⟩ := List.pairwise_cons.1 hordered
    unfold place
    split
    next hlt =>
      refine ⟨[], entry :: rest, rfl, hkeep _ fun e he => ?_⟩
      rcases List.mem_cons.1 he with rfl | he
      · exact hlt
      · exact String.lt_trans hlt (hentry e he)
    next hnlt =>
      split
      next heq =>
        refine ⟨[], rest, rfl, ?_⟩
        rw [List.filter_cons_of_neg (by simp [heq])]
        exact hkeep rest fun e he => heq ▸ hentry e he
      next hne =>
        obtain ⟨before, after, hplace, hfilter⟩ := ih hrest
        have hother : (entry.1 != name) = true := bne_iff_ne.2 fun heq => hne heq.symm
        refine ⟨entry :: before, after, by rw [hplace, List.cons_append], ?_⟩
        rw [List.filter_cons, if_pos hother, hfilter, List.cons_append]

/-- Setting a field to null leaves the same other entries as removing it. -/
theorem dropNulls_insert_null (m : FieldMap Value) (name : String) :
    (m.insert name .null).dropNulls = (m.erase name).dropNulls := by
  obtain ⟨before, after, hinsert, herase⟩ := m.exists_entries_around name Value.null
  apply FieldMap.ext
  simp only [dropNulls, hinsert, herase, List.filter_append]
  rw [List.filter_cons_of_neg (by simp [Value.isNull, Value.null])]

/-- Without its nulls, a map has at a name what it had there, unless that was null. -/
theorem get?_dropNulls (m : FieldMap Value) (name : String) :
    m.dropNulls.get? name = (m.get? name).filter (!·.isNull) := by
  obtain ⟨entries, hordered⟩ := m
  show (entries.filter (!·.2.isNull)).lookup name = (entries.lookup name).filter (!·.isNull)
  induction entries with
  | nil => rfl
  | cons entry rest ih =>
    obtain ⟨hentry, hrest⟩ := List.pairwise_cons.1 hordered
    obtain ⟨key, value⟩ := entry
    by_cases hname : name = key
    · subst hname
      cases hnull : value.isNull with
      | false => simp [Option.filter_some, hnull]
      | true =>
        -- The map has no other entry of that name that could come into view.
        have hnone : (rest.filter (!·.2.isNull)).lookup name = none := by
          rw [List.lookup_eq_none_iff]
          intro e he
          have hlt : name < e.1 := hentry e (List.mem_of_mem_filter he)
          have hne : name ≠ e.1 := fun heq => String.lt_irrefl e.1 (heq ▸ hlt)
          exact bne_iff_ne.2 hne
        simp [Option.filter_some, hnull, hnone]
    · have hne : (name == key) = false := beq_eq_false_iff_ne.2 hname
      rw [List.lookup_cons, hne, ← ih hrest]
      cases hnull : value.isNull <;> simp [List.lookup_cons, hnull, hne]

end FieldMap

/-! ## What is read from a config -/

namespace Definition

variable (definition : Definition) (config : Config)

/-- Nulls make no difference to the value of a field: a null counts as unset. -/
theorem fieldValue?_dropNulls (field : String) :
    definition.fieldValue? config.dropNulls field = definition.fieldValue? config field := by
  unfold fieldValue?
  rw [FieldMap.get?_dropNulls, Option.filter_filter]
  simp only [Bool.and_self]

/-- Nulls make no difference to the number of slots. -/
theorem slotCount_dropNulls :
    definition.slotCount config.dropNulls = definition.slotCount config :=
  slotCount_congr (fieldValue?_dropNulls definition config)

/-- Nulls make no difference to the pins of a node. -/
theorem materialize_dropNulls :
    definition.materialize config.dropNulls = definition.materialize config := by
  unfold materialize
  rw [slotCount_dropNulls]

end Definition

/-- A node with a config without null. -/
def Node.dropNulls (node : Node) : Node := { node with config := node.config.dropNulls }

namespace Graph

/-- A graph of which no config has null. -/
def dropNulls (graph : Graph) : Graph := { graph with nodes := graph.nodes.map Node.dropNulls }

/-- Without nulls, the node found for an id is the one found before, without its nulls. -/
theorem node?_dropNulls (graph : Graph) (id : String) :
    graph.dropNulls.node? id = (graph.node? id).map Node.dropNulls :=
  List.find?_map

/-- It does not matter whether aliases are resolved before nulls are dropped or after. -/
theorem resolveAliases_dropNulls (aliases : TypeAliases) (graph : Graph) :
    graph.dropNulls.resolveAliases aliases = (graph.resolveAliases aliases).dropNulls := by
  simp only [resolveAliases, dropNulls, List.map_map]
  rfl

end Graph

/-! ## The walk -/

/-- A walk over a graph of which no config has null mirrors the walk over the graph. -/
theorem Walk.dropNulls_mirrors (catalog : Catalog) (graph : Graph) :
    Walk.Mirrors ⟨catalog, graph.dropNulls⟩ ⟨catalog, graph⟩ id Node.dropNulls where
  catalog := rfl
  injective := Function.injective_id
  standsFor node := ⟨rfl, rfl, fun definition => definition.fieldValue?_dropNulls node.config⟩
  node? := graph.node?_dropNulls
  controlTargets nodeId pinId := (List.map_id (graph.controlTargets nodeId pinId)).symm
  dataSource? nodeId pinId := (congrFun Option.map_id (graph.dataSource? nodeId pinId)).symm

namespace Graph

/-- A graph is lowered to the same steps if null is left out of its configs. -/
theorem lower_dropNulls (catalog : Catalog) (graph : Graph) :
    graph.dropNulls.lower catalog = graph.lower catalog := by
  have hstart : graph.dropNulls.nodes.find? (fun node => catalog.isStart node.nodeType) =
      (graph.nodes.find? fun node => catalog.isStart node.nodeType).map Node.dropNulls :=
    List.find?_map
  unfold lower
  rw [hstart]
  cases graph.nodes.find? fun node => catalog.isStart node.nodeType with
  | none => rfl
  | some start => exact Walk.stepsFrom_mirror (Walk.dropNulls_mirrors catalog graph) start

end Graph

end AbilityGraph
