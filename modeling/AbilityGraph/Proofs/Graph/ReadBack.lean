import AbilityGraph.Graph.Wire
import AbilityGraph.Proofs.Pin.ReadBack
import AbilityGraph.Proofs.Timestamp

/-!
# Graphs are read back

Nothing is left out of a written graph, so every graph is read back whose timestamps are read back
from their text (`Graph.readsBack`), as all valid timestamps are (`Graph.readsBack_of_isValid`).
-/

set_option autoImplicit false

namespace AbilityGraph

open Wire (Member ReadsBack)

/-- A config is read back. -/
theorem Config.readsBack (config : Config) : ReadsBack ofWire? (toJson config) config :=
  Wire.readsBack_fieldMap fun entry _ => Wire.readsBack_value entry.2

/-- A time is read back if its text denotes it. -/
theorem Timestamp.readsBack {t : Timestamp} (h : ofText? t.text = some t) :
    ReadsBack ofWire? t.toJson t := by
  apply Wire.readsBack_of_isPlain rfl
  show (some t.text).bind ofText? = some t
  rw [Option.bind_some, h]

/-- A node is read back. -/
theorem Node.readsBack (node : Node) : ReadsBack ofWire? node.toJson node := by
  apply Wire.readsBack_record [
    .required "id" (Wire.readsBack_string node.id),
    .required "nodeType" (Wire.readsBack_string node.nodeType),
    .withDefault "config" .empty node.config.readsBack]
  · simp [Member.always, Member.required, Member.withDefault]
  · intro w find hfound hread
    simp only [Member.always, Member.required, Member.withDefault, List.map_cons, List.map_nil,
      List.forall_mem_cons] at hfound hread
    simp [ofWire?, hfound, hread]

/-- A reference to a pin is read back. -/
theorem PinRef.readsBack (pin : PinRef) : ReadsBack ofWire? pin.toJson pin := by
  apply Wire.readsBack_record [
    .required "nodeId" (Wire.readsBack_string pin.nodeId),
    .required "pinId" (Wire.readsBack_string pin.pinId)]
  · simp [Member.always, Member.required]
  · intro w find hfound hread
    simp only [Member.always, Member.required, List.map_cons, List.map_nil,
      List.forall_mem_cons] at hfound hread
    simp [ofWire?, hfound, hread]

/-- An edge is read back if its timestamp is. -/
theorem Edge.readsBack {edge : Edge}
    (h : ∀ t, edge.createdAt = some t → Timestamp.ofText? t.text = some t) :
    ReadsBack ofWire? edge.toJson edge := by
  apply Wire.readsBack_record [
    .required "id" (Wire.readsBack_string edge.id),
    .required "edgeKind" edge.kind.readsBack,
    .optional "dataType" DataType.toJson edge.dataType (fun dataType _ => dataType.readsBack)
      fun dataType _ => dataType.toJson_ne_null,
    .required "from" edge.source.readsBack,
    .required "to" edge.target.readsBack,
    .optional "createdAt" Timestamp.toJson edge.createdAt
      (fun t ht => Timestamp.readsBack (h t ht)) nofun]
  · simp [Member.always, Member.required, Member.optional]
  · intro w find hfound hread
    simp only [Member.always, Member.required, Member.optional, List.map_cons, List.map_nil,
      List.forall_mem_cons] at hfound hread
    simp [ofWire?, hfound, hread]

/-- A graph is read back if the timestamps of its edges are. -/
theorem Graph.readsBack {graph : Graph}
    (h : ∀ edge ∈ graph.edges, ∀ t, edge.createdAt = some t → Timestamp.ofText? t.text = some t) :
    ReadsBack ofWire? graph.toJson graph := by
  apply Wire.readsBack_record [
    .required "id" (Wire.readsBack_string graph.id),
    .withDefault "nodes" [] (Wire.readsBack_list fun node _ => node.readsBack),
    .withDefault "edges" [] (Wire.readsBack_list fun edge hedge => Edge.readsBack (h edge hedge))]
  · simp [Member.always, Member.required, Member.withDefault]
  · intro w find hfound hread
    simp only [Member.always, Member.required, Member.withDefault, List.map_cons, List.map_nil,
      List.forall_mem_cons] at hfound hread
    simp [ofWire?, hfound, hread]

/-- A graph is read back if the times of its edges are valid. -/
theorem Graph.readsBack_of_isValid {graph : Graph}
    (h : ∀ edge ∈ graph.edges, ∀ t, edge.createdAt = some t → t.IsValid) :
    ReadsBack ofWire? graph.toJson graph :=
  readsBack fun edge hedge t ht => Timestamp.ofText?_text (h edge hedge t ht)

end AbilityGraph
