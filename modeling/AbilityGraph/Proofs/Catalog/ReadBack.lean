import AbilityGraph.Catalog.Wire
import AbilityGraph.Proofs.Catalog
import AbilityGraph.Proofs.Definition.ReadBack
import AbilityGraph.Proofs.Graph.ReadBack

/-!
# Catalogs and graphs survive export and import

A catalog that was read holds definitions that were read, so from what is written for it the same
definitions are read in the same order, with the same start type (`Catalog.readsBack_content`), and
they pass the same checks again. So a catalog that was read and any graph can be exported and
imported without any change (`exports_read_back`).
-/

set_option autoImplicit false

namespace AbilityGraph

open Wire (Member ReadsBack)

namespace Catalog

/-- The content of a catalog is read back if its definitions are. -/
theorem readsBack_content {catalog : Catalog}
    (h : ∀ definition ∈ catalog.definitions, definition.Expressible) :
    ReadsBack contentOfWire? catalog.toJson (catalog.startType, catalog.definitions) := by
  apply Wire.readsBack_record [
    .withDefault "startNodeType" usualStartType (Wire.readsBack_string catalog.startType),
    .required "nodes" (Wire.readsBack_list fun definition hdefinition =>
      Definition.readsBack (h definition hdefinition))]
  · simp [Member.always, Member.required, Member.withDefault]
  · intro w find hfound hread
    simp only [Member.always, Member.required, Member.withDefault, List.map_cons, List.map_nil,
      List.forall_mem_cons] at hfound hread
    simp [contentOfWire?, hfound, hread]

/-- All definitions in a catalog that was read can be written so that they are read back. -/
theorem expressible_of_contentOfWire? {w : Wire} {startType : String}
    {definitions : List Definition} (h : contentOfWire? w = some (startType, definitions)) :
    ∀ definition ∈ definitions, definition.Expressible := by
  simp only [contentOfWire?, Option.bind_eq_bind, Option.bind_eq_some_iff] at h
  obtain ⟨found, -, h⟩ := h
  split at h
  next =>
    simp only [Option.bind_eq_some_iff] at h
    obtain ⟨_, -, _, hnodes, ⟨⟩⟩ := h
    intro definition hdefinition
    obtain ⟨_, hlist⟩ := Wire.exists_of_required hnodes
    obtain ⟨_, -, _, -, hread⟩ := Wire.exists_of_list? hlist hdefinition
    exact Definition.expressible_of_ofWire? hread
  next => cases h

/-- A catalog is read just if its content is, and passes the checks of loading. -/
theorem ofWire_eq_ok_iff {w : Wire} {catalog : Catalog} : ofWire w = .ok catalog ↔
    contentOfWire? w = some (catalog.startType, catalog.definitions) ∧
      load catalog.definitions catalog.startType = .ok catalog := by
  unfold ofWire
  constructor
  · intro h
    split at h
    next startType definitions hcontent =>
      have hload := mapError_eq_ok_iff.1 h
      obtain ⟨rfl, -⟩ := load_eq_ok hload
      exact ⟨hcontent, hload⟩
    next => cases h
  · rintro ⟨hcontent, hload⟩
    rw [hcontent]
    exact mapError_eq_ok_iff.2 hload

end Catalog

/-- Catalogs and graphs survive export and import. What is written for a catalog that was read is
accepted again, and gives the same start type and the same definitions in the same order. A graph is
read back as it is, if the timestamps of its edges are read back from their text. -/
theorem exports_read_back :
    (∀ w catalog, Catalog.ofWire w = .ok catalog →
      ∃ value, (Wire.ofJson catalog.toJson).Shows value ∧
        ∀ w' : Wire, w'.Shows value → Catalog.ofWire w' = .ok catalog) ∧
    ∀ graph : Graph,
      (∀ edge ∈ graph.edges, ∀ t, edge.createdAt = some t → Timestamp.ofText? t.text = some t) →
        ReadsBack Graph.ofWire? graph.toJson graph := by
  constructor
  · intro w catalog hread
    obtain ⟨hcontent, hload⟩ := Catalog.ofWire_eq_ok_iff.1 hread
    have hback := Catalog.readsBack_content (Catalog.expressible_of_contentOfWire? hcontent)
    obtain ⟨value, hshows, hback⟩ := hback
    exact ⟨value, hshows, fun w' hw' => Catalog.ofWire_eq_ok_iff.2 ⟨hback w' hw', hload⟩⟩
  · exact fun graph h => Graph.readsBack h

/-- A catalog file of one definition, with a bound that is given as an integer, a default value that
is null, a lowering that is given as an array, and a member that no catalog has. -/
def soloFile : Wire :=
  .object [("version", .null), ("nodes", .array [.object [
    ("nodeType", .string "start"), ("label", .string "Start"), ("category", .string "flow"),
    ("configSchema", .object [("delay", .object [("type", .string "number"), ("default", .null),
      ("minimum", .number (.integer 1))])]),
    ("pins", .array [.object [("id", .string "out"), ("label", .string "Out"),
      ("kind", .string "CONTROL"), ("direction", .string "OUT")]]),
    ("compile", .array [.string "entry", .string "out"])]])]

/-- The catalog in the file. -/
def solo : Catalog :=
  ⟨[⟨"start", "Start", "flow", .ofList [("delay", ⟨.number, none, none, some (.ofInt 1), none⟩)],
    [.controlOut "out" "Out"], none, .entry "out"⟩], "start"⟩

/-- A time within a leap second. -/
def leapSecond : Timestamp := ⟨⟨2016, 12, 31⟩, ⟨23, 59, 60, 500000000⟩⟩

/-- A graph with an edge that was made then, and with a config value that is null. -/
def stamped : Graph :=
  ⟨"stamped", [⟨"start", "start", .ofList [("delay", .null)]⟩],
    [⟨"loop", .control, some (.oneOf ["number", "string"]), ⟨"start", "out"⟩, ⟨"start", "in"⟩,
      some leapSecond⟩]⟩

/-- The catalog in the file is written and read again, and so is the graph. -/
theorem solo_and_stamped_read_back :
    Catalog.ofWire soloFile = .ok solo ∧
    (∃ value, (Wire.ofJson solo.toJson).Shows value ∧
      ∀ w' : Wire, w'.Shows value → Catalog.ofWire w' = .ok solo) ∧
    (∀ edge ∈ stamped.edges, ∀ t, edge.createdAt = some t → Timestamp.ofText? t.text = some t) ∧
    ReadsBack Graph.ofWire? stamped.toJson stamped := by
  have hfile : Catalog.ofWire soloFile = .ok solo := rfl
  have hstamps : ∀ edge ∈ stamped.edges, ∀ t, edge.createdAt = some t →
      Timestamp.ofText? t.text = some t := by
    intro edge hedge t ht
    rw [List.mem_singleton.1 hedge] at ht
    cases ht
    exact Timestamp.ofText?_text ⟨by decide, by decide, by decide, by decide, by decide⟩
  obtain ⟨hcatalogs, hgraphs⟩ := exports_read_back
  exact ⟨hfile, hcatalogs _ _ hfile, hstamps, hgraphs _ hstamps⟩

end AbilityGraph
