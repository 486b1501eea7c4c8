import AbilityGraph.Proofs.Compile.Nulls
import AbilityGraph.Proofs.Validate.WellFormed

/-!
# Null and absent config values

Whether the config of a node sets a field to null or does not have it makes no difference to the
pins of the node, to the steps of the graph, and to whether validation fails. It makes none to the
issues either, as long as the schema of the node's type has the field. Of a field that the schema
does not have validation warns even if it is null (`Graph.null_counts_as_unset`).

All passes of validation but one report the same on a graph without its nulls. The one that looks at
configs goes through the entries one by one (`Graph.report_configFindings`).
-/

set_option autoImplicit false

namespace AbilityGraph

/-- Nulls make no difference to the pins of a node. -/
theorem Catalog.pinsOf?_dropNulls (catalog : Catalog) (node : Node) :
    catalog.pinsOf? node.dropNulls = catalog.pinsOf? node := by
  unfold pinsOf?
  simp only [Node.dropNulls, Definition.materialize_dropNulls]

/-- Whether a config field is unknown to the schema of a type. -/
def Catalog.lacksField (catalog : Catalog) (nodeType key : String) : Bool :=
  (catalog.lookup? nodeType).any fun definition => !definition.schema.contains key

namespace Graph

/-! ## Passes that do not look at configs -/

/-- What is wrong with the ids of a graph. -/
def idFindings (graph : Graph) : List Finding :=
  (repeats (graph.nodes.map (·.id))).map .duplicateNodeId
    ++ (repeats (graph.edges.map (·.id))).map .duplicateEdgeId

/-- What is wrong with how the nodes of a graph are joined. -/
def wiringFindings (catalog : Catalog) (graph : Graph) : List Finding :=
  graph.edges.flatMap (graph.edgeFindings (graph.pinTable catalog))
    ++ graph.capacityFindings (graph.pinTable catalog)
    ++ flowFindings catalog graph (graph.pinTable catalog)
    ++ (ControlFlow.loopEdges graph.edges).map .controlCycle

/-- The reports on a node by itself. -/
def nodeReports (catalog : Catalog) (graph : Graph) (node : Node) : List Issue :=
  (nodeFindings catalog graph node).map Finding.report

/-- All reports on a graph. -/
def reports (catalog : Catalog) (graph : Graph) : List Issue :=
  (foundIn catalog graph).map Finding.report

/-- The reports on a graph are those on its ids, on each node by itself, and on how the nodes are
joined. -/
theorem reports_eq (catalog : Catalog) (graph : Graph) :
    graph.reports catalog = graph.idFindings.map Finding.report ++
      (graph.nodes.flatMap (nodeReports catalog graph) ++
        (graph.wiringFindings catalog).map Finding.report) := by
  unfold reports foundIn idFindings nodeReports wiringFindings
  simp only [List.map_append, List.map_flatMap, List.append_assoc]

/-- The issues of a graph are all reports on it, or that all is well if there are none. -/
theorem issues_of_validate {catalog : Catalog} {graph : Graph} {issues : List Issue}
    (h : graph.validate catalog = .ok issues) :
    issues = if (graph.reports catalog).isEmpty then [Finding.ok.report]
      else graph.reports catalog := by
  obtain ⟨-, rfl⟩ := (validate_eq_ok_iff catalog graph issues).1 h
  unfold reports
  cases foundIn catalog graph <;> rfl

section DropNulls

variable (catalog : Catalog) (graph : Graph)

/-- Nulls make no difference to the table of pins. -/
theorem pinTable_dropNulls : graph.dropNulls.pinTable catalog = graph.pinTable catalog := by
  unfold pinTable dropNulls
  rw [List.filterMap_map]
  simp only [Function.comp_def, Catalog.pinsOf?_dropNulls]
  rfl

/-- Nulls make no difference to what is wrong with an edge. -/
theorem edgeFindings_dropNulls (table : PinTable) :
    graph.dropNulls.edgeFindings table = graph.edgeFindings table := by
  funext edge
  unfold edgeFindings
  simp only [node?_dropNulls, Option.isNone_map]

/-- Without nulls the same nodes are the first with their ids. -/
theorem firstNodes_map_dropNulls (seen : List String) (nodes : List Node) :
    firstNodes seen (nodes.map Node.dropNulls) = (firstNodes seen nodes).map Node.dropNulls := by
  induction nodes generalizing seen with
  | nil => rfl
  | cons node rest ih =>
    have hid : node.dropNulls.id = node.id := rfl
    rw [List.map_cons, firstNodes, firstNodes, hid]
    split
    · exact ih seen
    · rw [ih, List.map_cons]

/-- Nulls make no difference to the reports on overfull pins. -/
theorem report_capacityFindings_dropNulls (table : PinTable) :
    (graph.dropNulls.capacityFindings table).map Finding.report =
      (graph.capacityFindings table).map Finding.report := by
  have hreport : ∀ (node : Node) (pin : Pin),
      (graph.dropNulls.capacityFinding? node.dropNulls pin).map Finding.report =
        (graph.capacityFinding? node pin).map Finding.report := by
    intro node pin
    have hinbound : graph.dropNulls.inboundCount node.dropNulls.id pin =
        graph.inboundCount node.id pin := rfl
    unfold capacityFinding?
    rw [hinbound]
    split
    · rw [Option.map_map, Option.map_map]
      rfl
    · rfl
  have hfirst : firstNodes [] graph.dropNulls.nodes =
      (firstNodes [] graph.nodes).map Node.dropNulls := firstNodes_map_dropNulls [] graph.nodes
  have hid : ∀ node : Node, node.dropNulls.id = node.id := fun _ => rfl
  unfold capacityFindings
  rw [hfirst, List.flatMap_map]
  simp only [List.map_flatMap, List.map_filterMap, hreport, hid]

/-- Nulls make no difference to the reports on the start and the flow from it. -/
theorem report_flowFindings_dropNulls (table : PinTable) :
    (flowFindings catalog graph.dropNulls table).map Finding.report =
      (flowFindings catalog graph table).map Finding.report := by
  have hstarts : startNodes catalog graph.dropNulls =
      (startNodes catalog graph).map Node.dropNulls := by
    unfold startNodes dropNulls
    rw [List.filter_map]
    rfl
  have hstart : ∀ start : Node,
      (startFindings catalog graph.dropNulls start.dropNulls).map Finding.report =
        (startFindings catalog graph start).map Finding.report := by
    intro start
    unfold startFindings
    have houtput : startOutput? catalog start.dropNulls = startOutput? catalog start := rfl
    have hedges : ∀ pinId, graph.dropNulls.edgesFrom ⟨start.dropNulls.id, pinId⟩ =
        graph.edgesFrom ⟨start.id, pinId⟩ := fun _ => rfl
    simp only [houtput, hedges]
    split <;> rfl
  have hunreachable : ∀ start : Node,
      (unreachableFindings catalog graph.dropNulls table start.dropNulls).map Finding.report =
        (unreachableFindings catalog graph table start).map Finding.report := by
    intro start
    have hnodes : graph.dropNulls.nodes = graph.nodes.map Node.dropNulls := rfl
    unfold unreachableFindings
    dsimp only
    rw [hnodes, List.filter_map, List.map_map, List.map_map, List.map_map]
    rfl
  unfold flowFindings
  rw [hstarts]
  cases startNodes catalog graph with
  | nil => rfl
  | cons start others =>
    simp only [List.map_cons, List.map_append, hstart, hunreachable, List.map_map]
    rfl

/-- Nulls make no difference to what is wrong with the ids. -/
theorem idFindings_dropNulls : graph.dropNulls.idFindings = graph.idFindings := by
  unfold idFindings dropNulls
  rw [List.map_map]
  rfl

/-- Nulls make no difference to the reports on how the nodes are joined. -/
theorem report_wiringFindings_dropNulls :
    (graph.dropNulls.wiringFindings catalog).map Finding.report =
      (graph.wiringFindings catalog).map Finding.report := by
  have hedges : graph.dropNulls.edges = graph.edges := rfl
  unfold wiringFindings
  simp only [pinTable_dropNulls, hedges, edgeFindings_dropNulls, List.map_append,
    report_capacityFindings_dropNulls, report_flowFindings_dropNulls]

/-- Validation of a graph without its nulls fails alike. -/
theorem failAlike_validate_dropNulls :
    FailAlike (graph.dropNulls.validate catalog) (graph.validate catalog) := by
  have hnode : ∀ node : Node, FailAlike (checkNode catalog graph.dropNulls node.dropNulls)
      (checkNode catalog graph node) := by
    intro node
    have htype : node.dropNulls.nodeType = node.nodeType := rfl
    unfold checkNode
    rw [htype]
    cases catalog.lookup? node.nodeType with
    | none => exact .ok _ _
    | some definition =>
      have hpins : definition.materialize node.dropNulls.config =
          definition.materialize node.config := definition.materialize_dropNulls node.config
      dsimp only
      rw [hpins]
      cases definition.materialize node.config with
      | error fault => exact .error fault
      | ok pins => exact .ok _ _
  unfold validate findings checkNodes
  have hnodes : graph.dropNulls.nodes = graph.nodes.map Node.dropNulls := rfl
  rw [hnodes, List.mapM_map]
  refine FailAlike.bind (FailAlike.bind (FailAlike.bind (FailAlike.mapM (fun node => ?_) _)
    fun _ _ => .ok _ _) fun _ _ => .ok _ _) fun _ _ => .ok _ _
  exact (hnode node).bind fun _ _ => .ok _ _

end DropNulls

/-! ## The pass that looks at configs -/

section Config

variable (catalog : Catalog) (definition : Definition) (graph : Graph) (node : Node)
  (config : Config)

/-- What is reported on the config of a node is reported on its entries one by one, and of the node
only the id and the type are mentioned. -/
theorem report_configFindings :
    (configFindings definition { node with config := config }).map Finding.report =
      config.entries.filterMap fun e =>
        (configFinding? definition node e.1 e.2).map Finding.report := by
  have hentry : ∀ (key : String) (value : Value),
      (configFinding? definition { node with config := config } key value).map Finding.report =
        (configFinding? definition node key value).map Finding.report := by
    intro key value
    unfold configFinding?
    split
    · rfl
    · split
      · rfl
      · rw [Option.map_map, Option.map_map]
        rfl
  unfold configFindings
  simp only [List.map_filterMap, hentry]

/-- The config of a node makes no difference to the reports on its required pins, for the same
pins. -/
theorem report_requiredPinFindings (pins : List Pin) :
    (requiredPinFindings graph { node with config := config } pins).map Finding.report =
      (requiredPinFindings graph node pins).map Finding.report := by
  unfold requiredPinFindings
  rw [List.map_map, List.map_map]
  rfl

/-- What is reported on a node by itself depends on the edges of its graph, not on other nodes. -/
theorem nodeReports_congr {graph other : Graph} (hedges : graph.edges = other.edges) :
    nodeReports catalog graph = nodeReports catalog other := by
  funext node
  unfold nodeReports nodeFindings requiredPinFindings isConnected edgesInto edgesFrom
  simp only [hedges]

end Config

/-! ## Changing one config -/

/-- A graph in which the config of the node at a place is changed. -/
def changeConfig (graph : Graph) (place : Nat) (change : Config → Config) : Graph :=
  { graph with nodes := graph.nodes.modify place fun node =>
      { node with config := change node.config } }

/-- A graph in which the config of the node at a place has null for a field. -/
def setNull (graph : Graph) (place : Nat) (key : String) : Graph :=
  graph.changeConfig place (·.insert key .null)

/-- A graph in which the config of the node at a place does not have a field. -/
def unset (graph : Graph) (place : Nat) (key : String) : Graph :=
  graph.changeConfig place (·.erase key)

/-- A field that is null is reported only if the type of the node lacks it; apart from that the same
is reported on the node as without the field. -/
theorem nodeReports_insert_null (catalog : Catalog) (graph : Graph) (node : Node) (key : String) :
    ∃ before after,
      nodeReports catalog graph { node with config := node.config.insert key .null } =
        before ++ ((if catalog.lacksField node.nodeType key then
          [(Finding.unknownConfigField key node).report] else []) ++ after) ∧
      nodeReports catalog graph { node with config := node.config.erase key } =
        before ++ after := by
  unfold nodeReports nodeFindings Catalog.lacksField
  dsimp only
  cases catalog.lookup? node.nodeType with
  | none => exact ⟨[], _, rfl, rfl⟩
  | some definition =>
    have hpins : catalog.pinsOf? { node with config := node.config.insert key .null } =
        catalog.pinsOf? { node with config := node.config.erase key } := by
      rw [← catalog.pinsOf?_dropNulls,
        ← catalog.pinsOf?_dropNulls { node with config := node.config.erase key }]
      simp only [Node.dropNulls, FieldMap.dropNulls_insert_null]
    obtain ⟨before, after, hinsert, herase⟩ := node.config.exists_entries_around key Value.null
    simp only [List.map_append, report_configFindings, report_requiredPinFindings, hpins, hinsert,
      herase, List.filterMap_append, List.append_assoc]
    refine ⟨_, _, congrArg _ ?_, rfl⟩
    have hnull : (configFinding? definition node key .null).map Finding.report =
        if !definition.schema.contains key then some (Finding.unknownConfigField key node).report
        else none := by
      unfold configFinding? FieldMap.contains
      cases definition.schema.get? key <;> rfl
    rw [List.filterMap_cons, hnull, Option.any_some]
    cases definition.schema.contains key <;> rfl

section ChangeConfig

variable (catalog : Catalog) (graph : Graph) (place : Nat) (key : String)

/-- Without nulls it does not matter whether a field was set to null or taken out. -/
theorem dropNulls_setNull :
    (graph.setNull place key).dropNulls = (graph.unset place key).dropNulls := by
  have hnodes : (graph.setNull place key).nodes.map Node.dropNulls =
      (graph.unset place key).nodes.map Node.dropNulls := by
    unfold setNull unset changeConfig
    apply List.ext_getElem?
    intro i
    simp only [List.getElem?_map, List.getElem?_modify]
    cases graph.nodes[i]? with
    | none => rfl
    | some node =>
      split <;> simp only [Option.map_eq_map, Option.map_some, Node.dropNulls,
        FieldMap.dropNulls_insert_null]
  unfold dropNulls
  rw [hnodes]
  rfl

/-- Validation fails with a field set to null just if it fails without the field. -/
theorem failAlike_validate_setNull :
    FailAlike ((graph.setNull place key).validate catalog)
      ((graph.unset place key).validate catalog) := by
  have hnulled := failAlike_validate_dropNulls catalog (graph.setNull place key)
  have hunset := failAlike_validate_dropNulls catalog (graph.unset place key)
  rw [dropNulls_setNull] at hnulled
  exact hnulled.symm.trans hunset

/-- The reports on a graph that has null for a field are those on the graph without the field, and
one more if the type of the node lacks the field. -/
theorem reports_setNull {node : Node} (hnode : graph.nodes[place]? = some node) :
    ∃ before after,
      (graph.setNull place key).reports catalog =
        before ++ ((if catalog.lacksField node.nodeType key then
          [(Finding.unknownConfigField key node).report] else []) ++ after) ∧
      (graph.unset place key).reports catalog = before ++ after := by
  obtain ⟨hplace, hget⟩ := List.getElem?_eq_some_iff.1 hnode
  obtain ⟨before, after, hinsert, herase⟩ := nodeReports_insert_null catalog graph node key
  have hids : (graph.setNull place key).idFindings = (graph.unset place key).idFindings := by
    rw [← idFindings_dropNulls, dropNulls_setNull, idFindings_dropNulls]
  have hwiring : ((graph.setNull place key).wiringFindings catalog).map Finding.report =
      ((graph.unset place key).wiringFindings catalog).map Finding.report := by
    rw [← report_wiringFindings_dropNulls, dropNulls_setNull, report_wiringFindings_dropNulls]
  -- Only the reports on the changed node differ; they stand between those on the others.
  have hnodes : ∀ change : Config → Config,
      (graph.changeConfig place change).nodes.flatMap
          (nodeReports catalog (graph.changeConfig place change)) =
        (graph.nodes.take place).flatMap (nodeReports catalog graph) ++
          (nodeReports catalog graph { node with config := change node.config } ++
            (graph.nodes.drop (place + 1)).flatMap (nodeReports catalog graph)) := by
    intro change
    have hcongr : nodeReports catalog (graph.changeConfig place change) =
        nodeReports catalog graph := nodeReports_congr catalog rfl
    rw [hcongr]
    unfold changeConfig
    rw [List.modify_eq_take_cons_drop hplace, hget, List.flatMap_append, List.flatMap_cons]
  have hnulled := reports_eq catalog (graph.setNull place key)
  have hunset := reports_eq catalog (graph.unset place key)
  rw [hids, hwiring, setNull, hnodes, hinsert] at hnulled
  rw [unset, hnodes, herase] at hunset
  refine ⟨(graph.unset place key).idFindings.map Finding.report ++
      ((graph.nodes.take place).flatMap (nodeReports catalog graph) ++ before),
    after ++ ((graph.nodes.drop (place + 1)).flatMap (nodeReports catalog graph) ++
      ((graph.unset place key).wiringFindings catalog).map Finding.report), ?_, ?_⟩
  · rw [setNull, hnulled]
    simp only [List.append_assoc]
  · rw [unset, hunset]
    simp only [List.append_assoc]

/-- A graph is compiled to the same steps without its nulls, if it can be compiled. -/
theorem map_steps_compile_dropNulls (aliases : TypeAliases) :
    (graph.dropNulls.compile catalog aliases).map (·.steps) =
      (graph.compile catalog aliases).map (·.steps) := by
  have hlower := lower_dropNulls catalog (graph.resolveAliases aliases)
  have hvalidate := failAlike_validate_dropNulls catalog (graph.resolveAliases aliases)
  unfold compile
  rw [resolveAliases_dropNulls]
  dsimp only
  rw [hlower]
  generalize (graph.resolveAliases aliases).dropNulls.validate catalog = issues at hvalidate ⊢
  generalize (graph.resolveAliases aliases).validate catalog = others at hvalidate ⊢
  cases hvalidate <;> rfl

end ChangeConfig

end Graph

/-- A node has the same pins whether a field is set to null or taken out. -/
theorem Catalog.materialize_insert_null (catalog : Catalog) (nodeType : String) (config : Config)
    (key : String) : catalog.materialize nodeType (config.insert key .null) =
      catalog.materialize nodeType (config.erase key) := by
  unfold materialize
  cases catalog.lookup? nodeType with
  | none => rfl
  | some definition =>
    dsimp only
    rw [← definition.materialize_dropNulls, FieldMap.dropNulls_insert_null,
      definition.materialize_dropNulls]

/-- If the config of a node has null for a field, the node has the same pins as without the field,
and the graph is compiled to the same steps. Validation fails for both graphs or for neither. It
reports the same on both, unless the type of the node is known and lacks the field: then it reports
one thing more, which is a warning of this field. -/
theorem Graph.null_counts_as_unset (catalog : Catalog) (graph : Graph) (place : Nat)
    (key : String) :
    (∀ nodeType (config : Config), catalog.materialize nodeType (config.insert key .null) =
      catalog.materialize nodeType (config.erase key)) ∧
    (∀ aliases, ((graph.setNull place key).compile catalog aliases).map (·.steps) =
      ((graph.unset place key).compile catalog aliases).map (·.steps)) ∧
    ((∀ node, graph.nodes[place]? = some node → catalog.lacksField node.nodeType key = false) →
      (graph.setNull place key).validate catalog = (graph.unset place key).validate catalog) ∧
    ∀ node, graph.nodes[place]? = some node → catalog.lacksField node.nodeType key = true →
      (∃ fault, (graph.setNull place key).validate catalog = .error fault ∧
        (graph.unset place key).validate catalog = .error fault) ∨
      ∃ before after,
        (graph.setNull place key).validate catalog =
          .ok (before ++ (Finding.unknownConfigField key node).report :: after) ∧
        (graph.unset place key).validate catalog =
          .ok (if (before ++ after).isEmpty then [Finding.ok.report] else before ++ after) := by
  have hfail := (failAlike_validate_setNull catalog graph place key).error_or_ok
  refine ⟨fun nodeType config => catalog.materialize_insert_null nodeType config key,
    fun aliases => ?steps, fun hdeclared => ?declared, fun node hnode hlacks => ?lacking⟩
  case steps =>
    rw [← map_steps_compile_dropNulls, dropNulls_setNull, map_steps_compile_dropNulls]
  case declared =>
    -- With the field in the schema no report is added, so even the lists of reports are the same.
    have hreports : (graph.setNull place key).reports catalog =
        (graph.unset place key).reports catalog := by
      cases hnode : graph.nodes[place]? with
      | none =>
        have hsame : ∀ change, graph.changeConfig place change = graph := by
          intro change
          unfold changeConfig
          rw [List.modify_eq_self (List.getElem?_eq_none_iff.1 hnode)]
        rw [setNull, unset, hsame, hsame]
      | some node =>
        obtain ⟨before, after, hnulled, hunset⟩ := reports_setNull catalog graph place key hnode
        rw [hnulled, hunset, hdeclared node hnode]
        rfl
    rcases hfail with ⟨fault, hnulled, hunset⟩ | ⟨issues, others, hnulled, hunset⟩
    · rw [hnulled, hunset]
    · rw [hnulled, hunset, issues_of_validate hnulled, issues_of_validate hunset, hreports]
  case lacking =>
    rcases hfail with hfault | ⟨issues, others, hnulled, hunset⟩
    · exact .inl hfault
    · obtain ⟨before, after, hmore, hreports⟩ := reports_setNull catalog graph place key hnode
      rw [hlacks] at hmore
      refine .inr ⟨before, after, ?_, ?_⟩
      · rw [hnulled, issues_of_validate hnulled, hmore]
        simp
      · rw [hunset, issues_of_validate hunset, hreports]

/-- Null is warned of at a field that the type of the node lacks, and without the field there is no
such warning. -/
theorem unjoined_setNull_validate :
    Catalog.load [Builtin.start, Builtin.action "heal" "Heal" "HEAL" []] "start" = .ok .healing ∧
      (unjoined.setNull 1 "colour").validate .healing =
        .ok ([.unknownConfigField "colour" ⟨"heal", "heal", .empty⟩,
          .startUnconnected ⟨"start", "start", .empty⟩ "execOut",
          .unreachableNode ⟨"heal", "heal", .empty⟩].map Finding.report) ∧
      (unjoined.unset 1 "colour").validate .healing =
        .ok ([.startUnconnected ⟨"start", "start", .empty⟩ "execOut",
          .unreachableNode ⟨"heal", "heal", .empty⟩].map Finding.report) := by
  refine ⟨?_, ?_, ?_⟩
  all_goals with_unfolding_all rfl

end AbilityGraph
