import AbilityGraph.Proofs.Compile.DepthFirst
import AbilityGraph.Proofs.Pins
import Mathlib.Data.List.Forall2
import Mathlib.Data.List.Nodup

/-!
# The nodes that a walk visits

The flow goes on from a node along the control edges at the outputs that its lowering names
(`Walk.Follows`). The recursion that lowers nodes visits all that the flow leads to and nothing
else, no node id twice, and each visited node whose type has a step adds just this step to the tree
(`Visits`). So the steps in the tree, each before those nested in it, are those of the live nodes
one by one (`exists_origins`).
-/

set_option autoImplicit false

namespace AbilityGraph

/-! ## The steps in a tree -/

namespace Step

mutual

/-- The steps of a sequence and all steps nested in them, each step before those in its parts. -/
def inside : List Step → List Step
  | [] => []
  | step :: rest => step.withNested ++ inside rest

/-- A step and all steps nested in it. -/
def withNested : Step → List Step
  | action type fields => [action type fields]
  | branch type condition thenSteps elseIf elseSteps =>
    branch type condition thenSteps elseIf elseSteps ::
      (inside thenSteps ++ insideClauses elseIf ++ inside elseSteps)

/-- The steps nested in else-if clauses. -/
def insideClauses : List (Condition × List Step) → List Step
  | [] => []
  | (_, steps) :: rest => inside steps ++ insideClauses rest

end

/-- A step without the steps nested in it. -/
def bare : Step → Step
  | action type fields => action type fields
  | branch type condition _ elseIf _ => branch type condition [] (elseIf.map fun c => (c.1, [])) []

/-- The steps in a tree are those of its entries, one entry after the other. -/
theorem inside_eq_flatMap (steps : List Step) : inside steps = steps.flatMap withNested := by
  induction steps with
  | nil => simp [inside]
  | cons step rest ih => simp [inside, ih]

/-- The steps nested in clauses are those of their sequences, one clause after the other. -/
theorem insideClauses_eq_flatMap (clauses : List (Condition × List Step)) :
    insideClauses clauses = clauses.flatMap fun c => inside c.2 := by
  induction clauses with
  | nil => simp [insideClauses]
  | cons clause rest ih => simp [insideClauses, ih]

/-- The steps in two sequences together are those in the first and then those in the second. -/
theorem inside_append (steps others : List Step) :
    inside (steps ++ others) = inside steps ++ inside others := by
  simp only [inside_eq_flatMap, List.flatMap_append]

/-- The steps in sequences together are those in each, one sequence after the other. -/
theorem inside_flatten (lists : List (List Step)) :
    inside lists.flatten = lists.flatMap inside := by
  induction lists with
  | nil => simp [inside]
  | cons steps rest ih => rw [List.flatten_cons, inside_append, ih, List.flatMap_cons]

end Step

/-! ## Where the flow goes on -/

/-- Whether nodes that are lowered in this way become steps of their own. -/
def Lowering.hasStep : Lowering → Bool
  | step _ _ _ | branch _ _ _ _ _ _ => true
  | entry _ | literal _ | data => false

/-- Whether nodes of a type become steps of their own. -/
def Catalog.givesSteps (catalog : Catalog) (nodeType : String) : Bool :=
  (catalog.lookup? nodeType).any (·.lowering.hasStep)

/-- Nodes of a type become steps just if the type is in the catalog and its lowering has a step. -/
theorem Catalog.givesSteps_iff {catalog : Catalog} {nodeType : String} :
    catalog.givesSteps nodeType = true ↔ ∃ definition,
      catalog.lookup? nodeType = some definition ∧ definition.lowering.hasStep = true := by
  unfold givesSteps
  cases catalog.lookup? nodeType <;> simp

namespace Definition

/-- The outputs that the lowering of a node names, at which the flow goes on from it. -/
def flowOutputs (definition : Definition) (config : Config) : List String :=
  match definition.lowering with
  | .entry next => [next]
  | .step _ _ next => next.toList
  | .branch _ _ thenOut elseIf elseOut next =>
    let clauseOuts := match elseIf with
      | some pins => (List.range (definition.slotCount config)).map (substitute pins.thenOut)
      | none => []
    thenOut :: clauseOuts ++ elseOut :: next.toList
  | .literal _ => []
  | .data => []

end Definition

namespace Walk

/-- The flow goes on from one node to another: a control edge leads there from an output that the
lowering of the node names. -/
def Follows (walk : Walk) (source target : String) : Prop :=
  ∃ node definition, walk.graph.node? source = some node ∧
    walk.catalog.lookup? node.nodeType = some definition ∧
    ∃ e ∈ walk.graph.edges, e.kind = .control ∧ e.source.nodeId = source ∧
      e.source.pinId ∈ definition.flowOutputs node.config ∧ e.target.nodeId = target

/-- The flow comes from one node to another. -/
abbrev Live (walk : Walk) : String → String → Prop := Relation.ReflTransGen walk.Follows

/-- The step that a node becomes, without what is nested in it; nothing if its type has no step. -/
def ownStep? (walk : Walk) (node : Node) : Option Step :=
  (walk.catalog.lookup? node.nodeType).bind fun definition =>
    match definition.lowering with
    | .step type fields _ => some (.action type (actionFields definition node fields))
    | .branch type condition _ elseIf _ _ =>
      some (.branch type (walk.conditionAt node.id condition) []
        ((walk.clauseOutputs definition node elseIf).map fun c => (c.1, [])) [])
    | .entry _ | .literal _ | .data => none

/-- A node has a step of its own just if its type gives steps. -/
theorem isSome_ownStep? (walk : Walk) (node : Node) :
    (walk.ownStep? node).isSome = walk.catalog.givesSteps node.nodeType := by
  unfold ownStep? Catalog.givesSteps
  cases walk.catalog.lookup? node.nodeType with
  | none => rfl
  | some definition =>
    rw [Option.bind_some, Option.any_some]
    cases definition.lowering <;> rfl

/-- The node with an id, if its type has a step. -/
def origin? (walk : Walk) (nodeId : String) : Option Node :=
  (walk.graph.node? nodeId).filter fun node => (walk.ownStep? node).isSome

/-- A step of the tree is the one that a node becomes. -/
def Becomes (walk : Walk) (node : Node) (step : Step) : Prop := walk.ownStep? node = some step.bare

/-- The flow goes on at an output to the nodes that control edges lead to from there. -/
theorem mem_targetsOf_iff {walk : Walk} {node : Node} {output : Option String} {target : String} :
    target ∈ walk.targetsOf node output ↔ ∃ e ∈ walk.graph.edges, e.kind = .control ∧
      e.source.nodeId = node.id ∧ some e.source.pinId = output ∧ e.target.nodeId = target := by
  cases output with
  | none => simp [targetsOf]
  | some pinId =>
    have hsource : ∀ e : Edge, e.source = ⟨node.id, pinId⟩ ↔
        e.source.nodeId = node.id ∧ e.source.pinId = pinId := by
      intro e
      rw [← PinRef.mk.injEq]
    simp only [targetsOf, Graph.controlTargets, Graph.edgesFrom, List.mem_map, List.mem_filter,
      beq_iff_eq, hsource, Option.some.injEq]
    constructor
    · rintro ⟨e, ⟨⟨he, hnode, hpin⟩, hkind⟩, htarget⟩
      exact ⟨e, he, hkind, hnode, hpin, htarget⟩
    · rintro ⟨e, he, hkind, hnode, hpin, htarget⟩
      exact ⟨e, ⟨⟨he, hnode, hpin⟩, hkind⟩, htarget⟩

/-! ## What is visited -/

/-- What it means to lower some nodes after others were visited: the new ids are visited in order
and once, they are those to which the flow comes from these nodes if it avoids what was visited
before, and the steps found are those of the new nodes in this order. -/
structure Visits (walk : Walk) (roots visited seen news : List String) (steps : List Step) :
    Prop where
  seen_eq : seen = news.reverse ++ visited
  nodup : news.Nodup
  fresh : ∀ id ∈ news, id ∉ visited
  covers : ∀ id ∈ roots, id ∈ seen
  closed : ∀ id ∈ news, ∀ target, walk.Follows id target → target ∈ seen
  live : ∀ id ∈ news, ∃ root ∈ roots, walk.Live root id
  becomes : List.Forall₂ walk.Becomes (news.filterMap walk.origin?) steps

namespace Visits

variable {walk : Walk} {roots more visited seen later news newer : List String}
  {steps others : List Step} {nodeId : String}

/-- Lowering no nodes visits nothing and finds no steps. -/
theorem nil (walk : Walk) (visited : List String) : Visits walk [] visited visited [] [] where
  seen_eq := rfl
  nodup := .nil
  fresh := by simp
  covers := by simp
  closed := by simp
  live := by simp
  becomes := .nil

/-- What was visited before stays visited. -/
theorem subset (h : Visits walk roots visited seen news steps) : ∀ id ∈ visited, id ∈ seen := by
  intro id hid
  rw [h.seen_eq]
  exact List.mem_append_right _ hid

/-- The new ids are among those visited at the end. -/
theorem mem_seen (h : Visits walk roots visited seen news steps) : ∀ id ∈ news, id ∈ seen := by
  intro id hid
  rw [h.seen_eq]
  exact List.mem_append_left _ (List.mem_reverse.2 hid)

/-- A node that was visited before is not lowered again. -/
theorem skip (h : nodeId ∈ visited) : Visits walk [nodeId] visited visited [] [] :=
  { nil walk visited with
    covers := by simpa using h
    live := by simp }

/-- Nodes are lowered one after the other. -/
theorem append (h : Visits walk roots visited seen news steps)
    (hmore : Visits walk more seen later newer others) :
    Visits walk (roots ++ more) visited later (news ++ newer) (steps ++ others) where
  seen_eq := by rw [hmore.seen_eq, h.seen_eq, List.reverse_append, List.append_assoc]
  nodup := by
    refine List.nodup_append.2 ⟨h.nodup, hmore.nodup, fun id hid other hother heq => ?_⟩
    exact hmore.fresh other hother (heq ▸ h.mem_seen id hid)
  fresh id hid hvisited := by
    rcases List.mem_append.1 hid with hid | hid
    · exact h.fresh id hid hvisited
    · exact hmore.fresh id hid (h.subset id hvisited)
  covers id hid := by
    rcases List.mem_append.1 hid with hid | hid
    · exact hmore.subset id (h.covers id hid)
    · exact hmore.covers id hid
  closed id hid target hfollows := by
    rcases List.mem_append.1 hid with hid | hid
    · exact hmore.subset target (h.closed id hid target hfollows)
    · exact hmore.closed id hid target hfollows
  live id hid := by
    rcases List.mem_append.1 hid with hid | hid
    · obtain ⟨root, hroot, hlive⟩ := h.live id hid
      exact ⟨root, List.mem_append_left _ hroot, hlive⟩
    · obtain ⟨root, hroot, hlive⟩ := hmore.live id hid
      exact ⟨root, List.mem_append_right _ hroot, hlive⟩
  becomes := by
    rw [List.filterMap_append]
    exact List.rel_append h.becomes hmore.becomes

/-- A new node is visited before those to which the flow goes on from it. -/
theorem visit {own : List Step} (hnew : nodeId ∉ visited)
    (hfollows : ∀ target, walk.Follows nodeId target ↔ target ∈ roots)
    (hown : List.Forall₂ walk.Becomes (walk.origin? nodeId).toList own)
    (h : Visits walk roots (nodeId :: visited) seen news steps) :
    Visits walk [nodeId] visited seen (nodeId :: news) (own ++ steps) where
  seen_eq := by
    rw [h.seen_eq]
    simp
  nodup := by
    refine List.nodup_cons.2 ⟨fun hmem => ?_, h.nodup⟩
    exact h.fresh nodeId hmem List.mem_cons_self
  fresh id hid hvisited := by
    rcases List.mem_cons.1 hid with rfl | hid
    · exact hnew hvisited
    · exact h.fresh id hid (List.mem_cons_of_mem _ hvisited)
  covers id hid := by
    rw [List.mem_singleton.1 hid]
    exact h.subset nodeId List.mem_cons_self
  closed id hid target htarget := by
    rcases List.mem_cons.1 hid with rfl | hid
    · exact h.covers target ((hfollows target).1 htarget)
    · exact h.closed id hid target htarget
  live id hid := by
    refine ⟨nodeId, List.mem_cons_self, ?_⟩
    rcases List.mem_cons.1 hid with rfl | hid
    · exact .refl
    · obtain ⟨root, hroot, hlive⟩ := h.live id hid
      exact .head ((hfollows root).2 hroot) hlive
  becomes := by
    have hcons : (nodeId :: news).filterMap walk.origin? =
        (walk.origin? nodeId).toList ++ news.filterMap walk.origin? := by
      rw [List.filterMap_cons]
      cases walk.origin? nodeId <;> rfl
    rw [hcons]
    exact List.rel_append hown h.becomes

end Visits

/-! ## The whole recursion -/

section Arrivals

variable {walk : Walk} {visited : List String} {nodeId : String} {node : Node}
  {definition : Definition}

/-- The walk takes an id as visited only if it is. -/
theorem mem_of_arrive (h : walk.arrive visited nodeId = .visited) : nodeId ∈ visited := by
  unfold arrive at h
  split at h
  next hvisited => simpa using hvisited
  next =>
    split at h
    · cases h
    · split at h <;> cases h

/-- Nothing is found for a new id just if there is no node with it whose type is known. -/
theorem nothing_of_arrive (h : walk.arrive visited nodeId = .nothing) :
    nodeId ∉ visited ∧ ∀ node, walk.graph.node? nodeId = some node →
      walk.catalog.lookup? node.nodeType = none := by
  unfold arrive at h
  split at h
  · cases h
  next hvisited =>
    refine ⟨by simpa using hvisited, fun node hnode => ?_⟩
    rw [hnode] at h
    dsimp only at h
    split at h
    next hlookup => exact hlookup
    · cases h

/-- If the walk arrives at a node, then its id is new, and it is the node with this id, whose type
has this definition. -/
theorem node_of_arrive (h : walk.arrive visited nodeId = .node definition node) :
    nodeId ∉ visited ∧ walk.graph.node? nodeId = some node ∧
      walk.catalog.lookup? node.nodeType = some definition := by
  unfold arrive at h
  split at h
  · cases h
  next hvisited =>
    split at h
    · cases h
    next found hfound =>
      split at h
      · cases h
      next own hown =>
        cases h
        exact ⟨by simpa using hvisited, hfound, hown⟩

/-- From a node the flow goes on to the targets of the outputs that its definition names. -/
theorem follows_iff_of_node (hnode : walk.graph.node? nodeId = some node)
    (hlookup : walk.catalog.lookup? node.nodeType = some definition) (target : String) :
    walk.Follows nodeId target ↔
      ∃ pinId ∈ definition.flowOutputs node.config, target ∈ walk.targetsOf node (some pinId) := by
  have hid : node.id = nodeId := by simpa using List.find?_some hnode
  simp only [mem_targetsOf_iff, Option.some.injEq]
  constructor
  · rintro ⟨found, own, hfound, hown, e, he, hkind, hsource, hpin, htarget⟩
    rw [hnode] at hfound
    cases hfound
    rw [hlookup] at hown
    cases hown
    exact ⟨_, hpin, e, he, hkind, hsource.trans hid.symm, rfl, htarget⟩
  · rintro ⟨_, hpin, e, he, hkind, hsource, rfl, htarget⟩
    exact ⟨node, definition, hnode, hlookup, e, he, hkind, hsource.trans hid, hpin, htarget⟩

/-- An id whose node has no step, or that no node has, adds no step. -/
theorem becomes_nothing (h : ∀ node, walk.graph.node? nodeId = some node →
    walk.ownStep? node = none) : List.Forall₂ walk.Becomes (walk.origin? nodeId).toList [] := by
  have hnone : walk.origin? nodeId = none := by
    unfold origin?
    rw [Option.filter_eq_none_iff]
    intro node hnode
    simp [h node hnode]
  rw [hnone]
  exact .nil

/-- A node whose step is the given one without its parts becomes this step. -/
theorem becomes_own {step : Step} (hnode : walk.graph.node? nodeId = some node)
    (hown : walk.ownStep? node = some step.bare) :
    List.Forall₂ walk.Becomes (walk.origin? nodeId).toList [step] := by
  have horigin : walk.origin? nodeId = some node := by
    unfold origin?
    rw [hnode, Option.filter_some, if_pos (by simp [hown])]
  rw [horigin]
  exact .cons hown .nil

end Arrivals

/-- The else-if clauses of a branch that is lowered have its conditions. -/
theorem map_fst_lowerClauses (walk : Walk) (visited : List String) (node : Node)
    (clauses : List (Condition × String)) :
    (walk.lowerClauses visited node clauses).result.map (·.1) = clauses.map (·.1) := by
  induction clauses generalizing visited with
  | nil =>
    rw [lowerClauses]
    rfl
  | cons clause rest ih =>
    rw [lowerClauses]
    exact congrArg (clause.1 :: ·) (ih _)

/-- The flow goes on from a branch at its then output, those of its clauses, its else output and the
one after it. -/
theorem flowOutputs_branch (walk : Walk) {definition : Definition} {node : Node}
    {type condition thenOut : String} {elseIf : Option ElseIfPins} {elseOut : String}
    {next : Option String}
    (hlowering : definition.lowering = .branch type condition thenOut elseIf elseOut next) :
    definition.flowOutputs node.config = thenOut ::
      (walk.clauseOutputs definition node elseIf).map (·.2) ++ elseOut :: next.toList := by
  unfold Definition.flowOutputs
  rw [hlowering]
  cases elseIf with
  | none => rfl
  | some pins => simp [clauseOutputs]

/-- The flow goes on from a branch into its parts and after it. -/
theorem mem_targetsOf_branch {walk : Walk} {definition : Definition} {node : Node}
    {type condition thenOut : String} {elseIf : Option ElseIfPins} {elseOut : String}
    {next : Option String}
    (hlowering : definition.lowering = .branch type condition thenOut elseIf elseOut next)
    (target : String) :
    (∃ pinId ∈ definition.flowOutputs node.config, target ∈ walk.targetsOf node (some pinId)) ↔
      target ∈ walk.targetsOf node (some thenOut) ++
        ((walk.clauseOutputs definition node elseIf).flatMap (fun c =>
            walk.targetsOf node (some c.2)) ++
          (walk.targetsOf node (some elseOut) ++
            walk.targetsOf node (afterBranch thenOut elseOut next))) := by
  rw [walk.flowOutputs_branch hlowering]
  simp only [List.mem_append, List.mem_flatMap]
  constructor
  · rintro ⟨pinId, hpin, htarget⟩
    simp only [List.mem_cons, List.mem_map, Option.mem_toList] at hpin
    rcases hpin with (rfl | ⟨clause, hclause, rfl⟩) | rfl | hnext
    · exact .inl htarget
    · exact .inr (.inl ⟨clause, hclause, htarget⟩)
    · exact .inr (.inr (.inl htarget))
    · -- After the branch the flow goes on only where that is no output of a part.
      by_cases hthen : pinId = thenOut
      · exact .inl (hthen ▸ htarget)
      by_cases helse : pinId = elseOut
      · exact .inr (.inr (.inl (helse ▸ htarget)))
      have hafter : afterBranch thenOut elseOut next = some pinId := by
        rw [afterBranch, hnext, Option.filter_some, if_pos (by simp [hthen, helse])]
      rw [hafter]
      exact .inr (.inr (.inr htarget))
  · rintro (htarget | ⟨clause, hclause, htarget⟩ | htarget | htarget)
    · exact ⟨thenOut, by simp, htarget⟩
    · have hmem : clause.2 ∈ (walk.clauseOutputs definition node elseIf).map (·.2) :=
        List.mem_map_of_mem hclause
      exact ⟨clause.2, .inl (List.mem_cons_of_mem _ hmem), htarget⟩
    · exact ⟨elseOut, by simp, htarget⟩
    · cases hafter : afterBranch thenOut elseOut next with
      | none =>
        rw [hafter] at htarget
        cases htarget
      | some pinId =>
        rw [hafter] at htarget
        have hnext : next = some pinId := (Option.filter_eq_some_iff.1 hafter).1
        exact ⟨pinId, by simp [hnext], htarget⟩

/-- A node that is not lowered is visited, and nothing else is. -/
theorem visits_of_leaf {walk : Walk} {visited : List String} {nodeId : String}
    (hnew : nodeId ∉ visited) (hfollows : ∀ target, ¬walk.Follows nodeId target)
    (hown : ∀ node, walk.graph.node? nodeId = some node → walk.ownStep? node = none) :
    ∃ news, Visits walk [nodeId] visited (nodeId :: visited) news [] := by
  have hnil : ∀ target, walk.Follows nodeId target ↔ target ∈ ([] : List String) := by
    simpa using hfollows
  exact ⟨_, (Visits.nil walk (nodeId :: visited)).visit hnew hnil (becomes_nothing hown)⟩

/-- A branch is visited, and then what its parts and the nodes after it are lowered to. -/
theorem visits_of_branch {walk : Walk} {visited seen afterThen afterClauses afterElse : List String}
    {nodeId : String} {node : Node} {definition : Definition} {type condition thenOut : String}
    {elseIf : Option ElseIfPins} {elseOut : String} {next : Option String}
    {thenSteps elseSteps steps : List Step} {clauses : List (Condition × List Step)}
    (harrive : walk.arrive visited nodeId = .node definition node)
    (hlowering : definition.lowering = .branch type condition thenOut elseIf elseOut next)
    (hconditions : clauses.map (·.1) =
      (walk.clauseOutputs definition node elseIf).map (·.1))
    (hthen : ∃ news, Visits walk (walk.targetsOf node (some thenOut)) (nodeId :: visited) afterThen
      news (Step.inside thenSteps))
    (hclauses : ∃ news, Visits walk ((walk.clauseOutputs definition node elseIf).flatMap fun c =>
      walk.targetsOf node (some c.2)) afterThen afterClauses news (Step.insideClauses clauses))
    (helse : ∃ news, Visits walk (walk.targetsOf node (some elseOut)) afterClauses afterElse news
      (Step.inside elseSteps))
    (hafter : ∃ news, Visits walk (walk.targetsOf node (afterBranch thenOut elseOut next))
      afterElse seen news (Step.inside steps)) :
    ∃ news, Visits walk [nodeId] visited seen news
      (Step.inside (.branch type (walk.conditionAt node.id condition) thenSteps clauses elseSteps ::
        steps)) := by
  obtain ⟨hnew, hnode, hlookup⟩ := node_of_arrive harrive
  obtain ⟨thenNews, hthen⟩ := hthen
  obtain ⟨clauseNews, hclauses⟩ := hclauses
  obtain ⟨elseNews, helse⟩ := helse
  obtain ⟨afterNews, hafter⟩ := hafter
  have hbare : clauses.map (fun c => (c.1, ([] : List Step))) =
      (walk.clauseOutputs definition node elseIf).map fun c => (c.1, []) := by
    have hmap := congrArg (List.map fun c => (c, ([] : List Step))) hconditions
    rw [List.map_map, List.map_map] at hmap
    exact hmap
  have hown : walk.ownStep? node = some (Step.bare (.branch type
      (walk.conditionAt node.id condition) thenSteps clauses elseSteps)) := by
    simp only [ownStep?, hlookup, Option.bind_some, hlowering, Step.bare, hbare]
  have hfollows : ∀ target, walk.Follows nodeId target ↔ _ := fun target =>
    (follows_iff_of_node hnode hlookup target).trans (mem_targetsOf_branch hlowering target)
  have hparts := hthen.append (hclauses.append (helse.append hafter))
  have hvisits := hparts.visit hnew hfollows (becomes_own hnode hown)
  have hinside : ∀ own : Step, own.withNested = own :: (Step.inside thenSteps ++
      Step.insideClauses clauses ++ Step.inside elseSteps) →
      Step.inside (own :: steps) = [own] ++ (Step.inside thenSteps ++
        (Step.insideClauses clauses ++ (Step.inside elseSteps ++ Step.inside steps))) := by
    intro own hown
    simp [Step.inside, hown]
  rw [hinside _ (by rw [Step.withNested])]
  exact ⟨_, hvisits⟩

mutual

/-- Lowering from a node visits what the flow leads to from there, each id once, and finds the steps
of these nodes. -/
theorem visits_lowerNode (walk : Walk) (visited : List String) (nodeId : String) :
    ∃ news, Visits walk [nodeId] visited (walk.lowerNode visited nodeId).seen news
      (Step.inside (walk.lowerNode visited nodeId).result) := by
  rw [lowerNode]
  split
  next harrive => exact ⟨[], .skip (mem_of_arrive harrive)⟩
  next harrive =>
    obtain ⟨hnew, hunknown⟩ := nothing_of_arrive harrive
    refine visits_of_leaf hnew ?_ fun node hnode => ?_
    · rintro target ⟨node, definition, hnode, hlookup, -⟩
      rw [hunknown node hnode] at hlookup
      cases hlookup
    · rw [ownStep?, hunknown node hnode, Option.bind_none]
  next definition node harrive =>
    have hlt := unvisited_lt_of_arrive harrive
    obtain ⟨hnew, hnode, hlookup⟩ := node_of_arrive harrive
    have hfollows := follows_iff_of_node hnode hlookup
    have hnone : walk.ownStep? node = none → ∀ found, walk.graph.node? nodeId = some found →
        walk.ownStep? found = none := by
      intro hown found hfound
      rw [hnode] at hfound
      cases hfound
      exact hown
    split
    next next hlowering =>
      obtain ⟨news, hafter⟩ := visits_lowerAll walk (nodeId :: visited)
        (walk.targetsOf node (some next))
      have hown : walk.ownStep? node = none := by
        simp only [ownStep?, hlookup, Option.bind_some, hlowering]
      refine ⟨_, hafter.visit hnew (fun target => ?_) (becomes_nothing (hnone hown))⟩
      rw [hfollows, Definition.flowOutputs, hlowering]
      simp
    next type fields next hlowering =>
      obtain ⟨news, hafter⟩ := visits_lowerAll walk (nodeId :: visited) (walk.targetsOf node next)
      have hown : walk.ownStep? node =
          some (Step.bare (.action type (actionFields definition node fields))) := by
        simp only [ownStep?, hlookup, Option.bind_some, hlowering, Step.bare]
      refine ⟨_, hafter.visit hnew (fun target => ?_) (becomes_own hnode hown)⟩
      rw [hfollows, Definition.flowOutputs, hlowering]
      cases next with
      | none => simp [targetsOf]
      | some pinId => simp
    next type condition thenOut elseIf elseOut next hlowering =>
      dsimp only
      -- Each part goes on from what the parts before it have seen. They are generalized in turn, so
      -- that the next one is about their ends alone.
      have hthen := visits_lowerAll walk (nodeId :: visited) (walk.targetsOf node (some thenOut))
      have hthenLe := (walk.lowerAll (nodeId :: visited)
        (walk.targetsOf node (some thenOut))).unvisited_le
      generalize walk.lowerAll (nodeId :: visited) (walk.targetsOf node (some thenOut)) = thenPart
        at hthen hthenLe ⊢
      have hclauses := visits_lowerClauses walk thenPart.seen node
        (walk.clauseOutputs definition node elseIf)
      have hconditions := walk.map_fst_lowerClauses thenPart.seen node
        (walk.clauseOutputs definition node elseIf)
      have hclausesLe := (walk.lowerClauses thenPart.seen node
        (walk.clauseOutputs definition node elseIf)).unvisited_le
      have helse := visits_lowerAll walk (walk.lowerClauses thenPart.seen node
        (walk.clauseOutputs definition node elseIf)).seen (walk.targetsOf node (some elseOut))
      have helseLe := (walk.lowerAll (walk.lowerClauses thenPart.seen node
        (walk.clauseOutputs definition node elseIf)).seen
        (walk.targetsOf node (some elseOut))).unvisited_le
      generalize walk.lowerAll (walk.lowerClauses thenPart.seen node
        (walk.clauseOutputs definition node elseIf)).seen (walk.targetsOf node (some elseOut)) =
        elsePart at helse helseLe ⊢
      exact visits_of_branch harrive hlowering hconditions hthen hclauses helse
        (visits_lowerAll walk elsePart.seen
          (walk.targetsOf node (afterBranch thenOut elseOut next)))
    next field hlowering =>
      refine visits_of_leaf hnew (fun target htarget => ?_) (hnone ?_)
      · rw [hfollows, Definition.flowOutputs, hlowering] at htarget
        simp at htarget
      · simp only [ownStep?, hlookup, Option.bind_some, hlowering]
    next hlowering =>
      refine visits_of_leaf hnew (fun target htarget => ?_) (hnone ?_)
      · rw [hfollows, Definition.flowOutputs, hlowering] at htarget
        simp at htarget
      · simp only [ownStep?, hlookup, Option.bind_some, hlowering]
termination_by (walk.unvisited visited, 0, 0)
decreasing_by
  all_goals exact .left _ _ (by omega)

/-- Lowering from several nodes visits what the flow leads to from them, each id once. -/
theorem visits_lowerAll (walk : Walk) (visited : List String) (nodeIds : List String) :
    ∃ news, Visits walk nodeIds visited (walk.lowerAll visited nodeIds).seen news
      (Step.inside (walk.lowerAll visited nodeIds).result) := by
  rw [lowerAll.eq_def]
  cases nodeIds with
  | nil => exact ⟨[], .nil walk visited⟩
  | cons nodeId rest =>
    obtain ⟨news, hfirst⟩ := visits_lowerNode walk visited nodeId
    obtain ⟨newer, hrest⟩ := visits_lowerAll walk (walk.lowerNode visited nodeId).seen rest
    dsimp only
    rw [Step.inside_append]
    exact ⟨news ++ newer, hfirst.append hrest⟩
termination_by (walk.unvisited visited, 1, nodeIds.length)
decreasing_by
  · exact .right _ (.left _ _ Nat.zero_lt_one)
  · exact Lowered.decreases _ _ (Nat.lt_succ_self _)

/-- Lowering the clauses of a branch visits what the flow leads to from their outputs, each id
once. -/
theorem visits_lowerClauses (walk : Walk) (visited : List String) (node : Node)
    (clauses : List (Condition × String)) :
    ∃ news, Visits walk (clauses.flatMap fun c => walk.targetsOf node (some c.2)) visited
      (walk.lowerClauses visited node clauses).seen news
      (Step.insideClauses (walk.lowerClauses visited node clauses).result) := by
  cases clauses with
  | nil =>
    rw [lowerClauses]
    exact ⟨[], .nil walk visited⟩
  | cons clause rest =>
    obtain ⟨news, hfirst⟩ := visits_lowerAll walk visited (walk.targetsOf node (some clause.2))
    obtain ⟨newer, hrest⟩ := visits_lowerClauses walk
      (walk.lowerAll visited (walk.targetsOf node (some clause.2))).seen node rest
    rw [lowerClauses]
    exact ⟨news ++ newer, hfirst.append hrest⟩
termination_by (walk.unvisited visited, 2, clauses.length)
decreasing_by
  · exact .right _ (.left _ _ (Nat.lt_succ_self _))
  · exact Lowered.decreases _ _ (Nat.lt_succ_self _)

end

/-- The steps in the tree that a node is lowered to are those of the live nodes whose types have
steps, one of each. -/
theorem exists_origins (walk : Walk) (hnodup : (walk.graph.nodes.map (·.id)).Nodup)
    (start : String) :
    ∃ origins : List Node, origins.Nodup ∧
      (∀ node, node ∈ origins ↔ node ∈ walk.graph.nodes ∧ walk.Live start node.id ∧
        walk.catalog.givesSteps node.nodeType = true) ∧
      List.Forall₂ walk.Becomes origins (Step.inside (walk.lowerNode [] start).result) := by
  obtain ⟨news, hvisits⟩ := visits_lowerNode walk [] start
  have hseen : ∀ id, id ∈ (walk.lowerNode [] start).seen ↔ id ∈ news := by
    intro id
    rw [hvisits.seen_eq, List.append_nil, List.mem_reverse]
  have hlive : ∀ id, id ∈ news ↔ walk.Live start id := by
    intro id
    constructor
    · intro hid
      obtain ⟨root, hroot, hlive⟩ := hvisits.live id hid
      rw [List.mem_singleton.1 hroot] at hlive
      exact hlive
    · intro hlive
      induction hlive with
      | refl => exact (hseen start).1 (hvisits.covers start List.mem_cons_self)
      | tail _ hfollows ih => exact (hseen _).1 (hvisits.closed _ ih _ hfollows)
  -- Ids differ, so a visited id stands for one node.
  have horigin : ∀ id node, walk.origin? id = some node ↔ node ∈ walk.graph.nodes ∧ node.id = id ∧
      walk.catalog.givesSteps node.nodeType = true := by
    intro id node
    rw [origin?, Option.filter_eq_some_iff, isSome_ownStep?]
    constructor
    · rintro ⟨hnode, hown⟩
      exact ⟨List.mem_of_find?_eq_some hnode, by simpa using List.find?_some hnode, hown⟩
    · rintro ⟨hmem, rfl, hown⟩
      exact ⟨find?_eq_some_of_mem Node.id hnodup hmem, hown⟩
  refine ⟨news.filterMap walk.origin?, ?_, ?_, hvisits.becomes⟩
  · refine hvisits.nodup.filterMap fun id other node hid hother => ?_
    obtain ⟨-, hidEq, -⟩ := (horigin id node).1 hid
    obtain ⟨-, hotherEq, -⟩ := (horigin other node).1 hother
    exact hidEq.symm.trans hotherEq
  · intro node
    rw [List.mem_filterMap]
    constructor
    · rintro ⟨id, hid, hnode⟩
      obtain ⟨hmem, rfl, hown⟩ := (horigin id node).1 hnode
      exact ⟨hmem, (hlive node.id).1 hid, hown⟩
    · rintro ⟨hmem, hnodeLive, hown⟩
      exact ⟨node.id, (hlive node.id).2 hnodeLive, (horigin node.id node).2 ⟨hmem, rfl, hown⟩⟩

/-- Every step in the tree that a node is lowered to is that of some node, even if there are several
nodes with one id. -/
theorem exists_becomes (walk : Walk) {start : String} {step : Step}
    (hstep : step ∈ Step.inside (walk.lowerNode [] start).result) :
    ∃ node ∈ walk.graph.nodes, walk.Becomes node step := by
  obtain ⟨news, hvisits⟩ := visits_lowerNode walk [] start
  obtain ⟨i, hi, rfl⟩ := List.getElem_of_mem hstep
  have horigin : i < (news.filterMap walk.origin?).length := hvisits.becomes.length_eq ▸ hi
  obtain ⟨id, -, hid⟩ := List.mem_filterMap.1 (List.getElem_mem horigin)
  have hnode := List.mem_of_find?_eq_some (Option.filter_eq_some_iff.1 hid).1
  exact ⟨_, hnode, hvisits.becomes.get horigin hi⟩

end Walk

end AbilityGraph
