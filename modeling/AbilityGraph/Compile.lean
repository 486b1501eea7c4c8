import AbilityGraph.Compile.Walk
import AbilityGraph.Validate

/-!
# Compiling a graph

A graph is validated and its control flow is lowered into steps. Steps are made as well as they can
be even if there are errors; it is for the caller to decide whether to use them. An editor may have
names of its own for node types (`TypeAliases`).
-/

set_option autoImplicit false

namespace AbilityGraph

/-- Names of node types that stand for types of the catalog. -/
abbrev TypeAliases := FieldMap String

/-- What a graph is compiled to. -/
structure Compiled where
  steps : List Step
  issues : List Issue

namespace Compiled

def hasErrors (compiled : Compiled) : Bool := Issue.anyError compiled.issues

end Compiled

namespace Graph

/-- The graph with the types of the catalog in place of the names that stand for them. -/
def resolveAliases (aliases : TypeAliases) (graph : Graph) : Graph :=
  { graph with nodes := graph.nodes.map fun node =>
      { node with nodeType := (aliases.get? node.nodeType).getD node.nodeType } }

/-- The steps of a graph: those from its first start node, or none if it has no start. -/
def lower (catalog : Catalog) (graph : Graph) : List Step :=
  match graph.nodes.find? fun node => catalog.isStart node.nodeType with
  | some start => Walk.stepsFrom ⟨catalog, graph⟩ start
  | none => []

/-- Validates a graph and lowers it. -/
def compile (catalog : Catalog) (graph : Graph) (aliases : TypeAliases := .empty) :
    Except DuplicatePin Compiled := do
  let graph := graph.resolveAliases aliases
  let issues ← validate catalog graph
  return { steps := graph.lower catalog, issues := issues }

end Graph

end AbilityGraph
