import AbilityGraph.Canvas.Wire
import AbilityGraph.Catalog.Builtin
import AbilityGraph.Catalog.Wire
import AbilityGraph.CommandLine.Help
import AbilityGraph.Compile
import AbilityGraph.Connect
import AbilityGraph.Graph.Wire
import AbilityGraph.Step.Tree
import AbilityGraph.Step.Wire

/-!
# The command line

The commands list the node types of a catalog, show the pins of a node type, join two pins of a
graph, validate a graph and compile it. What a command needs from the world around it, files and the
two output streams among it, is given as a `Host`.

A run that fails writes an empty line and the error, and ends with exit code 1. A connection that is
refused, and arguments that make no sense, end with exit code 2.
-/

set_option autoImplicit false

namespace AbilityGraph

namespace CommandLine

/-! ## The commands -/

/-- The options that all commands share. -/
def commonOptions : List OptionSpec := [
  ⟨"registry", some 'r', .valued,
    "Node catalog JSON; the built-in catalog is used when omitted"⟩,
  ⟨"canvas", none, .flag,
    "Read graph files in the canvas editor format instead of the canonical one"⟩,
  ⟨"verbose", some 'v', .counter,
    "Raise log verbosity (-v debug, -vv trace). RUST_LOG takes precedence"⟩]

def graphPath : PositionalSpec := ⟨"graph_path", ""⟩

/-- The option for the file that is written. -/
def outputOption (about : String) : OptionSpec := ⟨"output", some 'o', .valued, about⟩

/-- The program and its commands. -/
def program : ProgramSpec where
  about := "Inspect, validate and compile ability graphs"
  options := commonOptions
  commands := [
    ⟨"nodes", "List the node types of the catalog", [], []⟩,
    ⟨"pins", "Show the pins a node type materializes for a config",
      [⟨"node_type", ""⟩],
      [⟨"config", some 'c', .valued,
        "Config object as JSON, e.g. '\x7b\"elseIfCount\": 2\x7d'"⟩]⟩,
    ⟨"connect", "Check one connection and write the updated graph",
      [graphPath, ⟨"from", "Source pin as `node.pin`"⟩, ⟨"to", "Target pin as `node.pin`"⟩],
      [outputOption "Where to write the updated graph; printed when omitted"]⟩,
    ⟨"validate", "Report every structural issue of a graph", [graphPath], []⟩,
    ⟨"compile", "Compile a graph into runtime steps", [graphPath],
      [⟨"tree", none, .flag, "Print an indented tree instead of JSON"⟩,
        outputOption "Where to write the steps JSON; printed when omitted"]⟩]

/-- A command with its arguments. -/
inductive Command where
  | nodes
  | pins (nodeType : String) (config : Option String)
  | connect (graphPath source target : String) (output : Option String)
  | validate (graphPath : String)
  | compile (graphPath : String) (tree : Bool) (output : Option String)

/-- A command, the catalog that it uses, and the form of the graph files that it reads. -/
structure Invocation where
  catalogPath : Option String
  canvas : Bool
  command : Command

/-- The command of a name with what is given to it. -/
def commandOf (name : String) (given : Given) : Option Command :=
  match name, given.positionals with
  | "nodes", _ => some .nodes
  | "pins", [nodeType] => some (.pins nodeType (given.value? "config"))
  | "connect", [graphPath, source, target] =>
    some (.connect graphPath source target (given.value? "output"))
  | "validate", [graphPath] => some (.validate graphPath)
  | "compile", [graphPath] =>
    some (.compile graphPath (given.has "tree") (given.value? "output"))
  | _, _ => none

/-- What a list of arguments asks for: information, or a command to be run. -/
inductive Request where
  | inquiry (inquiry : Inquiry)
  | run (invocation : Invocation)

/-- Reads a list of arguments. -/
def readArguments? (arguments : List String) : Except ArgumentError Request := do
  match ← program.parse arguments with
  | .inquiry inquiry => return .inquiry inquiry
  | .command spec before after =>
    match commandOf spec.name after with
    | none => throw .missingCommand
    | some command => return .run {
        catalogPath := (after.value? "registry").or (before.value? "registry")
        canvas := after.has "canvas" || before.has "canvas"
        command := command }

/-! ## The world around a command -/

/-- Why a file could not be read or written. -/
inductive FileError where
  | notFound
  | permissionDenied
  | notDirectory
  | isDirectory
  | nameTooLong
  | notText
  | other (message : String)

namespace FileError

def message : FileError → String
  | notFound => "No such file or directory (os error 2)"
  | permissionDenied => "Permission denied (os error 13)"
  | notDirectory => "Not a directory (os error 20)"
  | isDirectory => "Is a directory (os error 21)"
  | nameTooLong => "File name too long (os error 36)"
  | notText => "stream did not contain valid UTF-8"
  | other message => message

end FileError

/-- What commands need from the world around them. -/
structure Host (m : Type → Type) where
  read : String → m (Except FileError String)
  write : String → String → m (Except FileError Unit)
  print : String → m Unit
  warn : String → m Unit
  /-- A fresh id and the time for a new edge. -/
  stamp : m EdgeStamp
  /-- The time that the command has taken so far, as text. -/
  elapsed : m String

/-- An action that may end the run with an exit code. -/
abbrev Run (m : Type → Type) := ExceptT Nat m

section

variable {m : Type → Type} [Monad m]

/-- Ends the run with an error. -/
def fail {α : Type} (host : Host m) (message : String) : Run m α := do
  host.warn s!"\nError: {message}\n"
  throw 1

/-- The catalog in a file, or the built-in one. -/
def loadCatalog (host : Host m) : Option String → Run m Catalog
  | none => return .builtin
  | some path => do
    match ← host.read path with
    | .error error =>
      fail host s!"Failed to load registry: Failed to read registry file '{path}': {error.message}"
    | .ok text =>
      match Catalog.ofText text with
      | .error error => fail host s!"Failed to load registry: {error.message}"
      | .ok catalog => return catalog

def loadGraph (host : Host m) (canvas : Bool) (path : String) : Run m Graph := do
  match ← host.read path with
  | .error error => fail host s!"Failed to read graph file '{path}': {error.message}"
  | .ok text =>
    if canvas then
      match Wire.ofText? text >>= Canvas.ofWire? with
      | none => fail host "Failed to parse canvas JSON"
      | some document =>
        match document.toGraph with
        | .error error => fail host s!"Failed to convert canvas graph: {error.message}"
        | .ok graph => return graph
    else
      match Wire.ofText? text >>= Graph.ofWire? with
      | none => fail host "Failed to parse graph JSON"
      | some graph => return graph

/-- Writes JSON to a file, or prints it. -/
def writeJson (host : Host m) (json : Json) : Option String → Run m Unit
  | none => host.print (json.indented ++ "\n")
  | some path => do
    match ← host.write path json.indented with
    | .error error => fail host s!"Failed to write '{path}': {error.message}"
    | .ok () => host.print s!"Wrote '{path}'\n"

/-! ## Running commands -/

/-- A line of columns of given widths, and of a last column without one. -/
def row (cells : List (Nat × String)) (last : String) : String :=
  " ".intercalate (cells.map (fun c => padded c.1 c.2) ++ [last]) ++ "\n"

/-- The line of a list of node types that shows a definition. -/
def definitionRow (catalog : Catalog) (definition : Definition) : String :=
  let mark := if catalog.isStart definition.nodeType then "*" else ""
  let slots := match definition.slots with
    | some template => s!" (+{template.pins.length} per '{template.countField}')"
    | none => ""
  row [(16, definition.nodeType ++ mark), (12, definition.category), (16, definition.label)]
    s!"{definition.pins.length}{slots}"

/-- Lists the node types of a catalog. -/
def runNodes (host : Host m) (catalog : Catalog) : Run m Unit := do
  host.print (row [(16, "TYPE"), (12, "CATEGORY"), (16, "LABEL")] "PINS")
  catalog.definitions.forM fun definition => host.print (definitionRow catalog definition)

/-- The line of a list of pins that shows a pin. -/
def pinRow (pin : Pin) : String :=
  let dataType := match pin.dataType with
    | some dataType => dataType.text
    | none => "-"
  let capacity := match pin.capacity with
    | some limit => toString limit
    | none => "*"
  let required := if pin.required then " (required)" else ""
  row [(20, pin.id), (8, pin.kind.text), (4, pin.direction.text), (16, dataType), (4, capacity)]
    (pin.label ++ required)

/-- Shows the pins of a node type with a config. -/
def runPins (host : Host m) (catalog : Catalog) (nodeType : String) (config : Option String) :
    Run m Unit := do
  let config ← match config with
    | none => pure .empty
    | some text =>
      match Wire.ofText? text >>= Config.ofWire? with
      | some config => pure config
      | none => fail host "Failed to parse config JSON"
  match catalog.materialize nodeType config with
  | .error error => fail host error.message
  | .ok pins =>
    host.print (row [(20, "ID"), (8, "KIND"), (4, "DIR"), (16, "TYPE"), (4, "MAX")] "LABEL")
    pins.forM fun pin => host.print (pinRow pin)

/-- The pin that an argument names; neither the node id nor the pin id may be empty. -/
def readPin (host : Host m) (text : String) : Run m PinRef :=
  match (PinRef.ofText? text).filter fun pin => !pin.nodeId.isEmpty && !pin.pinId.isEmpty with
  | some pin => return pin
  | none => fail host s!"Expected a pin as 'node.pin', got '{text}'"

/-- Joins two pins of a graph and writes the graph. -/
def runConnect (host : Host m) (catalog : Catalog) (graph : Graph) (source target : String)
    (output : Option String) : Run m Unit := do
  let sourcePin ← readPin host source
  let targetPin ← readPin host target
  match connect catalog graph (← host.stamp) sourcePin targetPin with
  | .ok next =>
    host.print s!"Connected {source} -> {target}\n"
    writeJson host next.toJson output
  | .error (.refused refusal) =>
    host.warn s!"Rejected [{refusal.code.text}]: {refusal.reason}\n"
    throw 2
  | .error (.duplicatePin fault) => fail host (CatalogError.duplicatePin fault).message

/-- Reports the issues of a graph. -/
def runValidate (host : Host m) (catalog : Catalog) (graph : Graph) : Run m Unit := do
  match graph.validate catalog with
  | .error fault => fail host (CatalogError.duplicatePin fault).message
  | .ok issues =>
    issues.forM fun issue => host.print (issue.text ++ "\n")
    if Issue.anyError issues then throw 1

/-- Compiles a graph and writes its steps. -/
def runCompile (host : Host m) (catalog : Catalog) (graph : Graph) (tree : Bool)
    (output : Option String) : Run m Unit := do
  match graph.compile catalog with
  | .error fault =>
    fail host s!"Compilation failed: {(CatalogError.duplicatePin fault).message}"
  | .ok compiled =>
    let elapsed ← host.elapsed
    (compiled.issues.filter (·.severity != .info)).forM fun issue =>
      host.warn (issue.text ++ "\n")
    if tree then host.print (Step.tree compiled.steps)
    else writeJson host (.array (Step.sequenceToJson compiled.steps)) output
    host.warn s!"Compiled {compiled.steps.length} top-level step(s) in {elapsed}\n"
    if compiled.hasErrors then throw 1

def runCommand (host : Host m) (invocation : Invocation) : Run m Unit := do
  let catalog ← loadCatalog host invocation.catalogPath
  match invocation.command with
  | .nodes => runNodes host catalog
  | .pins nodeType config => runPins host catalog nodeType config
  | .connect path source target output =>
    runConnect host catalog (← loadGraph host invocation.canvas path) source target output
  | .validate path => runValidate host catalog (← loadGraph host invocation.canvas path)
  | .compile path tree output =>
    runCompile host catalog (← loadGraph host invocation.canvas path) tree output

def exitCode (run : Run m Unit) : m Nat := do
  match ← run.run with
  | .ok () => return 0
  | .error code => return code

/-- Does what the arguments ask for and gives the exit code. The program was called by a name, and
has a version. -/
def run (host : Host m) (name version : String) (arguments : List String) : m Nat := do
  match readArguments? arguments with
  | .error error =>
    host.warn (error.report name)
    return 2
  | .ok (.inquiry inquiry) =>
    host.print (program.answer name version inquiry)
    return 0
  | .ok (.run invocation) => exitCode (runCommand host invocation)

end

end CommandLine

end AbilityGraph
