import AbilityGraph.Slots

/-!
# Catalogs

A catalog is the list of definitions that a graph may use, and says which type of node is the start.
It is checked once, when it is loaded: `Catalog.load` refuses definitions that would show up later
as colliding pins or as steps that cannot be made. What is wrong is a `CatalogError`.
-/

set_option autoImplicit false

namespace AbilityGraph

/-- The definitions of node types, in the order in which they were loaded, and the start type. -/
structure Catalog where
  definitions : List Definition
  startType : String
  deriving Inhabited

/-- What is wrong with how a definition says its nodes are lowered. -/
inductive LoweringFault where
  | wrongPin (pin : String) (kind : PinKind) (direction : PinDirection)
  | notStatic (pin : String)
  | reservedField (field : String)
  | unknownStepField (field : String)
  | elseIfWithoutSlots
  | elseIfCondition (template : String)
  | elseIfOutput (template : String)
  | unknownLiteralField (field : String)
  deriving DecidableEq

namespace LoweringFault

def message : LoweringFault → String
  | wrongPin pin kind direction => s!"pin '{pin}' must be a {kind.text} {direction.text} pin"
  | notStatic pin => s!"pin '{pin}' is not a static pin"
  | reservedField field => s!"step field '{field}' is reserved"
  | unknownStepField field => s!"step field '{field}' is not in the config schema"
  | elseIfWithoutSlots => "else-if pins declared without a dynamic pin template"
  | elseIfCondition template =>
    s!"else-if condition '{template}' is not a templated DATA IN pin"
  | elseIfOutput template =>
    s!"else-if output '{template}' is not a templated CONTROL OUT pin"
  | unknownLiteralField field => s!"literal field '{field}' is not in the config schema"

end LoweringFault

/-- What is wrong with a catalog. -/
inductive CatalogError where
  | duplicateType (nodeType : String)
  | duplicatePin (fault : DuplicatePin)
  | unknownCountField (nodeType field : String)
  | invalidLowering (nodeType : String) (fault : LoweringFault)
  | missingStart (nodeType : String)
  deriving DecidableEq

namespace CatalogError

def message : CatalogError → String
  | duplicateType nodeType => s!"Node type '{nodeType}' is defined more than once"
  | duplicatePin fault =>
    s!"Node type '{fault.nodeType}' materializes pin id '{fault.pinId}' more than once"
  | unknownCountField nodeType field =>
    s!"Node type '{nodeType}' repeats pins by config field '{field}', "
      ++ "which is not in its config schema"
  | invalidLowering nodeType fault =>
    s!"Node type '{nodeType}' has an invalid compile descriptor: {fault.message}"
  | missingStart nodeType =>
    s!"Start node type '{nodeType}' is not registered with an entry descriptor"

end CatalogError

namespace Definition

/-- The numbers of slots for which the pins of a definition are tried out: none, one, and the
greatest number that the schema allows, or two if it sets no limit. -/
def probeCounts (definition : Definition) : Except CatalogError (List Nat) :=
  match definition.slots with
  | none => .ok [0]
  | some template =>
    match definition.schema.get? template.countField with
    | none => .error (.unknownCountField definition.nodeType template.countField)
    | some field =>
      match field.maximum with
      | some maximum => .ok [0, 1, min maximum.floor.toNat maxSlots]
      | none => .ok [0, 1, 2]

/-- Checks that a pin outside the template exists with a kind and a direction. -/
def checkStaticPin (definition : Definition) (kind : PinKind) (direction : PinDirection)
    (id : String) : Except LoweringFault Unit :=
  match definition.staticPin? id with
  | some pin => if pin.isOf kind direction then .ok () else .error (.wrongPin id kind direction)
  | none => .error (.notStatic id)

/-- Checks that an output for execution flow exists, if one is named. -/
def checkNext (definition : Definition) : Option String → Except LoweringFault Unit
  | some next => definition.checkStaticPin .control .output next
  | none => .ok ()

/-- The field names that the written form of a step keeps for itself. -/
def reservedStepFields : List String := ["type", "condition", "then", "elseIf", "else"]

/-- Checks the config fields that a step is made from. -/
def checkStepFields (definition : Definition) (fields : List String) : Except LoweringFault Unit :=
  match fields.find? reservedStepFields.contains with
  | some field => .error (.reservedField field)
  | none =>
    match fields.find? fun field => !definition.schema.contains field with
    | some field => .error (.unknownStepField field)
    | none => .ok ()

/-- Checks that the templates of the else-if pins are pins of the slot template. -/
def checkElseIf (definition : Definition) (pins : ElseIfPins) : Except LoweringFault Unit :=
  match definition.slots with
  | none => .error .elseIfWithoutSlots
  | some template =>
    if !template.pins.any fun p => p.id == pins.condition && p.isOf .data .input then
      .error (.elseIfCondition pins.condition)
    else if !template.pins.any fun p => p.id == pins.thenOut && p.isOf .control .output then
      .error (.elseIfOutput pins.thenOut)
    else .ok ()

/-- Checks that everything a lowering names is there. -/
def checkLowering (definition : Definition) : Except LoweringFault Unit :=
  match definition.lowering with
  | .entry next => definition.checkStaticPin .control .output next
  | .step _ fields next => do
    definition.checkStepFields fields
    definition.checkNext next
  | .branch _ condition thenOut elseIf elseOut next => do
    definition.checkStaticPin .data .input condition
    definition.checkStaticPin .control .output thenOut
    definition.checkStaticPin .control .output elseOut
    definition.checkNext next
    match elseIf with
    | some pins => definition.checkElseIf pins
    | none => .ok ()
  | .literal field =>
    if definition.schema.contains field then .ok () else .error (.unknownLiteralField field)
  | .data => .ok ()

/-- Checks a definition: that its pins have different ids for the probed numbers of slots, and that
its lowering names what there is. -/
def check (definition : Definition) : Except CatalogError Unit := do
  let counts ← definition.probeCounts
  counts.forM fun count =>
    (definition.instantiate count).mapError CatalogError.duplicatePin |>.map fun _ => ()
  definition.checkLowering.mapError (CatalogError.invalidLowering definition.nodeType)

end Definition

namespace Catalog

/-- The definition of a node type. -/
def lookup? (catalog : Catalog) (nodeType : String) : Option Definition :=
  catalog.definitions.find? (·.nodeType == nodeType)

/-- Whether nodes of a type are start nodes. -/
def isStart (catalog : Catalog) (nodeType : String) : Bool := nodeType == catalog.startType

/-- Checks that the start type is defined as a start, and every definition. -/
def check (catalog : Catalog) : Except CatalogError Unit := do
  match (catalog.lookup? catalog.startType).filter (·.lowering.isEntry) with
  | some _ => pure ()
  | none => throw (.missingStart catalog.startType)
  catalog.definitions.forM Definition.check

/-- The catalog of some definitions, if no type is defined twice and all checks pass. -/
def load (definitions : List Definition) (startType : String) : Except CatalogError Catalog := do
  match repeats (definitions.map (·.nodeType)) with
  | nodeType :: _ => throw (.duplicateType nodeType)
  | [] => pure ()
  let catalog : Catalog := ⟨definitions, startType⟩
  catalog.check
  return catalog

end Catalog

/-- Why the pins of a node could not be found. -/
inductive MaterializeError where
  | unknownType (nodeType : String)
  | duplicatePin (fault : DuplicatePin)

namespace MaterializeError

def message : MaterializeError → String
  | unknownType nodeType => s!"Node type '{nodeType}' is not registered"
  | duplicatePin fault => (CatalogError.duplicatePin fault).message

end MaterializeError

/-- The pins of a node of a type with a config. -/
def Catalog.materialize (catalog : Catalog) (nodeType : String) (config : Config) :
    Except MaterializeError (List Pin) :=
  match catalog.lookup? nodeType with
  | some definition => (definition.materialize config).mapError .duplicatePin
  | none => .error (.unknownType nodeType)

end AbilityGraph
