import AbilityGraph.Proofs.Collisions
import AbilityGraph.Proofs.Number
import AbilityGraph.Proofs.Validate.WellFormed

/-!
# Counting slots

More slots only add pins at the end of those that a node has with fewer. So pins that collide with
some number of slots collide with more as well, and pins that do not collide do not with fewer. If
the count field has a maximum, then the greatest number that is tried out when a catalog is loaded
stands for the number of slots under any config (`Definition.slots_prefix`).

A number that a config gives for the count field is brought between the bounds of the field and
then below the limit for all nodes. Each of these steps keeps the order of numbers, and none changes
a whole number that validation accepts (`Definition.slotCount_of_numbers`). Validation compares
doubles while slots are counted with whole numbers; up to the limit the two agree, because there
whole numbers are doubles.
-/

set_option autoImplicit false

namespace AbilityGraph

namespace Definition

/-! ## Fewer and more slots -/

/-- A definition gives a fault for a number of slots just if the fault names its type and the first
pin id that is repeated. -/
theorem instantiate_eq_error_iff {definition : Definition} {count : Nat} {fault : DuplicatePin} :
    definition.instantiate count = .error fault ↔ fault.nodeType = definition.nodeType ∧
      (repeats ((definition.pinsWithSlots count).map (·.id))).head? = some fault.pinId := by
  simp only [instantiate]
  split
  next hrepeats => simp [hrepeats]
  next id rest hrepeats =>
    rw [hrepeats, List.head?_cons]
    constructor
    · intro h
      cases h
      exact ⟨rfl, rfl⟩
    · rintro ⟨htype, hid⟩
      cases fault
      cases htype
      cases hid
      rfl

/-- Pins that collide with some number of slots collide in the same way with more. -/
theorem instantiate_eq_error_of_le {definition : Definition} {count more : Nat}
    {fault : DuplicatePin} (hle : count ≤ more)
    (hfault : definition.instantiate count = .error fault) :
    definition.instantiate more = .error fault := by
  obtain ⟨htype, hfirst⟩ := instantiate_eq_error_iff.1 hfault
  refine instantiate_eq_error_iff.2 ⟨htype, ?_⟩
  obtain ⟨others, hothers⟩ := repeats_prefix ((definition.pinsWithSlots_prefix hle).map Pin.id)
  rw [← hothers, List.head?_append, hfirst]
  rfl

/-- If the count field has a maximum, then 0, 1 and as many slots as this allows are tried at
load. -/
theorem probeCounts_of_maximum {definition : Definition} {template : SlotTemplate}
    {field : ConfigField} {maximum : Double} (hslots : definition.slots = some template)
    (hfield : definition.schema.get? template.countField = some field)
    (hmaximum : field.maximum = some maximum) :
    definition.probeCounts = .ok [0, 1, min maximum.floor.toNat maxSlots] := by
  simp only [probeCounts, hslots, hfield, hmaximum]

/-- If the pins of a node with some number of slots can be found, then those with fewer slots can be
found and are the first of them; if they collide, then they do so with more slots as well. Where the
count field has a maximum, no node has more slots than the greatest number for which the pins are
tried out when a catalog is loaded. -/
theorem slots_prefix (definition : Definition) :
    (∀ count more pins, count ≤ more → definition.instantiate more = .ok pins →
      ∃ fewer, definition.instantiate count = .ok fewer ∧ fewer <+: pins) ∧
    (∀ count more fault, count ≤ more → definition.instantiate count = .error fault →
      definition.instantiate more = .error fault) ∧
    ∀ template field maximum, definition.slots = some template →
      definition.schema.get? template.countField = some field → field.maximum = some maximum →
      ∃ counts greatest, definition.probeCounts = .ok counts ∧ greatest ∈ counts ∧
        (∀ count ∈ counts, count ≤ greatest) ∧
        (definition.check = .ok () → ∃ pins, definition.instantiate greatest = .ok pins) ∧
        ∀ config, definition.slotCount config ≤ greatest := by
  refine ⟨?fewer, fun _ _ _ => instantiate_eq_error_of_le, ?greatest⟩
  case fewer =>
    intro count more pins hle hpins
    refine ⟨_, instantiate_of_le hle hpins, ?_⟩
    obtain ⟨rfl, -⟩ := instantiate_eq_ok_iff.1 hpins
    exact definition.pinsWithSlots_prefix hle
  case greatest =>
    intro template field maximum hslots hfield hmaximum
    have hcount := slotCount_le_of_maximum hslots hfield hmaximum
    have hprobe := probeCounts_of_maximum hslots hfield hmaximum
    generalize min maximum.floor.toNat maxSlots = limit at hcount hprobe
    -- A maximum below one allows no slot, and then one slot is the most that is tried out.
    have hmem : max 1 limit ∈ [0, 1, limit] := by
      rcases Nat.le_total 1 limit with hle | hle
      · simp [Nat.max_eq_right hle]
      · simp [Nat.max_eq_left hle]
    refine ⟨_, max 1 limit, hprobe, hmem, ?_, ?_, ?_⟩
    · intro count hcount
      simp only [List.mem_cons, List.not_mem_nil, or_false] at hcount
      omega
    · intro hcheck
      obtain ⟨⟨counts, hcounts, htried⟩, -⟩ := check_eq_ok hcheck
      rw [hprobe] at hcounts
      cases hcounts
      exact htried _ hmem
    · intro config
      exact Nat.le_trans (hcount config) (Nat.le_max_right _ _)

end Definition

/-! ## Between the bounds of a field -/

namespace ConfigField

/-- Some whole number lies between the bounds of a field, if it has both. -/
def BoundsAgree (field : ConfigField) : Prop :=
  ∀ minimum maximum, field.minimum = some minimum → field.maximum = some maximum →
    minimum.ceil ≤ maximum.floor

section Clamp

variable (field : ConfigField)

/-- A greater number is clamped to one that is no smaller. -/
theorem clampSlots_mono {count other : Int} (h : count ≤ other) :
    field.clampSlots count ≤ field.clampSlots other := by
  unfold clampSlots
  cases field.minimum <;> cases field.maximum <;> dsimp only <;> omega

/-- Bounds that agree are kept. -/
theorem ceil_le_clampSlots (hagree : field.BoundsAgree) {minimum : Double}
    (hminimum : field.minimum = some minimum) (count : Int) :
    minimum.ceil ≤ field.clampSlots count := by
  unfold clampSlots
  rw [hminimum]
  cases hmaximum : field.maximum with
  | none => exact Int.le_max_right _ _
  | some maximum => exact Int.le_min.2 ⟨Int.le_max_right _ _, hagree _ _ hminimum hmaximum⟩

/-- A number between the bounds is left as it is. -/
theorem clampSlots_eq_self {count : Int}
    (hminimum : ∀ minimum, field.minimum = some minimum → minimum.ceil ≤ count)
    (hmaximum : ∀ maximum, field.maximum = some maximum → count ≤ maximum.floor) :
    field.clampSlots count = count := by
  unfold clampSlots
  cases hlow : field.minimum with
  | none =>
    cases hhigh : field.maximum with
    | none => rfl
    | some maximum => exact Int.min_eq_left (hmaximum _ hhigh)
  | some minimum =>
    have hraised : max count minimum.ceil = count := Int.max_eq_left (hminimum _ hlow)
    cases hhigh : field.maximum with
    | none => exact hraised
    | some maximum => simp only [hraised, Int.min_eq_left (hmaximum _ hhigh)]

/-- A limit after the bounds makes the same limit before them needless. -/
theorem min_clampSlots_min (count limit : Nat) :
    min (field.clampSlots (min count limit : Nat)).toNat limit =
      min (field.clampSlots count).toNat limit := by
  unfold clampSlots
  cases field.minimum <;> cases field.maximum <;> dsimp only <;> omega

end Clamp

end ConfigField

/-! ## Numbers of slots in a config -/

/-- A config gives a number for a field. -/
def Config.GivesNumber (config : Config) (name : String) (number : Number) : Prop :=
  ∃ value, config.get? name = some value ∧ value.number? = some number

/-- A config value that is a number has this number as its tree. -/
theorem Value.tree_of_number? {value : Value} {number : Number}
    (h : value.number? = some number) : value.tree = .number number := by
  unfold number? at h
  split at h
  next found htree =>
    cases h
    exact htree
  · cases h

/-- A config value that is a number is not null. -/
theorem Value.isNull_of_number? {value : Value} {number : Number}
    (h : value.number? = some number) : value.isNull = false := by
  rw [isNull, tree_of_number? h]

/-- A number asks for as many slots as its whole part says. -/
theorem requestedSlots_of_number? {value : Value} {number : Number}
    (h : value.number? = some number) : requestedSlots value = number.floor.toNat := by
  unfold requestedSlots
  rw [Value.tree_of_number? h]
  cases number with
  | integer n => rfl
  | double x => exact x.toNat_floor.symm

namespace Definition

variable {definition : Definition} {template : SlotTemplate} {field : ConfigField}

/-- A node never has more slots than the greatest number allowed. -/
theorem slotCount_le_maxSlots (definition : Definition) (config : Config) :
    definition.slotCount config ≤ maxSlots := by
  unfold slotCount
  split
  · exact Nat.zero_le _
  · exact Nat.min_le_right _ _

/-- A number with which validation finds no fault lies, as a double, between the bounds of its
field. -/
theorem bounds_of_no_finding {name : String} {node : Node} {number : Number}
    (hfield : definition.schema.get? name = some field)
    (hnumber : node.config.GivesNumber name number)
    (haccepted : ∀ fault, .invalidConfig name node fault ∉ Graph.configFindings definition node) :
    (∀ minimum, field.minimum = some minimum → minimum ≤ number.toDouble) ∧
      ∀ maximum, field.maximum = some maximum → number.toDouble ≤ maximum := by
  obtain ⟨value, hvalue, hnumber⟩ := hnumber
  have hcheck : field.check value = none := by
    cases hfault : field.check value with
    | none => rfl
    | some fault =>
      have hfinding : Graph.configFinding? definition node name value =
          some (.invalidConfig name node fault) := by
        simp only [Graph.configFinding?, hfield, Value.isNull_of_number? hnumber, hfault]
        rfl
      have hmem : .invalidConfig name node fault ∈ Graph.configFindings definition node :=
        List.mem_filterMap.2 ⟨(name, value), mem_of_lookup_eq_some hvalue, hfinding⟩
      exact absurd hmem (haccepted fault)
  have haccepts := (field.check_eq_none_iff value).1 hcheck
  exact ⟨fun minimum hminimum => haccepts.minimum minimum number hminimum hnumber,
    fun maximum hmaximum => haccepts.maximum maximum number hmaximum hnumber⟩

section Counting

variable (hslots : definition.slots = some template)
  (hfield : definition.schema.get? template.countField = some field)

include hslots hfield

/-- If a config gives a number for the count field, then a node has as many slots as this number
allows, clamped and capped. -/
theorem slotCount_of_number {config : Config} {number : Number}
    (hnumber : config.GivesNumber template.countField number) :
    definition.slotCount config = min (field.clampSlots number.floor.toNat).toNat maxSlots := by
  obtain ⟨value, hvalue, hnumber⟩ := hnumber
  have hset : definition.fieldValue? config template.countField = some value := by
    rw [fieldValue?, hvalue, Option.filter_some, Value.isNull_of_number? hnumber]
    rfl
  simp only [slotCount, hslots, hset, hfield, requestedSlots_of_number? hnumber]

/-- Of two numbers the greater one gives no fewer slots, whether they are compared exactly or as
doubles. -/
theorem slotCount_mono {lower higher : Config} {a b : Number}
    (hlower : lower.GivesNumber template.countField a)
    (hhigher : higher.GivesNumber template.countField b)
    (hle : a ≤ b ∨ a.toDouble ≤ b.toDouble) :
    definition.slotCount lower ≤ definition.slotCount higher := by
  have hfits : maxSlots ≤ 2 ^ mantissaDigits := by
    decide
  have hfloor : min a.floor.toNat maxSlots ≤ min b.floor.toNat maxSlots := by
    rcases hle with hle | hle
    · have := Int.toNat_le_toNat (Number.floor_mono hle)
      omega
    · rw [← a.min_floor_toDouble hfits, ← b.min_floor_toDouble hfits]
      have := Int.toNat_le_toNat (Double.floor_mono hle)
      omega
  have hclamped := field.clampSlots_mono (Int.ofNat_le.2 hfloor)
  rw [slotCount_of_number hslots hfield hlower, slotCount_of_number hslots hfield hhigher,
    ← field.min_clampSlots_min, ← field.min_clampSlots_min b.floor.toNat]
  omega

/-- A node has no fewer slots than the minimum of the count field, up to the cap. -/
theorem min_ceil_le_slotCount (hagree : field.BoundsAgree) {minimum : Double}
    (hminimum : field.minimum = some minimum) (config : Config) :
    min minimum.ceil.toNat maxSlots ≤ definition.slotCount config := by
  obtain ⟨requested, hcount⟩ : ∃ requested,
      definition.slotCount config = min (field.clampSlots requested).toNat maxSlots := by
    simp only [slotCount, hslots, hfield]
    exact ⟨_, rfl⟩
  have := field.ceil_le_clampSlots hagree hminimum requested
  omega

/-- A whole number that validation accepts is the number of slots, unless it is beyond the limit. -/
theorem slotCount_eq_of_accepted {node : Node} {number : Number} {n : Nat}
    (hnumber : node.config.GivesNumber template.countField number)
    (hunits : number.units = n * Double.unitsPerOne) (hn : n ≤ maxSlots)
    (haccepted : ∀ fault, .invalidConfig template.countField node fault ∉
      Graph.configFindings definition node) :
    definition.slotCount node.config = n := by
  have hbounds := bounds_of_no_finding hfield hnumber haccepted
  have hdouble : number.toDouble.units = n * Double.unitsPerOne := by
    refine Number.units_toDouble hunits (Nat.lt_of_le_of_lt hn ?_)
    decide
  have hclamped : field.clampSlots n = n := by
    apply field.clampSlots_eq_self
    · intro minimum hminimum
      rw [Double.ceil_le_iff, ← hdouble]
      exact hbounds.1 minimum hminimum
    · intro maximum hmaximum
      rw [Double.le_floor_iff, ← hdouble]
      exact hbounds.2 maximum hmaximum
  have hfloor : number.floor = n := by
    rw [number.floor_eq, hunits, Double.mul_unitsPerOne_ediv]
  rw [slotCount_of_number hslots hfield hnumber, hfloor, Int.toNat_natCast, hclamped,
    Int.toNat_natCast, Nat.min_eq_left hn]

end Counting

/-- Where the count field is declared, a greater number in the config gives no fewer slots, and none
gives more than 64. If some whole number lies between the bounds of the field, then so does the
number of slots, as far as the bounds themselves lie between zero and 64. A whole number up to 64
with which validation finds no fault is the number of slots. -/
theorem slotCount_of_numbers (hslots : definition.slots = some template)
    (hfield : definition.schema.get? template.countField = some field) :
    (∀ lower higher : Config, ∀ a b, lower.GivesNumber template.countField a →
      higher.GivesNumber template.countField b → (a ≤ b ∨ a.toDouble ≤ b.toDouble) →
      definition.slotCount lower ≤ definition.slotCount higher ∧
        definition.slotCount higher ≤ 64) ∧
    (field.BoundsAgree → ∀ config,
      (∀ minimum, field.minimum = some minimum →
        min minimum.ceil.toNat 64 ≤ definition.slotCount config) ∧
      ∀ maximum, field.maximum = some maximum →
        definition.slotCount config ≤ min maximum.floor.toNat 64) ∧
    ∀ (node : Node) number (n : Nat), node.config.GivesNumber template.countField number →
      number.units = n * Double.unitsPerOne → n ≤ 64 →
      (∀ fault, .invalidConfig template.countField node fault ∉
        Graph.configFindings definition node) →
      definition.slotCount node.config = n := by
  refine ⟨?order, ?bounds, ?exact⟩
  case order =>
    intro lower higher a b hlower hhigher hle
    exact ⟨slotCount_mono hslots hfield hlower hhigher hle, definition.slotCount_le_maxSlots _⟩
  case bounds =>
    intro hagree config
    exact ⟨fun _ hminimum => min_ceil_le_slotCount hslots hfield hagree hminimum config,
      fun _ hmaximum => slotCount_le_of_maximum hslots hfield hmaximum config⟩
  case exact =>
    intro node number n hnumber hunits hn haccepted
    exact slotCount_eq_of_accepted hslots hfield hnumber hunits hn haccepted

end Definition

/-! ## A row of outputs -/

/-- A field for numbers from a half to three and a half. -/
def lengthField : ConfigField :=
  { ConfigField.ofType .number with
    minimum := Double.ofQuotient? false 1 2
    maximum := Double.ofQuotient? false 7 2 }

/-- The outputs of a row. -/
def rowTemplate : SlotTemplate where
  countField := "n"
  pins := [Pin.dataOut "out_\x7bi\x7d" "Out" (.single DataType.any)]

/-- A node with as many outputs as its config says, between one and three. -/
def row : Definition where
  nodeType := "row"
  label := "Row"
  category := "data"
  schema := .ofList [("n", lengthField)]
  pins := []
  slots := some rowTemplate
  lowering := .data

/-- The schema of a row has the field for its length. -/
theorem get?_schema_row : row.schema.get? "n" = some lengthField := by
  with_unfolding_all rfl

/-- At most three outputs are allowed. -/
theorem floor_lengthField : ∃ maximum, lengthField.maximum = some maximum ∧ maximum.floor = 3 := by
  have hsome : (lengthField.maximum.map Double.floor) = some 3 := by
    decide +kernel
  exact Option.map_eq_some_iff.1 hsome

/-- At least one output is required. -/
theorem ceil_lengthField : ∃ minimum, lengthField.minimum = some minimum ∧ minimum.ceil = 1 := by
  have hsome : (lengthField.minimum.map Double.ceil) = some 1 := by
    decide +kernel
  exact Option.map_eq_some_iff.1 hsome

/-- A row passes the checks of loading. Three outputs are the most that are tried out there, no row
has more, and they begin with a row of one. A fan with five outputs collides where one with three
does. -/
theorem row_slots_prefix :
    (row.check = .ok () ∧ ∃ pins fewer, row.instantiate 3 = .ok pins ∧
        row.instantiate 1 = .ok fewer ∧ fewer <+: pins) ∧
      (fan.instantiate 3 = .error ⟨"fan", "out_2"⟩ ∧
        fan.instantiate 5 = .error ⟨"fan", "out_2"⟩) ∧
      ∀ config, row.slotCount config ≤ 3 := by
  have hcollides : fan.instantiate 3 = .error ⟨"fan", "out_2"⟩ := by
    with_unfolding_all rfl
  obtain ⟨maximum, hmaximum, hfloor⟩ := floor_lengthField
  have hprobe : row.probeCounts = .ok [0, 1, 3] := by
    rw [row.probeCounts_of_maximum rfl get?_schema_row hmaximum, hfloor]
    rfl
  have hcheck : row.check = .ok () := by
    rw [Definition.check, hprobe]
    with_unfolding_all rfl
  obtain ⟨counts, greatest, hcounts, hgreatest, hmost, htried, hcount⟩ :=
    row.slots_prefix.2.2 _ _ maximum rfl get?_schema_row hmaximum
  obtain rfl : greatest = 3 := by
    rw [hprobe] at hcounts
    cases hcounts
    have hle : ∀ count ∈ [0, 1, 3], count ≤ 3 := by
      decide
    exact Nat.le_antisymm (hle greatest hgreatest) (hmost 3 (by decide))
  obtain ⟨pins, hpins⟩ := htried hcheck
  obtain ⟨fewer, hfewer, hprefix⟩ := row.slots_prefix.1 1 3 pins (by decide) hpins
  exact ⟨⟨hcheck, pins, fewer, hpins, hfewer, hprefix⟩,
    ⟨hcollides, fan.slots_prefix.2.1 3 5 _ (by decide) hcollides⟩, hcount⟩

/-- A config of a row that gives a number. -/
def rowConfig (number : Number) : Config := .ofList [("n", ⟨.number number, .number number⟩)]

/-- The config of a row gives its number. -/
theorem givesNumber_rowConfig (number : Number) :
    (rowConfig number).GivesNumber "n" number :=
  ⟨_, rfl, rfl⟩

/-- Rows are no longer for smaller numbers, whether these are smaller exactly or as doubles; they
have between one and three outputs, and two if two are asked for. -/
theorem row_slotCount_of_numbers :
    row.slotCount (rowConfig (.integer (-7))) ≤
        row.slotCount (rowConfig (.double (.greatest false))) ∧
      row.slotCount (rowConfig (.integer 9007199254740993)) ≤
        row.slotCount (rowConfig (.integer 9007199254740992)) ∧
      (∀ config, 1 ≤ row.slotCount config ∧ row.slotCount config ≤ 3) ∧
      row.slotCount (rowConfig (.integer 2)) = 2 := by
  have hslots : row.slots = some rowTemplate := rfl
  have hcounts := Definition.slotCount_of_numbers hslots get?_schema_row
  obtain ⟨minimum, hminimum, hceil⟩ := ceil_lengthField
  obtain ⟨maximum, hmaximum, hfloor⟩ := floor_lengthField
  refine ⟨?order, ?rounded, ?bounds, ?exact⟩
  case order =>
    have hle : Number.integer (-7) ≤ .double (.greatest false) := by
      decide +kernel
    exact (hcounts.1 _ _ _ _ (givesNumber_rowConfig _) (givesNumber_rowConfig _) (.inl hle)).1
  case rounded =>
    have hle : (Number.integer 9007199254740993).toDouble ≤
        (Number.integer 9007199254740992).toDouble := by
      decide +kernel
    exact (hcounts.1 _ _ _ _ (givesNumber_rowConfig _) (givesNumber_rowConfig _) (.inr hle)).1
  case bounds =>
    have hagree : lengthField.BoundsAgree := by
      intro low high hlow hhigh
      rw [hminimum] at hlow
      rw [hmaximum] at hhigh
      cases hlow
      cases hhigh
      rw [hceil, hfloor]
      decide
    intro config
    obtain ⟨hlow, hhigh⟩ := hcounts.2.1 hagree config
    have hlow := hlow minimum hminimum
    have hhigh := hhigh maximum hmaximum
    rw [hceil] at hlow
    rw [hfloor] at hhigh
    exact ⟨hlow, hhigh⟩
  case exact =>
    have hnone : Graph.configFindings row ⟨"row", "row", rowConfig (.integer 2)⟩ = [] := by
      rw [← List.isEmpty_iff]
      decide +kernel
    have hunits : (Number.integer 2).units = (2 : Nat) * Double.unitsPerOne := by
      rw [Number.units, Int.cast_ofNat_Int]
    refine hcounts.2.2 ⟨"row", "row", rowConfig (.integer 2)⟩ _ 2 (givesNumber_rowConfig _) hunits
      (by decide) ?_
    rw [hnone]
    exact fun _ => List.not_mem_nil

end AbilityGraph
