import AbilityGraph.Number.Double

/-!
# JSON values

A JSON value as a tree. A number is an integer or a double, and the two are different values even
when they are equal in size. `Json.same` is the equality of values that a schema's list of allowed
values uses: numbers of one kind are compared by value, so zero equals negative zero.

`Json.Normal` singles out the trees whose objects list their members in strictly increasing order
of name. Each value without repeated names has one such tree, and `Value` is the type of them: it is
what a config, a schema or a compiled step holds as free content.
-/

set_option autoImplicit false

namespace AbilityGraph

/-- A JSON number: an integer, or a double for every number written with a point or an exponent or
too great for 64 bits. -/
inductive Number where
  | integer (value : Int)
  | double (value : Double)
  deriving DecidableEq, Inhabited

namespace Number

/-- The nearest double to a number. -/
def toDouble : Number → Double
  | integer value => .ofInt value
  | double value => value

/-- Whether two numbers are the same value: of one kind, and equal. -/
def same : Number → Number → Bool
  | integer x, integer y => x == y
  | double x, double y => x == y
  | _, _ => false

end Number

/-- A JSON value; an object lists its members in some order. -/
inductive Json where
  | null
  | bool (value : Bool)
  | number (value : Number)
  | string (value : String)
  | array (items : List Json)
  | object (members : List (String × Json))
  deriving Inhabited

namespace Json

def integer (n : Int) : Json := .number (.integer n)

mutual

/-- Whether two trees are the same value, objects being compared member by member. -/
def same : Json → Json → Bool
  | null, null => true
  | bool x, bool y => x == y
  | number x, number y => x.same y
  | string x, string y => x == y
  | array xs, array ys => sameItems xs ys
  | object xs, object ys => sameMembers xs ys
  | _, _ => false

/-- Whether two lists hold the same values in the same order. -/
def sameItems : List Json → List Json → Bool
  | [], [] => true
  | x :: xs, y :: ys => same x y && sameItems xs ys
  | _, _ => false

/-- Whether two lists hold the same members in the same order. -/
def sameMembers : List (String × Json) → List (String × Json) → Bool
  | [], [] => true
  | (n, x) :: xs, (m, y) :: ys => n == m && same x y && sameMembers xs ys
  | _, _ => false

end

/-- The names of the members increase strictly in every object of the tree. -/
inductive Normal : Json → Prop
  | null : Normal .null
  | bool (value : Bool) : Normal (.bool value)
  | number (value : Number) : Normal (.number value)
  | string (value : String) : Normal (.string value)
  | array {items : List Json} (hitems : ∀ item ∈ items, Normal item) : Normal (.array items)
  | object {members : List (String × Json)}
      (hordered : members.Pairwise (fun a b => a.1 < b.1))
      (hmembers : ∀ member ∈ members, Normal member.2) : Normal (.object members)

end Json

/-- A JSON value in its normal tree. -/
@[ext] structure Value where
  tree : Json
  normal : tree.Normal

namespace Value

def null : Value := ⟨.null, .null⟩

def bool (b : Bool) : Value := ⟨.bool b, .bool b⟩

def integer (n : Int) : Value := ⟨.integer n, .number _⟩

def string (s : String) : Value := ⟨.string s, .string s⟩

instance : Inhabited Value := ⟨null⟩

/-- Values are equal when their trees are the same value. -/
instance : BEq Value := ⟨fun a b => a.tree.same b.tree⟩

def isNull (v : Value) : Bool :=
  match v.tree with
  | .null => true
  | _ => false

/-- The number that the value is, if it is one. -/
def number? (v : Value) : Option Number :=
  match v.tree with
  | .number n => some n
  | _ => none

end Value

end AbilityGraph
