import AbilityGraph.Json
import AbilityGraph.Number.Shortest

/-!
# JSON text

Two texts of a JSON value: `Json.compact` on one line without blanks, and `Json.indented` with two
blanks for each level. Both list members in the order of the tree. Strings are escaped only where
they must be, and everything else stands as it is.
-/

set_option autoImplicit false

namespace AbilityGraph

namespace Number

def text : Number → String
  | integer value => value.repr
  | double value => DecimalLayout.json.write value

end Number

namespace Json

/-- A lower-case hexadecimal digit. -/
def hexDigit (n : Nat) : Char := Nat.digitChar n

/-- The text of one character inside a JSON string. -/
def escapeChar (c : Char) : List Char :=
  if c = '"' then ['\\', '"']
  else if c = '\\' then ['\\', '\\']
  else if c = '\x08' then ['\\', 'b']
  else if c = '\x0c' then ['\\', 'f']
  else if c = '\n' then ['\\', 'n']
  else if c = '\r' then ['\\', 'r']
  else if c = '\t' then ['\\', 't']
  else if c.toNat < 0x20 then
    ['\\', 'u', '0', '0', hexDigit (c.toNat / 16), hexDigit (c.toNat % 16)]
  else [c]

/-- A text as a JSON string, quotes included. -/
def quoted (s : String) : String :=
  String.ofList ('"' :: (s.toList.flatMap escapeChar ++ ['"']))

mutual

/-- The text of a value on one line, without blanks. -/
def compact : Json → String
  | null => "null"
  | bool true => "true"
  | bool false => "false"
  | number value => value.text
  | string value => quoted value
  | array items => "[" ++ ",".intercalate (compactItems items) ++ "]"
  | object members => "\x7b" ++ ",".intercalate (compactMembers members) ++ "\x7d"

/-- The texts of the items of an array. -/
def compactItems : List Json → List String
  | [] => []
  | item :: rest => compact item :: compactItems rest

/-- The texts of the members of an object. -/
def compactMembers : List (String × Json) → List String
  | [] => []
  | (name, value) :: rest => (quoted name ++ ":" ++ compact value) :: compactMembers rest

end

/-- Parts of an array or object, each on its own line one level deeper than the brackets. -/
def lines (margin opening closing : String) (parts : List String) : String :=
  if parts.isEmpty then opening ++ closing else
    let inner := margin ++ "  "
    opening ++ "\n" ++ ",\n".intercalate (parts.map (inner ++ ·)) ++ "\n" ++ margin ++ closing

mutual

/-- The text of a value with two blanks for each level, below a given margin. -/
def indentedWithin (margin : String) : Json → String
  | array items => lines margin "[" "]" (indentedItems (margin ++ "  ") items)
  | object members =>
    lines margin "\x7b" "\x7d" (indentedMembers (margin ++ "  ") members)
  | scalar => compact scalar

/-- The texts of the items of an array, each below the given margin. -/
def indentedItems (margin : String) : List Json → List String
  | [] => []
  | item :: rest => indentedWithin margin item :: indentedItems margin rest

/-- The texts of the members of an object, each below the given margin. -/
def indentedMembers (margin : String) : List (String × Json) → List String
  | [] => []
  | (name, value) :: rest =>
    (quoted name ++ ": " ++ indentedWithin margin value) :: indentedMembers margin rest

end

/-- The text of a value over several lines. -/
def indented (j : Json) : String := indentedWithin "" j

end Json

def Value.text (v : Value) : String := v.tree.compact

end AbilityGraph
