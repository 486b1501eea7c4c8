import AbilityGraph.Json.Token
import AbilityGraph.Json.Wire

/-!
# Reading JSON text

The tokens of a text are taken one by one. What has been read so far is a stack of arrays and
objects that are still open, together with what may come next; a closing bracket puts its array or
object into the one around it. So a text of any depth is read by one pass over its tokens.

Levels are counted here: an array or object more than `depthLimit` levels deep is well formed but
has no value, and neither has an object in which a member's name has none.
-/

set_option autoImplicit false

namespace AbilityGraph

namespace Wire

/-- The greatest number of levels of arrays and objects that have a value. -/
def depthLimit : Nat := 127

/-- An array or object that is still open, with its content so far in reverse order. -/
inductive Open where
  | array (items : List Wire)
  | object (members : List (Option String × Wire))
  /-- An object whose last member has a name but no value yet. -/
  | member (members : List (Option String × Wire)) (name : Option String)

/-- What may come next inside the innermost open array or object, or at the top level. -/
inductive Expected where
  | value
  | valueOrEnd
  | name
  | nameOrEnd
  | colon
  | commaOrEnd
  | nothing (root : Wire)

/-- A text that has been read up to some token. -/
structure Progress where
  stack : List Open
  expected : Expected

namespace Progress

/-- Nothing has been read. -/
def start : Progress := ⟨[], .value⟩

/-- A value has been read: it goes into what is open around it. -/
def put (value : Wire) : List Open → Option Progress
  | [] => some ⟨[], .nothing value⟩
  | .array items :: outer => some ⟨.array (value :: items) :: outer, .commaOrEnd⟩
  | .member members name :: outer =>
    some ⟨.object ((name, value) :: members) :: outer, .commaOrEnd⟩
  | .object _ :: _ => none

/-- The object with the given members, which are in reverse order, if all their names have
values. -/
def closeObject (members : List (Option String × Wire)) : Wire :=
  match members.reverse.mapM fun m => m.1.map (·, m.2) with
  | some named => .object named
  | none => .unreadable

/-- A closing bracket has been read. -/
def close (array : Bool) (stack : List Open) : Option Progress :=
  let within (value : Wire) := if (stack.drop depthLimit).isEmpty then value else .unreadable
  match array, stack with
  | true, .array items :: outer => put (within (.array items.reverse)) outer
  | false, .object members :: outer => put (within (closeObject members)) outer
  | _, _ => none

/-- The value that a token is by itself. -/
def scalar? : Token → Option Wire
  | .null => some .null
  | .bool b => some (.bool b)
  | .number (some n) => some (.number n)
  | .string (some s) => some (.string s)
  | .number none => some .unreadable
  | .string none => some .unreadable
  | _ => none

/-- The start of a value has been read. -/
def open? (stack : List Open) : Token → Option Progress
  | .openArray => some ⟨.array [] :: stack, .valueOrEnd⟩
  | .openObject => some ⟨.object [] :: stack, .nameOrEnd⟩
  | token => scalar? token >>= (put · stack)

/-- A member's name has been read. -/
def name? (stack : List Open) : Token → Option Progress
  | .string name =>
    match stack with
    | .object members :: outer => some ⟨.member members name :: outer, .colon⟩
    | _ => none
  | _ => none

/-- One more token has been read; nothing if it may not stand there. -/
def next (progress : Progress) (token : Token) : Option Progress :=
  let stack := progress.stack
  match progress.expected, token with
  | .value, token => open? stack token
  | .valueOrEnd, .closeArray => close true stack
  | .valueOrEnd, token => open? stack token
  | .name, token => name? stack token
  | .nameOrEnd, .closeObject => close false stack
  | .nameOrEnd, token => name? stack token
  | .colon, .colon => some ⟨stack, .value⟩
  | .commaOrEnd, .closeArray => close true stack
  | .commaOrEnd, .closeObject => close false stack
  | .commaOrEnd, .comma =>
    match stack with
    | .array _ :: _ => some ⟨stack, .value⟩
    | .object _ :: _ => some ⟨stack, .name⟩
    | _ => none
  | _, _ => none

end Progress

/-- The JSON that a sequence of tokens is, if it is one value and nothing else. -/
def ofTokens? (tokens : List Token) : Option Wire := do
  let progress ← tokens.foldlM Progress.next .start
  match progress.expected with
  | .nothing root => some root
  | _ => none

/-- The JSON that a text is. -/
def ofText? (text : String) : Option Wire := Token.ofText? text >>= ofTokens?

end Wire

/-- The JSON value that a text is. -/
def Json.ofText? (text : String) : Option Json := Wire.ofText? text >>= Wire.toJson?

end AbilityGraph
