import Recompose.Json.Basic
import Recompose.Script.Basic

/-!
# Literal data in scripts

Reads an expression as a JSON value as far as that needs no running. What is
not literal is left out of the array or object around it.
-/

namespace Recompose.Script.Tree

/-- The name of a property that is spelt as a name or a string. -/
def literalKey? : Tree → Option String
  | node (.ident name) _ _ => some name
  | node (.string value) _ _ => value
  | _ => none

mutual

/-- The value that an expression spells out. -/
def json? : Tree → Option Json.Value
  | node (.string value) _ _ => value.map .text
  | node (.boolean value) _ _ => some (.bool value)
  | node (.number text) _ _ => if text = "inf" then none else some (.number text)
  | node .null _ _ => some .null
  | node .array _ parts => some (.list (jsonItems parts))
  | node .object _ parts => some (.object (jsonFields [] parts))
  | node .paren _ [inner] => inner.json?
  | _ => none

def jsonItems : List Tree → List Json.Value
  | [] => []
  | t :: ts =>
    match t.json? with
    | some value => value :: jsonItems ts
    | none => jsonItems ts

/-- The properties of an object that are literal, after those already read.
The last value of a repeated name counts. -/
def jsonFields (read : Entries Json.Value) : List Tree → Entries Json.Value
  | [] => read
  | node .keyValue _ [key, value] :: ts =>
    match key.literalKey?, value.json? with
    | some name, some value => jsonFields (read.put name value) ts
    | _, _ => jsonFields read ts
  | _ :: ts => jsonFields read ts

end

/-- The object literal that an expression hands over: itself, or inside
parentheses, casts and calls with one argument. -/
def handedObject? : Tree → Option Tree
  | node .object span parts => some (node .object span parts)
  | node .paren _ [inner] => inner.handedObject?
  | node .spread _ [inner] => inner.handedObject?
  | node .cast _ (inner :: _) => inner.handedObject?
  | node .call _ (callee :: argument :: rest) =>
    match callee.kind with
    | .keyword _ => none
    | _ =>
      if argument.kind != .type && rest.all (·.kind == .type) then argument.handedObject?
      else none
  | _ => none

end Recompose.Script.Tree
