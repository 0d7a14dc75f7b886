import Recompose.Plugin

/-!
# Methods

Each entry of the `methods` option becomes a function.
-/

namespace Recompose.Methods

open Script (Tree)

def tag : Provenance := "methods"

/-- A method as a function declaration, or as a constant where it is no plain
function. -/
def declaration (o : ComponentOption) (key : String) (value : Tree) : String :=
  let constant := "const " ++ key ++ " = " ++ o.valueCode value
  match value.asFunction? with
  | some f => if f.form == .function then o.script.functionCode f (some key) 0 else constant
  | none => constant

def transform (_ : Settings) (o : ComponentOption) : Except TransformError Output :=
  match o.value.asObject? with
  | none => .ok {}
  | some object =>
    .ok { fragments := object.properties.flatMap fun (key, value) =>
            [.property key tag true, .code (declaration o key value) .derived] }

def plugin : Plugin where
  name := "methods"
  includes _ o := o.name == "methods"
  transform := transform
  visit _ v := v.replaceFrom tag id

end Recompose.Methods
