import Recompose.Plugin
import Recompose.Text.Quoted

/-!
# Provided values

Each entry of the `provide` option becomes a `provide` call.
-/

namespace Recompose.Provide

open Script (Tree)

/-- The key of a provided value: a string for a static name, the expression
for a computed key. -/
def keyCode (o : ComponentOption) (key : Tree) : String :=
  match key with
  | .node (.ident name) _ _ => quote name
  | .node (.string (some value)) _ _ => quote value
  | .node .computedKey _ [inner] => o.codeAt inner.unparen.span
  | other => o.codeAt other.span

def provided? (property : Tree) : Option (Tree × Tree) :=
  match property with
  | .node .keyValue _ [key, value] => some (key, value)
  | .node (.method _ _) _ (key :: _) | .node .getter _ (key :: _)
  | .node .shorthand _ (key :: _) => some (key, property)
  | _ => none

def calls (o : ComponentOption) (object : Tree) : List Fragment :=
  let code := object.parts.filterMap fun p => (provided? p).map fun (key, value) =>
    Fragment.code ("provide(" ++ keyCode o key ++ ", " ++ o.valueCode value ++ ")") .effect
  let imports := if code.isEmpty then [] else [Fragment.importing "vue" "provide"]
  code ++ imports

def transform (_ : Settings) (o : ComponentOption) : Except TransformError Output :=
  match o.value.asFunction?, o.value.asObject? with
  | some f, _ => do
    let (before, object) ← o.returnedObject "provide" f
    let body := before.toList.map fun span => Fragment.code (o.codeAt span ++ "\n") .effect
    return { fragments := body ++ calls o object }
  | none, some object => .ok { fragments := calls o object }
  | none, none => .ok {}

def plugin : Plugin where
  name := "provide"
  includes _ o := o.name == "provide"
  transform := transform

end Recompose.Provide
