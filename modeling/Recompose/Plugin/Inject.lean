import Recompose.Plugin
import Recompose.Text.Quoted

/-!
# Injections

Each entry of the `inject` option becomes an `inject` call.
-/

namespace Recompose.Inject

open Script (Tree)

def tag : Provenance := "inject"

/-- The key to inject from and the default, as far as an entry gives them. -/
def arguments (o : ComponentOption) (value : Tree) : Option String × Option String :=
  match value.asObject? with
  | some object =>
    let options := object.properties
    ((options.get? "from").map o.valueCode, (options.get? "default").map o.valueCode)
  | none => (value.asString?.map quote, none)

def injections (o : ComponentOption) : List (String × Option String × Option String) :=
  match o.value.asObject?, o.value.asArray? with
  | some object, _ => object.properties.map fun (key, value) => (key, arguments o value)
  | none, some array => array.stringElements.map fun key => (key, none, none)
  | none, none => []

def transform (_ : Settings) (o : ComponentOption) : Except TransformError Output :=
  let all := injections o
  let code := all.flatMap fun (key, source, default) =>
    let source := source.getD (quote key)
    let args := match default with
      | some d => source ++ ", " ++ d
      | none => source
    [Fragment.property key tag true,
     .code ("const " ++ key ++ " = inject(" ++ args ++ ")") .interface]
  let imports := if all.isEmpty then [] else [Fragment.importing "vue" "inject"]
  .ok { fragments := code ++ imports }

def plugin : Plugin where
  name := "inject"
  includes _ o := o.name == "inject"
  transform := transform
  visit _ v := v.replaceFrom tag id

end Recompose.Inject
