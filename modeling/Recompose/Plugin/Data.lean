import Recompose.Plugin

/-!
# Data

Each entry of the `data` option becomes a ref.
-/

namespace Recompose.Data

open Script (Tree)

def tag : Provenance := "data"

def reactivityTag : Provenance := "data (reactivity transform)"

def refs (s : Settings) (o : ComponentOption) (object : Tree) : List Fragment :=
  let entries := object.properties
  let tag := if s.reactivityTransform then reactivityTag else tag
  let code := entries.flatMap fun (key, value) =>
    let init := o.valueCode value
    let line :=
      if s.reactivityTransform then "let " ++ key ++ " = $ref(" ++ init ++ ")"
      else "const " ++ key ++ " = ref(" ++ init ++ ")"
    [Fragment.property key tag true, .code line .state]
  let imports :=
    if entries.isEmpty || s.reactivityTransform then [] else [Fragment.importing "vue" "ref"]
  code ++ imports

def transform (s : Settings) (o : ComponentOption) : Except TransformError Output :=
  match o.value.asFunction?, o.value.asObject? with
  | some f, _ => do
    let (before, object) ← o.returnedObject "data" f
    let body := match before with
      | some span => [Fragment.code (o.codeAt span) .state, .code "" .state]
      | none => []
    return { fragments := body ++ refs s o object }
  | none, some object => .ok { fragments := refs s o object }
  | none, none => .ok {}

def visit (_ : Settings) (v : Visit) : List Fragment :=
  v.replaceFrom tag (· ++ ".value") ++ v.replaceFrom reactivityTag id

def plugin : Plugin where
  name := "data"
  includes _ o := o.name == "data"
  transform := transform
  visit := visit

end Recompose.Data
