import Recompose.Plugin

/-!
# Computed values

Each entry of the `computed` option becomes a computed ref. An object with a
getter and a setter, or a reference, is a fine argument as it is.
-/

namespace Recompose.Computed

def tag : Provenance := "computed"

def reactivityTag : Provenance := "computed (reactivity transform)"

def transform (s : Settings) (o : ComponentOption) : Except TransformError Output :=
  match o.value.asObject? with
  | none => .ok {}
  | some object =>
    let entries := object.properties
    let (tag, head, call) : Provenance × String × String :=
      if s.reactivityTransform then (reactivityTag, "let ", "$computed") else (tag, "const ", "computed")
    let code := entries.flatMap fun (key, value) =>
      let argument := { o with value := value : ComponentOption }.callback
      [Fragment.property key tag true,
       .code (head ++ key ++ " = " ++ call ++ "(" ++ argument ++ ")") .derived]
    let imports :=
      if entries.isEmpty || s.reactivityTransform then []
      else [Fragment.importing "vue" "computed"]
    .ok { fragments := code ++ imports }

def visit (_ : Settings) (v : Visit) : List Fragment :=
  v.replaceFrom tag (· ++ ".value") ++ v.replaceFrom reactivityTag id

def plugin : Plugin where
  name := "computed"
  includes _ o := o.name == "computed"
  transform := transform
  visit := visit

end Recompose.Computed
