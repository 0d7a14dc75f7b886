import Recompose.Plugin

/-!
# Exposed names

The `expose` option becomes one call with the exposed names.
-/

namespace Recompose.Expose

def transform (s : Settings) (o : ComponentOption) : Except TransformError Output :=
  let names := ((o.value.asArray?).map (·.stringElements)).getD []
  if names.isEmpty then .ok {}
  else
    let call := if s.scriptSetup then "defineExpose" else "expose"
    .ok { fragments := [.code (call ++ "(" ++ multilineObject names ++ ")") .effect] }

def plugin : Plugin where
  name := "expose"
  includes _ o := o.name == "expose"
  transform := transform

end Recompose.Expose
