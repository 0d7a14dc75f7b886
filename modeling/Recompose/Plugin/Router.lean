import Recompose.Plugin.Lifecycle

/-!
# Routing

Navigation guards become calls that register them, and `$router` and `$route`
become constants.
-/

namespace Recompose.Router

def bind (name composable : String) : List Fragment :=
  [.importing "vue-router" composable, .hoisting ("const " ++ name ++ " = " ++ composable ++ "()"),
   .replacement name]

def visit (_ : Settings) (v : Visit) : List Fragment :=
  if v.source.isSome then []
  else match v.name with
    | some "$router" => bind "router" "useRouter"
    | some "$route" => bind "route" "useRoute"
    | _ => []

def plugin : Plugin where
  name := "vue-router"
  includes _ o := o.name == "beforeRouteUpdate" || o.name == "beforeRouteLeave"
  transform _ o := .ok (Lifecycle.registration "vue-router" (camelCase ("on-" ++ o.name)) o)
  visit := visit

end Recompose.Router
