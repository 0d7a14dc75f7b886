import Recompose.Plugin
import Recompose.Text.Naming

/-!
# Local components and directives

A setup script finds components and directives among its bindings, so their
registrations become constants with the names that the template looks up.
-/

namespace Recompose.Registrations

/-- Binds every registered value that does not have its name already. -/
def bind (binding : String → String) (o : ComponentOption) : Output :=
  match o.value.asObject? with
  | none => {}
  | some object =>
    { fragments := object.properties.filterMap fun (key, value) =>
        let name := binding key
        if value.asIdent? == some name then none
        else some (.code ("const " ++ name ++ " = " ++ o.valueCode value) .state) }

def components : Plugin where
  name := "components"
  includes s o := s.scriptSetup && o.name == "components"
  transform _ o := .ok (bind pascalCase o)

def directives : Plugin where
  name := "directives"
  includes s o := s.scriptSetup && o.name == "directives"
  transform _ o := .ok (bind (fun key => camelCase ("v-" ++ key)) o)

end Recompose.Registrations
