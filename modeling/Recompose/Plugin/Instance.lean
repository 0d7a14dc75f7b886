import Recompose.Plugin
import Recompose.Text.Identifier

/-!
# The instance as a fallback

Accesses that nobody registered or claimed go through the proxy of the current
instance.
-/

namespace Recompose.Instance

def visit (_ : Settings) (v : Visit) : List Fragment :=
  if v.source.isSome then []
  else
    let replacement := match v.name with
      | some name => memberAccess "instance.proxy" name
      | none => "instance.proxy"
    [.importing "vue" "getCurrentInstance", .hoisting "const instance = getCurrentInstance()",
     .replacement replacement]

def plugin : Plugin where
  name := "instance"
  visit := visit

end Recompose.Instance
