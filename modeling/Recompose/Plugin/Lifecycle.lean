import Recompose.Plugin
import Recompose.Text.Naming

/-!
# Lifecycle hooks

A lifecycle option becomes a call that registers its hook. Nothing hooks into
creation any more, so the hooks of creation run before mount.
-/

namespace Recompose.Lifecycle

def options : List String :=
  ["beforeCreate", "created", "serverPrefetch", "beforeMount", "mounted", "beforeUpdate",
   "updated", "activated", "deactivated", "beforeUnmount", "unmounted", "beforeDestroy",
   "destroyed", "renderTracked", "renderTriggered", "errorCaptured"]

/-- The hook that takes the place of an option. -/
def hook (name : String) : String :=
  match name with
  | "beforeCreate" | "created" => "onBeforeMount"
  | "beforeDestroy" | "destroyed" => "onUnmounted"
  | other => camelCase ("on-" ++ other)

def registration (source call : String) (o : ComponentOption) : Output :=
  { fragments := [.code (call ++ "(" ++ o.callback ++ ")") .effect, .importing source call] }

def plugin : Plugin where
  name := "lifecycles"
  includes _ o := options.contains o.name
  transform _ o := .ok (registration "vue" (hook o.name) o)

end Recompose.Lifecycle
