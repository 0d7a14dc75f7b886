import Recompose.Plugin.Computed
import Recompose.Plugin.Data
import Recompose.Plugin.Emits
import Recompose.Plugin.Expose
import Recompose.Plugin.Inject
import Recompose.Plugin.Instance
import Recompose.Plugin.Lifecycle
import Recompose.Plugin.Methods
import Recompose.Plugin.Props
import Recompose.Plugin.Provide
import Recompose.Plugin.Registrations
import Recompose.Plugin.Router
import Recompose.Plugin.Setup
import Recompose.Plugin.Store
import Recompose.Plugin.Watch

/-!
# The plugins of a transformation

Further plugins run before or after those that are built in. The fallback to
the instance runs last, so that it sees only what nobody claimed.
-/

namespace Recompose

/-- The plugins that are built in, the fallback apart, in run order. -/
def builtinPlugins : List Plugin :=
  [Props.plugin, Emits.plugin, Inject.plugin, Registrations.components, Registrations.directives,
   Setup.plugin, Data.plugin, Computed.plugin, Store.plugin, Methods.plugin, Watch.plugin,
   Lifecycle.plugin, Router.plugin, Provide.plugin, Expose.plugin]

/-- All plugins in run order. A plugin is known by its place. -/
def Options.allPlugins (o : Options) : List Plugin :=
  o.pluginsAt .pre ++ builtinPlugins ++ o.pluginsAt .post ++ [Instance.plugin]

end Recompose
