import Recompose.Error
import Recompose.Fragment
import Recompose.Script.Values
import Recompose.Settings

/-!
# Plugins

A plugin takes part in two passes. In the first it transforms the options of a
component that it includes, and answers with fragments. In the second it is
asked about every access to a name on `this` in the generated code, and may
answer with a replacement.
-/

namespace Recompose

/-! ## First pass -/

/-- What becomes of an option after the plugins that included it ran. -/
inductive Disposition where
  | remove
  /-- Keep the option as written. -/
  | preserve
  /-- Keep the option with a new value. -/
  | replace (value : String)
deriving DecidableEq, Repr

structure Output where
  fragments : List Fragment := []
  disposition : Option Disposition := none
deriving Repr

/-- An option of a component: its name and its value in a script. -/
structure ComponentOption where
  name : String
  value : Script.Tree
  script : Script

namespace ComponentOption

/-- Source code under a span, moved to the left margin. -/
def codeAt (o : ComponentOption) (span : Span) : String := o.script.codeAt span 0

def valueCode (o : ComponentOption) (value : Script.Tree) : String := o.script.valueCode value 0

def functionCode (o : ComponentOption) (f : Script.Callable) : String :=
  o.script.functionCode f none 0

/-- The option as a function or value to hand over. -/
def callback (o : ComponentOption) : String :=
  match o.value.asFunction? with
  | some f => o.functionCode f
  | none => o.valueCode o.value

/-- The names that an option declares: the entries of an object with their
values, or the strings of an array. -/
def declared (o : ComponentOption) : Entries (Option Script.Tree) :=
  match o.value.asObject?, o.value.asArray? with
  | some object, _ => object.properties.map fun (name, value) => (name, some value)
  | none, some array => Entries.ofPairs (array.stringElements.map (·, none))
  | none, none => []

/-- Cuts the body of an option that is a function: the span of the statements
before the return, and what is returned. -/
def splitReturn (o : ComponentOption) (option : String) (f : Script.Callable) :
    Except TransformError (Option Span × Option Script.Tree) :=
  match f.body with
  | .block block =>
    match block.splitBody? with
    | some split => .ok (Script.statementsSpan? split.before, split.returned)
    | none => .error (.missingReturn option o.value.span)
  | .expr e => .ok (none, some e.unparen)
  | .missing => .ok (none, none)

/-- What an option that is a function returns: the span of the statements
before the return, and the returned object. -/
def returnedObject (o : ComponentOption) (option : String) (f : Script.Callable) :
    Except TransformError (Option Span × Script.Tree) := do
  let (before, returned) ← o.splitReturn option f
  match returned with
  | some object =>
    if object.kind == .object then return (before, object)
    else throw (.returnNotObject option o.value.span)
  | none => throw (.returnNotObject option o.value.span)

end ComponentOption

/-! ## Second pass -/

/-- How an access is used by the expression around it. -/
inductive AccessUse where
  | assigned
  | updated
  | called
  | other
deriving DecidableEq, Repr

def AccessUse.isWrite : AccessUse → Bool
  | assigned | updated => true
  | called | other => false

/-- An access to a member of `this` as a plugin sees it. -/
structure Visit where
  /-- The accessed name; a computed key that is no string has none. -/
  name : Option String
  use : AccessUse
  /-- The plugin that registered the name or already claimed the access. -/
  source : Option Provenance
  /-- The text of the access. -/
  text : String

def Visit.isFrom (v : Visit) (tag : Provenance) : Bool := v.source == some tag

/-- Replaces an access to a name registered under a tag. -/
def Visit.replaceFrom (v : Visit) (tag : Provenance) (text : String → String) : List Fragment :=
  match v.name with
  | some name => if v.isFrom tag then [.replacement (text name)] else []
  | none => []

/-! ## Plugins -/

structure Plugin where
  name : String
  /-- Whether the plugin transforms an option. -/
  includes : Settings → ComponentOption → Bool := fun _ _ => false
  transform : Settings → ComponentOption → Except TransformError Output := fun _ _ => .ok {}
  visit : Settings → Visit → List Fragment := fun _ _ => []

/-- Where a plugin that is not built in runs. -/
inductive PluginOrder where
  | pre
  | post
deriving DecidableEq, Repr

structure Options where
  settings : Settings := {}
  plugins : List (PluginOrder × Plugin) := []

/-- The further plugins that run at a place. -/
def Options.pluginsAt (o : Options) (order : PluginOrder) : List Plugin :=
  (o.plugins.filter (·.1 = order)).map (·.2)

end Recompose
