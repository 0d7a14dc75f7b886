import Recompose.Code.Collected
import Recompose.Plugin
import Recompose.Registry
import Recompose.Text.Identifier

/-!
# The first pass

Every plugin that includes an option transforms it. Code and snippets are
collected, names are registered, and options that nobody includes, or that
their plugins want to keep, are preserved.
-/

namespace Recompose

structure OptionsPass where
  collected : Collected := {}
  registry : Registry := {}
  /-- Options that stay on the component, in source order, as text. -/
  preserved : List String := []
  /-- How many options a plugin included. -/
  matched : Nat := 0

namespace OptionsPass

/-- Takes in one fragment. Fragments that belong to the second pass count for
nothing. -/
def take [Script.Reader] (pass : OptionsPass) (plugin : Nat) (fragment : Fragment) :
    Except TransformError OptionsPass :=
  let (collected, rest) := pass.collected.collect plugin fragment
  let pass := { pass with collected := collected }
  match rest with
  | some (.property name source exposed) => do
    return { pass with registry := ← pass.registry.register name source exposed }
  | _ => .ok pass

/-- An option on its way through the plugins: what was said about it so far,
and whether any plugin included it. -/
structure Progress where
  pass : OptionsPass
  disposition : Option Disposition := none
  included : Bool := false

/-- Lets one plugin transform an option if it includes it. -/
def Progress.run [Script.Reader] (settings : Settings) (o : ComponentOption) (p : Progress)
    (plugin : Plugin × Nat) : Except TransformError Progress :=
  if plugin.1.includes settings o then do
    let output ← plugin.1.transform settings o
    let pass ← output.fragments.foldlM (fun pass f => pass.take plugin.2 f) p.pass
    return { pass := pass, disposition := output.disposition.or p.disposition, included := true }
  else .ok p

/-- What stays of an option that plugins included. -/
def kept (script : Script) (property : Script.Tree) (name : String) :
    Disposition → List String
  | .remove => []
  | .preserve => [script.text property]
  | .replace value => [propertyKey name ++ ": " ++ value]

/-- Takes one property of the options object through all plugins. -/
def step [Script.Reader] (script : Script) (plugins : List Plugin) (settings : Settings)
    (pass : OptionsPass) (property : Script.Tree) : Except TransformError OptionsPass :=
  let preserve (pass : OptionsPass) (texts : List String) : OptionsPass :=
    { pass with preserved := pass.preserved ++ texts }
  match property.option? with
  | none => .ok (preserve pass [script.text property])
  | some (name, value) => do
    let o : ComponentOption := ⟨name, value, script⟩
    let start : Progress := { pass := pass }
    let progress ← plugins.zipIdx.foldlM (Progress.run settings o) start
    if progress.included then
      let texts := kept script property name (progress.disposition.getD .remove)
      return preserve { progress.pass with matched := pass.matched + 1 } texts
    else return preserve progress.pass [script.text property]

end OptionsPass

def transformOptions [Script.Reader] (script : Script) (object : Script.Tree)
    (plugins : List Plugin) (settings : Settings) : Except TransformError OptionsPass :=
  object.parts.foldlM (OptionsPass.step script plugins settings) {}

end Recompose
