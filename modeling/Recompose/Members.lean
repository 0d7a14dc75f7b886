import Recompose.Access
import Recompose.Code.Collected
import Recompose.Edit
import Recompose.Registry

/-!
# The second pass

Asks every plugin about every access to a member of `this`. The first
replacement that a plugin gives is written in the place of the access, or in
the place of `this` where the key is computed; code and snippets are collected
from all plugins.
-/

namespace Recompose

/-- What the plugins asked so far said about an access. -/
structure Inquiry where
  /-- The tag of the name, or of the plugin that claimed the access. -/
  source : Option Provenance
  replacement : Option String := none
  collected : Collected

namespace Inquiry

/-- Takes in one fragment of an answer. -/
def take [Script.Reader] (plugin : Nat) (q : Inquiry) (fragment : Fragment) : Inquiry :=
  let (collected, rest) := q.collected.collect plugin fragment
  let q := { q with collected := collected }
  match rest with
  | some (.replacement content) => { q with replacement := q.replacement.or (some content) }
  | _ => q

/-- Asks one plugin. The plugin whose replacement is taken claims an access
that nobody registered. -/
def ask [Script.Reader] (settings : Settings) (access : Access) (text : String) (q : Inquiry)
    (plugin : Plugin × Nat) : Inquiry :=
  let answer := plugin.1.visit settings ⟨access.name, access.use, q.source, text⟩
  let next := answer.foldl (take plugin.2) q
  let claims := q.replacement.isNone && next.replacement.isSome
  { next with
    source := if claims then next.source.or (some (Provenance.claimed plugin.1.name))
      else next.source }

end Inquiry

/-- Accesses resolved so far: the edits that replace them and the code that
replacements need. -/
structure Resolved where
  edits : Edits := {}
  collected : Collected := {}

def Resolved.resolve [Script.Reader] (script : Script) (registry : Registry) (plugins : List Plugin)
    (settings : Settings) (r : Resolved) (access : Access) : Resolved :=
  let start : Inquiry :=
    { source := access.name.bind registry.source?, collected := r.collected }
  let text := script.textAt access.span
  let done := plugins.zipIdx.foldl (Inquiry.ask settings access text) start
  { collected := done.collected
    edits := match done.replacement with
      | some content => r.edits.overwrite access.replaced content
      | none => r.edits }

/-- Resolves every access of a script outside of some spans. -/
def resolveMembers [Script.Reader] (script : Script) (registry : Registry) (plugins : List Plugin)
    (settings : Settings) (excluded : List Span) : Resolved :=
  (script.accessesOutside excluded).foldl (Resolved.resolve script registry plugins settings) {}

end Recompose
