import Recompose.Code.Snippet
import Recompose.Fragment

/-!
# Collected code

Code and hoisted snippets of plugins, kept until they are printed. Code is
kept in sections, one per band and plugin, in the order of both; snippets that
are imports or declarations are kept as requests, to be merged.
-/

namespace Recompose

/-- The code of one plugin in one band, line by line. -/
structure Section where
  priority : Priority
  plugin : Nat
  lines : List String
deriving DecidableEq, Repr

/-- Whether code of a band and plugin goes before a section. -/
def Section.follows (s : Section) (priority : Priority) (plugin : Nat) : Bool :=
  priority.rank < s.priority.rank || (priority.rank == s.priority.rank && plugin < s.plugin)

/-- Adds code to its section, which is opened at its place if need be. -/
def addToSections (sections : List Section) (priority : Priority) (plugin : Nat)
    (content : String) : List Section :=
  match sections with
  | [] => [⟨priority, plugin, [content]⟩]
  | s :: rest =>
    if s.priority = priority ∧ s.plugin = plugin then
      { s with lines := s.lines ++ [content] } :: rest
    else if s.follows priority plugin then ⟨priority, plugin, [content]⟩ :: s :: rest
    else s :: addToSections rest priority plugin content

structure Collected where
  sections : List Section := []
  imports : List ImportRequest := []
  declarations : List DeclarationRequest := []
deriving Repr

namespace Collected

def addCode (c : Collected) (plugin : Nat) (content : String) (priority : Priority) : Collected :=
  { c with sections := addToSections c.sections priority plugin content }

/-- Adds a hoisted snippet; one that cannot be merged is code. -/
def addHoisted [Script.Reader] (c : Collected) (plugin : Nat) (content : String)
    (priority : Priority) : Collected :=
  match Snippet.ofText content with
  | .imports request => { c with imports := c.imports ++ [request] }
  | .declares requests => { c with declarations := c.declarations ++ requests }
  | .other => c.addCode plugin content priority

/-- Takes code and snippets, and hands every other fragment back. -/
def collect [Script.Reader] (c : Collected) (plugin : Nat) (fragment : Fragment) :
    Collected × Option Fragment :=
  match fragment with
  | .code content priority => (c.addCode plugin content priority, none)
  | .hoist content priority => (c.addHoisted plugin content priority, none)
  | other => (c, some other)

def localCode (c : Collected) : String :=
  "\n\n".intercalate (c.sections.map fun s => "\n".intercalate s.lines)

end Collected

end Recompose
