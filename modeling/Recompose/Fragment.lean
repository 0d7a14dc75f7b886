/-!
# Fragments

Fragments are all that plugins produce: code, hoisted snippets, names that
become known on `this`, and replacements for accesses to such names.
-/

namespace Recompose

/-- Bands of generated statements, in the order in which they are printed. -/
inductive Priority where
  /-- Hoisted snippets that are neither imports nor declarations. -/
  | hoisted
  /-- Props, emits and injections. -/
  | interface
  /-- Reactive state and the body of `setup()`. -/
  | state
  /-- Computed values and methods. -/
  | derived
  /-- Watchers, lifecycle hooks and other side effects. -/
  | effect
deriving DecidableEq, Repr

def Priority.rank : Priority → Nat
  | hoisted => 0
  | interface => 1
  | state => 2
  | derived => 3
  | effect => 4

/-- The plugin that defined a name, so that it can resolve accesses later. -/
abbrev Provenance := String

/-- The tag of an access that a plugin replaced though nobody registered the
name. -/
def Provenance.claimed (plugin : String) : Provenance := "claimed:" ++ plugin

inductive Fragment where
  /-- A statement for the plugin's section of the generated code. -/
  | code (content : String) (priority : Priority)
  /-- An import or declaration for the top, merged with others. -/
  | hoist (content : String) (priority : Priority)
  /-- A name on `this`; an exposed one is returned by a setup function. -/
  | property (name : String) (source : Provenance) (exposed : Bool)
  /-- What takes the place of the visited access. -/
  | replacement (content : String)
deriving DecidableEq, Repr

namespace Fragment

def hoisting (content : String) : Fragment := .hoist content .hoisted

def importing (source specifier : String) : Fragment :=
  hoisting ("import \x7b " ++ specifier ++ " \x7d from '" ++ source ++ "'")

end Fragment

end Recompose
