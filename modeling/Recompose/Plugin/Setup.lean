import Recompose.Plugin

/-!
# An existing setup function

The body of a `setup` option is taken over, and what it returns becomes known
by name.
-/

namespace Recompose.Setup

open Script (Tree)

def tag : Provenance := "setup"

/-- A name for the props, when the function has its own. -/
def propsAlias (f : Script.Callable) : List Fragment :=
  match f.firstParam? with
  | some name =>
    if name == "props" then [] else [.code ("const " ++ name ++ " = props") .state]
  | none => []

/-- What the returned object makes known. -/
def returned (o : ComponentOption) (object : Tree) : List Fragment :=
  object.properties.flatMap fun (key, value) =>
    let known := Fragment.property key tag true
    if value.asIdent? == some key then [known]
    else [known, .code ("const " ++ key ++ " = " ++ o.valueCode value) .state]

def transform (_ : Settings) (o : ComponentOption) : Except TransformError Output :=
  match o.value.asFunction? with
  | none => .ok { disposition := some .preserve }
  | some f => do
    let (before, object) ← o.returnedObject "setup" f
    let body := before.toList.map fun span => Fragment.code (o.codeAt span) .state
    return { fragments := propsAlias f ++ body ++ returned o object }

def visit (_ : Settings) (v : Visit) : List Fragment :=
  match v.name with
  | none => []
  | some name =>
    if !v.isFrom tag then []
    else if v.use.isWrite then [.replacement (name ++ ".value")]
    else [.importing "vue" "unref", .replacement ("unref(" ++ name ++ ")")]

def plugin : Plugin where
  name := "setup"
  includes _ o := o.name == "setup"
  transform := transform
  visit := visit

end Recompose.Setup
