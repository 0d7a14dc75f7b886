import Recompose.Plugin
import Recompose.Text.Identifier

/-!
# Watchers

Each entry of the `watch` option becomes a `watch` call. What is watched is
read through `this`, like any other access, and resolved in the second pass.
-/

namespace Recompose.Watch

open Script (Tree)

def splitPath : List Char → List (List Char)
  | [] => [[]]
  | c :: cs =>
    if c = '.' then [] :: splitPath cs
    else match splitPath cs with
      | [] => [[c]]
      | name :: rest => (c :: name) :: rest

/-- What a key watches: a path of names, or a single member. -/
def source (key : String) : String :=
  if (splitPath key.toList).all isIdentifierChars then "this." ++ key else memberAccess "this" key

/-- The static name of any property but a spread. -/
def propertyName? (property : Tree) : Option String :=
  match property.kind with
  | .spread => none
  | _ => property.parts.head?.bind Tree.staticName?

/-- The handler of a watcher and its further options, as code. -/
def watcher? (o : ComponentOption) (value : Tree) : Option (String × List String) :=
  match value.asFunction?, value.asString?, value.asIdent?, value.asObject? with
  | some f, _, _, _ => some (o.functionCode f, [])
  | _, some method, _, _ => some (memberAccess "this" method, [])
  | _, _, some reference, _ => some (reference, [])
  | _, _, _, some object => do
    let handler ← object.properties.get? "handler"
    let code ← match handler.asFunction? with
      | some f => some (o.script.functionCode f none 2)
      | none => handler.asString?.map (memberAccess "this")
    let options := object.parts.filter fun p => propertyName? p != some "handler"
    return (code, options.map fun p => o.script.code p 2)
  | _, _, _, _ => none

def entries (value : Tree) : List Tree :=
  match value.asArray? with
  | some array => array.elements.filter (·.kind != .spread)
  | none => [value]

def call (source : String) (watcher : String × List String) : String :=
  let (handler, options) := watcher
  let options :=
    if options.isEmpty then ""
    else ", \x7b\n" ++ String.join (options.map fun p => "  " ++ p ++ ",\n") ++ "\x7d"
  "watch(() => " ++ source ++ ", " ++ handler ++ options ++ ")"

def transform (_ : Settings) (o : ComponentOption) : Except TransformError Output :=
  match o.value.asObject? with
  | none => .ok {}
  | some object =>
    let calls := object.properties.flatMap fun (key, value) =>
      (entries value).filterMap fun entry => (watcher? o entry).map (call (source key))
    let imports := if calls.isEmpty then [] else [Fragment.importing "vue" "watch"]
    .ok { fragments := calls.map (Fragment.code · .effect) ++ imports }

def plugin : Plugin where
  name := "watch"
  includes _ o := o.name == "watch"
  transform := transform

end Recompose.Watch
