import Recompose.Plugin

/-!
# Store mappings

Helpers that map state, getters and actions of a store into a component are
spread into `computed` and `methods`. Every mapped store gets one variable;
state and getters are taken out of it as refs, actions directly.
-/

namespace Recompose.Store

open Script (Tree)

def stateTag : Provenance := "pinia state"

def stateReactivityTag : Provenance := "pinia state (reactivity transform)"

def actionsTag : Provenance := "pinia actions"

/-- A mapping: its helper, the function that gives the store, and pairs of a
key of the store and a local name. -/
structure Mapping where
  helper : String
  store : String
  keys : List (String × String)

/-- The name that an expression is, parentheses taken off. -/
def nameOf? (t : Tree) : Option String :=
  match t.unparen.kind with
  | .ident name => some name
  | _ => none

/-- The keys that a mapping takes: strings of an array, or entries of an object
whose values are strings. -/
def keysOf (t : Tree) : List (String × String) :=
  let t := t.unparen
  match t.kind with
  | .array => t.stringElements.map fun key => (key, key)
  | .object => t.properties.filterMap fun (name, value) => value.asString?.map (·, name)
  | _ => []

/-- The mapping that a spread is. -/
def mapping? (property : Tree) : Option Mapping :=
  match property with
  | .node .spread _ [inner] =>
    match inner.unparen with
    | .node .call _ (callee :: rest) =>
      match rest.filter (·.kind != .type) with
      | store :: keys :: _ =>
        if store.kind == .spread || keys.kind == .spread then none
        else do return ⟨← nameOf? callee, ← nameOf? store, keysOf keys⟩
      | _ => none
    | _ => none
  | _ => none

/-- The variable for a store: `useCartStore` gives `cartStore`, and any other
name gets `Store` at its end. -/
def storeVariable (store : String) : String :=
  match store.toList with
  | 'u' :: 's' :: 'e' :: c :: rest =>
    if c.isUpper then String.ofList (c.toLower :: rest) else store ++ "Store"
  | _ => store ++ "Store"

/-- Whether a mapping in an option of this name maps state, or else actions;
nothing when it does not belong there. -/
def mapsState? (option helper : String) : Option Bool :=
  if option == "computed" && ["mapState", "mapWritableState", "mapGetters"].contains helper then
    some true
  else if option == "methods" && helper == "mapActions" then some false
  else none

def fragments (s : Settings) (m : Mapping) (isState : Bool) : List Fragment :=
  let variable_ := storeVariable m.store
  let pattern := "\x7b " ++ ", ".intercalate (m.keys.map fun (key, name) =>
    if key = name then key else key ++ ": " ++ name) ++ " \x7d"
  let tag :=
    if !isState then actionsTag
    else if s.reactivityTransform then stateReactivityTag
    else stateTag
  let names := m.keys.map fun (_, name) => Fragment.property name tag true
  let refs := "storeToRefs(" ++ variable_ ++ ")"
  let taken :=
    if !isState then [Fragment.hoisting ("const " ++ pattern ++ " = " ++ variable_)]
    else if s.reactivityTransform then
      [.importing "pinia" "storeToRefs", .hoisting ("let " ++ pattern ++ " = $(" ++ refs ++ ")")]
    else [.importing "pinia" "storeToRefs", .hoisting ("const " ++ pattern ++ " = " ++ refs)]
  Fragment.hoisting ("const " ++ variable_ ++ " = " ++ m.store ++ "()") :: names ++ taken

def transform (s : Settings) (o : ComponentOption) : Except TransformError Output :=
  match o.value.asObject? with
  | none => .ok {}
  | some object =>
    .ok { fragments := (object.parts.filterMap mapping?).flatMap fun m =>
            match mapsState? o.name m.helper with
            | some isState => if m.keys.isEmpty then [] else fragments s m isState
            | none => [] }

def visit (_ : Settings) (v : Visit) : List Fragment :=
  v.replaceFrom stateTag (· ++ ".value") ++ v.replaceFrom stateReactivityTag id ++
    v.replaceFrom actionsTag id

def plugin : Plugin where
  name := "pinia"
  includes _ o := o.name == "computed" || o.name == "methods"
  transform := transform
  visit := visit

end Recompose.Store
