import Recompose.Plugin
import Recompose.Text.Layout

/-!
# Props

The `props` option becomes a `defineProps` call. Where props are destructured,
accesses read the bare name; otherwise they go through `props`.
-/

namespace Recompose.Props

open Script (Tree)

def tag : Provenance := "props"

def destructuredTag : Provenance := "props (destructure)"

/-! ## What a declaration says -/

/-- What is said about a single prop. -/
structure Shape where
  types : List Tree := []
  required : Bool := false
  default : Option Tree := none

def typeList (t : Tree) : List Tree :=
  let t := t.unparen
  if t.kind == .array then
    t.elements.map fun e =>
      match e with
      | .node .spread _ [inner] => inner.unparen
      | e => e.unparen
  else [t]

/-- Whether a `required` setting is true, as far as its literal tells. -/
def isTruthy (value : Tree) : Bool :=
  match value.asLiteral? with
  | some (.boolean b) => b
  | some .null => false
  | some (.number text) => text != "0"
  | some (.string v) => v.any fun s => !s.isEmpty
  | _ => true

def Shape.read (value : Option Tree) : Shape :=
  match value with
  | none => {}
  | some v =>
    match v.asObject? with
    | some object =>
      let options := object.properties
      { types := (((options.get? "type").bind Tree.expression?).map typeList).getD []
        required := ((options.get? "required").map isTruthy).getD false
        default := options.get? "default" }
    | none => { types := (v.expression?.map typeList).getD [] }

def typeName? (t : Tree) : Option String :=
  match t.kind with
  | .ident name => some name
  | _ => none

/-- The static type of values with a given constructor. -/
def staticType : Option String → String
  | some "String" => "string"
  | some "Number" => "number"
  | some "Boolean" => "boolean"
  | some "Symbol" => "symbol"
  | some "BigInt" => "bigint"
  | some "Object" => "object"
  | some "Array" => "any[]"
  | some "Function" => functionType
  | _ => "any"
where
  functionType : String := "(...args: any[]) => any"

def Shape.isFunction (s : Shape) : Bool :=
  match s.types with
  | [t] => typeName? t == some "Function"
  | _ => false

def Shape.type (s : Shape) : String :=
  let types := s.types.map fun t => staticType (typeName? t)
  if types.isEmpty || types.contains "any" then "any"
  else match types with
    | [t] => t
    | ts => " | ".intercalate (ts.map fun t =>
        if t == staticType.functionType then "(" ++ t ++ ")" else t)

/-! ## Code -/

/-- A default for a destructured prop. A factory is called, unless the prop is
a function itself. -/
def destructuredDefault (o : ComponentOption) (value : Tree) (isFunction : Bool) : String :=
  match value.asFunction? with
  | none => o.codeAt value.span
  | some f =>
    if isFunction then o.valueCode value
    else match f.form, f.body, f.hasParams with
      | .arrow, .expr body, false => o.codeAt body.span
      | _, _, _ => "(" ++ o.valueCode value ++ ")()"

def defineCall (s : Settings) (o : ComponentOption) (shapes : Entries Shape) : String :=
  if s.typescript then
    let fields := shapes.map fun (name, shape) =>
      name ++ (if shape.required then "" else "?") ++ ": " ++ shape.type
    "defineProps<" ++ multilineObject fields ++ ">()"
  else "defineProps(" ++ o.codeAt o.value.span ++ ")"

def declaration (s : Settings) (o : ComponentOption) (shapes : Entries Shape) : String :=
  let define := defineCall s o shapes
  if s.destructuresProps then
    let bindings := shapes.map fun (name, shape) =>
      match shape.default with
      | some d =>
        if s.typescript then name ++ " = " ++ destructuredDefault o d shape.isFunction else name
      | none => name
    "const " ++ multilineObject bindings ++ " = " ++ define
  else
    let defaults := shapes.filterMap fun (name, shape) =>
      if s.typescript then shape.default.map fun d => name ++ ": " ++ o.valueCode d else none
    if defaults.isEmpty then "const props = " ++ define
    else "const props = withDefaults(" ++ define ++ ", " ++ multilineObject defaults ++ ")"

def transform (s : Settings) (o : ComponentOption) : Except TransformError Output :=
  let props := o.declared
  let tag := if s.destructuresProps then destructuredTag else tag
  let names := props.map fun (name, _) => Fragment.property name tag false
  if !s.scriptSetup then .ok ⟨names, some .preserve⟩
  else
    let shapes := props.map fun (name, value) => (name, Shape.read value)
    .ok { fragments := names ++ [.code (declaration s o shapes) .interface] }

def visit (_ : Settings) (v : Visit) : List Fragment :=
  match v.name with
  | none => []
  | some name =>
    if v.isFrom destructuredTag then [.replacement name]
    else if v.isFrom tag then [.replacement ("props." ++ name)]
    else []

def plugin : Plugin where
  name := "props"
  includes _ o := o.name == "props"
  transform := transform
  visit := visit

end Recompose.Props
