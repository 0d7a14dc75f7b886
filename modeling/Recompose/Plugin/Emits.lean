import Recompose.Plugin

/-!
# Emits

The `emits` option becomes a `defineEmits` call, and `this.$emit` becomes
`emit`.
-/

namespace Recompose.Emits

open Script (Tree)

def tag : Provenance := "emit"

/-- The signature of one event; parameters of its validator come first. -/
def signature (o : ComponentOption) (event : String) (validator : Option Tree) : String :=
  let params := match validator.bind Tree.asFunction? with
    | some f => String.join (f.params.map fun p =>
        o.script.textAt p.span ++ (if p.typed then ", " else "?: unknown, "))
    | none => ""
  "(event: '" ++ event ++ "', " ++ params ++ "...args: unknown[]): void"

def declaration (s : Settings) (o : ComponentOption) : String :=
  if s.typescript then
    let signatures := o.declared.map fun (event, validator) =>
      signature o event validator
    "const emit = defineEmits<" ++ multilineObject signatures ++ ">()"
  else "const emit = defineEmits(" ++ o.codeAt o.value.span ++ ")"

def transform (s : Settings) (o : ComponentOption) : Except TransformError Output :=
  let known := Fragment.property "$emit" tag false
  if !s.scriptSetup then .ok ⟨[known], some .preserve⟩
  else .ok { fragments := [known, .code (declaration s o) .interface] }

/-- The declaration for a component without an `emits` option. -/
def fallback (s : Settings) : String :=
  if s.typescript then "const emit = defineEmits<(event: string, ...args: unknown[]) => void>()"
  else "const emit = defineEmits()"

def visit (s : Settings) (v : Visit) : List Fragment :=
  if v.name != some "$emit" then []
  else if !v.isFrom tag && s.scriptSetup then [.hoisting (fallback s), .replacement "emit"]
  else [.replacement "emit"]

def plugin : Plugin where
  name := "emits"
  includes _ o := o.name == "emits"
  transform := transform
  visit := visit

end Recompose.Emits
