import Recompose.Code.Merge
import Recompose.Component.Printer
import Recompose.Component.Scanner
import Recompose.Members
import Recompose.OptionsPass
import Recompose.Plugin.All
import Recompose.Script.Component

/-!
# Recomposing components

A component is recomposed in two passes. The first turns its options into code
and lays the code out, as a setup script or as the body of a setup function.
The second reads the result again and resolves the accesses to `this` in it.
Both only record edits, so what they do not touch is copied byte for byte.
-/

namespace Recompose

open Script (Component Tree)

/-! ## Reading -/

def readScript [Script.Reader] (dialect : Script.Dialect) (source : String) :
    Except TransformError Script :=
  (Script.Reader.read dialect source).mapError .scriptParse

def readComponent (script : Script) : Except TransformError (Option Component) :=
  script.component.mapError .invalidDefaultExport

def applyEdits (source : String) (edits : Edits) : Except TransformError Applied :=
  (edits.apply source).mapError .edit

/-! ## First pass -/

/-- Adds preserved options to the object of a `defineOptions` call. -/
def extendDefineOptions (object : Tree) (preserved : List String) (edits : Edits) : Edits :=
  match object.parts.getLast? with
  | some last =>
    edits.insert last.span.stop
      (String.join (preserved.map fun option => ",\n  " ++ indent option 2))
  | none =>
    edits.insert (object.span.start + 1)
      (String.join (preserved.map fun option => "\n  " ++ indent option 2 ++ ",") ++ "\n")

/-- Keeps preserved options: in the `defineOptions` call of an existing setup
script, or else in a new one in front of the local code. -/
def placePreserved (setupScript : Option Script) (preserved : List String) (edits : Edits)
    (code : String) : Edits × String :=
  if preserved.isEmpty then (edits, code)
  else match setupScript.bind (·.defineOptions?) with
    | some object => (extendDefineOptions object preserved edits, code)
    | none => (edits, joinSections ["defineOptions(" ++ multilineObject preserved ++ ")", code])

/-- Lays the first pass out as a setup script: hoisted code goes after the
imports, local code takes the place of the default export or goes after the
imports of an existing setup script. -/
def renderScriptSetup (script : Script) (component : Component) (setupScript : Option Script)
    (pass : OptionsPass) (preserved : List String) (settings : Settings) :
    Except TransformError Applied :=
  let target := setupScript.getD script
  let hoisted := pass.collected.hoistedFor target settings
  let edits := hoisted.extend {}
  let edits := insertHoisted target edits (hoisted.render target.hasImports)
  let (edits, code) := placePreserved setupScript preserved edits pass.collected.localCode
  let edits := match setupScript with
    | some setup => insertLocal setup edits code
    | none => edits.overwrite component.exportSpan code
  applyEdits target.source edits

def setupSignature : String := "setup(props, \x7b attrs, slots, emit, expose \x7d)"

/-- Lays the first pass out as a setup function, in an options object rebuilt
from the preserved options. -/
def renderSetupFunction (script : Script) (component : Component) (pass : OptionsPass)
    (preserved : List String) (settings : Settings) : Except TransformError Applied :=
  let hoisted := pass.collected.hoistedFor script settings
  let edits := hoisted.extend {}
  let edits := insertHoisted script edits ("\n".intercalate hoisted.imports)
  let body := joinSections
    ["\n".intercalate hoisted.declarations, pass.collected.localCode,
     "return " ++ multilineObject pass.registry.exposed]
  let setup := setupSignature ++ " \x7b\n  " ++ indent body 2 ++ "\n\x7d"
  let edits := edits.overwrite component.object.span (multilineObject (preserved ++ [setup]))
  applyEdits script.source edits

/-- A script without its default export, or nothing when only white space is
left. -/
def removeDefaultExport (script : Script) (component : Component) :
    Except TransformError (Option String) := do
  let applied ← applyEdits script.source (Edits.remove {} component.exportSpan)
  return if (trim applied.text).isEmpty then none else some applied.text

/-! ## Second pass -/

/-- Where the body of the setup function of a component starts. -/
def setupBodyStart? (component : Component) : Option Nat := do
  let setup ← component.object.properties.get? "setup"
  let f ← setup.asFunction?
  match f.body with
  | .block block => some (block.span.start + 1)
  | _ => none

/-- Inserts code at the start of the body of the setup function. Without one, the
code is lost. -/
def insertIntoSetup (component : Option Component) (edits : Edits) (code : String) : Edits :=
  match component.bind setupBodyStart? with
  | some offset =>
    if code.isEmpty then edits else edits.insert offset ("\n    " ++ indent code 4 ++ "\n")
  | none => edits

/-- Reads the result of the first pass again. A fault in it is reported where
it comes from. -/
def reread [Script.Reader] (applied : Applied) (dialect : Script.Dialect) :
    Except TransformError Script :=
  (Script.Reader.read dialect applied.text).mapError fun fault =>
    .reparse (fault.map applied.sourceMap.inputSpan?)

def resolveScriptSetup [Script.Reader] (script : Script) (registry : Registry)
    (plugins : List Plugin) (settings : Settings) : Except TransformError String := do
  let excluded := script.defineOptions?.toList.map Tree.span
  let resolved := resolveMembers script registry plugins settings excluded
  let hoisted := resolved.collected.hoistedFor script settings
  let edits := hoisted.extend resolved.edits
  let edits := insertHoisted script edits (hoisted.render script.hasImports)
  let edits := insertLocal script edits resolved.collected.localCode
  return (← applyEdits script.source edits).text

def resolveSetupFunction [Script.Reader] (script : Script) (registry : Registry)
    (plugins : List Plugin) (settings : Settings) : Except TransformError String := do
  let component ← readComponent script
  let excluded := match component with
    | some c => Script.preservedSpans c.object
    | none => []
  let resolved := resolveMembers script registry plugins settings excluded
  let hoisted := resolved.collected.hoistedFor script settings
  let edits := hoisted.extend resolved.edits
  let edits := insertHoisted script edits ("\n".intercalate hoisted.imports)
  let code := joinSections
    ["\n".intercalate hoisted.declarations, resolved.collected.localCode]
  let edits := insertIntoSetup component edits code
  return (← applyEdits script.source edits).text

/-! ## Both passes -/

structure Recomposed where
  /-- The script that holds the component now. -/
  code : String
  /-- What is left of the script that held it before, if it moved. -/
  leftover : Option String

/-- What is left of a script whose component moves to an existing setup script.
-/
def leftoverScript (script : Script) (component : Component) :
    Option Script → Except TransformError (Option String)
  | some _ => removeDefaultExport script component
  | none => .ok none

/-- Recomposes into a setup script, which may exist. -/
def recomposeScriptSetup [Script.Reader] (script : Script) (component : Component)
    (setupScript : Option Script) (pass : OptionsPass) (plugins : List Plugin)
    (settings : Settings) : Except TransformError Recomposed := do
  let preserved := pass.preserved.map dedent
  let applied ← renderScriptSetup script component setupScript pass preserved settings
  let leftover ← leftoverScript script component setupScript
  let again ← reread applied (setupScript.getD script).dialect
  let code ← resolveScriptSetup again pass.registry plugins settings
  return ⟨code, leftover⟩

def recomposeSetupFunction [Script.Reader] (script : Script) (component : Component)
    (pass : OptionsPass) (plugins : List Plugin) (settings : Settings) :
    Except TransformError Recomposed := do
  let preserved := pass.preserved.map dedent
  let applied ← renderSetupFunction script component pass preserved settings
  let again ← reread applied script.dialect
  let code ← resolveSetupFunction again pass.registry plugins settings
  return ⟨code, none⟩

/-- Recomposes a component, into an existing setup script if there is one.
Nothing when no plugin includes any of its options. -/
def recompose [Script.Reader] (script : Script) (component : Component)
    (setupScript : Option Script) (options : Options) :
    Except TransformError (Option Recomposed) := do
  let settings := options.settings
  let plugins := options.allPlugins
  let pass ← transformOptions script component.object plugins settings
  if pass.matched = 0 then return none
  else if settings.scriptSetup then
    return some (← recomposeScriptSetup script component setupScript pass plugins settings)
  else return some (← recomposeSetupFunction script component pass plugins settings)

/-! ## Entry points -/

def Options.withTypeScript (o : Options) (typescript : Bool) : Options :=
  { o with settings := { o.settings with typescript := typescript } }

/-- Transforms a script on its own. A script without a component, or without
an option for any plugin, stays as it is. -/
def transformScript [Script.Reader] (source : String) (dialect : Script.Dialect)
    (options : Options) : Except TransformError String := do
  let options := options.withTypeScript dialect.typescript
  let script ← readScript dialect source
  match ← readComponent script with
  | none => return source
  | some component =>
    match ← recompose script component none options with
    | some recomposed => return trim recomposed.code ++ "\n"
    | none => return source

/-- Code as the content of a block, on lines of its own. -/
def blockContent (code : String) : String := "\n" ++ trim code ++ "\n"

/-- Moves faults of a script to where its block stands in the file. -/
def inBlock {α : Type} (block : Block) (result : Except TransformError α) :
    Except TransformError α :=
  result.mapError (·.offsetBy block.contentSpan.start)

def placeRecomposed (d : Descriptor) (block : Block) (recomposed : Recomposed)
    (scriptSetup : Bool) : Descriptor :=
  let content := blockContent recomposed.code
  if !scriptSetup then { d with script := some { block with content := content } }
  else match d.scriptSetup with
    | some setup =>
      { d with
        scriptSetup := some { setup with content := content }
        script := recomposed.leftover.map fun code => { block with content := blockContent code } }
    | none =>
      { d with
        scriptSetup := some
          { block with content := content, attrs := ("setup", none) :: block.attrs.erase "setup" }
        script := none }

/-- The setup script of a file. A setup function cannot be generated beside
one. -/
def readSetupScript [Script.Reader] (d : Descriptor) (settings : Settings) :
    Except TransformError (Option Script) :=
  match d.scriptSetup with
  | none => .ok none
  | some setup =>
    if settings.scriptSetup then do
      return some
        (← inBlock setup (readScript (Script.Dialect.ofLang? setup.lang?) setup.content))
    else .error (.scriptSetupExists setup.span)

/-- Moves a cause to where its code stands in the file: generated code in the
setup script if there is one, other code in the script. -/
def TransformError.inFile (d : Descriptor) (block : Block) (e : TransformError) : TransformError :=
  match e with
  | .reparse _ => e.offsetBy (d.scriptSetup.getD block).contentSpan.start
  | _ => e.offsetBy block.contentSpan.start

def transformBlock [Script.Reader] (source : String) (d : Descriptor) (block : Block)
    (options : Options) : Except TransformError String := do
  let script ← inBlock block (readScript (Script.Dialect.ofLang? block.lang?) block.content)
  match ← inBlock block (readComponent script) with
  | none => return source
  | some component =>
    let setupScript ← readSetupScript d options.settings
    let options :=
      options.withTypeScript (block.isTypeScript || d.scriptSetup.any Block.isTypeScript)
    match ← (recompose script component setupScript options).mapError (·.inFile d block) with
    | none => return source
    | some r => return (placeRecomposed d block r options.settings.scriptSetup).render

/-- Transforms the component of a component file. A file without a script, a
component, or an option for any plugin stays as it is. -/
def transformFile [Script.Reader] (source : String) (options : Options) :
    Except TransformError String :=
  let scanned := scan source
  match scanned.errors, scanned.descriptor.script with
  | e :: _, _ => .error (.component e)
  | [], none => .ok source
  | [], some block => transformBlock source scanned.descriptor block options

end Recompose
