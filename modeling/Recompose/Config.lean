import Recompose.CommandLine
import Recompose.Disk
import Recompose.Json.Reader
import Recompose.Script.Literal
import Recompose.Settings

/-!
# Configuration

A configuration is a JSON object: a JSON file, or the object that the default
export of a module spells out. What it leaves unset falls back to the default
settings, and the command line goes before it.
-/

namespace Recompose

/-- The settings of a project; unset ones fall back to the defaults. -/
structure Config where
  scriptSetup : Option Bool := none
  reactivityTransform : Option Bool := none
  propsDestructure : Option Bool := none
  /-- Other names for the modules of generated imports. -/
  aliases : Entries String := []
deriving DecidableEq, Repr

inductive ConfigError where
  | unreadable (path : Path) (fault : DiskFault)
  /-- The file is no JSON text, no module, or does not hold settings. -/
  | malformed (path : Path)
  /-- The module exports something else than an object literal. -/
  | notObject (path : Path)
deriving DecidableEq, Repr

namespace ConfigError

def message : ConfigError → String
  | unreadable path fault => "failed to read " ++ path.text ++ ": " ++ fault.message
  | malformed path => "invalid config " ++ path.text
  | notObject path =>
    "invalid config " ++ path.text ++ ": the default export must be an object literal"

end ConfigError

namespace Config

/-! ## From JSON -/

/-- A setting that is on, off, or left unset by `null`. -/
def switch? : Json.Value → Option (Option Bool)
  | .bool b => some (some b)
  | .null => some none
  | _ => none

def aliasEntry? : String × Json.Value → Option (String × String)
  | (name, .text value) => some (name, value)
  | _ => none

def aliases? : Json.Value → Option (Entries String)
  | .object fields => (fields.mapM aliasEntry?).map Entries.ofPairs
  | _ => none

/-- What a field says, or the default when it is missing. -/
def field? {α : Type} (read : Json.Value → Option α) (fallback : α) :
    Option Json.Value → Option α
  | some value => read value
  | none => some fallback

/-- Settings from the four fields, each of which may be missing. -/
def ofFields? (scriptSetup reactivityTransform propsDestructure aliases : Option Json.Value) :
    Option Config := do
  return {
    scriptSetup := ← field? switch? none scriptSetup
    reactivityTransform := ← field? switch? none reactivityTransform
    propsDestructure := ← field? switch? none propsDestructure
    aliases := ← field? aliases? [] aliases }

/-- Settings from a JSON value: an object, whose other fields count for
nothing, or an array of the fields in order. -/
def ofJson? : Json.Value → Option Config
  | .object fields =>
    let get := Entries.get? fields
    ofFields? (get "scriptSetup") (get "reactivityTransform") (get "propsDestructure")
      (get "aliases")
  | .list items =>
    if items.length ≤ 4 then ofFields? items[0]? items[1]? items[2]? items[3]? else none
  | _ => none

/-! ## From files -/

/-- The JSON value that a module exports; without a default export it is an
empty object. -/
def exported (path : Path) (source : String) : Except ConfigError Json.Value :=
  let dialect : Script.Dialect := { typescript := path.extension? = some "ts" }
  match Script.read dialect source with
  | .error _ => .error (.malformed path)
  | .ok script =>
    match script.items.find? (·.kind == .exportDefault) with
    | none => .ok (.object [])
    | some item =>
      match (item.parts.head?.bind (·.handedObject?)).bind (·.json?) with
      | some value => .ok value
      | none => .error (.notObject path)

def ofText (path : Path) (source : String) : Except ConfigError Config := do
  let value ←
    if path.extension? = some "json" then (Json.read? source).elim (.error (.malformed path)) .ok
    else exported path source
  (ofJson? value).elim (.error (.malformed path)) .ok

/-- Reads the file at a path, which is taken relative to a folder. -/
def readFile (disk : Disk) (folder path : Path) : Except ConfigError Config :=
  match disk.read (if path.isEmpty then path else folder.join path) with
  | .ok source => ofText path source
  | .error fault => .error (.unreadable path fault)

/-- The files that are looked for, in order. -/
def fileNames : List String :=
  ["spinach.config.json", "spinach.config.js", "spinach.config.mjs", "spinach.config.ts"]

/-- The configuration at the given path or else in the working directory. -/
def load (disk : Disk) (cwd : Path) (given : Option Path) : Except ConfigError Config :=
  match given with
  | some path => readFile disk cwd path
  | none =>
    match (fileNames.map fun name => cwd.join ⟨[name]⟩).find? disk.existsAt with
    | some path => readFile disk .here path
    | none => .ok {}

/-! ## Settings -/

/-- The settings of a run: flags go before the configuration, and the
configuration before the defaults. -/
def settings (config : Config) (arguments : Arguments) : Settings :=
  let defaults : Settings := {}
  { defaults with
    scriptSetup := !arguments.noScriptSetup && config.scriptSetup.getD defaults.scriptSetup
    reactivityTransform :=
      arguments.reactivityTransform ||
        config.reactivityTransform.getD defaults.reactivityTransform
    propsDestructure :=
      !arguments.noPropsDestructure && config.propsDestructure.getD defaults.propsDestructure
    aliases := arguments.aliases.foldl (fun e (name, value) => e.put name value) config.aliases }

end Config

end Recompose
