import Recompose.Run

/-!
# The program

Takes a snapshot of the files that a command line is about, runs it on the
snapshot and writes back what the run changed. All decisions are made by
`Recompose.run`.
-/

namespace Recompose.Main

/-! ## Snapshots -/

/-- The location of a path that starts at the top. -/
def locationOf (p : Path) : Location :=
  p.steps.foldl (fun loc step => if step = ".." then loc.dropLast else loc ++ [step]) []

def folderEntry (p : Path) : IO.FS.DirEntry := ⟨p.text, "."⟩

/-- Whether a file can be opened for writing, which leaves it as it is. -/
def canWrite (p : Path) : IO Bool := do
  try
    let _ ← IO.FS.Handle.mk p.text .readWrite
    return true
  catch _ => return false

def addFile (disk : Disk) (p : Path) : IO Disk := do
  try
    let bytes ← IO.FS.readBinFile p.text
    let content := match String.fromUTF8? bytes with
      | some text => Content.text text
      | none => Content.binary
    let locked := if ← canWrite p then disk.locked else locationOf p :: disk.locked
    return { disk with files := (locationOf p, content) :: disk.files, locked }
  catch _ => return disk

def addFolder (disk : Disk) (p : Path) : Disk :=
  { disk with folders := locationOf p :: disk.folders }

def addPath (disk : Disk) (p : Path) : IO Disk := do
  if ← (folderEntry p).path.isDir then return addFolder disk p else addFile disk p

partial def addComponents (disk : Disk) (p : Path) : IO Disk := do
  let entries ← (folderEntry p).path.readDir
  entries.foldlM (fun disk entry => do
    let child := p.join ⟨[entry.fileName]⟩
    if entry.fileName = skippedFolder then return disk
    else if (← entry.path.symlinkMetadata).type == .dir then addComponents disk child
    else if child.extension? = some "vue" then addFile disk child
    else return disk) (addFolder disk p)

def addInput (disk : Disk) (p : Path) : IO Disk := do
  if ← (folderEntry p).path.isDir then addComponents disk p else addFile disk p

/-- The files and folders that a command line is about. -/
def snapshot (cwd : Path) (a : Arguments) : IO Disk := do
  let disk := addFolder {} cwd
  let configs := match a.config with
    | some path => [cwd.join path]
    | none => Config.fileNames.map fun name => cwd.join ⟨[name]⟩
  let disk ← configs.foldlM addPath disk
  let disk ← match a.out with
    | none => pure disk
    | some out => do
      let target := cwd.join out
      addPath (← addPath disk ⟨target.pieces.dropLast⟩) target
  (a.inputs.map cwd.join).foldlM addInput disk

/-- Writes the texts that are new on a disk. -/
def writeBack (old new : Disk) : IO Unit :=
  new.files.forM fun (loc, content) => do
    match content with
    | .text text =>
      unless old.content? loc = some content do
        IO.FS.writeFile ("/" ++ "/".intercalate loc) text
    | .binary => return

/-! ## Messages -/

def version : String := "vue-spinach 0.3.0"

def usage : String :=
  "Convert Vue components from the Options API to the Composition API\n\n" ++
  "Usage: vue-spinach [OPTIONS] [INPUTS]...\n\n" ++
  "Options:\n" ++
  "  -o, --out <OUT>             Write the result to this file (single input file only)\n" ++
  "      --config <CONFIG>       Path to the configuration\n" ++
  "      --no-script-setup       Generate a setup() function instead of <script setup>\n" ++
  "      --reactivity-transform  Use $ref/$computed from the reactivity transform\n" ++
  "      --no-props-destructure  Keep props.x instead of destructuring defineProps()\n" ++
  "      --alias <FROM=TO>       Use another module in generated imports\n" ++
  "      --ignore <IGNORE>       Glob patterns to ignore\n" ++
  "      --stdout                Print transformed components instead of writing them\n" ++
  "      --check                 Report components that would change\n" ++
  "      --output <OUTPUT>       Output format [possible values: human, json]\n" ++
  "  -v, --verbose               Log transformation details\n" ++
  "  -h, --help                  Print help\n" ++
  "  -V, --version               Print version\n"

def complaint : ArgumentsError → String
  | .unknownArgument => "unexpected argument"
  | .invalidValue => "a value is missing or is none of the possible values"
  | .valueValidation => "expected FROM=TO"
  | .argumentConflict => "arguments cannot be used together, or more than once"
  | .tooManyValues => "unexpected value for a flag"
  | .displayHelp => "help was asked for"
  | .displayVersion => "the version was asked for"

/-! ## Running -/

def execute (a : Arguments) : IO UInt32 := do
  let cwd := Path.ofText (← IO.currentDir).toString
  let disk ← snapshot cwd a
  match run disk cwd a with
  | .error e =>
    IO.eprintln ("Error: " ++ e.message)
    return 1
  | .ok outcome =>
    writeBack disk outcome.disk
    IO.print outcome.stdout
    IO.eprint outcome.stderr
    return UInt32.ofNat outcome.exitCode

end Recompose.Main

def main (arguments : List String) : IO UInt32 := do
  match Recompose.CommandLine.read arguments with
  | .error .displayHelp =>
    IO.print Recompose.Main.usage
    return 0
  | .error .displayVersion =>
    IO.println Recompose.Main.version
    return 0
  | .error e =>
    IO.eprintln ("error: " ++ Recompose.Main.complaint e)
    return 2
  | .ok a => Recompose.Main.execute a
