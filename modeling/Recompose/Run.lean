import Recompose.Composition
import Recompose.Config
import Recompose.Glob
import Recompose.Report.Printer

/-!
# Runs

A run loads the configuration, collects component files and handles them one
after the other. A file that fails does not stop the run. What happens to one
file depends on its own content only, and writes to one path at most.
-/

namespace Recompose

inductive RunError where
  | config (error : ConfigError)
  | invalidGlob (pattern : String)
  | missingInput (input : Path)
  | outNeedsSingleFile
deriving DecidableEq, Repr

namespace RunError

def message : RunError → String
  | config error => error.message
  | invalidGlob pattern => "invalid glob pattern: " ++ pattern
  | missingInput input => "no such file or directory: " ++ input.text
  | outNeedsSingleFile => "--out needs exactly one input file"

end RunError

/-! ## Collecting -/

def readGlobs (patterns : List String) : Except RunError (List Glob) :=
  patterns.mapM fun pattern =>
    match Glob.read? pattern with
    | some glob => .ok glob
    | none => .error (.invalidGlob pattern)

/-- The folder that is never looked into. -/
def skippedFolder : String := "node_modules"

/-- Whether a file below a folder is a component to handle. -/
def isCollected (globs : List Glob) (names : List String) : Bool :=
  let path : Path := ⟨names⟩
  !names.contains skippedFolder && path.extension? = some "vue" &&
    !globs.any (·.matchesText path.text)

/-- The component files that an input stands for. A file stands for itself,
whatever its name. -/
def filesOfInput (disk : Disk) (cwd : Path) (globs : List Glob) (input : Path) :
    Except RunError (List Path) :=
  let root := cwd.join input
  if disk.isFileAt root then .ok [root]
  else match disk.locate root with
    | .ok loc =>
      if !disk.isFolder loc then .error (.missingInput input)
      else if root.fileName? = some skippedFolder then .ok []
      else
        .ok (((disk.filesBelow loc).filter (isCollected globs)).map fun names => root.join ⟨names⟩)
    | .error _ => .error (.missingInput input)

/-- The component files of all inputs in order, each once. -/
def collectFiles (disk : Disk) (cwd : Path) (globs : List Glob) (inputs : List Path) :
    Except RunError (List Path) := do
  let files ← inputs.mapM (filesOfInput disk cwd globs)
  return Path.sorted files.flatten

/-! ## Handling files -/

inductive Mode where
  /-- To the file itself, or to another path. -/
  | write (out : Option Path)
  | print
  | check
deriving DecidableEq, Repr

def Mode.ofArguments (cwd : Path) (a : Arguments) : Mode :=
  if a.stdout then .print
  else if a.check then .check
  else .write (a.out.map cwd.join)

/-- What a file comes to once it is read: a failure, or the new text and
whether it differs from the old one. -/
inductive Verdict where
  | failed (failure : Failure)
  | done (text : String) (changed : Bool)
deriving DecidableEq, Repr

def judge (options : Options) : Except DiskFault String → Verdict
  | .error fault => .failed { message := "failed to read file: " ++ fault.message }
  | .ok source =>
    match transformFile source options with
    | .ok text => .done text (text != source)
    | .error e => .failed { message := e.message, span := e.span?, source := some source }

/-- The write that a verdict on a file calls for. -/
def Verdict.write? (path : Path) : Mode → Verdict → Option (Path × String)
  | .write none, .done text true => some (path, text)
  | .write (some out), .done text _ => some (out, text)
  | _, _ => none

/-- The status that a verdict leads to when its write succeeds. -/
def Verdict.status (mode : Mode) : Verdict → Status
  | .failed failure => .failed failure
  | .done _ false => .unchanged
  | .done _ true => if mode = .check then .wouldChange else .transformed

def Verdict.output? : Mode → Verdict → Option String
  | .print, .done text _ => some text
  | _, _ => none

/-- Writes what a verdict on a file calls for, and reports. -/
def deliver (mode : Mode) (disk : Disk) (path : Path) (verdict : Verdict) : Report × Disk :=
  let report : Report := ⟨path, verdict.status mode, verdict.output? mode⟩
  match verdict.write? path mode with
  | none => (report, disk)
  | some (target, text) =>
    match disk.write target text with
    | .ok disk => (report, disk)
    | .error fault =>
      let message := "failed to write " ++ target.text ++ ": " ++ fault.message
      ({ path, status := .failed { message } }, disk)

def handleFile (options : Options) (mode : Mode) (disk : Disk) (path : Path) : Report × Disk :=
  deliver mode disk path (judge options (disk.read path))

def handleFiles (options : Options) (mode : Mode) (disk : Disk) : List Path → List Report × Disk
  | [] => ([], disk)
  | path :: paths =>
    let (report, disk) := handleFile options mode disk path
    let (reports, disk) := handleFiles options mode disk paths
    (report :: reports, disk)

/-! ## Running -/

structure Outcome where
  exitCode : Nat
  stdout : String
  stderr : String
  disk : Disk

/-- What a run is to do. -/
structure Plan where
  options : Options
  mode : Mode
  files : List Path

/-- The plan of a command line: the configuration, the mode and the files. -/
def makePlan (disk : Disk) (cwd : Path) (a : Arguments) : Except RunError Plan := do
  let config ← (Config.load disk cwd a.config).mapError .config
  let globs ← readGlobs a.ignore
  let files ← collectFiles disk cwd globs a.inputs
  let firstIsFile := a.inputs.head?.any fun input => disk.isFileAt (cwd.join input)
  if a.out.isSome && (files.length ≠ 1 || !firstIsFile) then throw .outNeedsSingleFile
  return { options := { settings := config.settings a }, mode := Mode.ofArguments cwd a, files }

def Report.shownFrom (cwd : Path) (r : Report) : Report :=
  { r with path := Path.shownFrom cwd r.path }

/-- The reports of a run and the disk after it. -/
def process (disk : Disk) (cwd : Path) (a : Arguments) : Except RunError (List Report × Disk) := do
  let plan ← makePlan disk cwd a
  let (reports, disk) := handleFiles plan.options plan.mode disk plan.files
  return (reports.map (·.shownFrom cwd), disk)

/-- Runs a command line in a working directory. Printed components go to the
standard output, and the reports beside them to the standard error. -/
def run (disk : Disk) (cwd : Path) (a : Arguments) : Except RunError Outcome := do
  let (reports, disk) ← process disk cwd a
  let summary := Summary.ofReports reports a.check
  let text := renderReports (a.format.getD .human) reports summary
  let exitCode := summary.exitCode
  if a.stdout then
    return { exitCode, stdout := String.join (reports.filterMap (·.output)), stderr := text, disk }
  else return { exitCode, stdout := text, stderr := "", disk }

end Recompose
