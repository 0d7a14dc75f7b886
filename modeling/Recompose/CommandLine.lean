import Recompose.Path

/-!
# Command lines

A command line is read argument by argument. The value of an option is the
text attached to it or the next argument, unless that looks like another
option; it is judged when the next argument that is known, or the end, settles
it.
-/

namespace Recompose

inductive ReportFormat where
  | human
  | json
deriving DecidableEq, Repr

structure Arguments where
  /-- Files and folders; none stands for the working directory. -/
  inputs : List Path := []
  /-- Where the result goes instead of the input file. -/
  out : Option Path := none
  config : Option Path := none
  noScriptSetup : Bool := false
  reactivityTransform : Bool := false
  noPropsDestructure : Bool := false
  aliases : List (String × String) := []
  /-- Globs to leave out. -/
  ignore : List String := []
  /-- Print components instead of writing them. -/
  stdout : Bool := false
  /-- Report changes without writing them. -/
  check : Bool := false
  format : Option ReportFormat := none
  verbose : Bool := false
deriving Repr

inductive ArgumentsError where
  | unknownArgument
  /-- A value is missing or is none of the choices. -/
  | invalidValue
  /-- A value does not have its form. -/
  | valueValidation
  /-- Two arguments exclude each other, or one is given twice. -/
  | argumentConflict
  /-- A flag was given a value. -/
  | tooManyValues
  | displayHelp
  | displayVersion
deriving DecidableEq, Repr

namespace CommandLine

/-! ## Options -/

inductive Flag where
  | noScriptSetup
  | reactivityTransform
  | noPropsDestructure
  | stdout
  | check
  | verbose
  | help
  | version
deriving DecidableEq, Repr

inductive Setting where
  | out
  | config
  | aliases
  | ignore
  | output
deriving DecidableEq, Repr

/-- An option stands alone or takes a value. -/
inductive Switch where
  | flag (f : Flag)
  | setting (s : Setting)
deriving DecidableEq, Repr

def ofName? : String → Option Switch
  | "no-script-setup" => some (.flag .noScriptSetup)
  | "reactivity-transform" => some (.flag .reactivityTransform)
  | "no-props-destructure" => some (.flag .noPropsDestructure)
  | "stdout" => some (.flag .stdout)
  | "check" => some (.flag .check)
  | "verbose" => some (.flag .verbose)
  | "help" => some (.flag .help)
  | "version" => some (.flag .version)
  | "out" => some (.setting .out)
  | "config" => some (.setting .config)
  | "alias" => some (.setting .aliases)
  | "ignore" => some (.setting .ignore)
  | "output" => some (.setting .output)
  | _ => none

def ofLetter? : Char → Option Switch
  | 'v' => some (.flag .verbose)
  | 'h' => some (.flag .help)
  | 'V' => some (.flag .version)
  | 'o' => some (.setting .out)
  | _ => none

/-! ## Values -/

/-- The two modules of an alias, around the first equals sign. -/
def aliasPair? (text : String) : Option (String × String) :=
  let source := text.toList.takeWhile (· ≠ '=')
  match text.toList.dropWhile (· ≠ '=') with
  | _ :: c :: rest =>
    if source.isEmpty then none else some (String.ofList source, String.ofList (c :: rest))
  | _ => none

def format? : String → Option ReportFormat
  | "human" => some .human
  | "json" => some .json
  | _ => none

/-- Sets what may be set once. -/
def once {α : Type} (old : Option α) (new : Except ArgumentsError α) :
    Except ArgumentsError (Option α) :=
  match old with
  | some _ => .error .argumentConflict
  | none => new.map some

def assign (a : Arguments) (setting : Setting) (value : String) :
    Except ArgumentsError Arguments :=
  match setting with
  | .out => (once a.out (.ok (Path.ofText value))).map fun out => { a with out }
  | .config => (once a.config (.ok (Path.ofText value))).map fun config => { a with config }
  | .output =>
    (once a.format ((format? value).elim (.error .invalidValue) .ok)).map fun format =>
      { a with format }
  | .ignore => .ok { a with ignore := a.ignore ++ [value] }
  | .aliases => match aliasPair? value with
    | some pair => .ok { a with aliases := a.aliases ++ [pair] }
    | none => .error .valueValidation

def raise (a : Arguments) : Flag → Except ArgumentsError Arguments
  | .noScriptSetup =>
    if a.noScriptSetup then .error .argumentConflict else .ok { a with noScriptSetup := true }
  | .reactivityTransform =>
    if a.reactivityTransform then .error .argumentConflict
    else .ok { a with reactivityTransform := true }
  | .noPropsDestructure =>
    if a.noPropsDestructure then .error .argumentConflict
    else .ok { a with noPropsDestructure := true }
  | .stdout => if a.stdout then .error .argumentConflict else .ok { a with stdout := true }
  | .check => if a.check then .error .argumentConflict else .ok { a with check := true }
  | .verbose => if a.verbose then .error .argumentConflict else .ok { a with verbose := true }
  | .help => .error .displayHelp
  | .version => .error .displayVersion

/-! ## Reading -/

/-- What has been read, and an option that is not settled yet, with its value
if that was seen. -/
structure Progress where
  arguments : Arguments := {}
  pending : Option (Setting × Option String) := none
  /-- Whether only inputs follow. -/
  inputsOnly : Bool := false

namespace Progress

/-- Judges the pending option. -/
def settle (p : Progress) : Except ArgumentsError Progress :=
  match p.pending with
  | none => .ok p
  | some (_, none) => .error .invalidValue
  | some (setting, some value) =>
    (assign p.arguments setting value).map fun arguments =>
      { p with arguments, pending := none }

def onFlag (p : Progress) (flag : Flag) : Except ArgumentsError Progress := do
  let p ← p.settle
  return { p with arguments := ← raise p.arguments flag }

/-- An option that waits for the next argument. -/
def onOpen (p : Progress) (setting : Setting) : Except ArgumentsError Progress := do
  let p ← p.settle
  return { p with pending := some (setting, none) }

def onValue (p : Progress) (setting : Setting) (value : String) :
    Except ArgumentsError Progress := do
  let p ← p.settle
  return { p with arguments := ← assign p.arguments setting value }

def onInput (p : Progress) (text : String) : Except ArgumentsError Progress := do
  let p ← p.settle
  let arguments := { p.arguments with inputs := p.arguments.inputs ++ [Path.ofText text] }
  return { p with arguments }

def onName (p : Progress) (name : String) (value : Option String) :
    Except ArgumentsError Progress :=
  match ofName? name, value with
  | none, _ => .error .unknownArgument
  | some (.flag flag), none => p.onFlag flag
  | some (.flag _), some _ => .error .tooManyValues
  | some (.setting setting), none => p.onOpen setting
  | some (.setting setting), some value => p.onValue setting value

/-- Options by letter. What follows the letter of an option that takes a value
is the value. -/
def onLetters (p : Progress) : List Char → Except ArgumentsError Progress
  | [] => .ok p
  | c :: rest =>
    match ofLetter? c with
    | none => .error .unknownArgument
    | some (.flag flag) => do (← p.onFlag flag).onLetters rest
    | some (.setting setting) =>
      match rest with
      | [] => p.onOpen setting
      | '=' :: value => p.onValue setting (String.ofList value)
      | value => p.onValue setting (String.ofList value)

def onText (p : Progress) (text : String) : Except ArgumentsError Progress :=
  match p.pending with
  | some (setting, none) => .ok { p with pending := some (setting, some text) }
  | _ => p.onInput text

def step (p : Progress) (argument : String) : Except ArgumentsError Progress :=
  if p.inputsOnly then p.onInput argument
  else match argument.toList with
    | ['-', '-'] => .ok { p with inputsOnly := true }
    | '-' :: '-' :: rest =>
      let value := match rest.dropWhile (· ≠ '=') with
        | _ :: value => some (String.ofList value)
        | [] => none
      p.onName (String.ofList (rest.takeWhile (· ≠ '='))) value
    | '-' :: c :: rest => p.onLetters (c :: rest)
    | _ => p.onText argument

end Progress

/-- Whether two modes of delivery are asked for at once. -/
def conflicts (a : Arguments) : Bool :=
  (a.stdout && (a.out.isSome || a.check)) || (a.check && a.out.isSome)

def read (arguments : List String) : Except ArgumentsError Arguments := do
  let p ← arguments.foldlM Progress.step {}
  let p ← p.settle
  if conflicts p.arguments then throw .argumentConflict
  let inputs := if p.arguments.inputs.isEmpty then [Path.ofText "."] else p.arguments.inputs
  return { p.arguments with inputs }

end CommandLine

end Recompose
