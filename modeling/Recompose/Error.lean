import Recompose.Component.Block
import Recompose.Edit
import Recompose.Script.Basic

/-!
# Why a component cannot be transformed

Each cause carries what its message needs and where it is. Spans of a script
are moved into the component file that holds the script by `offsetBy`.
-/

namespace Recompose

inductive TransformError where
  /-- The component file is not well formed. -/
  | component (error : BlockError)
  /-- The script is not well formed from this token on. -/
  | scriptParse (fault : Script.Fault Span)
  /-- The default export is no component. -/
  | invalidDefaultExport (span : Span)
  /-- An option that is a function returns nothing at its top level. -/
  | missingReturn (option : String) (span : Span)
  /-- An option that is a function returns no object literal. -/
  | returnNotObject (option : String) (span : Span)
  /-- A setup function cannot be generated beside a setup script. -/
  | scriptSetupExists (span : Span)
  /-- Two options define one name. -/
  | duplicateProperty (name : String)
  /-- Recorded edits do not fit together. -/
  | edit (error : EditError)
  /-- Generated code is no script; its place is where it comes from. -/
  | reparse (fault : Script.Fault (Option Span))
deriving DecidableEq, Repr

namespace TransformError

/-- Where the cause is, if it has a place. -/
def span? : TransformError → Option Span
  | component e => some e.span
  | scriptParse f => some f
  | invalidDefaultExport s | missingReturn _ s | returnNotObject _ s | scriptSetupExists s => some s
  | reparse f => f
  | duplicateProperty _ | edit _ => none

/-- Moves the place of a cause in a script that starts at an offset of a
file. -/
def offsetBy (delta : Nat) : TransformError → TransformError
  | scriptParse f => scriptParse (f.map (·.shift delta))
  | invalidDefaultExport s => invalidDefaultExport (s.shift delta)
  | missingReturn o s => missingReturn o (s.shift delta)
  | returnNotObject o s => returnNotObject o (s.shift delta)
  | reparse f => reparse (f.map (·.map (·.shift delta)))
  | other => other

def message : TransformError → String
  | component e => e.fault.message
  | scriptParse f => "failed to parse script: " ++ f.message
  | invalidDefaultExport _ =>
    "the default export must be an object literal, or a call with one object literal argument"
  | missingReturn option _ =>
    "\"" ++ option ++ "\" function needs to contain a return statement at the top level"
  | returnNotObject option _ => "\"" ++ option ++ "\" function needs to return an object literal"
  | scriptSetupExists _ =>
    "cannot generate a setup() function while the component already has a <script setup> block"
  | duplicateProperty name => "property \"" ++ name ++ "\" is defined more than once"
  | edit e => e.message
  | reparse f => "generated code failed to parse: " ++ f.message

end TransformError

end Recompose
