import Recompose.CommandLine
import Recompose.Json.Printer
import Recompose.LineIndex
import Recompose.Report.Basic
import Recompose.Report.Frame

/-!
# Writing reports

Reports are written for people, who are not told about unchanged files, or as
one JSON object. Both end with the summary of the run.
-/

namespace Recompose

/-! ## For people -/

/-- A failure with its place in the source. The message stands behind a cross,
its further lines behind a bar. -/
def Failure.render (f : Failure) (path : Path) : String :=
  let lines := splitLines (path.text ++ ": " ++ f.message).toList
  let dropBlanks := fun (line : List Char) => (line.reverse.dropWhile (· = ' ')).reverse
  let message := "\n  │ ".intercalate (lines.map fun line => String.ofList (dropBlanks line))
  let frame := match f.source, f.span with
    | some source, some span => Frame.render path.text source span
    | _, _ => ""
  "vue_spinach::transform\n\n  × " ++ message ++ "\n" ++ frame

namespace Summary

def line (s : Summary) : String :=
  let files := if s.fileCount = 1 then " file: " else " files: "
  let changed := if s.check then " would change, " else " transformed, "
  "vue-spinach checked " ++ toString s.fileCount ++ files ++ toString s.changedCount ++ changed ++
    toString s.failedCount ++ " failed"

end Summary

namespace Report

def render (r : Report) : String :=
  match r.status with
  | .unchanged => ""
  | .transformed => "transformed " ++ r.path.text ++ "\n"
  | .wouldChange => "would change " ++ r.path.text ++ "\n"
  | .failed failure => failure.render r.path ++ "\n"

/-! ## As JSON -/

def statusName (r : Report) : String :=
  match r.status with
  | .unchanged => "unchanged"
  | .transformed => "transformed"
  | .wouldChange => "would-change"
  | .failed _ => "failed"

/-- A position with line and column counted from one. -/
def position (index : LineIndex) (offset : Nat) : Json.Value :=
  let p := (index.lineCol? offset).getD ⟨0, 0⟩
  .object [("line", .ofNat (p.line + 1)), ("column", .ofNat (p.col + 1)),
    ("offset", .ofNat offset)]

def failureFields (f : Failure) : List (String × Json.Value) :=
  let place := match f.source, f.span with
    | some source, some span =>
      let index := LineIndex.ofText source
      [("start", position index span.start), ("end", position index span.stop)]
    | _, _ => []
  ("message", .text f.message) :: place

def toJson (r : Report) : Json.Value :=
  let failure := match r.status with
    | .failed f => failureFields f
    | _ => []
  .object (("filename", .text r.path.text) :: ("status", .text r.statusName) :: failure)

end Report

def Summary.toJson (s : Summary) : Json.Value :=
  .object [("fileCount", .ofNat s.fileCount), ("changedCount", .ofNat s.changedCount),
    ("failedCount", .ofNat s.failedCount), ("check", .bool s.check)]

def renderReports (format : ReportFormat) (reports : List Report) (summary : Summary) : String :=
  match format with
  | .human => String.join (reports.map (·.render)) ++ summary.line ++ "\n"
  | .json =>
    (Json.Value.object [("files", .list (reports.map (·.toJson))),
      ("summary", summary.toJson)]).pretty ++ "\n"

end Recompose
