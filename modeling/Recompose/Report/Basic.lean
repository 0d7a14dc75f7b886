import Recompose.Path
import Recompose.Span

/-!
# Reports

What came of each component file, and the sum of a run.
-/

namespace Recompose

structure Failure where
  message : String
  /-- Where in the source, if the fault has a place. -/
  span : Option Span := none
  /-- The source, if it was read. -/
  source : Option String := none
deriving DecidableEq, Repr

inductive Status where
  | unchanged
  | transformed
  /-- Left alone, but it would change. -/
  | wouldChange
  | failed (failure : Failure)
deriving DecidableEq, Repr

namespace Status

def isChange : Status → Bool
  | transformed | wouldChange => true
  | unchanged | failed _ => false

def isFailure : Status → Bool
  | failed _ => true
  | _ => false

end Status

structure Report where
  path : Path
  status : Status
  /-- The component to print, if it is to be printed. -/
  output : Option String := none
deriving DecidableEq, Repr

structure Summary where
  fileCount : Nat
  changedCount : Nat
  failedCount : Nat
  /-- Whether changes were only looked for. -/
  check : Bool
deriving DecidableEq, Repr

namespace Summary

def ofReports (reports : List Report) (check : Bool) : Summary where
  fileCount := reports.length
  changedCount := reports.countP (·.status.isChange)
  failedCount := reports.countP (·.status.isFailure)
  check := check

def isFailure (s : Summary) : Bool := s.failedCount > 0 || (s.check && s.changedCount > 0)

def exitCode (s : Summary) : Nat := if s.isFailure then 1 else 0

end Summary

end Recompose
