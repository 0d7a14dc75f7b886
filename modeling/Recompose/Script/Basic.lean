import Recompose.Script.Parser
import Recompose.Text.Layout

/-!
# Scripts

The text of a script together with its syntax tree. Code is taken over from a
script by its span: the text under it, shifted to where it goes.
-/

namespace Recompose

structure Script where
  source : String
  dialect : Script.Dialect
  tree : Script.Tree

namespace Script

/-- What is wrong with a text that is no script, and where. It stands for its
place. -/
structure Fault (Place : Type) where
  message : String
  place : Place
deriving DecidableEq, Repr

def Fault.map {Place Place' : Type} (f : Place → Place') (fault : Fault Place) : Fault Place' :=
  ⟨fault.message, f fault.place⟩

instance (Place : Type) : CoeOut (Fault Place) Place := ⟨Fault.place⟩

def read (dialect : Dialect) (source : String) : Except (Fault Span) Script :=
  match parseTree dialect source with
  | .ok tree => .ok ⟨source, dialect, tree⟩
  | .error span => .error ⟨"unexpected token", span⟩

/-- What makes scripts of texts. A text that is none has a place from which on
it is not well formed. -/
class Reader where
  read : Dialect → String → Except (Fault Span) Script

instance : Reader := ⟨read⟩

def items (s : Script) : List Tree := s.tree.parts

def textAt (s : Script) (span : Span) : String := (span.slice? s.source).getD ""

def text (s : Script) (t : Tree) : String := s.textAt t.span

/-- The text under a span, shifted to the given indentation. -/
def codeAt (s : Script) (span : Span) (indentation : Nat) : String :=
  indent (dedent (s.textAt span)) indentation

def code (s : Script) (t : Tree) (indentation : Nat) : String := s.codeAt t.span indentation

end Script

namespace Script.Tree

def isImport (t : Tree) : Bool :=
  match t.kind with
  | .importDecl _ => true
  | _ => false

end Script.Tree

def Script.hasImports (s : Script) : Bool := s.items.any (·.isImport)

def Script.lastImportEnd? (s : Script) : Option Nat :=
  (s.items.filter (·.isImport)).getLast?.map (·.span.stop)

end Recompose
