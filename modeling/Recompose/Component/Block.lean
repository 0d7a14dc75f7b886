import Recompose.Entries
import Recompose.Span

/-!
# Blocks of a component file

A component file is a sequence of top-level elements. Each one is a block
with attributes and raw content; the descriptor files the blocks by kind.
-/

namespace Recompose

/-! ## Blocks -/

/-- A top-level element of a component file. -/
structure Block where
  /-- The tag name, in lower case for the known kinds. -/
  tag : String
  /-- Attributes in source order; a bare attribute has no value. -/
  attrs : Entries (Option String) := []
  /-- The raw text between the tags. -/
  content : String
  /-- The whole block with its tags. -/
  span : Span := ⟨0, 0⟩
  /-- Where the content stands. -/
  contentSpan : Span := ⟨0, 0⟩
deriving DecidableEq, Repr

namespace Block

def lang? (b : Block) : Option String := (b.attrs.get? "lang").join

def isSetup (b : Block) : Bool := b.attrs.has "setup"

def isTypeScript (b : Block) : Bool := b.lang? = some "ts" || b.lang? = some "tsx"

/-- How a block is named where only one of its kind may stand. -/
def label (b : Block) : String :=
  "<" ++ b.tag ++ (if b.isSetup then " setup" else "") ++ ">"

end Block

/-! ## Descriptors -/

/-- Every block of a component file, by kind. -/
structure Descriptor where
  template : Option Block := none
  /-- The script without a `setup` attribute. -/
  script : Option Block := none
  scriptSetup : Option Block := none
  styles : List Block := []
  /-- Elements of any other tag. -/
  customBlocks : List Block := []
deriving DecidableEq, Repr

namespace Descriptor

/-- The blocks in the order in which they are written. -/
def blocks (d : Descriptor) : List Block :=
  d.scriptSetup.toList ++ d.template.toList ++ d.script.toList ++ d.styles ++ d.customBlocks

def isEmpty (d : Descriptor) : Bool := d.blocks.isEmpty

end Descriptor

/-! ## Faults of a component file -/

inductive BlockFault where
  /-- A block has no closing tag. -/
  | unclosed (tag : String)
  /-- A block that may stand once stands again. -/
  | duplicate (label : String)
  /-- An opening tag has no end. -/
  | unterminated (tag : String)
deriving DecidableEq, Repr

def BlockFault.message : BlockFault → String
  | .unclosed tag => "element <" ++ tag ++ "> is missing end tag"
  | .duplicate label => "single file component can contain only one " ++ label ++ " element"
  | .unterminated tag => "unterminated opening tag <" ++ tag

/-- A fault and where it is. -/
structure BlockError where
  fault : BlockFault
  span : Span
deriving DecidableEq, Repr

end Recompose
