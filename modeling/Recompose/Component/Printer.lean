import Recompose.Component.Block
import Recompose.Text.Blank

/-!
# Writing component files

Blocks are written in a fixed order with a blank line between them, and the
file ends with one line feed.
-/

namespace Recompose

/-- An attribute with the space in front of it. -/
def renderAttr : String × Option String → String
  | (name, none) => " " ++ name
  | (name, some value) => " " ++ name ++ "=\"" ++ value ++ "\""

def Block.render (b : Block) : String :=
  "<" ++ b.tag ++ String.join (b.attrs.map renderAttr) ++ ">" ++ b.content ++
    "</" ++ b.tag ++ ">"

def Descriptor.render (d : Descriptor) : String :=
  trim (String.join (d.blocks.map fun b => b.render ++ "\n\n")) ++ "\n"

end Recompose
