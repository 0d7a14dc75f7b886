import Recompose.Entries

/-!
# Settings of a transformation
-/

namespace Recompose

structure Settings where
  /-- Emit a setup script instead of a setup function. -/
  scriptSetup : Bool := true
  /-- Use the reactivity transform, which needs no `.value`. -/
  reactivityTransform : Bool := false
  /-- Destructure props and read them by bare name. -/
  propsDestructure : Bool := true
  /-- Emit TypeScript. -/
  typescript : Bool := false
  /-- Other names for the modules of generated imports. -/
  aliases : Entries String := []
deriving Repr

namespace Settings

def moduleFor (s : Settings) (source : String) : String := (s.aliases.get? source).getD source

/-- Props can be destructured in a setup script only. -/
def destructuresProps (s : Settings) : Bool := s.scriptSetup && s.propsDestructure

end Settings

end Recompose
