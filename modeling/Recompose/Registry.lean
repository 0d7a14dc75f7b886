import Recompose.Entries
import Recompose.Error
import Recompose.Fragment

/-!
# Registered names

The names that plugins put on `this`, in the order of registration. A name is
registered once.
-/

namespace Recompose

/-- Who registered a name, and whether a setup function returns it. -/
structure PropertyRecord where
  source : Provenance
  exposed : Bool
deriving DecidableEq, Repr

structure Registry where
  entries : Entries PropertyRecord := []
deriving Repr

namespace Registry

def register (r : Registry) (name : String) (source : Provenance) (exposed : Bool) :
    Except TransformError Registry :=
  if r.entries.has name then .error (.duplicateProperty name)
  else .ok ⟨r.entries ++ [(name, ⟨source, exposed⟩)]⟩

def get? (r : Registry) (name : String) : Option PropertyRecord := r.entries.get? name

def source? (r : Registry) (name : String) : Option Provenance := (r.get? name).map (·.source)

/-- The names that a setup function returns. -/
def exposed (r : Registry) : List String :=
  (r.entries.filter (·.2.exposed)).map (·.1)

def size (r : Registry) : Nat := r.entries.length

end Registry

end Recompose
