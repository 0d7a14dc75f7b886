import Recompose.Text.Quoted
import Recompose.Text.Unicode

/-!
# Identifiers, keys and member accesses

A name is written bare where it is an identifier and quoted elsewhere.
-/

namespace Recompose

def isIdentifierStart (c : Char) : Bool := Unicode.isAlphabetic c || c = '_' || c = '$'

def isIdentifierPart (c : Char) : Bool :=
  Unicode.isAlphabetic c || Unicode.isNumeric c || c = '_' || c = '$'

def isIdentifierChars : List Char → Bool
  | [] => false
  | c :: cs => isIdentifierStart c && cs.all isIdentifierPart

def isIdentifier (name : String) : Bool := isIdentifierChars name.toList

/-- An object key, quoted when it is not an identifier. -/
def propertyKey (name : String) : String :=
  if isIdentifier name then name else quote name

/-- An access to a member of `base`, with brackets when the name is not an
identifier. -/
def memberAccess (base name : String) : String :=
  if isIdentifier name then base ++ "." ++ name else base ++ "[" ++ quote name ++ "]"

end Recompose
