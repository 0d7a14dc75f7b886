import Recompose.Entries

/-!
# JSON values
-/

namespace Recompose.Json

/-- A JSON value. A number is its decimal text; the fields of an object are in
the order in which their names first appeared. -/
inductive Value where
  | null
  | bool (value : Bool)
  | number (text : String)
  | text (value : String)
  | list (items : List Value)
  | object (fields : List (String × Value))
deriving Repr, Inhabited

namespace Value

def ofNat (n : Nat) : Value := number (String.ofList (Nat.toDigits 10 n))

end Value

end Recompose.Json
