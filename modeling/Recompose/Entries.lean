/-!
# Entries

Named values in the order in which the names first appeared. Writing to a
known name keeps its place.
-/

namespace Recompose

/-- Pairs of a name and its value; each name occurs once when built by
`Entries.put`. -/
abbrev Entries (α : Type) := List (String × α)

namespace Entries

variable {α : Type}

/-- Sets the value of a name, at its place or at the end. -/
def put (entries : Entries α) (name : String) (value : α) : Entries α :=
  match entries with
  | [] => [(name, value)]
  | (n, v) :: rest => if n = name then (n, value) :: rest else (n, v) :: put rest name value

def get? (entries : Entries α) (name : String) : Option α := entries.lookup name

def has (entries : Entries α) (name : String) : Bool := (entries.get? name).isSome

def names (entries : Entries α) : List String := entries.map (·.1)

def ofPairs (pairs : List (String × α)) : Entries α :=
  pairs.foldl (fun entries p => entries.put p.1 p.2) []

def erase (entries : Entries α) (name : String) : Entries α :=
  entries.filter fun p => p.1 ≠ name

/-- Changes the value of a name, which is `fresh` when the name is new. -/
def update (entries : Entries α) (name : String) (fresh : α) (f : α → α) : Entries α :=
  entries.put name (f ((entries.get? name).getD fresh))

end Entries

end Recompose
