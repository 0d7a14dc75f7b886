import Recompose.Path

/-!
# Files and folders

A disk is a value: the files at their locations and the folders that hold
nothing or were named on their own. Reading changes nothing; writing returns
the disk after it and touches one location.
-/

namespace Recompose

/-- The names that lead from the top of a disk to a file or folder. -/
abbrev Location := List String

/-- What a file holds. Bytes that are no UTF-8 text are never looked into. -/
inductive Content where
  | text (value : String)
  | binary
deriving DecidableEq, Repr

inductive DiskFault where
  | missing
  | notFolder
  | isFolder
  | notText
  | denied
deriving DecidableEq, Repr

namespace DiskFault

def message : DiskFault → String
  | missing => "No such file or directory (os error 2)"
  | notFolder => "Not a directory (os error 20)"
  | isFolder => "Is a directory (os error 21)"
  | notText => "stream did not contain valid UTF-8"
  | denied => "Permission denied (os error 13)"

end DiskFault

structure Disk where
  files : List (Location × Content) := []
  /-- Folders; those above a file or folder need not be listed. -/
  folders : List Location := []
  /-- Where nothing can be written. -/
  locked : List Location := []
deriving Repr

namespace Disk

/-! ## Looking up -/

def content? (d : Disk) (loc : Location) : Option Content := d.files.lookup loc

/-- Whether a location is above or at a listed one. -/
def isFolder (d : Disk) (loc : Location) : Bool :=
  loc = [] || d.folders.any (loc.isPrefixOf ·) ||
    d.files.any fun (l, _) => l ≠ loc && loc.isPrefixOf l

/-- The location that pieces of a path lead to from a folder. -/
def walk (d : Disk) (loc : Location) : List String → Except DiskFault Location
  | [] => .ok loc
  | piece :: rest =>
    if !d.isFolder loc then
      .error (if (d.content? loc).isSome then .notFolder else .missing)
    else if Path.isIdle piece then d.walk loc rest
    else if piece = ".." then d.walk loc.dropLast rest
    else d.walk (loc ++ [piece]) rest

/-- The location of a path. An empty path leads nowhere. -/
def locate (d : Disk) (p : Path) : Except DiskFault Location :=
  if p.isEmpty then .error .missing else d.walk [] p.pieces

def isFileAt (d : Disk) (p : Path) : Bool :=
  match d.locate p with
  | .ok loc => (d.content? loc).isSome
  | .error _ => false

def isFolderAt (d : Disk) (p : Path) : Bool :=
  match d.locate p with
  | .ok loc => d.isFolder loc
  | .error _ => false

def existsAt (d : Disk) (p : Path) : Bool := d.isFileAt p || d.isFolderAt p

def read (d : Disk) (p : Path) : Except DiskFault String := do
  let loc ← d.locate p
  match d.content? loc with
  | some (.text s) => .ok s
  | some .binary => .error .notText
  | none => .error (if d.isFolder loc then .isFolder else .missing)

/-! ## Listing -/

def filesBelow (d : Disk) (loc : Location) : List (List String) :=
  d.files.filterMap fun (l, _) =>
    if loc.isPrefixOf l && l ≠ loc then some (l.drop loc.length) else none

/-! ## Writing -/

def put (d : Disk) (loc : Location) (text : String) : Disk :=
  { d with files := (loc, .text text) :: d.files.filter (·.1 ≠ loc) }

/-- Where a text written to a path goes: to a file, or to a new name in a
folder. A path that ends with a slash can only be a folder. -/
def target (d : Disk) (p : Path) : Except DiskFault Location :=
  match p.pieces.reverse.dropWhile (· = "") with
  | [] => .error (if p.isEmpty then .missing else .isFolder)
  | last :: above => do
    let folder ← d.walk [] (above.reverse ++ ["."])
    let loc := folder ++ [last]
    if p.pieces.getLast? = some "" || last = "." || last = ".." || d.isFolder loc then
      .error .isFolder
    else if d.locked.contains loc then .error .denied
    else .ok loc

def write (d : Disk) (p : Path) (text : String) : Except DiskFault Disk :=
  (d.target p).map fun loc => d.put loc text

end Disk

end Recompose
