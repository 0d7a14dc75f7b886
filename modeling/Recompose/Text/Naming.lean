/-!
# Camel and Pascal case

Names of options and directives in the two conventions of generated code.
Only ASCII letters change case.
-/

namespace Recompose

def isWordSeparator (c : Char) : Bool := c = '-' || c = '_' || c = ' ' || c = '.'

/-- The rest of a name of which something is written already; `raise` says
that the next letter starts a word. -/
def camelTail (raise : Bool) : List Char → List Char
  | [] => []
  | c :: cs =>
    if isWordSeparator c then camelTail true cs
    else (if raise then c.toUpper else c) :: camelTail false cs

/-- Drops separators, lowers the first letter and raises the first letter of
every later word. Humps inside a word stay. -/
def camelChars : List Char → List Char
  | [] => []
  | c :: cs => if isWordSeparator c then camelChars cs else c.toLower :: camelTail false cs

def camelCase (name : String) : String := String.ofList (camelChars name.toList)

def pascalCase (name : String) : String :=
  match camelChars name.toList with
  | [] => ""
  | c :: cs => String.ofList (c.toUpper :: cs)

end Recompose
