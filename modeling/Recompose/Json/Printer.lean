import Recompose.Json.Basic

/-!
# Writing JSON

Values are written over several lines, two spaces to a level. Strings keep
every character but quotes, backslashes and control characters.
-/

namespace Recompose.Json

/-- How a character stands in a string. -/
def escapeChar (c : Char) : List Char :=
  if c = '"' then ['\\', '"']
  else if c = '\\' then ['\\', '\\']
  else if c = '\x08' then ['\\', 'b']
  else if c = '\x0c' then ['\\', 'f']
  else if c = '\n' then ['\\', 'n']
  else if c = '\r' then ['\\', 'r']
  else if c = '\t' then ['\\', 't']
  else if c.toNat < 0x20 then
    ['\\', 'u', '0', '0', Nat.digitChar (c.toNat / 16), Nat.digitChar (c.toNat % 16)]
  else [c]

def quoteText (s : String) : String :=
  "\"" ++ String.ofList (s.toList.flatMap escapeChar) ++ "\""

def margin (level : Nat) : String := String.ofList (List.replicate (2 * level) ' ')

def bracketed (opening closing : String) (level : Nat) (lines : List String) : String :=
  if lines.isEmpty then opening ++ closing
  else
    opening ++ "\n" ++ ",\n".intercalate (lines.map (margin (level + 1) ++ ·)) ++ "\n" ++
      margin level ++ closing

mutual

/-- A value whose first line is already indented to the level. -/
def Value.render (level : Nat) : Value → String
  | .null => "null"
  | .bool b => if b then "true" else "false"
  | .number text => text
  | .text s => quoteText s
  | .list items => bracketed "[" "]" level (renderItems (level + 1) items)
  | .object fields => bracketed "\x7b" "\x7d" level (renderFields (level + 1) fields)

def renderItems (level : Nat) : List Value → List String
  | [] => []
  | item :: items => item.render level :: renderItems level items

def renderFields (level : Nat) : List (String × Value) → List String
  | [] => []
  | (name, value) :: fields =>
    (quoteText name ++ ": " ++ value.render level) :: renderFields level fields

end

def Value.pretty (v : Value) : String := v.render 0

end Recompose.Json
