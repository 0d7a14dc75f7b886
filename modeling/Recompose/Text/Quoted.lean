/-!
# Quoted strings

Strings are written between single quotes. A quote and a backslash get a
backslash in front, and a line feed is written as an escape.
-/

namespace Recompose

def escapeChar (c : Char) : List Char :=
  if c = '\'' then ['\\', '\'']
  else if c = '\\' then ['\\', '\\']
  else if c = '\n' then ['\\', 'n']
  else [c]

/-- The characters that are escaped, each with what stands behind the backslash. -/
def quoteEscapes : List (Char × Char) := [('\'', '\''), ('\\', '\\'), ('\n', 'n')]

theorem escapeChar_cases (c : Char) :
    (∃ letter, (c, letter) ∈ quoteEscapes ∧ escapeChar c = ['\\', letter]) ∨
      (c ≠ '\'' ∧ c ≠ '\\' ∧ c ≠ '\n') ∧ escapeChar c = [c] := by
  by_cases hquote : c = '\''
  · subst hquote
    exact .inl ⟨_, by decide, rfl⟩
  by_cases hbackslash : c = '\\'
  · subst hbackslash
    exact .inl ⟨_, by decide, rfl⟩
  by_cases hline : c = '\n'
  · subst hline
    exact .inl ⟨_, by decide, rfl⟩
  exact .inr ⟨⟨hquote, hbackslash, hline⟩, by simp [escapeChar, *]⟩

def quote (value : String) : String :=
  String.ofList ('\'' :: (value.toList.flatMap escapeChar ++ ['\'']))

theorem toList_quote (s : String) :
    (quote s).toList = '\'' :: (s.toList.flatMap escapeChar ++ ['\'']) := String.toList_ofList

end Recompose
