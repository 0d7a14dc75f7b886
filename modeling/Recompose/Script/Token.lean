import Recompose.Span

/-!
# Tokens of a script

A token has a kind, a span, and a note whether a line ends in front of it,
which decides where a statement may end without a semicolon.
-/

namespace Recompose.Script

inductive TokenKind where
  /-- A name or keyword; `escaped` when an escape spells part of it. -/
  | word (name : String) (escaped : Bool)
  /-- A name that starts with `#`. -/
  | privateName
  /-- Punctuation, as written. -/
  | punct (text : String)
  /-- A number, as the decimal text of its value. -/
  | number (text : String)
  | bigint
  /-- A string; it has no value when it holds half of a surrogate pair. -/
  | string (value : Option String)
  /-- The end of the script. -/
  | done
  /-- Text that starts no token, and where the fault is. -/
  | invalid (fault : Span)
deriving DecidableEq, Repr, Inhabited

structure Token where
  kind : TokenKind
  span : Span
  /-- Whether a line ends between the previous token and this one. -/
  afterNewline : Bool
deriving Repr, Inhabited

end Recompose.Script
