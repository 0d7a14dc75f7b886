import Recompose.Proofs.Script.Tokens
import Recompose.Script.Grammar.Patterns

/-!
# Readers at other offsets

A reader does the same wherever it stands: all that depends on the offset at which it
begins are the offsets that it tells of, and they move along.
-/

namespace Recompose

namespace Script

variable {k : Nat}

/-! ## Readers -/

theorem skipGap_add (gap : Gap) (pos : Nat) (newline : Bool) (cs : List Char) (k : Nat) :
    skipGap gap (pos + k) newline cs
      = ((skipGap gap pos newline cs).1 + k, (skipGap gap pos newline cs).2) := by
  induction cs generalizing gap pos newline with
  | nil => rfl
  | cons c cs ih =>
      cases gap with
      | blank =>
          simp only [skipGap, Nat.add_right_comm pos k]
          split
          · exact ih ..
          split
          · exact ih ..
          split
          · exact ih ..
          split
          · exact ih ..
          · rfl
      | lineComment | blockComment =>
          simp only [skipGap, Nat.add_right_comm pos k]
          split <;> exact ih ..
      | blockOpen | blockClose =>
          simp only [skipGap, Nat.add_right_comm pos k]
          exact ih ..

theorem readName_add (skip pos : Nat) (name : List Char) (escaped : Bool) (cs : List Char) (k : Nat) :
    readName skip (pos + k) name escaped cs
      = ((readName skip pos name escaped cs).1, (readName skip pos name escaped cs).2.1,
          (readName skip pos name escaped cs).2.2.1 + k, (readName skip pos name escaped cs).2.2.2) := by
  induction cs generalizing skip pos name escaped with
  | nil => rfl
  | cons c cs ih =>
      cases skip with
      | succ n =>
          simp only [readName, Nat.add_right_comm pos k]
          exact ih ..
      | zero =>
          simp only [readName, Nat.add_right_comm pos k]
          split
          · exact ih ..
          split
          · split
            · split
              · exact ih ..
              · rfl
            · rfl
          · rfl

theorem readString_add (quote : Char) (skip pos : Nat) (units : List Nat) (cs : List Char) (k : Nat) :
    readString quote skip (pos + k) units cs
      = ((readString quote skip pos units cs).map fun r => (r.1, r.2.1 + k, r.2.2)).mapError
          (· + k) := by
  induction cs generalizing skip pos units with
  | nil => rfl
  | cons c cs ih =>
      cases skip with
      | succ n =>
          simp only [readString, Nat.add_right_comm pos k]
          exact ih ..
      | zero =>
          simp only [readString, Nat.add_right_comm pos k]
          split
          · rfl
          split
          · rfl
          split
          · split
            · exact ih ..
            · exact ih ..
            · split
              · rfl
              · exact congrArg Except.error (Nat.add_right_comm _ k _)
          · exact ih ..

theorem readRadix_add (base : Nat) (isDigit : Char → Bool) (pos : Nat) (cs : List Char) (k : Nat) :
    readRadix base isDigit (pos + k) cs
      = ((readRadix base isDigit pos cs).1, (readRadix base isDigit pos cs).2.1 + k,
          (readRadix base isDigit pos cs).2.2) := by
  simp only [readRadix, Nat.add_right_comm pos k]
  split <;> simp only [Nat.add_right_comm _ k]

theorem readDecimal_add (pos : Nat) (cs : List Char) (k : Nat) :
    readDecimal (pos + k) cs
      = ((readDecimal pos cs).1, (readDecimal pos cs).2.1 + k, (readDecimal pos cs).2.2) := by
  simp only [readDecimal, Nat.add_right_comm pos k]
  split
  · rfl
  split
  · simp only [Nat.add_right_comm _ k]
  split <;> simp only [Nat.add_right_comm _ k]

theorem readNumber_add (pos : Nat) (cs : List Char) (k : Nat) :
    readNumber (pos + k) cs
      = ((readNumber pos cs).1, (readNumber pos cs).2.1 + k, (readNumber pos cs).2.2) := by
  unfold readNumber
  split
  · simp only [Nat.add_right_comm pos k]
    split
    · exact readRadix_add ..
    split
    · exact readRadix_add ..
    split
    · exact readRadix_add ..
    · exact readDecimal_add ..
  · exact readDecimal_add ..

namespace TokenKind

def shift (k : Nat) : TokenKind → TokenKind
  | .invalid fault => .invalid (fault.shift k)
  | kind => kind

theorem shift_of_ne {kind : TokenKind} (h : ∀ fault, kind ≠ .invalid fault) : kind.shift k = kind := by
  cases kind with
  | invalid fault => exact absurd rfl (h fault)
  | _ => rfl

end TokenKind

theorem shift_readNumber (pos : Nat) (cs : List Char) (k : Nat) :
    (readNumber pos cs).1.shift k = (readNumber pos cs).1 :=
  TokenKind.shift_of_ne fun _ => readNumber_ne rfl pos cs

theorem readToken_add (pos : Nat) (cs : List Char) (k : Nat) :
    readToken (pos + k) cs
      = ((readToken pos cs).1.shift k, (readToken pos cs).2.1 + k, (readToken pos cs).2.2) := by
  cases cs with
  | nil => rfl
  | cons c cs =>
      simp only [readToken, readName_add, readNumber_add, Nat.add_right_comm pos k]
      split
      · split <;> rfl
      split
      · rw [readString_add]
        cases readString c 0 (pos + 1) [] cs <;> rfl
      split
      · split
        · rfl
        · simp only [shift_readNumber]
      split
      · rfl
      · split <;> rfl

theorem readRegex?_add (inClass skip : Bool) (pos : Nat) (cs : List Char) (k : Nat) :
    readRegex? inClass skip (pos + k) cs
      = (readRegex? inClass skip pos cs).map fun r => (r.1 + k, r.2) := by
  induction cs generalizing inClass skip pos with
  | nil => rfl
  | cons c cs ih =>
      simp only [readRegex?, readName_add, Nat.add_right_comm pos k]
      split
      · rfl
      split
      · exact ih ..
      split
      · exact ih ..
      split
      · exact ih ..
      split
      · exact ih ..
      split
      · rfl
      · exact ih ..

theorem readTemplateText?_add (skip : Bool) (pos : Nat) (cs : List Char) (k : Nat) :
    readTemplateText? skip (pos + k) cs
      = (readTemplateText? skip pos cs).map fun r => (r.1, r.2.1 + k, r.2.2) := by
  induction cs generalizing skip pos with
  | nil => rfl
  | cons c cs ih =>
      simp only [readTemplateText?, Nat.add_right_comm pos k]
      split
      · exact ih ..
      split
      · exact ih ..
      split
      · rfl
      split
      · split
        · simp only [Option.map_some, Nat.add_right_comm _ k]
        · exact ih ..
      · exact ih ..

/-! ## Cursors -/

/-- The cursor that stands the same in a text further on. -/
def Cursor.shift (c : Cursor) (k : Nat) : Cursor where
  here := c.here
  token := ⟨c.token.kind.shift k, c.token.span.shift k, c.token.afterNewline⟩
  after := c.after
  prevStop := c.prevStop + k

theorem Cursor.start_add (offset : Nat) (cs : List Char) (k : Nat) :
    start (offset + k) cs = (start offset cs).shift k := by
  unfold start
  rw [skipGap_add]
  dsimp only
  rw [readToken_add]
  rfl

/-! ## Trees -/

mutual

/-- The tree that stands the same in a text further on. -/
def Tree.shift (k : Nat) : Tree → Tree
  | .node kind span parts => .node kind (span.shift k) (Tree.shiftAll k parts)

def Tree.shiftAll (k : Nat) : List Tree → List Tree
  | [] => []
  | t :: ts => t.shift k :: Tree.shiftAll k ts

end

namespace Tree

variable (k : Nat)

theorem shiftAll_eq_map (ts : List Tree) : shiftAll k ts = ts.map (shift k) := by
  induction ts with
  | nil => rfl
  | cons t ts ih => rw [shiftAll, ih, List.map_cons]

theorem shift_node (kind : Kind) (span : Span) (parts : List Tree) :
    (node kind span parts).shift k = node kind (span.shift k) (parts.map (shift k)) := by
  rw [shift, shiftAll_eq_map]

@[simp] theorem kind_shift (t : Tree) : (t.shift k).kind = t.kind := by
  cases t
  rfl

@[simp] theorem span_shift (t : Tree) : (t.shift k).span = t.span.shift k := by
  cases t
  rfl

theorem isAssignable_shift (t : Tree) : isAssignable (t.shift k) = isAssignable t := by
  rw [isAssignable, isAssignable, kind_shift]

theorem extend_shift (t : Tree) (ts : List Tree) :
    (t.shift k).extend (ts.map (shift k)) = (t.extend ts).shift k := by
  have hstop : ∀ (stop : Nat) (ts : List Tree),
      (ts.map (shift k)).foldl (fun stop part => max stop part.span.stop) (stop + k)
        = ts.foldl (fun stop part => max stop part.span.stop) stop + k := by
    intro stop ts
    induction ts generalizing stop with
    | nil => rfl
    | cons t ts ih =>
        rw [List.map_cons, List.foldl_cons, List.foldl_cons, span_shift, Span.shift,
          Nat.add_max_add_right, ih]
  cases t with
  | node kind s ps =>
      rw [shift_node]
      show node kind ⟨s.start + k, (ts.map (shift k)).foldl _ (s.stop + k)⟩ (_ ++ ts.map (shift k))
        = (node kind ⟨s.start, ts.foldl _ s.stop⟩ (ps ++ ts)).shift k
      rw [hstop, shift_node, List.map_append]
      rfl

mutual

theorem asPattern_shift : ∀ t : Tree, asPattern (t.shift k) = (asPattern t).shift k
  | .node kind s ps => by
      cases kind with
      | array | object | spread => simp only [shift, asPattern, asPatterns_shift ps]
      | keyValue =>
          match ps with
          | [] => rfl
          | [_] => rfl
          | [key, value] => simp only [shift, shiftAll, asPattern, asPattern_shift value]
          | _ :: _ :: _ :: _ => rfl
      | assign =>
          match ps with
          | [] => rfl
          | t :: _ => simp only [shift, shiftAll, asPattern, asPattern_shift t]
      | _ => rfl

theorem asPatterns_shift : ∀ ts : List Tree, asPatterns (shiftAll k ts) = shiftAll k (asPatterns ts)
  | [] => rfl
  | t :: ts => by simp only [shiftAll, asPatterns, asPattern_shift t, asPatterns_shift ts]

end

theorem assignmentTarget_shift (t : Tree) :
    assignmentTarget (t.shift k) = (assignmentTarget t).shift k := by
  unfold assignmentTarget
  rw [kind_shift]
  split
  · exact asPattern_shift k t
  · exact asPattern_shift k t
  · rfl

end Tree

end Script

end Recompose
