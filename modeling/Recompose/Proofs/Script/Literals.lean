import Recompose.Proofs.JsonTexts
import Recompose.Proofs.Script.Tokens
import Recompose.Script.Literal

/-!
# Literal data in scripts

`Cursor.Spells` tells where the tokens of a script spell a JSON value by literals, and
`Tree.Spells` which trees such literals have. Every token of them takes up text, so that
there are never more of them than characters.
-/

namespace Recompose.Script

/-! ## Tokens take up text -/

/-- Words, strings and punctuation. -/
def TokenKind.isPlain : TokenKind → Bool
  | .word _ _ | .string _ | .punct _ => true
  | _ => false

theorem length_readName (skip pos : Nat) (name : List Char) (escaped : Bool) (cs : List Char) :
    (readName skip pos name escaped cs).1.length + (readName skip pos name escaped cs).2.2.2.length
      ≤ name.length + cs.length := by
  induction cs generalizing skip pos name escaped with
  | nil => exact Nat.le_refl _
  | cons c cs ih =>
      cases skip with
      | succ k => exact Nat.le_trans (ih ..) (Nat.add_le_add_left (Nat.le_succ _) _)
      | zero =>
          rw [readName]
          split
          · exact Nat.le_trans (ih ..) (by simp only [List.length_cons]; omega)
          · split
            · split
              · split
                · exact Nat.le_trans (ih ..) (by simp only [List.length_cons]; omega)
                · exact Nat.le_refl _
              · exact Nat.le_refl _
            · exact Nat.le_refl _

theorem TokenKind.isNumeric_of_isPlain {kind : TokenKind} (h : kind.isPlain = true) :
    kind.isNumeric = false := by
  cases kind <;> first | rfl | cases h

theorem length_pos_of_readPunct? {cs : List Char} {text : String} (h : readPunct? cs = some text) :
    0 < text.length := by
  have hpunctuators : ∀ t ∈ punctuators, 0 < t.length := by decide
  unfold readPunct? at h
  split at h
  · rename_i hmatch
    cases h
    exact hpunctuators _ (List.mem_of_find?_eq_some hmatch)
  · split at h
    · cases h
      split <;> decide
    · split at h
      · cases h
        rw [String.length_singleton]
        exact Nat.one_pos
      · cases h
    · cases h

theorem length_lt_of_readToken {pos stop : Nat} {cs after : List Char} {kind : TokenKind}
    (h : readToken pos cs = (kind, stop, after)) (hkind : kind.isPlain = true) :
    after.length < cs.length := by
  cases cs with
  | nil =>
      cases h
      cases hkind
  | cons c rest =>
      rw [readToken] at h
      split at h
      · have hle := length_readName 0 pos [] false (c :: rest)
        dsimp only at h
        split at h
        · cases h
          cases hkind
        · rename_i hne
          cases h
          have hpos := List.length_pos_iff.mpr fun h => hne (List.isEmpty_iff.mpr h)
          rw [List.length_nil, Nat.zero_add] at hle
          exact Nat.lt_of_lt_of_le (Nat.lt_add_of_pos_left hpos) hle
      split at h
      · split at h
        · rename_i hstring
          cases h
          obtain ⟨mid, hmid, -⟩ := advances_readString hstring
          rw [hmid, List.length_cons, List.length_append]
          omega
        · cases h
          cases hkind
      split at h
      · dsimp only at h
        split at h
        · cases h
          cases hkind
        · exact absurd (Prod.mk.inj h).1
            (readNumber_ne (TokenKind.isNumeric_of_isPlain hkind) pos (c :: rest))
      split at h
      · cases h
        cases hkind
      split at h
      · rename_i text hpunct
        cases h
        have hpos := length_pos_of_readPunct? hpunct
        rw [List.length_drop, List.length_cons]
        omega
      · cases h
        cases hkind

namespace Cursor

variable {n : Nat} {c c' d : Cursor}

theorem length_after_start_le (pos : Nat) (cs : List Char) :
    (Cursor.start pos cs).after.length ≤ cs.length := by
  obtain ⟨mid, hmid, -⟩ := advances_skipGap .blank pos false cs
  obtain ⟨mid', hmid', -⟩ := (tokenAt_readToken (skipGap .blank pos false cs).1
    (skipGap .blank pos false cs).2.2).advances
  have hlength := congrArg List.length hmid
  have hlength' := congrArg List.length hmid'
  rw [List.length_append] at hlength hlength'
  have hafter : (Cursor.start pos cs).after = (readToken (skipGap .blank pos false cs).1
    (skipGap .blank pos false cs).2.2).2.2 := rfl
  rw [hafter]
  omega

theorem length_after_start_lt {pos : Nat} {cs : List Char}
    (h : (Cursor.start pos cs).token.kind.isPlain = true) :
    (Cursor.start pos cs).after.length < cs.length := by
  obtain ⟨mid, hmid, -⟩ := advances_skipGap .blank pos false cs
  have hlength := congrArg List.length hmid
  rw [List.length_append] at hlength
  have hread : (Cursor.start pos cs).after.length < (skipGap .blank pos false cs).2.2.length :=
    length_lt_of_readToken (Prod.ext rfl (Prod.ext rfl rfl)) h
  omega

theorem length_after_next (h : c.next.token.kind.isPlain = true) :
    c.next.after.length < c.after.length := length_after_start_lt h

theorem length_after_next_le (c : Cursor) : c.next.after.length ≤ c.after.length :=
  length_after_start_le ..

/-- The script is read on at least `n` characters behind the token of a cursor. -/
def Passes (n : Nat) (c c' : Cursor) : Prop :=
  ∃ pos rest, c' = Cursor.start pos rest ∧ n + rest.length ≤ c.after.length

namespace Passes

theorem le (h : c.Passes n c') : n + c'.after.length ≤ c.after.length := by
  obtain ⟨pos, rest, rfl, hle⟩ := h
  exact Nat.le_trans (Nat.add_le_add_left (length_after_start_le pos rest) n) hle

theorem lt (h : c.Passes n c') (hplain : c'.token.kind.isPlain = true) :
    n + c'.after.length < c.after.length := by
  obtain ⟨pos, rest, rfl, hle⟩ := h
  exact Nat.lt_of_lt_of_le (Nat.add_lt_add_left (length_after_start_lt hplain) n) hle

theorem next_of_le (h : c'.after.length ≤ c.after.length) : c.Passes 0 c'.next :=
  ⟨_, _, rfl, by omega⟩

theorem next (c : Cursor) : c.Passes 0 c.next := .next_of_le (Nat.le_refl _)

theorem of_le (h : c.after.length ≤ d.after.length) (hc : c.Passes n c') : d.Passes n c' := by
  obtain ⟨pos, rest, rfl, hle⟩ := hc
  exact ⟨pos, rest, rfl, Nat.le_trans hle h⟩

theorem trans (h : c.Passes 0 d) (h' : d.Passes 0 c') : c.Passes 0 c' :=
  h'.of_le (by have := h.le; omega)

/-- Past the token behind it. -/
theorem of_next (h : c.next.Passes n c') : c.Passes n c' := h.of_le (length_after_next_le c)

theorem then_next (h : c.Passes 0 c') : c.Passes 0 c'.next := h.trans (.next c')

end Passes

end Cursor

/-! ## Literals -/

/-- From one cursor to another, a script spells a value by literals with strings for keys,
of which any may stand in any number of parentheses; or what an array or object goes on
with, up to behind the bracket or brace that closes it. -/
inductive Cursor.Spells : Json.Part → Cursor → Cursor → Prop where
  | text {s : String} {c : Cursor} (h : c.token.kind = .string (some s)) :
      Cursor.Spells (.value (.text s)) c c.next
  | null {c : Cursor} (h : c.token.kind = .word "null" false) : Cursor.Spells (.value .null) c c.next
  | yes {c : Cursor} (h : c.token.kind = .word "true" false) :
      Cursor.Spells (.value (.bool true)) c c.next
  | no {c : Cursor} (h : c.token.kind = .word "false" false) :
      Cursor.Spells (.value (.bool false)) c c.next
  | paren {v : Json.Value} {c c' : Cursor} (hopen : c.token.kind = .punct "(")
      (h : Cursor.Spells (.value v) c.next c') (hclose : c'.token.kind = .punct ")") :
      Cursor.Spells (.value v) c c'.next
  | list {vs : List Json.Value} {c c' : Cursor} (hopen : c.token.kind = .punct "[")
      (h : Cursor.Spells (.items vs) c.next c') : Cursor.Spells (.value (.list vs)) c c'
  | object {fs : List (String × Json.Value)} {c c' : Cursor}
      (hopen : c.token.kind = .punct "\x7b") (h : Cursor.Spells (.fields fs) c.next c') :
      Cursor.Spells (.value (.object fs)) c c'
  | closeList {c : Cursor} (h : c.token.kind = .punct "]") : Cursor.Spells (.items []) c c.next
  | lastItem {v : Json.Value} {c c' : Cursor} (h : Cursor.Spells (.value v) c c')
      (hclose : c'.token.kind = .punct "]") : Cursor.Spells (.items [v]) c c'.next
  | item {v : Json.Value} {vs : List Json.Value} {c c' c'' : Cursor}
      (h : Cursor.Spells (.value v) c c') (hcomma : c'.token.kind = .punct ",")
      (hs : Cursor.Spells (.items vs) c'.next c'') : Cursor.Spells (.items (v :: vs)) c c''
  | closeObject {c : Cursor} (h : c.token.kind = .punct "\x7d") :
      Cursor.Spells (.fields []) c c.next
  | lastField {name : String} {v : Json.Value} {c c' : Cursor}
      (hname : c.token.kind = .string (some name)) (hcolon : c.next.token.kind = .punct ":")
      (h : Cursor.Spells (.value v) c.next.next c') (hclose : c'.token.kind = .punct "\x7d") :
      Cursor.Spells (.fields [(name, v)]) c c'.next
  | field {name : String} {v : Json.Value} {fs : List (String × Json.Value)} {c c' c'' : Cursor}
      (hname : c.token.kind = .string (some name)) (hcolon : c.next.token.kind = .punct ":")
      (h : Cursor.Spells (.value v) c.next.next c') (hcomma : c'.token.kind = .punct ",")
      (hs : Cursor.Spells (.fields fs) c'.next c'') : Cursor.Spells (.fields ((name, v) :: fs)) c c''

/-- Trees of such literals. -/
inductive Tree.Spells : Json.Part → List Tree → Prop where
  | text (s : String) (span : Span) (parts : List Tree) :
      Tree.Spells (.value (.text s)) [.node (.string (some s)) span parts]
  | null (span : Span) (parts : List Tree) : Tree.Spells (.value .null) [.node .null span parts]
  | bool (b : Bool) (span : Span) (parts : List Tree) :
      Tree.Spells (.value (.bool b)) [.node (.boolean b) span parts]
  | paren {v : Json.Value} {t : Tree} (span : Span) (h : Tree.Spells (.value v) [t]) :
      Tree.Spells (.value v) [.node .paren span [t]]
  | list {vs : List Json.Value} {ts : List Tree} (span : Span) (h : Tree.Spells (.items vs) ts) :
      Tree.Spells (.value (.list vs)) [.node .array span ts]
  | object {fs : List (String × Json.Value)} {ts : List Tree} (span : Span)
      (h : Tree.Spells (.fields fs) ts) : Tree.Spells (.value (.object fs)) [.node .object span ts]
  | noItem : Tree.Spells (.items []) []
  | item {v : Json.Value} {vs : List Json.Value} {t : Tree} {ts : List Tree}
      (h : Tree.Spells (.value v) [t]) (hs : Tree.Spells (.items vs) ts) :
      Tree.Spells (.items (v :: vs)) (t :: ts)
  | noField : Tree.Spells (.fields []) []
  | field {v : Json.Value} {fs : List (String × Json.Value)} {t : Tree} {ts : List Tree}
      (name : String) (span keySpan : Span) (keyParts : List Tree)
      (h : Tree.Spells (.value v) [t]) (hs : Tree.Spells (.fields fs) ts) :
      Tree.Spells (.fields ((name, v) :: fs))
        (.node .keyValue span [.node (.string (some name)) keySpan keyParts, t] :: ts)

namespace Cursor.Spells

variable {part : Json.Part} {v : Json.Value} {c c' : Cursor}

theorem isPlain (h : c.Spells part c') : c.token.kind.isPlain = true := by
  induction h with
  | text h | null h | yes h | no h | closeList h | closeObject h => rw [h]; rfl
  | paren hopen | list hopen | object hopen => rw [hopen]; rfl
  | lastItem _ _ ih | item _ _ _ ih => exact ih
  | lastField hname | field hname => rw [hname]; rfl

theorem passes (h : c.Spells part c') : c.Passes 0 c' := by
  induction h with
  | text | null | yes | no | closeList | closeObject => exact .next _
  | paren _ _ _ ih => exact ih.of_next.then_next
  | list _ _ ih | object _ _ ih => exact ih.of_next
  | lastItem _ _ ih => exact ih.then_next
  | item _ _ _ ih ihs => exact ih.trans ihs.of_next
  | lastField _ _ _ _ ih => exact ih.of_next.of_next.then_next
  | field _ _ _ _ _ ih ihs => exact ih.of_next.of_next.trans ihs.of_next

theorem length_after_le (h : c.Spells part c') : c'.after.length ≤ c.after.length := by
  have hle := h.passes.le
  omega

/-- Of the words, only those of literals begin a value. -/
theorem beq_word (h : c.Spells (.value v) c') {word : String}
    (hword : word ∉ ["null", "true", "false"]) : (c.token.kind == .word word false) = false := by
  rw [beq_eq_false_iff_ne]
  intro hkind
  cases h with
  | text h => rw [h] at hkind; cases hkind
  | null h | yes h | no h =>
      rw [h] at hkind
      cases hkind
      exact hword (by decide)
  | paren hopen | list hopen | object hopen => rw [hopen] at hkind; cases hkind

/-- Of the punctuation, only opening brackets begin a value. -/
theorem beq_punct (h : c.Spells (.value v) c') {text : String} (htext : text ∉ ["(", "[", "\x7b"]) :
    (c.token.kind == .punct text) = false := by
  rw [beq_eq_false_iff_ne]
  intro hkind
  cases h with
  | text h | null h | yes h | no h => rw [h] at hkind; cases hkind
  | paren hopen | list hopen | object hopen =>
      rw [hopen] at hkind
      cases hkind
      exact htext (by simp)

end Cursor.Spells

end Recompose.Script
