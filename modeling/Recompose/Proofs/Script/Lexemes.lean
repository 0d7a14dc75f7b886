import Recompose.Proofs.Script.LineEnds

/-!
# Texts as sequences of lexemes

Which tokens a text falls apart into depends on the grammar: a slash divides or starts a
regular expression, a closing brace ends a block or goes on with a template, and markup
has a lexical grammar of its own. `ReadsAs` tells of a text and its lexemes that the
readers can go through the text in this way; the way that the parser takes is one of
them. Every lexeme has its characters as they stand in the text, those of strings and
templates included.

How a lexeme is read does not depend on what stands behind the end of the line on which
it ends (`Takes.of_sameLine`).
-/

namespace Recompose.Script

/-! ## Lexemes -/

/-- The readers that take a lexeme off the front of a text. -/
inductive Reading where
  | token (kind : TokenKind)
  /-- An operator that starts with `>`, put together by the parser. -/
  | operator
  | regex
  /-- A piece of a template, from a backquote or closing brace up to a backquote or
  the opening of a substitution. -/
  | template
  | markupName
  /-- A quoted attribute. -/
  | markupString
  /-- Text between the tags of elements; there is no gap in front of it. -/
  | markupText
deriving DecidableEq

/-- Whether a token is part of a script. -/
def TokenKind.isProper : TokenKind → Bool
  | .done | .invalid _ => false
  | _ => true

/-- A reader takes a lexeme off the front of a text, and `rest` follows it. -/
inductive Takes : Reading → (text rest : List Char) → Prop where
  | token {text rest : List Char} {pos stop : Nat} {kind : TokenKind}
      (hkind : kind.isProper = true) (h : readToken pos (text ++ rest) = (kind, stop, rest)) :
      Takes (.token kind) text rest
  | operator {text : String} {rest : List Char}
      (h : firstMatch? greaterOperators (text.toList ++ rest) = some text) :
      Takes .operator text.toList rest
  | regex {text rest : List Char} {pos stop : Nat}
      (h : readRegex? false false pos (text ++ rest) = some (stop, rest)) :
      Takes .regex ('/' :: text) rest
  | template {c : Char} {text rest : List Char} {pos stop : Nat} {ended : Bool}
      (hopen : c = '`' ∨ c = '\x7d')
      (h : readTemplateText? false pos (text ++ rest) = some (ended, stop, rest)) :
      Takes .template (c :: text) rest
  | markupName {text rest : List Char} {pos stop : Nat}
      (h : readMarkupName pos (text ++ rest) = (stop, rest)) : Takes .markupName text rest
  | markupString {quote : Char} {text rest : List Char} {pos stop : Nat}
      (hquote : quote = '"' ∨ quote = '\'')
      (h : readMarkupString? quote pos (text ++ rest) = some (stop, rest)) :
      Takes .markupString (quote :: text) rest
  | markupText {text rest : List Char} {pos stop : Nat}
      (h : readMarkupText pos (text ++ rest) = (stop, rest)) : Takes .markupText text rest

structure Lexeme where
  reading : Reading
  text : List Char
  /-- Whether a line ends in the gap in front. -/
  afterNewline : Bool

/-- A lexeme at its place in a text. -/
structure PlacedLexeme extends Lexeme where
  /-- The text behind it. -/
  behind : List Char

/-- The readers can take a text apart into these lexemes, with gaps between them. -/
inductive ReadsAs : List Char → List PlacedLexeme → Prop where
  | done {cs : List Char} {pos : Nat} (h : (skipGap .blank pos false cs).2.2 = []) : ReadsAs cs []
  | lexeme {cs text rest : List Char} {reading : Reading} {pos start : Nat} {newline : Bool}
      {lexemes : List PlacedLexeme} (hreading : reading ≠ .markupText)
      (hgap : skipGap .blank pos false cs = (start, newline, text ++ rest))
      (htakes : Takes reading text rest) (h : ReadsAs rest lexemes) :
      ReadsAs cs (⟨⟨reading, text, newline⟩, rest⟩ :: lexemes)
  | markupText {text rest : List Char} {lexemes : List PlacedLexeme}
      (htakes : Takes .markupText text rest) (h : ReadsAs rest lexemes) :
      ReadsAs (text ++ rest) (⟨⟨.markupText, text, false⟩, rest⟩ :: lexemes)

/-! ## The line on which a lexeme ends -/

/-- Two texts are the same up to the end of their first line. -/
inductive SameLine : List Char → List Char → Prop where
  | refl (cs : List Char) : SameLine cs cs
  | lineEnd (line cs ds : List Char) : SameLine (line ++ '\n' :: cs) (line ++ '\n' :: ds)

theorem readString_suffix {quote : Char} {skip pos stop : Nat} {units units' : List Nat}
    {cs after : List Char} (h : readString quote skip pos units cs = .ok (units', stop, after)) :
    after <:+ cs.drop skip := by
  induction cs generalizing skip pos units with
  | nil =>
      cases h
      exact List.nil_suffix
  | cons c cs ih =>
      have hdrop : ∀ n, cs.drop n <:+ c :: cs := fun n =>
        (List.drop_suffix n cs).trans (List.suffix_cons c cs)
      cases skip with
      | succ k => exact ih h
      | zero =>
          rw [readString] at h
          split at h
          · cases h
            exact List.suffix_cons ..
          split at h
          · cases h
            exact List.suffix_rfl
          split at h
          · split at h
            · exact (ih h).trans (hdrop _)
            · exact (ih h).trans (hdrop _)
            · split at h
              · cases h
                exact List.nil_suffix
              · cases h
          · exact (ih h).trans (hdrop 0)

/-- A string that ends on the line does so whatever stands on the next one. -/
theorem readString_of_lineEnd {quote : Char} (hquote : quote ≠ '\n') {skip pos stop : Nat}
    {units units' : List Nat} {cs ahead more : List Char}
    (h : readString quote skip pos units (cs ++ '\n' :: more)
      = .ok (units', stop, ahead ++ '\n' :: more)) :
    readString quote skip pos units cs = .ok (units', stop, ahead) ∧
      ∀ rest, readString quote skip pos units (cs ++ '\n' :: rest)
        = .ok (units', stop, ahead ++ '\n' :: rest) := by
  -- Nothing is left of the line where the end of the line was skipped.
  have hpassed : ∀ {n : Nat} {ds : List Char}, ds = ahead ++ '\n' :: more →
      ¬ ds <:+ (more.drop n) := by
    rintro n _ rfl hsuffix
    have hlength := hsuffix.length_le
    simp only [List.length_append, List.length_cons, List.length_drop] at hlength
    omega
  induction cs generalizing skip pos units with
  | nil =>
      cases skip with
      | succ k => exact absurd (readString_suffix h) (hpassed rfl)
      | zero =>
          have hread : ∀ rest, readString quote 0 pos units ('\n' :: rest)
              = .ok (units, pos, '\n' :: rest) := fun rest => by
            simp [readString, hquote.symm]
          rw [List.nil_append, hread, Except.ok.injEq, Prod.mk.injEq, Prod.mk.injEq] at h
          obtain ⟨rfl, rfl, hahead⟩ := h
          obtain rfl : ahead = [] := List.append_left_eq_self.mp hahead.symm
          exact ⟨rfl, hread⟩
  | cons c cs ih =>
      cases skip with
      | succ k => exact ih h
      | zero =>
          simp only [List.cons_append, readString] at h ⊢
          by_cases hclosed : c = quote
          · simp only [if_pos hclosed, Except.ok.injEq, Prod.mk.injEq, List.append_left_inj] at h ⊢
            simpa only [forall_const, and_self] using h
          simp only [if_neg hclosed] at h ⊢
          by_cases hline : (c = '\n' || c = '\r') = true
          · simp only [if_pos hline, Except.ok.injEq, Prod.mk.injEq] at h ⊢
            rw [← List.cons_append, List.append_left_inj] at h
            obtain ⟨rfl, rfl, rfl⟩ := h
            simp
          simp only [if_neg hline] at h ⊢
          by_cases hbackslash : c = '\\'
          · simp only [if_pos hbackslash] at h ⊢
            -- An escape that takes in the line end leaves nothing of the line.
            by_cases hne : cs = []
            · subst hne
              exact absurd (@readString_suffix _ 1 _ _ _ _ _ _ h) (hpassed rfl)
            by_cases hcr : cs = ['\r']
            · subst hcr
              exact absurd (@readString_suffix _ 2 _ _ _ _ _ _ h) (hpassed rfl)
            simp only [readEscape?_append hne hcr] at h ⊢
            cases hescape : readEscape? cs with
            | none => simp [hescape, hne] at h
            | some escape =>
                obtain ⟨_ | code, n⟩ := escape <;> simp only [hescape] at h ⊢ <;> exact ih h
          · simp only [if_neg hbackslash] at h ⊢
            exact ih h

/-- A regular expression that ends on the line. -/
theorem readRegex?_of_lineEnd {inClass skip : Bool} {pos stop : Nat} {cs ahead more : List Char}
    (h : readRegex? inClass skip pos (cs ++ '\n' :: more) = some (stop, ahead ++ '\n' :: more)) :
    readRegex? inClass skip pos cs = some (stop, ahead) := by
  induction cs generalizing inClass skip pos with
  | nil => cases h
  | cons c cs ih =>
      simp only [List.cons_append, readRegex?] at h ⊢
      split at h
      · cases h
      rename_i hline
      rw [if_neg hline]
      split at h
      · rw [if_pos ‹_›]
        exact ih h
      rw [if_neg ‹_›]
      split at h
      · rw [if_pos ‹_›]
        exact ih h
      rw [if_neg ‹_›]
      split at h
      · rw [if_pos ‹_›]
        exact ih h
      rw [if_neg ‹_›]
      split at h
      · rw [if_pos ‹_›]
        exact ih h
      rw [if_neg ‹_›]
      split at h
      · rw [if_pos ‹_›]
        rw [readName_append (Nat.zero_le _), Option.some.injEq, Prod.mk.injEq,
          List.append_left_inj] at h
        rw [h.1, h.2]
      · rw [if_neg ‹_›]
        exact ih h

/-! ## Lexemes that have a last character of their own -/

theorem length_lt_of_readTemplateText? {skip ended : Bool} {pos stop : Nat} {cs after : List Char}
    (h : readTemplateText? skip pos cs = some (ended, stop, after)) :
    after.length < cs.length := by
  induction cs generalizing skip pos with
  | nil => cases h
  | cons c cs ih =>
      have hnext : ∀ {skip : Bool} {pos : Nat},
          readTemplateText? skip pos cs = some (ended, stop, after) →
            after.length < (c :: cs).length := fun h => Nat.lt_succ_of_lt (ih h)
      simp only [readTemplateText?] at h
      split at h
      · exact hnext h
      split at h
      · exact hnext h
      split at h
      · cases h
        exact Nat.lt_succ_self _
      split at h
      · split at h
        · cases h
          exact Nat.lt_succ_of_lt (Nat.lt_succ_self _)
        · exact hnext h
      · exact hnext h

/-- What ends a template text is part of it. -/
theorem readTemplateText?_of_append {skip ended : Bool} {pos stop : Nat} {text rest : List Char}
    (h : readTemplateText? skip pos (text ++ rest) = some (ended, stop, rest)) :
    readTemplateText? skip pos text = some (ended, stop, []) := by
  induction text generalizing skip pos with
  | nil => exact absurd (length_lt_of_readTemplateText? h) (Nat.lt_irrefl _)
  | cons c text ih =>
      simp only [List.cons_append, readTemplateText?] at h ⊢
      split at h
      · rw [if_pos ‹_›]
        exact ih h
      rw [if_neg ‹_›]
      split at h
      · rw [if_pos ‹_›]
        exact ih h
      rw [if_neg ‹_›]
      split at h
      · rw [if_pos ‹_›]
        simpa using h
      rw [if_neg ‹_›]
      split at h
      · rw [if_pos ‹_›]
        cases text with
        | nil =>
            rw [List.nil_append] at h
            split at h
            · have hlength := congrArg (fun r => r.map fun r => r.2.2.length) h
              simp at hlength
            · exact absurd (length_lt_of_readTemplateText? h) (Nat.lt_irrefl _)
        | cons d text =>
            by_cases hbrace : d = '\x7b'
            · subst hbrace
              simpa using h
            · simp only [hbrace, List.cons_append, List.cons.injEq, false_and, imp_self,
                implies_true] at h ⊢
              exact ih h
      · rw [if_neg ‹_›]
        exact ih h

theorem length_lt_of_readMarkupString? {quote : Char} {pos stop : Nat} {cs after : List Char}
    (h : readMarkupString? quote pos cs = some (stop, after)) : after.length < cs.length := by
  induction cs generalizing pos with
  | nil => cases h
  | cons c cs ih =>
      rw [readMarkupString?] at h
      split at h
      · cases h
        exact Nat.lt_succ_self _
      · exact Nat.lt_succ_of_lt (ih h)

/-- The quote that ends an attribute is part of it. -/
theorem readMarkupString?_append {quote : Char} {pos stop : Nat} {text rest : List Char}
    (h : readMarkupString? quote pos (text ++ rest) = some (stop, rest)) (rest' : List Char) :
    readMarkupString? quote pos (text ++ rest') = some (stop, rest') := by
  induction text generalizing pos with
  | nil => exact absurd (length_lt_of_readMarkupString? h) (Nat.lt_irrefl _)
  | cons c text ih =>
      simp only [List.cons_append, readMarkupString?] at h ⊢
      split at h
      · rw [if_pos ‹_›]
        simpa using h
      · rw [if_neg ‹_›]
        exact ih h

theorem readMarkupName_append_lineEnd (pos : Nat) (cs rest : List Char) :
    readMarkupName pos (cs ++ '\n' :: rest)
      = ((readMarkupName pos cs).1, (readMarkupName pos cs).2 ++ '\n' :: rest) := by
  induction cs generalizing pos with
  | nil =>
      have hpart : (isNamePart '\n' || ('\n' : Char) = '-') = false := by decide
      simp only [List.nil_append, readMarkupName, hpart, Bool.false_eq_true, if_false]
  | cons c cs ih =>
      rw [List.cons_append, readMarkupName, readMarkupName]
      split
      · exact ih _
      · rfl

theorem length_le_readMarkupText (pos : Nat) (cs : List Char) :
    (readMarkupText pos cs).2.length ≤ cs.length := by
  obtain ⟨mid, hmid, -⟩ := advances_readMarkupText pos cs
  have hlength := congrArg List.length hmid
  rw [List.length_append] at hlength
  omega

/-- Markup text ends in front of a tag or a substitution, or with the text. -/
theorem readMarkupText_append {pos stop : Nat} {text rest rest' : List Char}
    (h : readMarkupText pos (text ++ rest) = (stop, rest)) (hhead : rest'.head? = rest.head?) :
    readMarkupText pos (text ++ rest') = (stop, rest') := by
  have hpassed : ∀ {c : Char} {pos : Nat} {cs : List Char}, rest = c :: cs →
      readMarkupText pos cs ≠ (stop, rest) := by
    rintro c pos cs rfl heq
    have hle := length_le_readMarkupText pos cs
    rw [heq] at hle
    exact Nat.not_succ_le_self _ hle
  induction text generalizing pos with
  | nil =>
      rw [List.nil_append] at h ⊢
      cases rest with
      | nil =>
          obtain rfl := List.head?_eq_none_iff.mp hhead
          exact h
      | cons c cs =>
          obtain ⟨ds, rfl⟩ := List.head?_eq_some_iff.mp hhead
          rw [readMarkupText] at h ⊢
          split at h
          · rw [if_pos ‹_›]
            rw [(Prod.mk.inj h).1]
          · exact absurd h (hpassed rfl)
  | cons c text ih =>
      rw [List.cons_append, readMarkupText] at h ⊢
      split at h
      · have hlength := congrArg (fun r => r.2.length) h
        simp only [List.length_cons, List.length_append] at hlength
        omega
      · rw [if_neg ‹_›]
        exact ih h

/-! ## Reading on -/

theorem SameLine.head?_eq {cs ds : List Char} (h : SameLine cs ds) : ds.head? = cs.head? := by
  cases h with
  | refl => rfl
  | lineEnd line cs ds => cases line <;> rfl

theorem readToken_lineEnd (pos : Nat) (cs : List Char) :
    (readToken pos ('\n' :: cs)).1.isProper = false := rfl

/-- A token that ends on the line. -/
theorem readToken_of_lineEnd {pos stop : Nat} {kind : TokenKind} {cs ahead more : List Char}
    (hkind : kind.isProper = true)
    (h : readToken pos (cs ++ '\n' :: more) = (kind, stop, ahead ++ '\n' :: more))
    (rest : List Char) : readToken pos (cs ++ '\n' :: rest) = (kind, stop, ahead ++ '\n' :: rest) := by
  have hne : cs ≠ [] := by
    rintro rfl
    have hproper := readToken_lineEnd pos more
    rw [show readToken pos ('\n' :: more) = _ from h, hkind] at hproper
    cases hproper
  have hstring : ∀ quote ds, cs = quote :: ds → quote = '"' ∨ quote = '\'' →
      ∃ units, readString quote 0 (pos + 1) [] ds = .ok (units, stop, ahead) ∧
        ∀ rest, readString quote 0 (pos + 1) [] (ds ++ '\n' :: rest)
          = .ok (units, stop, ahead ++ '\n' :: rest) := by
    rintro quote ds rfl hquote
    have hother : quote ≠ '\n' := by rcases hquote with rfl | rfl <;> decide
    rw [List.cons_append, readToken_string hquote] at h
    split at h
    · rename_i units _ _ hread
      simp only [Prod.mk.injEq] at h
      obtain ⟨-, rfl, rfl⟩ := h
      exact ⟨units, readString_of_lineEnd hother hread⟩
    · simp only [Prod.mk.injEq] at h
      rw [← h.1] at hkind
      cases hkind
  have hread : ∀ rest, readToken pos (cs ++ '\n' :: rest)
      = ((readToken pos cs).1, (readToken pos cs).2.1, (readToken pos cs).2.2 ++ '\n' :: rest) := by
    refine fun rest => readToken_append_of_string hne pos rest fun quote ds hcs hquote => ?_
    obtain ⟨units, hds, hrest⟩ := hstring quote ds hcs hquote
    rw [hds, hrest]
    rfl
  rw [hread, Prod.mk.injEq, Prod.mk.injEq, List.append_left_inj] at h
  rw [hread, h.1, h.2.1, h.2.2]

/-- A lexeme is the same whatever stands behind the line on which it ends. -/
theorem Takes.of_sameLine {reading : Reading} {text rest rest' : List Char}
    (h : Takes reading text rest) (hsame : SameLine rest rest') : Takes reading text rest' := by
  have hhead := hsame.head?_eq
  cases hsame with
  | refl => exact h
  | lineEnd line cs ds =>
      cases h with
      | token hkind h =>
          rw [← List.append_assoc] at h
          have hread := readToken_of_lineEnd hkind h ds
          rw [List.append_assoc] at hread
          exact .token hkind hread
      | @operator text _ h =>
          have hno : ∀ t ∈ greaterOperators, '\n' ∉ t.toList := by decide
          rw [← List.append_assoc, firstMatch?_append hno] at h
          refine .operator ?_
          rwa [← List.append_assoc, firstMatch?_append hno]
      | regex h =>
          rw [← List.append_assoc] at h
          have hread := readRegex?_append (readRegex?_of_lineEnd h) ds
          rw [List.append_assoc] at hread
          exact .regex hread
      | template hopen h =>
          exact .template hopen (readTemplateText?_append (readTemplateText?_of_append h) _)
      | @markupName text _ pos stop h =>
          rw [← List.append_assoc, readMarkupName_append_lineEnd, Prod.mk.injEq,
            List.append_left_inj] at h
          have hread := readMarkupName_append_lineEnd pos (text ++ line) ds
          rw [h.1, h.2, List.append_assoc] at hread
          exact .markupName hread
      | markupString hquote h => exact .markupString hquote (readMarkupString?_append h _)
      | markupText h => exact .markupText (readMarkupText_append h hhead)

end Recompose.Script
