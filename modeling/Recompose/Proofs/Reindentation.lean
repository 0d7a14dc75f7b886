import Recompose.Proofs.Lines
import Recompose.Proofs.MemberNodes
import Recompose.Proofs.PluginFaults
import Recompose.Proofs.Script.Lexemes

/-!
# Shifted code keeps its lexemes

Code that is taken over is shifted line by line, as text. `Shifted` says what that does:
the texts are the same up to the number of spaces at the beginnings of lines. Between
lexemes these are gaps, so the lexemes of a text stay the same, character by character,
wherever no line that is shifted begins inside of a lexeme (`ReadsAs.of_shifted`,
`codeAt_keepsLexemes`). A template or string that goes over a line end is such a lexeme,
and its value does change (`codeAt_changesTemplate`).
-/

namespace Recompose

/-! ## Lines that are shifted -/

def firstLine (cs : List Char) : List Char := cs.takeWhile (· ≠ '\n')

theorem firstLine_append_laterLines {line : List Char} (hline : '\n' ∉ line)
    (lines : List (List Char)) : firstLine (line ++ laterLines lines) = line := by
  have hchars : ∀ c ∈ line, decide (c ≠ '\n') = true := fun c hc =>
    decide_eq_true fun heq => hline (heq ▸ hc)
  have hlater : (laterLines lines).takeWhile (· ≠ '\n') = [] := by
    cases lines with
    | nil => rfl
    | cons next lines => simp [laterLines]
  rw [firstLine, List.takeWhile_append_of_pos hchars, hlater, List.append_nil]

/-- The second text is the first one with other numbers of spaces at the beginnings of
its lines. A line behind the first one has the number that it had where `shift` leaves
it as it is. -/
inductive Shifted (shift : List Char → List Char) : List Char → List Char → Prop where
  | nil : Shifted shift [] []
  | char {c : Char} {cs ds : List Char} (hc : c ≠ '\n') (h : Shifted shift cs ds) :
      Shifted shift (c :: cs) (c :: ds)
  | line (a b : Nat) {cs ds : List Char}
      (hkept : shift (firstLine (spaces a ++ cs)) = firstLine (spaces a ++ cs) → a = b)
      (h : Shifted shift cs ds) :
      Shifted shift ('\n' :: (spaces a ++ cs)) ('\n' :: (spaces b ++ ds))

namespace Shifted

variable {shift : List Char → List Char} {cs ds : List Char}

theorem append_left {line : List Char} (hline : '\n' ∉ line) (h : Shifted shift cs ds) :
    Shifted shift (line ++ cs) (line ++ ds) := by
  induction line with
  | nil => exact h
  | cons c line ih =>
      rw [List.mem_cons, not_or] at hline
      exact .char (Ne.symm hline.1) (ih hline.2)

theorem append_spaces (n : Nat) (h : Shifted shift cs ds) :
    Shifted shift (spaces n ++ cs) (spaces n ++ ds) :=
  h.append_left fun hmem => absurd (List.eq_of_mem_replicate hmem) (by decide)

theorem eq_nil (h : Shifted shift [] ds) : ds = [] := by
  cases h
  rfl

theorem of_char {c : Char} (hc : c ≠ '\n') (h : Shifted shift (c :: cs) ds) :
    ∃ ds', ds = c :: ds' ∧ Shifted shift cs ds' := by
  cases h with
  | char _ h => exact ⟨_, rfl, h⟩
  | line => exact absurd rfl hc

/-- The next line, where it keeps its indentation. -/
theorem of_lineEnd (h : Shifted shift ('\n' :: cs) ds)
    (hkeeps : shift (firstLine cs) = firstLine cs) : ∃ ds', ds = '\n' :: ds' ∧ Shifted shift cs ds' := by
  cases h with
  | char hc _ => exact absurd rfl hc
  | line a b hkept h => exact ⟨_, rfl, hkept hkeeps ▸ h.append_spaces a⟩

theorem sameLine (h : Shifted shift cs ds) : Script.SameLine cs ds := by
  induction h with
  | nil => exact .refl []
  | @char c cs ds _ _ ih =>
      cases ih with
      | refl => exact .refl _
      | lineEnd line cs ds => exact .lineEnd (c :: line) cs ds
  | line => exact .lineEnd [] _ _

end Shifted

/-! ## Gaps -/

namespace Script

theorem skipGap_spaces {gap : Gap} (hgap : gap = .blank ∨ gap = .blockComment) (pos : Nat)
    (newline : Bool) (n : Nat) (cs : List Char) :
    skipGap gap pos newline (spaces n ++ cs) = skipGap gap (pos + n) newline cs := by
  have hline : isLineEnd ' ' = false := by decide
  have hblank : isGapChar ' ' = true := by decide
  induction n generalizing pos with
  | zero => rfl
  | succ n ih =>
      rw [spaces_succ_append, Nat.add_comm n, ← Nat.add_assoc, ← ih (pos + 1)]
      rcases hgap with rfl | rfl <;> simp [skipGap, hline, hblank] <;> rfl

end Script

/-- The gap at the front of a text is shifted with it. -/
theorem Shifted.skipGap {shift : List Char → List Char} {cs ds : List Char}
    (h : Shifted shift cs ds) (gap : Script.Gap) (pos pos' : Nat) (newline : Bool) :
    (Script.skipGap gap pos' newline ds).2.1 = (Script.skipGap gap pos newline cs).2.1 ∧
      Shifted shift (Script.skipGap gap pos newline cs).2.2
        (Script.skipGap gap pos' newline ds).2.2 := by
  induction h generalizing gap pos pos' newline with
  | nil => exact ⟨rfl, .nil⟩
  | @char c cs ds hc h ih =>
      have hhead := h.sameLine.head?_eq
      cases gap with
      | blank =>
          simp only [Script.skipGap, hhead]
          repeat' split
          all_goals first | exact ih .. | exact ⟨rfl, .char hc h⟩
      | lineComment =>
          simp only [Script.skipGap]
          split <;> exact ih ..
      | blockOpen => exact ih ..
      | blockComment =>
          simp only [Script.skipGap, hhead]
          split <;> exact ih ..
      | blockClose => exact ih ..
  | line a b _ h ih =>
      have hline : Script.isLineEnd '\n' = true := by decide
      cases gap <;> simp [Script.skipGap, hline, Script.skipGap_spaces] <;> exact ih ..

/-! ## Lexemes -/

/-- No line that is shifted begins in the text, with `rest` behind it. -/
def KeepsLines (shift : List Char → List Char) (text rest : List Char) : Prop :=
  ∀ before after, text = before ++ '\n' :: after →
    shift (firstLine (after ++ rest)) = firstLine (after ++ rest)

theorem KeepsLines.tail {shift : List Char → List Char} {c : Char} {text rest : List Char}
    (h : KeepsLines shift (c :: text) rest) : KeepsLines shift text rest :=
  fun before after heq => h (c :: before) after (congrArg (c :: ·) heq)

theorem KeepsLines.of_not_mem {shift : List Char → List Char} {text rest : List Char}
    (h : '\n' ∉ text) : KeepsLines shift text rest :=
  fun before _ heq => absurd (heq ▸ List.mem_append_right before (List.mem_cons_self ..)) h

theorem Shifted.of_append {shift : List Char → List Char} {text rest ds : List Char}
    (h : Shifted shift (text ++ rest) ds) (hkeeps : KeepsLines shift text rest) :
    ∃ rest', ds = text ++ rest' ∧ Shifted shift rest rest' := by
  induction text generalizing ds with
  | nil => exact ⟨ds, rfl, h⟩
  | cons c text ih =>
      have hnext : ∃ ds', ds = c :: ds' ∧ Shifted shift (text ++ rest) ds' := by
        by_cases hc : c = '\n'
        · subst hc
          exact h.of_lineEnd (hkeeps [] text rfl)
        · exact h.of_char hc
      obtain ⟨ds', rfl, hds'⟩ := hnext
      obtain ⟨rest', rfl, hrest⟩ := ih hds' hkeeps.tail
      exact ⟨rest', rfl, hrest⟩

namespace Script

/-- Shifted text has the lexemes of the text, where none of them has a shifted line in it. -/
theorem ReadsAs.of_shifted {shift : List Char → List Char} {cs ds : List Char}
    {lexemes : List PlacedLexeme} (hreads : ReadsAs cs lexemes) (h : Shifted shift cs ds)
    (hkeeps : ∀ l ∈ lexemes, KeepsLines shift l.text l.behind) :
    ∃ others, ReadsAs ds others ∧
      others.map (·.toLexeme) = lexemes.map (·.toLexeme) := by
  induction hreads generalizing ds with
  | @done cs pos hdone =>
      have hgap := (h.skipGap .blank pos pos false).2
      rw [hdone] at hgap
      exact ⟨[], .done hgap.eq_nil, rfl⟩
  | @lexeme cs text rest reading pos start newline lexemes hreading hgap htakes _ ih =>
      obtain ⟨hfirst, hothers⟩ := List.forall_mem_cons.mp hkeeps
      obtain ⟨hnewline, hrest⟩ := h.skipGap .blank pos pos false
      rw [hgap] at hnewline hrest
      obtain ⟨rest', hds, hrest⟩ := hrest.of_append hfirst
      obtain ⟨others, hreads, heq⟩ := ih hrest hothers
      refine ⟨⟨⟨reading, text, newline⟩, rest'⟩ :: others, ?_, congrArg (_ :: ·) heq⟩
      exact .lexeme hreading (Prod.ext rfl (Prod.ext hnewline hds))
        (htakes.of_sameLine hrest.sameLine) hreads
  | @markupText text rest lexemes htakes _ ih =>
      obtain ⟨hfirst, hothers⟩ := List.forall_mem_cons.mp hkeeps
      obtain ⟨rest', rfl, hrest⟩ := h.of_append hfirst
      obtain ⟨others, hreads, heq⟩ := ih hrest hothers
      exact ⟨⟨⟨.markupText, text, false⟩, rest'⟩ :: others,
        .markupText (htakes.of_sameLine hrest.sameLine) hreads, congrArg (_ :: ·) heq⟩

end Script

/-! ## Code that is taken over -/

/-- What becomes of a line of a text that is dedented and then indented. -/
def lineShift (code : List Char) (n : Nat) (line : List Char) : List Char :=
  indentLine n (dedentLine (commonIndent (splitLines code).tail) line)

theorem lineShift_spaces (code : List Char) (n : Nat) (line : List Char) :
    ∃ a b ds, line = spaces a ++ ds ∧ lineShift code n line = spaces b ++ ds := by
  have hindent : ∀ ds, ∃ b, indentLine n ds = spaces b ++ ds := fun ds => by
    rw [indentLine]
    split
    · exact ⟨0, rfl⟩
    · exact ⟨n, rfl⟩
  rw [lineShift, dedentLine]
  split
  · obtain ⟨b, hb⟩ := hindent (line.drop (commonIndent (splitLines code).tail))
    exact ⟨_, b, _, (spaces_append_drop ‹_›).symm, hb⟩
  · obtain ⟨b, hb⟩ := hindent line
    exact ⟨0, b, line, rfl, hb⟩

theorem shifted_laterLines {shift : List Char → List Char}
    (hshift : ∀ line, ∃ a b ds, line = spaces a ++ ds ∧ shift line = spaces b ++ ds)
    {lines : List (List Char)} (h : ∀ line ∈ lines, '\n' ∉ line) :
    Shifted shift (laterLines lines) (laterLines (lines.map shift)) := by
  induction lines with
  | nil => exact .nil
  | cons line lines ih =>
      obtain ⟨hline, hlines⟩ := List.forall_mem_cons.mp h
      obtain ⟨a, b, ds, hfrom, hto⟩ := hshift line
      have hds : '\n' ∉ ds := fun hmem => hline (hfrom ▸ List.mem_append_right _ hmem)
      have hkept : shift (firstLine (spaces a ++ (ds ++ laterLines lines)))
          = firstLine (spaces a ++ (ds ++ laterLines lines)) → a = b := by
        rw [← List.append_assoc, ← hfrom, firstLine_append_laterLines hline, hto]
        intro hsame
        have hlength := congrArg List.length (hsame.trans hfrom)
        simp only [spaces, List.length_append, List.length_replicate] at hlength
        omega
      have hshifted := Shifted.line a b hkept ((ih hlines).append_left hds)
      rw [← List.append_assoc, ← List.append_assoc, ← hfrom, ← hto] at hshifted
      exact hshifted

theorem shifted_indent_dedent (code : List Char) (n : Nat) :
    Shifted (lineShift code n) code (indentChars n (dedentChars code)) := by
  obtain ⟨first, lines, hlines⟩ := List.exists_cons_of_ne_nil (splitLines_ne_nil code)
  have hmem : ∀ line ∈ first :: lines, '\n' ∉ line := fun line hline =>
    not_mem_of_mem_splitLines (hlines ▸ hline)
  obtain ⟨hfirst, hrest⟩ := List.forall_mem_cons.mp hmem
  have hshift : indentLine n ∘ dedentLine (commonIndent lines) = lineShift code n := by
    funext line
    rw [Function.comp_apply, lineShift, hlines, List.tail_cons]
  have hcode : first ++ laterLines lines = code := by
    rw [← joinLines_cons, ← hlines, joinLines_splitLines]
  have hto : indentChars n (dedentChars code) = first ++ laterLines (lines.map (lineShift code n)) := by
    rw [← joinLines_splitLines (indentChars n _),
      splitLines_indentChars (splitLines_dedentChars hlines), List.map_map, hshift, joinLines_cons]
  have hshifted := (shifted_laterLines (lineShift_spaces code n) hrest).append_left hfirst
  rwa [hcode, ← hto] at hshifted

namespace Script

theorem shifted_codeAt (script : Script) (span : Span) (n : Nat) :
    Shifted (lineShift (script.textAt span).toList n) (script.textAt span).toList
      (script.codeAt span n).toList := by
  rw [codeAt, indent, dedent, String.toList_ofList, String.toList_ofList]
  exact shifted_indent_dedent _ n

/-- Code that is taken over keeps its lexemes, character by character, where no line that
is shifted begins inside of one; what changes is how many spaces lines begin with. -/
theorem codeAt_keepsLexemes (script : Script) (span : Span) (n : Nat) {lexemes : List PlacedLexeme}
    (hreads : ReadsAs (script.textAt span).toList lexemes)
    (hkeeps : ∀ l ∈ lexemes,
      KeepsLines (lineShift (script.textAt span).toList n) l.text l.behind) :
    Shifted (lineShift (script.textAt span).toList n) (script.textAt span).toList
        (script.codeAt span n).toList ∧
      ∃ others, ReadsAs (script.codeAt span n).toList others ∧
        others.map (·.toLexeme) = lexemes.map (·.toLexeme) :=
  ⟨shifted_codeAt script span n, hreads.of_shifted (shifted_codeAt script span n) hkeeps⟩

theorem codeAt_keepsLexemes_array :
    let script : Script := ⟨"[\n    `x`,\n  ]", {}, .leaf .expression ⟨0, 14⟩⟩
    script.codeAt ⟨0, 14⟩ 4 = "[\n      `x`,\n    ]" ∧
      ∃ others, ReadsAs (script.codeAt ⟨0, 14⟩ 4).toList others ∧
        others.map (·.text) = ["[".toList, "`x`".toList, ",".toList, "]".toList] := by
  intro script
  have hreads : ReadsAs (script.textAt ⟨0, 14⟩).toList
      [⟨⟨.token (.punct "["), "[".toList, false⟩, "\n    `x`,\n  ]".toList⟩,
        ⟨⟨.template, "`x`".toList, true⟩, ",\n  ]".toList⟩,
        ⟨⟨.token (.punct ","), ",".toList, false⟩, "\n  ]".toList⟩,
        ⟨⟨.token (.punct "]"), "]".toList, true⟩, []⟩] := by
    have htext : (script.textAt ⟨0, 14⟩).toList = "[\n    `x`,\n  ]".toList := by decide +kernel
    rw [htext]
    have hgap := fun cs => show skipGap .blank 0 false cs = _ from rfl
    refine .lexeme nofun (hgap _) (.token rfl (show readToken 0 _ = _ from rfl)) ?_
    refine .lexeme nofun (hgap _) (.template (.inl rfl)
      (show readTemplateText? false 0 _ = some (true, _, _) from rfl)) ?_
    refine .lexeme nofun (hgap _) (.token rfl (show readToken 0 _ = _ from rfl)) ?_
    refine .lexeme nofun (hgap _) (.token rfl (show readToken 0 _ = _ from rfl)) ?_
    exact .done (show (skipGap .blank 0 false _).2.2 = _ from rfl)
  obtain ⟨-, others, hothers, heq⟩ := codeAt_keepsLexemes script ⟨0, 14⟩ 4 hreads
    (by simp only [List.forall_mem_cons]; exact ⟨.of_not_mem (by decide), .of_not_mem (by decide),
      .of_not_mem (by decide), .of_not_mem (by decide), nofun⟩)
  refine ⟨by decide +kernel, others, hothers, ?_⟩
  have htexts := congrArg (List.map (·.text)) heq
  rw [List.map_map, List.map_map] at htexts
  exact htexts

theorem ReadsAs.infix {cs : List Char} {lexemes : List PlacedLexeme} (h : ReadsAs cs lexemes) :
    ∀ l ∈ lexemes, l.text <:+: cs := by
  induction h with
  | done => nofun
  | @lexeme cs text rest reading pos start newline lexemes _ hgap _ _ ih =>
      obtain ⟨gap, hcs, -⟩ := advances_skipGap .blank pos false cs
      rw [hgap] at hcs
      refine List.forall_mem_cons.mpr ⟨⟨gap, rest, by rw [hcs, List.append_assoc]⟩, fun l hl => ?_⟩
      have hrest : rest <:+: cs := ⟨gap ++ text, [], by simp [hcs]⟩
      exact (ih l hl).trans hrest
  | @markupText text rest lexemes _ _ ih =>
      exact List.forall_mem_cons.mpr ⟨(List.prefix_append text rest).isInfix, fun l hl =>
        (ih l hl).trans (List.suffix_append text rest).isInfix⟩

/-- A template over two lines loses what its second line begins with. -/
theorem codeAt_changesTemplate :
    ∃ script, Script.read {} "export default \x7b a: `x\n  y` \x7d" = .ok script ∧
      ∃ p ∈ script.nodes,
        ReadsAs (script.text p.tree).toList [⟨⟨.template, "`x\n  y`".toList, false⟩, []⟩] ∧
        script.code p.tree 0 = "`x\ny`" ∧
        ∀ others, ReadsAs (script.code p.tree 0).toList others →
          others.map (·.text) ≠ ["`x\n  y`".toList] := by
  have hparsed : (Script.read {} "export default \x7b a: `x\n  y` \x7d" >>= fun script =>
      .ok (script.nodes.any fun p => script.text p.tree = "`x\n  y`")) = .ok true := by
    decide +kernel
  obtain ⟨script, hread, hnode⟩ := exists_of_bind_eq_ok hparsed
  obtain ⟨p, hp, htext⟩ := List.any_eq_true.mp (Except.ok.inj hnode)
  have htext := of_decide_eq_true htext
  have hcode : script.code p.tree 0 = "`x\ny`" := by
    rw [code, codeAt, show script.textAt p.tree.span = "`x\n  y`" from htext]
    decide +kernel
  refine ⟨script, hread, p, hp, ?_, hcode, fun others hothers heq => ?_⟩
  · rw [htext]
    exact .lexeme nofun (show skipGap .blank 0 false _ = _ from rfl)
      (.template (.inl rfl) (show readTemplateText? false 0 _ = some (true, _, _) from rfl))
      (.done (show (skipGap .blank 0 false _).2.2 = _ from rfl))
  · obtain ⟨l, rfl, hl⟩ := List.map_eq_singleton_iff.mp heq
    have hinfix := hothers.infix l (List.mem_cons_self ..)
    rw [hl, hcode] at hinfix
    exact absurd hinfix.length_le (by decide)

end Script

end Recompose
