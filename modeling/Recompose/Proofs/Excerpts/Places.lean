import Recompose.Proofs.Excerpts.Offsets
import Recompose.Proofs.Script.LineEnds
import Recompose.Proofs.Script.Openings

/-!
# Excerpts of a text

A text that stands in another one, on lines of its own, is an `Excerpt` of it. The readers
get from the whole text what they get from the excerpt alone, only further on; behind its
last token they get the first token of the next line. Nothing of the excerpt goes on there
if no comment or string of it does, and that token goes on with nothing if it is one with
which a statement begins.
-/

namespace Recompose.Script

/-! ## Places -/

/-- The places at which tokens are read from a content: behind each token and the other
lexemes that the parser reads, whatever it takes a slash or brace for. -/
inductive Place (content : List Char) : Nat → List Char → Prop where
  | start : Place content 0 content
  | next {n : Nat} {ahead : List Char} (h : Place content n ahead) :
      Place content (Cursor.start n ahead).token.span.stop (Cursor.start n ahead).after
  | operator {n : Nat} {ahead : List Char} {text : String} (h : Place content n ahead)
      (hkind : (Cursor.start n ahead).token.kind = .punct ">")
      (htext : firstMatch? greaterOperators (Cursor.start n ahead).here = some text) :
      Place content ((Cursor.start n ahead).token.span.start + text.length)
        ((Cursor.start n ahead).here.drop text.length)
  | regex {n stop : Nat} {ahead rest : List Char} (h : Place content n ahead)
      (hkind : (Cursor.start n ahead).token.kind.isAnyPunct ["/", "/="] = true)
      (hread : readRegex? false false ((Cursor.start n ahead).token.span.start + 1)
        ((Cursor.start n ahead).here.drop 1) = some (stop, rest)) : Place content stop rest
  | template {n stop : Nat} {ahead rest : List Char} {ended : Bool} (h : Place content n ahead)
      (hkind : (Cursor.start n ahead).token.kind.isAnyPunct ["`", "\x7d"] = true)
      (hread : readTemplateText? false (Cursor.start n ahead).token.span.stop
        (Cursor.start n ahead).after = some (ended, stop, rest)) : Place content stop rest

/-- No token or gap of a content goes on behind the line on which the content ends, and no
token is the word that only generators know. -/
structure Contained (content : List Char) : Prop where
  endsLine : ∀ n ahead, Place content n ahead → Cursor.EndsLine n ahead
  notYield : ∀ n ahead, Place content n ahead →
    (Cursor.start n ahead).token.kind ≠ .word "yield" false

/-- Whether a token that begins a line leaves the statement in front of it as it is, and
can begin one. -/
def TokenKind.beginsAnew : TokenKind → Bool
  | .punct text => ["\x7b", "!", "~", "++", "--"].contains text
  | .word name false => !(["in", "instanceof", "else", "catch", "finally", "extends", "case",
      "default", "yield"].contains name)
  | _ => true

/-- A content that stands in a text, from an offset on, with more text on new lines behind
it. -/
structure Excerpt where
  content : List Char
  offset : Nat
  behind : List Char
  contained : Contained content
  newLine : behind = [] ∨ ∃ rest, behind = '\n' :: rest
  beginsAnew : (Cursor.start 0 behind).token.kind.beginsAnew = true

theorem TokenKind.goesOn_of_beginsAnew {kind : TokenKind} (h : kind.beginsAnew = true) :
    kind.goesOn = false := by
  cases kind with
  | punct text =>
      have hmem := List.contains_iff_mem.mp h
      simp only [List.mem_cons, List.not_mem_nil, or_false] at hmem
      rcases hmem with rfl | rfl | rfl | rfl | rfl <;> decide
  | word name escaped =>
      cases escaped with
      | true => rfl
      | false =>
          refine Bool.or_eq_false_iff.mpr ⟨?_, ?_⟩ <;>
            · rw [beq_eq_false_iff_ne]
              rintro rfl
              exact absurd h (by decide)
  | privateName | number _ | bigint | string _ | done | invalid _ => rfl

@[simp] theorem TokenKind.beginsAnew_shift (kind : TokenKind) (k : Nat) :
    (kind.shift k).beginsAnew = kind.beginsAnew := by
  cases kind <;> rfl

theorem TokenKind.ne_done_of_isAnyPunct {kind : TokenKind} {texts : List String}
    (h : kind.isAnyPunct texts = true) : kind ≠ .done := by
  rintro rfl
  cases h

theorem TokenKind.ne_done_of_punct {kind : TokenKind} {text : String} (h : kind = .punct text) :
    kind ≠ .done := by
  rw [h]
  exact nofun

theorem TokenKind.ne_done_of_word {kind : TokenKind} {name : String} {escaped : Bool}
    (h : kind = .word name escaped) : kind ≠ .done := by
  rw [h]
  exact nofun

theorem readToken_ne_done (pos : Nat) (c : Char) (cs : List Char) :
    (readToken pos (c :: cs)).1 ≠ .done := by
  unfold readToken
  dsimp only
  split
  · split <;> exact nofun
  split
  · split <;> exact nofun
  split
  · split
    · exact nofun
    · exact readNumber_ne rfl pos (c :: cs)
  split
  · exact nofun
  · split <;> exact nofun

/-- Punctuation takes up its own text. -/
theorem readToken_punct {pos : Nat} {cs : List Char} {text : String}
    (h : (readToken pos cs).1 = .punct text) :
    (readToken pos cs).2 = (pos + text.length, cs.drop text.length) := by
  cases cs with
  | nil => cases h
  | cons c cs =>
      unfold readToken at h ⊢
      dsimp only at h ⊢
      split at h
      · split at h <;> cases h
      rename_i hname
      rw [if_neg hname]
      split at h
      · split at h <;> cases h
      rename_i hquote
      rw [if_neg hquote]
      split at h
      · split at h
        · cases h
        · exact absurd h (readNumber_ne rfl pos (c :: cs))
      rename_i hnumber
      rw [if_neg hnumber]
      split at h
      · cases h
      rename_i hhash
      rw [if_neg hhash]
      split at h
      · cases h
        rfl
      · cases h

theorem Cursor.start_punct {n : Nat} {ahead : List Char} {text : String}
    (h : (start n ahead).token.kind = .punct text) :
    text.toList <+: (start n ahead).here ∧
      (start n ahead).token.span.stop = (start n ahead).token.span.start + text.length ∧
      (start n ahead).after = (start n ahead).here.drop text.length := by
  unfold start at h ⊢
  generalize skipGap .blank n false ahead = gap at h ⊢
  obtain ⟨pos, newline, here⟩ := gap
  obtain ⟨⟨hstands, -⟩, -⟩ := (tokenAt_readToken pos here).stands text h
  exact ⟨hstands, Prod.mk.inj (readToken_punct h)⟩

theorem Cursor.here_start_eq_nil_iff {n : Nat} {ahead : List Char} :
    (start n ahead).here = [] ↔ (start n ahead).token.kind = .done := by
  unfold start
  generalize skipGap .blank n false ahead = gap
  obtain ⟨pos, newline, here⟩ := gap
  cases here with
  | nil => exact iff_of_true rfl rfl
  | cons c cs => exact iff_of_false (List.cons_ne_nil _ _) (readToken_ne_done pos c cs)

/-- A cursor on a token that begins a line, with which a statement of its own begins, or at
the end of the text. -/
structure Cursor.Resumes (c : Cursor) : Prop where
  beginsAnew : c.token.kind.beginsAnew = true
  newLine : c.token.afterNewline = true ∨ c.token.kind = .done

theorem Cursor.Resumes.ends {c : Cursor} (h : c.Resumes) : c.Ends where
  goesOn := TokenKind.goesOn_of_beginsAnew h.beginsAnew
  inLine := h.newLine.imp_right fun hdone => by rw [hdone]; rfl

namespace Excerpt

variable {e : Excerpt} {c c' : Cursor}

/-- Two cursors at the same place, one in the excerpt alone and one in the whole text. -/
def At (e : Excerpt) (c c' : Cursor) : Prop :=
  ∃ n ahead, Place e.content n ahead ∧ c = .start n ahead ∧
    c' = .start (n + e.offset) (ahead ++ e.behind)

namespace At

theorem place {n : Nat} {ahead : List Char} (h : Place e.content n ahead) :
    e.At (.start n ahead) (.start (n + e.offset) (ahead ++ e.behind)) := ⟨n, ahead, h, rfl, rfl⟩

theorem notYield (h : e.At c c') : c.token.kind ≠ .word "yield" false := by
  obtain ⟨n, ahead, hplace, rfl, -⟩ := h
  exact e.contained.notYield n ahead hplace

theorem prevStop (h : e.At c c') : c'.prevStop = c.prevStop + e.offset := by
  obtain ⟨n, ahead, -, rfl, rfl⟩ := h
  rfl

/-- In front of a token of the excerpt. -/
theorem eq_before (h : e.At c c') (hkind : c.token.kind ≠ .done) :
    c' = (c.shift e.offset).before e.behind := by
  obtain ⟨n, ahead, hplace, rfl, rfl⟩ := h
  rcases e.newLine with hnil | ⟨rest, hrest⟩
  · rw [hnil, List.append_nil, Cursor.start_add, Cursor.before, List.append_nil, List.append_nil]
  · have hhere := mt Cursor.here_start_eq_nil_iff.mp hkind
    rw [hrest, Cursor.start_add, Cursor.start_append_of_here (e.contained.endsLine _ _ hplace) hhere]
    rfl

theorem kind (h : e.At c c') (hkind : c.token.kind ≠ .done) :
    c'.token.kind = c.token.kind.shift e.offset := by
  rw [h.eq_before hkind]
  rfl

theorem span (h : e.At c c') (hkind : c.token.kind ≠ .done) :
    c'.token.span = c.token.span.shift e.offset := by
  rw [h.eq_before hkind]
  rfl

theorem afterNewline (h : e.At c c') (hkind : c.token.kind ≠ .done) :
    c'.token.afterNewline = c.token.afterNewline := by
  rw [h.eq_before hkind]
  rfl

theorem here (h : e.At c c') (hkind : c.token.kind ≠ .done) : c'.here = c.here ++ e.behind := by
  rw [h.eq_before hkind]
  rfl

theorem after (h : e.At c c') (hkind : c.token.kind ≠ .done) : c'.after = c.after ++ e.behind := by
  rw [h.eq_before hkind]
  rfl

theorem next (h : e.At c c') (hkind : c.token.kind ≠ .done) : e.At c.next c'.next := by
  have hnext : c'.next = .start (c.token.span.stop + e.offset) (c.after ++ e.behind) := by
    rw [h.eq_before hkind]
    rfl
  obtain ⟨n, ahead, hplace, rfl, -⟩ := h
  exact ⟨_, _, hplace.next, rfl, hnext⟩

/-- Behind the last token of the excerpt. -/
theorem resumes (h : e.At c c') (hkind : c.token.kind = .done) : c'.Resumes := by
  obtain ⟨n, ahead, hplace, rfl, rfl⟩ := h
  rcases e.newLine with hnil | ⟨rest, hrest⟩
  · rw [hnil, List.append_nil, Cursor.start_add]
    have hshift : ((Cursor.start n ahead).shift e.offset).token.kind = .done := by
      show TokenKind.shift _ _ = _
      rw [hkind]
      rfl
    exact ⟨by rw [hshift]; rfl, .inr hshift⟩
  · have hhere := Cursor.here_start_eq_nil_iff.mpr hkind
    have hbegins := e.beginsAnew
    rw [hrest, Cursor.start_lineEnd] at hbegins
    rw [hrest, Cursor.start_add, Cursor.start_append_of_nil (e.contained.endsLine _ _ hplace) hhere,
      Nat.add_comm, Cursor.start_add]
    refine ⟨?_, .inl rfl⟩
    show ((TokenKind.shift _ _).shift _).beginsAnew = true
    rwa [TokenKind.beginsAnew_shift, TokenKind.beginsAnew_shift]

/-- Behind the last token of the excerpt, only tokens with which statements begin are told
from the end of a script. -/
theorem beq_kind (h : e.At c c') (kind : TokenKind) (hvalid : ∀ fault, kind ≠ .invalid fault)
    (hkind : kind.beginsAnew = false ∨ c.token.kind ≠ .done) :
    (c'.token.kind == kind) = (c.token.kind == kind) := by
  by_cases hdone : c.token.kind = .done
  · have hbegins := hkind.resolve_right fun hne => hne hdone
    have hdiffers : ∀ kind', kind'.beginsAnew = true → (kind' == kind) = false := by
      rintro kind' hbegins'
      rw [beq_eq_false_iff_ne]
      rintro rfl
      exact absurd (hbegins.symm.trans hbegins') nofun
    rw [hdiffers _ (h.resumes hdone).beginsAnew, hdone, hdiffers _ rfl]
  · rw [h.kind hdone]
    cases c.token.kind with
    | invalid fault =>
        have hdiffers : ∀ fault, (TokenKind.invalid fault == kind) = false :=
          fun fault => beq_eq_false_iff_ne.mpr (hvalid fault).symm
        exact (hdiffers _).trans (hdiffers _).symm
    | _ => rfl

theorem beq_punct (h : e.At c c') (text : String)
    (htext : (TokenKind.punct text).beginsAnew = false ∨ c.token.kind ≠ .done) :
    (c'.token.kind == .punct text) = (c.token.kind == .punct text) :=
  h.beq_kind (.punct text) nofun htext

theorem beq_word (h : e.At c c') (name : String)
    (hname : (TokenKind.word name false).beginsAnew = false ∨ c.token.kind ≠ .done) :
    (c'.token.kind == .word name false) = (c.token.kind == .word name false) :=
  h.beq_kind (.word name false) nofun hname

/-- Where the excerpt is over, the text is, too, or a line is. -/
theorem ends (h : e.At c c') :
    (c'.token.kind == .done || c'.token.afterNewline)
      = (c.token.kind == .done || c.token.afterNewline) := by
  by_cases hdone : c.token.kind = .done
  · rw [hdone, beq_self_eq_true, Bool.true_or]
    rcases (h.resumes hdone).newLine with hnew | hdone'
    · rw [hnew, Bool.or_true]
    · rw [hdone', beq_self_eq_true, Bool.true_or]
  · rw [h.kind hdone, h.afterNewline hdone]
    cases c.token.kind <;> rfl

theorem punct_iff (h : e.At c c') {text : String}
    (htext : (TokenKind.punct text).beginsAnew = false ∨ c.token.kind ≠ .done) :
    c'.token.kind = .punct text ↔ c.token.kind = .punct text := by
  rw [← beq_iff_eq, h.beq_punct text htext, beq_iff_eq]

theorem skipOperator (h : e.At c c') {text : String} (hkind : c.token.kind = .punct text) :
    Gives (Rules.skipOperator text) c () c.next := by
  obtain ⟨n, ahead, -, rfl, -⟩ := h
  obtain ⟨-, hstop, hafter⟩ := Cursor.start_punct hkind
  rw [Cursor.next, hstop, hafter]
  rfl

theorem isAnyPunct (h : e.At c c') {texts : List String}
    (htexts : (∀ text ∈ texts, (TokenKind.punct text).beginsAnew = false) ∨ c.token.kind ≠ .done) :
    c'.token.kind.isAnyPunct texts = c.token.kind.isAnyPunct texts := by
  by_cases hdone : c.token.kind = .done
  · rw [hdone, show TokenKind.isAnyPunct texts .done = false from rfl, Bool.eq_false_iff]
    intro hany
    unfold TokenKind.isAnyPunct at hany
    split at hany
    · rename_i text hkind
      have hbegins := (h.resumes hdone).beginsAnew
      have htext := htexts.resolve_right (fun hne => hne hdone) text (List.contains_iff_mem.mp hany)
      rw [hkind, htext] at hbegins
      cases hbegins
    · cases hany
  · rw [h.kind hdone]
    cases c.token.kind <;> rfl

/-- What is asked of a token on the line of the last one has the same answer. -/
theorem inLine (h : e.At c c') {p : TokenKind → Bool}
    (hshift : ∀ kind, p (kind.shift e.offset) = p kind) (hend : p .done = false) :
    (p c'.token.kind && !c'.token.afterNewline) = (p c.token.kind && !c.token.afterNewline) := by
  by_cases hdone : c.token.kind = .done
  · rw [hdone, hend, Bool.false_and]
    rcases (h.resumes hdone).newLine with hnew | hdone'
    · rw [hnew, Bool.not_true, Bool.and_false]
    · rw [hdone', hend, Bool.false_and]
  · rw [h.kind hdone, h.afterNewline hdone, hshift]

theorem word_inLine (h : e.At c c') (name : String) :
    (c'.token.kind == .word name false && !c'.token.afterNewline)
      = (c.token.kind == .word name false && !c.token.afterNewline) :=
  h.inLine (p := (· == .word name false)) (fun kind => by cases kind <;> rfl) rfl

theorem isAnyPunct_inLine (h : e.At c c') (texts : List String) :
    (c'.token.kind.isAnyPunct texts && !c'.token.afterNewline)
      = (c.token.kind.isAnyPunct texts && !c.token.afterNewline) :=
  h.inLine (p := TokenKind.isAnyPunct texts) (fun kind => by cases kind <;> rfl) rfl

/-! ### Other readers -/

theorem here_ne_nil (h : e.At c c') (hkind : c.token.kind ≠ .done) : c.here ≠ [] := by
  obtain ⟨n, ahead, -, rfl, -⟩ := h
  exact mt Cursor.here_start_eq_nil_iff.mp hkind

theorem regex {stop : Nat} {rest : List Char} (h : e.At c c')
    (hkind : c.token.kind.isAnyPunct ["/", "/="] = true)
    (hread : readRegex? false false (c.token.span.start + 1) (c.here.drop 1) = some (stop, rest)) :
    readRegex? false false (c'.token.span.start + 1) (c'.here.drop 1)
        = some (stop + e.offset, rest ++ e.behind) ∧
      e.At (.start stop rest) (.start (stop + e.offset) (rest ++ e.behind)) := by
  constructor
  · have hdone := TokenKind.ne_done_of_isAnyPunct hkind
    have hpos : 1 ≤ c.here.length := List.length_pos_iff.mpr (h.here_ne_nil hdone)
    rw [h.span hdone, h.here hdone, List.drop_append_of_le_length hpos, Span.shift,
      Nat.add_right_comm, readRegex?_add]
    rcases e.newLine with hnil | ⟨more, hmore⟩
    · rw [hnil, List.append_nil, List.append_nil, hread]
      rfl
    · rw [hmore, readRegex?_append hread]
      rfl
  · obtain ⟨n, ahead, hplace, rfl, -⟩ := h
    exact place (hplace.regex hkind hread)

/-- The text of a template, behind its opening quote or a substitution. -/
theorem template {stop : Nat} {rest : List Char} {ended : Bool} (h : e.At c c')
    (hkind : c.token.kind.isAnyPunct ["`", "\x7d"] = true)
    (hread : readTemplateText? false c.token.span.stop c.after = some (ended, stop, rest)) :
    readTemplateText? false c'.token.span.stop c'.after
        = some (ended, stop + e.offset, rest ++ e.behind) ∧
      e.At (.start stop rest) (.start (stop + e.offset) (rest ++ e.behind)) := by
  constructor
  · have hdone := TokenKind.ne_done_of_isAnyPunct hkind
    rw [h.span hdone, h.after hdone, Span.shift, readTemplateText?_add, readTemplateText?_append hread]
    rfl
  · obtain ⟨n, ahead, hplace, rfl, -⟩ := h
    exact place (hplace.template hkind hread)

/-- Behind an operator. -/
theorem drop (h : e.At c c') (hkind : c.token.kind ≠ .done) {text : String}
    (htext : text.toList <+: c.here)
    (hplace : Place e.content (c.token.span.start + text.length) (c.here.drop text.length)) :
    e.At (.start (c.token.span.start + text.length) (c.here.drop text.length))
      (.start (c'.token.span.start + text.length) (c'.here.drop text.length)) := by
  have hle : text.length ≤ c.here.length := by
    rw [← String.length_toList]
    exact htext.length_le
  rw [h.span hkind, h.here hkind, List.drop_append_of_le_length hle, Span.shift, Nat.add_right_comm]
  exact place hplace

theorem operatorHere (h : e.At c c') (hkind : c.token.kind ≠ .done) {op? : Option String}
    {d : Cursor} (hrun : Gives Rules.operatorHere c op? d) :
    d = c ∧ Gives Rules.operatorHere c' op? c' ∧
      ∀ op ∈ op?, e.At (.start (c.token.span.start + op.length) (c.here.drop op.length))
        (.start (c'.token.span.start + op.length) (c'.here.drop op.length)) := by
  have hkind' := h.kind hkind
  have hdrop := fun text => @At.drop e c c' h hkind text
  have hlines : firstMatch? greaterOperators c'.here = firstMatch? greaterOperators c.here := by
    rw [h.here hkind]
    rcases e.newLine with hnil | ⟨more, hmore⟩
    · rw [hnil, List.append_nil]
    · rw [hmore, firstMatch?_append (by decide)]
  obtain ⟨n, ahead, hplace, hc, -⟩ := h
  unfold Rules.operatorHere at hrun ⊢
  simp only [Gives.get_bind] at hrun ⊢
  rw [hkind']
  split at hrun
  · rename_i hgreater
    rw [hgreater]
    obtain ⟨rfl, rfl⟩ := (Gives.pure _).unique hrun
    refine ⟨rfl, hlines ▸ .pure _, fun op hop => hdrop op ?_ ?_⟩
    · exact (stands_of_firstMatch? isAscii_greaterOperators hop).1
    · subst hc
      exact hplace.operator hgreater hop
  · rename_i text hne htext
    rw [htext]
    obtain ⟨rfl, rfl⟩ := (Gives.pure _).unique hrun
    refine ⟨rfl, ?_, ?_⟩
    · split
      · rename_i hgreater
        exact absurd (TokenKind.punct.inj hgreater) hne
      · rename_i hsame
        cases hsame
        exact .pure _
      · rename_i hpunct
        exact absurd rfl (hpunct text)
    · rintro _ ⟨⟩
      subst hc
      obtain ⟨hstands, hstop, hafter⟩ := Cursor.start_punct htext
      refine hdrop text hstands ?_
      rw [← hstop, ← hafter]
      exact hplace.next
  · rename_i hpunct
    obtain ⟨rfl, rfl⟩ := (Gives.pure _).unique hrun
    refine ⟨rfl, ?_, nofun⟩
    cases hk : c.token.kind with
    | punct text => exact absurd hk (hpunct text)
    | _ => exact .pure _

end At

end Excerpt

end Recompose.Script
