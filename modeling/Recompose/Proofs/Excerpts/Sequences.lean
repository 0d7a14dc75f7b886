import Recompose.Proofs.Excerpts.Beginnings
import Recompose.Proofs.Excerpts.Scripts
import Recompose.Proofs.Script.Parser

/-!
# Statements in sequence

A text that is a list of statements, and what becomes of the list where the text stands in
another one. Each statement takes a token: one that took none would be read again and again,
and the text would not come to its end.
-/

namespace Recompose.Script

open Recompose.Script.Parser (Step)

namespace Rules

/-! ## Statements at the top of a script -/

section

variable {r : Rules} {ctx : Context} {c d : Cursor} {t : Tree}

section

-- The words with which imports and exports begin are reserved, but begin no other statement.
variable {name : String} (hkind : c.token.kind = .word name false)
  (hname : name = "export" ∨ name = "import")
include hkind hname

theorem keywordStatement?_of_moduleWord : Gives (r.keywordStatement? ctx) c none c := by
  refine Gives.kind_bind.mpr ?_
  rw [hkind]
  rcases hname with rfl | rfl <;> exact .pure _

theorem declaration?_of_moduleWord : Gives (r.declaration? ctx) c none c := by
  have hne : ∀ {word}, word ≠ "export" → word ≠ "import" →
      (c.token.kind == .word word false) = false := by
    intro word hexport himport
    refine beq_word_of_ne hkind ?_
    rcases hname with rfl | rfl
    · exact hexport.symm
    · exact himport.symm
  have hfunction : Gives startsAsyncFunction c false c := by
    refine Gives.following_bind.mpr (Gives.atWord_bind.mpr ?_)
    rw [hne (by decide) (by decide), Bool.false_and, Bool.false_and]
    exact .pure _
  refine Gives.position_bind.mpr (Gives.atWord_bind.mpr ?_)
  rw [hne (by decide) (by decide), if_neg Bool.false_ne_true]
  refine Gives.atWord_bind.mpr ?_
  rw [hne (by decide) (by decide), if_neg Bool.false_ne_true]
  exact hfunction.bind (.pure _)

theorem labels_of_moduleWord : Gives labels c false c := by
  refine Gives.kind_bind.mpr ?_
  rw [hkind]
  rcases hname with rfl | rfl <;> exact .bind (Gives.followedByPunct _) (.pure _)

/-- A statement that begins with such a word is an expression. -/
theorem assignment_of_anyStatement (hplain : r.dialect = {}) (h : Gives (r.anyStatement ctx) c t d) :
    ∃ ctx' u m, Gives (r.assignment ctx') c u m := by
  have hpunct : ∀ text, (c.token.kind == .punct text) = false := by
    intro text
    rw [hkind]
    rfl
  replace h := Gives.atPunct_bind.mp (Gives.position_bind.mp h)
  rw [hpunct, if_neg Bool.false_ne_true] at h
  replace h := (Gives.eat_of_ne (hpunct ";")).of_gives_bind h
  replace h := (keywordStatement?_of_moduleWord hkind hname).of_gives_bind h
  replace h := (typeDeclaration?_of_plain hplain).of_gives_bind h
  replace h := (declaration?_of_moduleWord hkind hname).of_gives_bind h
  rw [hplain] at h
  have hmode : name ∉ ["const", "var", "let"] := by rcases hname with rfl | rfl <;> decide
  replace h := (bindingMode?_word hkind hmode).of_gives_bind h
  replace h := (labels_of_moduleWord hkind hname).of_gives_bind (Gives.position_bind.mp h)
  obtain ⟨_, _, hexpression, -⟩ := h.of_bind
  obtain ⟨u, m, hassignment, -⟩ := (Gives.position_bind.mp hexpression).of_bind
  exact ⟨_, u, m, hassignment⟩

/-- The expression begins with an operand that begins with the word. -/
theorem chainHead_of_assignment (hplain : r.dialect = {})
    (h : Gives (r.assignmentExpression ctx) c t d) : ∃ u m, Gives (r.chainHead ctx) c u m := by
  have hreserved : name ∈ reservedWords := by rcases hname with rfl | rfl <;> decide
  have harrow : Gives (r.arrow? ctx) c none c := by
    refine arrow?_of_plainArrow? ?_ fun start =>
      plainArrow?_of_first (nameBeforeArrow_of_reserved hkind hreserved) ?_ ?_ start false
    · rw [hkind]
      rcases hname with rfl | rfl <;> rfl
    · rw [hkind]
      rfl
    · rw [hkind]
      rfl
  refine chainHead_of_assignmentExpression hplain ?_ harrow ?_ ?_ ⟨t, h⟩
  · rw [hkind]
    rcases hname with rfl | rfl <;> exact nofun
  · rw [hkind]
    rfl
  · rw [hkind]
    rcases hname with rfl | rfl <;> rfl

end

theorem not_chainHead_export (hkind : c.token.kind = .word "export" false) :
    ¬ Gives (r.chainHead ctx) c t d := by
  intro h
  have hprimary := primary_of_chainHead (by rw [hkind]; rfl) h
  replace hprimary := Gives.kind_bind.mp (Gives.get_bind.mp hprimary)
  rw [hkind] at hprimary
  cases hprimary

theorem next_of_chainHead_import (hkind : c.token.kind = .word "import" false)
    (h : Gives (r.chainHead ctx) c t d) : c.next.token.kind.isAnyPunct ["(", "."] = true := by
  replace h := Gives.atWord_bind.mp h
  rw [hkind] at h
  replace h := Gives.atWord_bind.mp h
  rw [hkind] at h
  replace h := Gives.atPunct_bind.mp (Gives.advance_bind.mp (Gives.get_bind.mp h))
  split at h
  · rename_i hopen
    rw [eq_of_beq hopen]
    rfl
  rcases h.of_eat with ⟨hdot, -⟩ | ⟨-, hrest⟩
  · rw [hdot]
    rfl
  · cases hrest

end

/-- What is read as a statement at the top of a script is no import or export. -/
theorem moduleItem_of_anyStatement {limit depth : Nat} {c d : Cursor} {t : Tree}
    (h : Gives ((rules {} limit depth).anyStatement {}) c t d) :
    Gives (rules {} limit depth).moduleItem c t d := by
  have hhead : ∀ name, c.token.kind = .word name false → name = "export" ∨ name = "import" →
      ∃ depth' ctx u m, Gives ((rules {} limit depth').chainHead ctx) c u m := by
    intro name hkind hname
    obtain ⟨ctx, u, m, hassignment⟩ := assignment_of_anyStatement hkind hname (dialect_rules ..) h
    cases depth with
    | zero => cases hassignment
    | succ depth => exact ⟨depth, ctx, chainHead_of_assignment hkind hname (dialect_rules ..) hassignment⟩
  refine Gives.atWord_bind.mpr ?_
  split
  · rename_i hexport
    obtain ⟨_, _, _, _, hrun⟩ := hhead _ (eq_of_beq hexport) (.inl rfl)
    exact absurd hrun (not_chainHead_export (eq_of_beq hexport))
  refine Gives.atWord_bind.mpr ((Gives.followedByPunct _).bind ?_)
  split
  · rename_i himport
    rw [Bool.and_eq_true, Bool.not_eq_true'] at himport
    obtain ⟨_, _, _, _, hrun⟩ := hhead _ (eq_of_beq himport.1) (.inr rfl)
    exact absurd (himport.2.symm.trans (next_of_chainHead_import (eq_of_beq himport.1) hrun)) nofun
  · exact h

/-! ## Lists of statements -/

/-- One more item, unless the text is over. -/
def itemStep (item : Parser Tree) (items : List Tree) : Parser (Step (List Tree) (List Tree)) := do
  if ← Parser.atDone then return .done items.reverse
  else return .more ((← item) :: items)

section

variable {item : Parser Tree} {items : List Tree} {c : Cursor}

theorem itemStep_of_done (hkind : c.token.kind = .done) :
    Gives (itemStep item items) c (.done items.reverse) c := by
  refine Gives.atDone_bind.mpr ?_
  rw [hkind]
  exact .pure _

theorem itemStep_of_gives (hkind : c.token.kind ≠ .done) {t : Tree} {m : Cursor}
    (h : Gives item c t m) : Gives (itemStep item items) c (.more (t :: items)) m := by
  refine Gives.atDone_bind.mpr ?_
  rw [beq_eq_false_iff_ne.mpr hkind]
  exact h.bind (.pure _)

end

/-- All that is left, read as statements. -/
def statements (r : Rules) : Parser (List Tree) :=
  Parser.loop r.limit (itemStep (r.anyStatement {})) []

/-- The statements that follow one another from a cursor up to the end of the text. -/
inductive Statements (r : Rules) : Cursor → List Tree → Cursor → Prop where
  | done {c : Cursor} (hkind : c.token.kind = .done) : Statements r c [] c
  | cons {c m d : Cursor} {t : Tree} {ts : List Tree} (hkind : c.token.kind ≠ .done)
      (hrun : Gives (r.anyStatement {}) c t m) (h : Statements r m ts d) : Statements r c (t :: ts) d

theorem statements_cases {r : Rules} {c d : Cursor} {ts : List Tree} (h : Gives r.statements c ts d) :
    r.Statements c ts d := by
  suffices hloop : ∀ limit items c,
      Gives (Parser.loop limit (itemStep (r.anyStatement {})) items) c ts d →
        ∃ us, ts = items.reverse ++ us ∧ r.Statements c us d by
    obtain ⟨us, rfl, hus⟩ := hloop _ _ _ h
    exact hus
  intro limit
  induction limit with
  | zero => exact fun _ _ hrun => nomatch hrun
  | succ limit ih =>
      intro items c hrun
      obtain ⟨next, m, hstep, hrest⟩ := hrun.of_bind
      by_cases hkind : c.token.kind = .done
      · obtain ⟨rfl, rfl⟩ := (itemStep_of_done hkind).unique hstep
        cases hrest
        exact ⟨[], (List.append_nil _).symm, .done hkind⟩
      · replace hstep := Gives.atDone_bind.mp hstep
        rw [beq_eq_false_iff_ne.mpr hkind, if_neg Bool.false_ne_true] at hstep
        obtain ⟨t, m', ht, hpure⟩ := hstep.of_bind
        cases hpure
        obtain ⟨us, rfl, hus⟩ := ih _ _ hrest
        refine ⟨t :: us, ?_, .cons hkind ht hus⟩
        rw [List.reverse_cons, List.append_assoc, List.singleton_append]

namespace Statements

variable {r : Rules} {c d : Cursor} {ts : List Tree}

/-- Statements are a script, if it has room for as many. -/
theorem moduleItems {limit depth : Nat} (h : (rules {} limit depth).Statements c ts d)
    (hroom : ts.length < limit) : Gives (rules {} limit depth).moduleItems c ts d := by
  suffices hloop : ∀ room items, ts.length < room →
      Gives (Parser.loop room (itemStep (rules {} limit depth).moduleItem) items) c
        (items.reverse ++ ts) d by
    show Gives (Parser.loop (rules {} limit depth).limit (itemStep _) []) c ts d
    rw [limit_rules]
    exact hloop limit [] hroom
  clear hroom
  induction h with
  | done hkind =>
      intro room items hroom
      cases room with
      | zero => cases hroom
      | succ room =>
          refine (itemStep_of_done hkind).bind ?_
          rw [List.append_nil]
          exact .pure _
  | @cons c m d t ts hkind hrun _ ih =>
      intro room items hroom
      cases room with
      | zero => cases hroom
      | succ room =>
          refine (itemStep_of_gives hkind (moduleItem_of_anyStatement hrun)).bind ?_
          have hrest := ih room (t :: items) (Nat.lt_of_succ_lt_succ hroom)
          rwa [List.reverse_cons, List.append_assoc, List.singleton_append] at hrest

/-- The statements are the same wherever the token in front of them ended. -/
theorem behind (hforgets : Forgets (r.anyStatement {})) (h : r.Statements c ts d) (n : Nat) (b : Bool) :
    ∃ d', r.Statements (c.behind n b) ts d' := by
  cases h with
  | done hkind => exact ⟨_, .done hkind⟩
  | cons hkind hrun h => exact ⟨d, .cons hkind ((hforgets c n b _ _).mpr hrun) h⟩

/-- A statement that takes nothing is read again and again. -/
theorem not_stays {t : Tree} (hkind : c.token.kind ≠ .done) (hrun : Gives (r.anyStatement {}) c t c) :
    ¬ r.Statements c ts d := by
  intro h
  induction ts with
  | nil =>
      cases h with
      | done hdone => exact hkind hdone
  | cons u us ih =>
      cases h with
      | cons _ hrun' h =>
          obtain ⟨-, rfl⟩ := hrun.unique hrun'
          exact ih h

end Statements

end Rules

theorem TokenKind.shift_ne_done {kind : TokenKind} {k : Nat} (h : kind ≠ .done) :
    kind.shift k ≠ .done := by
  cases kind with
  | done => exact absurd rfl h
  | _ => exact nofun

namespace Excerpt

open Rules

variable {e : Excerpt} {r r' : Rules} {c c' d : Cursor} {ts : List Tree}

/-- The statements of the excerpt stand in the whole text, in front of those that follow
behind it. -/
theorem statements_append (hr : r.RepeatedBy e r') (h : r.Statements c ts d) (hat : e.At c c')
    {us : List Tree} (hus : ∀ d', d.token.kind = .done → e.At d d' → ∃ f, r'.Statements d' us f) :
    ∃ f, r'.Statements c' (ts.map (Tree.shift e.offset) ++ us) f := by
  induction h generalizing c' with
  | done hkind => exact hus _ hkind hat
  | cons hkind hrun _ ih =>
      obtain ⟨m', hrun', hm⟩ := hr.anyStatement hat _ _ hrun
      obtain ⟨f, hf⟩ := ih hm hus
      refine ⟨f, .cons ?_ hrun' hf⟩
      rw [hat.kind hkind]
      exact TokenKind.shift_ne_done hkind

/-- A cursor in a text that has not moved is the same but for what stands in front of it. -/
theorem At.eq_behind {m m' : Cursor} (h : e.At c c') (hm : e.At m m')
    (hstart : m.token.span.start = c.token.span.start) (hhere : m.here = c.here) :
    m = c.behind m.prevStop m.token.afterNewline := by
  obtain ⟨n, ahead, -, rfl, -⟩ := h
  obtain ⟨k, rest, -, rfl, -⟩ := hm
  unfold Cursor.start at hstart hhere ⊢
  generalize skipGap .blank n false ahead = gap at hstart hhere ⊢
  generalize skipGap .blank k false rest = gap' at hstart hhere ⊢
  obtain ⟨pos, newline, here⟩ := gap
  obtain ⟨pos', newline', here'⟩ := gap'
  obtain rfl : pos' = pos := hstart
  obtain rfl : here' = here := hhere
  rfl

/-- Each statement takes a character. -/
theorem length_statements_le (hr : r.RepeatedBy e.alone r) (hforgets : Forgets (r.anyStatement {}))
    (hsound : r.Sound e.content) (h : r.Statements c ts d) (hat : e.alone.At c c)
    (hc : c.Sound e.content) : ts.length ≤ c.here.length := by
  induction h with
  | done => exact Nat.zero_le _
  | @cons c m d t ts hkind hrun h ih =>
      have hrepeats : e.alone.RepeatsOne (r.anyStatement {}) (r.anyStatement {}) c c := hr.anyStatement hat
      obtain ⟨m', -, hm⟩ := hrepeats _ _ hrun
      rw [hm.eq_of_alone] at hm
      have hpass := (hsound.anyStatement {} c hc).ok rfl hrun
      obtain ⟨mid, hmid, hsize⟩ := hc.here.between hpass.sound.here hpass.start_le
      have hrest := ih hm hpass.sound
      rcases mid with - | ⟨head, mid⟩
      · -- The token in front of which the statement ends is the one with which it began.
        have hstart : m.token.span.start = c.token.span.start := by
          have hle := hpass.start_le
          rw [byteSize_nil] at hsize
          omega
        have hbehind := hat.eq_behind hm hstart hmid.symm
        have hrun' : Gives (r.anyStatement {}) m t m := by
          rw [hbehind]
          exact (hforgets c _ _ _ _).mpr (hbehind ▸ hrun)
        have hkind' : m.token.kind ≠ .done := by
          rw [hbehind]
          exact hkind
        exact absurd h (Statements.not_stays hkind' hrun')
      · rw [hmid, List.length_append, List.length_cons, List.length_cons]
        omega

end Excerpt

end Recompose.Script
