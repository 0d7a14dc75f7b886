import Recompose.Proofs.Script.Arrows
import Recompose.Proofs.Script.Openings

/-!
# What expressions begin with

An expression that no arrow function begins, and no operator in front of an operand, begins
with a chain. If what the chain begins with ends in front of an equals sign, it is assigned
to; in front of other punctuation that ends an item, it is the whole expression.
-/

namespace Recompose.Script

open Recompose.Script.Parser (Step)

/-- Punctuation in front of which an item of a list ends. -/
def itemEnds : List String := [",", ")", "]", "\x7d"]

theorem Cursor.endsValue_of_itemEnds {c : Cursor} (h : c.token.kind.isAnyPunct itemEnds = true) :
    c.EndsValue := by
  unfold TokenKind.isAnyPunct at h
  split at h
  case h_2 => cases h
  rename_i text hkind
  have hmem := List.contains_iff_mem.mp h
  simp only [itemEnds, List.mem_cons, List.not_mem_nil, or_false] at hmem
  rcases hmem with rfl | rfl | rfl | rfl <;> refine ⟨fun hgoes => ?_, .inr (by rw [hkind]; rfl)⟩
  · exact .inl hkind
  all_goals
    rw [hkind] at hgoes
    cases hgoes

namespace Rules

open Gives

variable {r : Rules} {ctx : Context} {c d m : Cursor} {t : Tree} {text : String}

/-! ## Without an arrow -/

theorem nameBeforeArrow_of_next (h : (c.next.token.kind == .punct "=>") = false) :
    Gives nameBeforeArrow c false c := by
  refine kind_bind.mpr ?_
  split
  · refine following_bind.mpr ?_
    rw [h, Bool.and_false, Bool.false_and]
    exact .pure _
  · exact .pure _

theorem plainArrow?_of_punct (hkind : c.token.kind = .punct text) (hopen : text ≠ "(")
    (hangle : text ≠ "<") (start : Nat) (isAsync : Bool) :
    Gives (r.plainArrow? ctx start isAsync) c none c := by
  refine plainArrow?_of_first (kind_bind.mpr ?_) ?_ ?_ start isAsync
  · rw [hkind]
    exact .pure _
  · rw [hkind, beq_eq_false_iff_ne]
    exact fun heq => hopen (TokenKind.punct.inj heq)
  · rw [hkind, beq_eq_false_iff_ne]
    exact fun heq => hangle (TokenKind.punct.inj heq)

theorem arrow?_of_punct (hkind : c.token.kind = .punct text) (hopen : text ≠ "(")
    (hangle : text ≠ "<") : Gives (r.arrow? ctx) c none c :=
  arrow?_of_plainArrow? (by rw [hkind]; rfl) fun start => plainArrow?_of_punct hkind hopen hangle start false

/-- A name behind which no arrow stands, nor what could be parameters. -/
theorem arrow?_of_word {name : String} {escaped : Bool} (hkind : c.token.kind = .word name escaped)
    (hnext : c.next.token.kind = .punct text) (hopen : text ≠ "(") (hangle : text ≠ "<")
    (harrow : text ≠ "=>") : Gives (r.arrow? ctx) c none c := by
  have hname : Gives nameBeforeArrow c false c := by
    refine nameBeforeArrow_of_next ?_
    rw [hnext, beq_eq_false_iff_ne]
    exact fun heq => harrow (TokenKind.punct.inj heq)
  have hplain : ∀ start isAsync, Gives (r.plainArrow? ctx start isAsync) c none c :=
    plainArrow?_of_first hname (by rw [hkind]; rfl) (by rw [hkind]; rfl)
  refine get_bind.mpr ((hplain _ _).bind (atWord_bind.mpr (following_bind.mpr ?_)))
  split
  · exact advance_bind.mpr ((plainArrow?_of_punct hnext hopen hangle _ _).bind (.bind rfl (.pure _)))
  · exact .pure _

/-! ## Taking apart -/

section

variable (hyield : c.token.kind ≠ .word "yield" false) (harrow : Gives (r.arrow? ctx) c none c)
  (h : Gives (r.assignmentExpression ctx) c t d)
include hyield harrow h

/-- What follows an expression that is assigned to. -/
theorem conditional_of_assignmentExpression : ∃ left m, Gives (r.conditional ctx) c left m ∧
    ∀ op, Gives operatorHere m (some op) m → assignOperators.contains op = true →
      ∃ j, Gives (skipOperator op) m () j ∧ Reaches (r.assignment ctx) j d := by
  replace h := atWord_bind.mp (position_bind.mp h)
  rw [beq_eq_false_iff_ne.mpr hyield, Bool.and_false, if_neg Bool.false_ne_true] at h
  replace h := harrow.of_gives_bind h
  obtain ⟨left, m, hleft, h⟩ := h.of_bind
  refine ⟨left, m, hleft, fun op hop hassigns => ?_⟩
  replace h := hop.of_gives_bind h
  dsimp only at h
  rw [if_pos hassigns] at h
  split at h
  case isFalse => cases h
  obtain ⟨_, j, hskip, h⟩ := h.of_bind
  obtain ⟨right, _, hright, hnode⟩ := h.of_bind
  cases hnode
  exact ⟨j, hskip, right, hright⟩

end

theorem chain_of_conditional (hplain : r.dialect = {})
    (hpunct : c.token.kind.isAnyPunct ["!", "~", "+", "-", "++", "--"] = false)
    (hword : c.token.kind.isAnyWord ["typeof", "void", "delete", "await"] = false)
    (h : Gives (r.conditional ctx) c t d) : ∃ u j, Gives (r.chain ctx) c u j := by
  obtain ⟨_, _, hoperation, -⟩ := (position_bind.mp h).of_bind
  obtain ⟨_, _, h, -⟩ := (position_bind.mp hoperation).of_bind
  replace h := (Gives.atAnyPunct _).of_gives_bind (position_bind.mp h)
  rw [TokenKind.isAnyPunct_of_subset hpunct (by simp), if_neg Bool.false_ne_true] at h
  replace h := (Gives.atAnyWord _).of_gives_bind h
  rw [hword, if_neg Bool.false_ne_true] at h
  replace h := (Gives.atAnyPunct _).of_gives_bind h
  rw [TokenKind.isAnyPunct_of_subset hpunct (by simp), if_neg Bool.false_ne_true] at h
  replace h := atPunct_bind.mp h
  rw [hplain, Bool.false_and, Bool.false_and, if_neg Bool.false_ne_true] at h
  obtain ⟨u, j, hchain, -⟩ := h.of_bind
  exact ⟨u, j, hchain⟩

theorem chainHead_of_assignmentExpression (hplain : r.dialect = {})
    (hyield : c.token.kind ≠ .word "yield" false) (harrow : Gives (r.arrow? ctx) c none c)
    (hpunct : c.token.kind.isAnyPunct ["!", "~", "+", "-", "++", "--"] = false)
    (hword : c.token.kind.isAnyWord ["typeof", "void", "delete", "await"] = false)
    (h : Reaches (r.assignmentExpression ctx) c d) : ∃ t m, Gives (r.chainHead ctx) c t m := by
  obtain ⟨_, h⟩ := h
  obtain ⟨_, _, hconditional, -⟩ := conditional_of_assignmentExpression hyield harrow h
  obtain ⟨_, _, hchain⟩ := chain_of_conditional hplain hpunct hword hconditional
  obtain ⟨t, m, hhead, -⟩ := (position_bind.mp hchain).of_bind
  exact ⟨t, m, hhead⟩

/-! ## Names -/

theorem bindingName_cases (h : Gives Parser.bindingName c t d) :
    ∃ name escaped, c.token.kind = .word name escaped ∧ reservedWords.contains name = false ∧
      name ≠ "await" ∧ d = c.next := by
  replace h := kind_bind.mp h
  split at h
  case h_2 => cases h
  rename_i name escaped hkind
  dsimp only at h
  split at h
  case isTrue => cases h
  rename_i hname
  rw [Bool.not_eq_true, Bool.or_eq_false_iff, beq_eq_false_iff_ne] at hname
  cases h
  exact ⟨name, escaped, hkind, hname.1, hname.2, rfl⟩

theorem not_mem_of_unreserved {name : String} (hname : reservedWords.contains name = false)
    {names : List String} (hnames : names ⊆ reservedWords) : name ∉ names := by
  intro hmem
  rw [List.contains_iff_mem.mpr (hnames hmem)] at hname
  cases hname

section

variable {name : String} {escaped : Bool} (hkind : c.token.kind = .word name escaped)
include hkind

theorem isAnyWord_of_not_mem {names : List String} (h : name ∉ names) :
    c.token.kind.isAnyWord names = false := by
  rw [hkind]
  cases escaped with
  | true => rfl
  | false => exact Bool.eq_false_iff.mpr fun hany => h (List.contains_iff_mem.mp hany)

variable (hname : reservedWords.contains name = false)
include hname

theorem reaches_bindingName (hawait : name ≠ "await") : Reaches Parser.bindingName c c.next := by
  refine ⟨.leaf (.ident name) c.token.span, kind_bind.mpr ?_⟩
  rw [hkind]
  dsimp only
  rw [hname, beq_eq_false_iff_ne.mpr hawait]
  exact get_bind.mpr (advance_bind.mpr (.pure _))

/-- An operand that is a name, in front of punctuation. -/
theorem next_of_chainHead (hnext : c.next.token.kind = .punct text)
    (h : Gives (r.chainHead ctx) c t m) : m = c.next := by
  have hprimary := primary_of_chainHead
    (isAnyWord_of_not_mem hkind (not_mem_of_unreserved hname (by decide))) h
  replace hprimary := kind_bind.mp (get_bind.mp hprimary)
  rw [hkind] at hprimary
  split at hprimary
  case h_18 =>
    replace hprimary := advance_bind.mp (following_bind.mp hprimary)
    rw [hnext] at hprimary
    cases hprimary
    rfl
  case h_19 =>
    dsimp only at hprimary
    split at hprimary
    · cases hprimary
    · cases hprimary
      rfl
  case h_20 hne => exact absurd rfl (hne name escaped)
  -- Other words are reserved.
  all_goals
    rename_i heq
    first
      | (obtain ⟨rfl, -⟩ := TokenKind.word.inj heq
         exact absurd hname (by decide))
      | cases heq

end

/-! ## Putting together -/

theorem conditional_of_equals (hlimit : 0 < r.limit) (hhead : Gives (r.chainHead ctx) c t m)
    (hequals : m.token.kind = .punct "=") : Gives (r.conditional ctx) c t m := by
  have hoperand : m.EndsOperand := ⟨by rw [hequals]; rfl, .inr (by rw [hequals]; rfl)⟩
  have hoperator : Gives operatorHere m (some "=") m := by
    refine get_bind.mpr ?_
    rw [hequals]
    exact .pure _
  have hprefixed := prefixed_of_chain hoperand hhead (chain_of_chainHead hlimit hoperand hhead)
  have hstep : Gives (r.operandStep ctx c.token.span.start [t]) m (.done t) m :=
    hoperator.bind (.bind (.pure _) (.pure _))
  have hoperation : Gives (r.operation ctx) c t m :=
    position_bind.mpr (hprefixed.bind (.loop hlimit hstep))
  exact position_bind.mpr (hoperation.bind ((eat_of_ne (by rw [hequals]; rfl)).bind (.pure _)))

section

variable (hlimit : 0 < r.limit) (harrow : Gives (r.arrow? ctx) c none c)
  (hhead : Gives (r.chainHead ctx) c t m)
include hlimit harrow hhead

theorem whole_of_itemEnds (hends : m.token.kind.isAnyPunct itemEnds = true) {t' : Tree}
    (h : Gives (r.assignmentExpression ctx) c t' d) : d = m :=
  (h.unique (assignmentExpression_of_chainHead hlimit (Cursor.endsValue_of_itemEnds hends) harrow hhead)).2

theorem assignment_of_equals (hyield : c.token.kind ≠ .word "yield" false)
    (hequals : m.token.kind = .punct "=") {t' : Tree} (h : Gives (r.assignmentExpression ctx) c t' d) :
    ∃ j, Gives (skipOperator "=") m () j ∧ Reaches (r.assignment ctx) j d := by
  obtain ⟨_, _, hleft, hassigned⟩ := conditional_of_assignmentExpression hyield harrow h
  obtain ⟨-, rfl⟩ := hleft.unique (conditional_of_equals hlimit hhead hequals)
  refine hassigned "=" ?_ (by decide)
  refine get_bind.mpr ?_
  rw [hequals]
  exact .pure _

end

/-- Neither a closing parenthesis nor dots begin an expression. -/
theorem assignmentExpression_begins (hplain : r.dialect = {})
    (h : Reaches (r.assignmentExpression ctx) c d) : c.token.kind.isAnyPunct [")", "..."] = false := by
  rw [Bool.eq_false_iff]
  intro hany
  obtain ⟨text, htext, hkind⟩ := TokenKind.isAnyPunct_iff.mp hany
  simp only [List.mem_cons, List.not_mem_nil, or_false] at htext
  rcases htext with rfl | rfl <;>
    · obtain ⟨_, _, hhead⟩ := chainHead_of_assignmentExpression hplain (by rw [hkind]; exact nofun)
        (arrow?_of_punct hkind (by decide) (by decide)) (by rw [hkind]; rfl) (by rw [hkind]; rfl) h
      have hprimary := kind_bind.mp (get_bind.mp (primary_of_chainHead (by rw [hkind]; rfl) hhead))
      rw [hkind] at hprimary
      cases hprimary

/-- The word `let` begins no expression unless one goes on behind it. -/
theorem assignmentExpression_let (hplain : r.dialect = {})
    (h : Reaches (r.assignmentExpression ctx) c d) (hkind : c.token.kind = .word "let" false) :
    c.next.token.kind ≠ .done := by
  intro hnext
  have hname : Gives nameBeforeArrow c false c := nameBeforeArrow_of_next (by rw [hnext]; rfl)
  have harrow : Gives (r.arrow? ctx) c none c :=
    arrow?_of_plainArrow? (by rw [hkind]; rfl) fun start =>
      plainArrow?_of_first hname (by rw [hkind]; rfl) (by rw [hkind]; rfl) start false
  obtain ⟨_, _, hhead⟩ := chainHead_of_assignmentExpression hplain (by rw [hkind]; exact nofun) harrow
    (by rw [hkind]; rfl) (by rw [hkind]; rfl) h
  have hprimary := kind_bind.mp (get_bind.mp (primary_of_chainHead (by rw [hkind]; rfl) hhead))
  rw [hkind] at hprimary
  cases hprimary

end Rules

end Recompose.Script
