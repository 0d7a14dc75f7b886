import Recompose.Proofs.Script.Literals
import Recompose.Proofs.Script.Logic
import Recompose.Proofs.Script.Written

/-!
# Where no arrow function begins

A parenthesis may open the parameters of an arrow function, so the parser tries that
first. A literal in parentheses may well be a pattern, too. It is then a parameter as a
whole (`Rules.lands_of_spells`), and no arrow follows its parenthesis.
-/

namespace Recompose.Script

open Recompose.Script.Parser (Step)

/-! ## Failing -/

/-- A parser that never succeeds is tried in vain. -/
theorem Gives.attempt_none {α : Type} {p : Parser α} {c : Cursor}
    (h : Leads Anyhow (· = c) p fun _ _ => False) : Gives (Parser.attempt p) c none c := by
  unfold Gives Parser.attempt
  cases hrun : p c with
  | ok r => exact (h.ok rfl hrun).elim
  | error e => rfl

/-! ## Literals as patterns -/

namespace Leads

variable {α β σ : Type} {c c' : Cursor} {Q : β → Cursor → Prop}

/-- Goes on from where a parser is known to get. -/
theorem gives {p : Parser α} {f : α → Parser β} {a : α} (hp : Gives p c a c')
    (hf : Leads Anyhow (· = c') (f a) Q) : Leads Anyhow (· = c) (p >>= f) Q := by
  rintro _ rfl
  show Outcome Anyhow Q (p _ >>= fun r => f r.1 r.2)
  rw [show p _ = .ok (a, c') from hp]
  exact hf c' rfl

theorem loop_succ {P : Cursor → Prop} {I : σ → Cursor → Prop} {n : Nat}
    {step : σ → Parser (Step σ β)} {s : σ} (h : Leads Anyhow P (step s) (StepPost I Q))
    (hrest : ∀ s, Leads Anyhow (I s) (Parser.loop n step s) Q) :
    Leads Anyhow P (Parser.loop (n + 1) step s) Q := by
  refine .bind h fun next => ?_
  cases next with
  | more s => exact hrest s
  | done b => exact .pure fun _ hb => hb

end Leads

namespace Rules

open Gives

/-- One round of reading the elements of an array, of which some may be left out. -/
def elementStep (item : Parser Tree) (items : List Tree) : Parser (Step (List Tree) (List Tree)) := do
  if ← Parser.eat "]" then return .done items.reverse
  if ← Parser.atPunct "," then
    let pos ← Parser.position
    Parser.advance
    return .more (Tree.leaf .hole ⟨pos, pos⟩ :: items)
  let a ← item
  if ← Parser.eat "]" then return .done (a :: items).reverse
  Parser.expect ","
  return .more (a :: items)

/-- In front of an element, arrays are read as lists are. -/
theorem elementStep_eq {c : Cursor} (h : (c.token.kind == .punct ",") = false) (item : Parser Tree)
    (items : List Tree) : elementStep item items c = commaStep "]" item items c := by
  have hbind : ∀ {β : Type} (took : Bool) (c' : Cursor) (f : Bool → Parser β),
      Gives (Parser.eat "]") c took c' → (Parser.eat "]" >>= f) c = f took c' := by
    intro β took c' f heat
    show (Parser.eat "]" c >>= fun r => f r.1 r.2) = _
    rw [show Parser.eat "]" c = .ok (took, c') from heat]
    rfl
  unfold elementStep commaStep
  by_cases hclose : c.token.kind = .punct "]"
  · rw [hbind true c.next _ (eat hclose), hbind true c.next _ (eat hclose)]
    rfl
  · have hne : (c.token.kind == .punct "]") = false := beq_eq_false_iff_ne.mpr hclose
    rw [hbind false c _ (eat_of_ne hne), hbind false c _ (eat_of_ne hne), if_neg Bool.false_ne_true,
      if_neg Bool.false_ne_true]
    show (if (c.token.kind == .punct ",") = true then _ else _ : Parser _) c = _
    rw [h]
    rfl

theorem elementStep_leads {c : Cursor} (h : (c.token.kind == .punct ",") = false) {item : Parser Tree}
    {items : List Tree} {Q : Step (List Tree) (List Tree) → Cursor → Prop}
    (hstep : Leads Anyhow (· = c) (commaStep "]" item items) Q) :
    Leads Anyhow (· = c) (elementStep item items) Q := by
  rintro _ rfl
  rw [elementStep_eq h]
  exact hstep _ rfl

section Landing

variable {α : Type} {c c' d : Cursor} {item : Parser α} {close : String}

/-- A list that is closed behind this item, if the item is read. -/
theorem commaStep_lands_last (hfirst : (c.token.kind == .punct close) = false)
    (hitem : Leads Anyhow (· = c) item fun _ m => m = c' ∨
      (m.token.kind == .punct close) = false ∧ (m.token.kind == .punct ",") = false)
    (hclose : c'.token.kind = .punct close) (items : List α) (I : List α → Cursor → Prop) :
    Leads Anyhow (· = c) (commaStep close item items)
      (Leads.StepPost I fun _ m => m = c'.next) := by
  refine .gives (eat_of_ne hfirst) (.bind hitem fun a => .fix fun m hm => ?_)
  rcases hm with rfl | ⟨hne, hcomma⟩
  · refine .gives (eat hclose) (.pure ?_)
    rintro _ rfl
    rfl
  · refine .gives (eat_of_ne hne) (.bind (R := fun _ _ => False) ?_ fun _ => nofun)
    exact .gives (eat_of_ne hcomma) .unexpected

theorem commaStep_lands_more (hfirst : (c.token.kind == .punct close) = false)
    (hitem : Leads Anyhow (· = c) item fun _ m => m = c')
    (hclose : (c'.token.kind == .punct close) = false) (hcomma : c'.token.kind = .punct ",")
    (items : List α) (Q : List α → Cursor → Prop) :
    Leads Anyhow (· = c) (commaStep close item items)
      (Leads.StepPost (fun _ m => m = c'.next) Q) := by
  refine .gives (eat_of_ne hfirst) (.bind hitem fun a => ?_)
  refine .gives (eat_of_ne hclose) (.gives (expect hcomma) (.pure ?_))
  rintro _ rfl
  rfl

end Landing

section Patterns

variable {r : Rules} {ctx : Context} {c c' : Cursor}

/-- An element of a pattern, in front of what ends it. -/
theorem patternElement_lands {Q : Cursor → Prop}
    (h : Leads Anyhow (· = c) (r.pattern ctx) fun _ m => Q m)
    (hQ : ∀ m, Q m → (m.token.kind == .punct "=") = false) :
    Leads Anyhow (· = c) (r.patternElement ctx) fun _ m => Q m := by
  refine .position (.bind h fun t => .fix fun m hm => .gives (eat_of_ne (hQ m hm)) (.pure ?_))
  rintro _ rfl
  exact hm

theorem patternItem_lands (hfirst : (c.token.kind == .punct "...") = false)
    (h : Leads Anyhow (· = c) (r.pattern ctx) fun _ m => m = c')
    (hmark : (c'.token.kind == .punct "=") = false) :
    Leads Anyhow (· = c) (r.patternItem ctx) fun _ m => m = c' := by
  exact .gives (atPunct_of_ne hfirst) (patternElement_lands h fun m hm => hm ▸ hmark)

theorem patternProperty_lands {name : String} (hname : c.token.kind = .string (some name))
    (hcolon : c.next.token.kind = .punct ":")
    (h : Leads Anyhow (· = c.next.next) (r.pattern ctx) fun _ m => m = c')
    (hmark : (c'.token.kind == .punct "=") = false) :
    Leads Anyhow (· = c) (r.patternProperty ctx) fun _ m => m = c' := by
  have hkey : Gives (r.propertyKey ctx) c (.leaf (.string (some name)) c.token.span) c.next := by
    refine get_bind.mpr (kind_bind.mpr ?_)
    rw [hname]
    exact advance_bind.mpr (.pure _)
  refine .gives (atPunct_of_ne (by rw [hname]; rfl)) (.position (.gives hkey ?_))
  refine .gives (eat hcolon) (.bind (patternElement_lands h fun m hm => hm ▸ hmark) fun t => ?_)
  rintro _ rfl
  exact rfl

variable {dialect : Dialect} {limit : Nat}

/-- Wherever a literal is read as a pattern, or as what a pattern goes on with, as much of
the script is read. -/
def Lands (dialect : Dialect) (limit : Nat) (c c' : Cursor) : Json.Part → Prop
  | .value _ => ∀ d ctx, Leads Anyhow (· = c) ((rules dialect limit d).pattern ctx) fun _ m => m = c'
  | .items _ => ∀ d ctx n items, Leads Anyhow (· = c)
      (Parser.loop n (elementStep ((rules dialect limit d).patternItem ctx)) items)
      fun _ m => m = c'
  | .fields _ => ∀ d ctx n items, Leads Anyhow (· = c)
      (Parser.loop n (commaStep "\x7d" ((rules dialect limit d).patternProperty ctx)) items)
      fun _ m => m = c'

theorem pattern_of_bindingPattern {Q : Tree → Cursor → Prop}
    (h : ∀ d, Leads Anyhow (· = c) ((rules dialect limit d).bindingPattern ctx) Q) (d : Nat) :
    Leads Anyhow (· = c) ((rules dialect limit d).pattern ctx) Q := by
  cases d with
  | zero => exact .unexpected
  | succ d => exact h d

theorem bindingPattern_of_reserved {Q : Tree → Cursor → Prop} {name : String}
    (hkind : c.token.kind = .word name false) (hname : name ∈ reservedWords) :
    Leads Anyhow (· = c) (r.bindingPattern ctx) Q := by
  refine .position (.kind ?_)
  rw [hkind]
  refine .kind ?_
  rw [hkind]
  have hreserved : reservedWords.contains name = true := List.contains_iff_mem.mpr hname
  dsimp only
  rw [hreserved, Bool.true_or]
  exact .unexpected_bind

theorem lands_of_spells {part : Json.Part} (h : c.Spells part c') : Lands dialect limit c c' part := by
  induction h with
  | @text s c h =>
      intro d ctx
      refine pattern_of_bindingPattern (fun d => .position (.kind ?_)) d
      rw [h]
      refine .kind ?_
      rw [h]
      exact .unexpected
  | null h | yes h | no h =>
      exact fun d ctx => pattern_of_bindingPattern (fun d => bindingPattern_of_reserved h (by decide)) d
  | @paren v c c' hopen _ _ _ =>
      intro d ctx
      refine pattern_of_bindingPattern (fun d => .position (.kind ?_)) d
      rw [hopen]
      refine .kind ?_
      rw [hopen]
      exact .unexpected
  | @list vs c c' hopen _ ih =>
      intro d ctx
      refine pattern_of_bindingPattern (fun d => .position (.kind ?_)) d
      rw [hopen]
      refine .afterAdvance (.bind (ih d ctx _ []) fun ts => ?_)
      rintro _ rfl
      exact rfl
  | @object fs c c' hopen _ ih =>
      intro d ctx
      refine pattern_of_bindingPattern (fun d => .position (.kind ?_)) d
      rw [hopen]
      refine .afterAdvance (.bind (ih d ctx _ []) fun ts => ?_)
      rintro _ rfl
      exact rfl
  | @closeList c h =>
      intro d ctx n items
      cases n with
      | zero => exact .unexpected
      | succ n =>
          refine .loop_succ (I := fun _ _ => False) (.gives (eat h) (.pure ?_)) nofun
          rintro _ rfl
          rfl
  | @lastItem v c c' h hclose ih =>
      intro d ctx n items
      have hitem := patternItem_lands (h.beq_punct (by decide)) (ih d ctx) (by rw [hclose]; rfl)
      cases n with
      | zero => exact .unexpected
      | succ n =>
          exact .loop_succ (I := fun _ _ => False) (elementStep_leads (h.beq_punct (by decide))
            (commaStep_lands_last (h.beq_punct (by decide)) (hitem.post fun _ _ hm => .inl hm) hclose
              items _)) nofun
  | @item v vs c c' c'' h hcomma hs ih ihs =>
      intro d ctx n items
      have hitem := patternItem_lands (h.beq_punct (by decide)) (ih d ctx) (by rw [hcomma]; rfl)
      cases n with
      | zero => exact .unexpected
      | succ n =>
          exact .loop_succ (elementStep_leads (h.beq_punct (by decide)) (commaStep_lands_more
            (h.beq_punct (by decide)) hitem (by rw [hcomma]; rfl) hcomma items _))
            fun items => ihs d ctx n items
  | @closeObject c h =>
      intro d ctx n items
      cases n with
      | zero => exact .unexpected
      | succ n =>
          refine .loop_succ (I := fun _ _ => False) (.gives (eat h) (.pure ?_)) nofun
          rintro _ rfl
          rfl
  | @lastField name v c c' hname hcolon h hclose ih =>
      intro d ctx n items
      have hfirst : (c.token.kind == .punct "\x7d") = false := by rw [hname]; rfl
      have hitem := patternProperty_lands hname hcolon (ih d ctx) (by rw [hclose]; rfl)
      cases n with
      | zero => exact .unexpected
      | succ n =>
          exact .loop_succ (I := fun _ _ => False)
            (commaStep_lands_last hfirst (hitem.post fun _ _ hm => .inl hm) hclose items _) nofun
  | @field name v fs c c' c'' hname hcolon h hcomma hs ih ihs =>
      intro d ctx n items
      have hfirst : (c.token.kind == .punct "\x7d") = false := by rw [hname]; rfl
      have hitem := patternProperty_lands hname hcolon (ih d ctx) (by rw [hcomma]; rfl)
      cases n with
      | zero => exact .unexpected
      | succ n =>
          exact .loop_succ (commaStep_lands_more hfirst hitem (by rw [hcomma]; rfl) hcomma items _)
            fun items => ihs d ctx n items

end Patterns

/-! ## No arrow functions -/

/-- What stands behind a pattern makes no parameter of it. -/
def Blocks (c : Cursor) : Prop :=
  c.token.kind = .punct "(" ∨ c.token.kind = .word "as" false ∨ c.token.kind = .word "satisfies" false

theorem Blocks.beq_punct {c : Cursor} (h : Blocks c) {text : String} (htext : text ≠ "(") :
    (c.token.kind == .punct text) = false := by
  rw [beq_eq_false_iff_ne]
  rcases h with h | h | h <;> rw [h]
  · exact fun heq => htext (TokenKind.punct.inj heq).symm
  · exact nofun
  · exact nofun

section Arrows

variable {r : Rules} {ctx : Context} {c c' : Cursor}

/-- What stands in parentheses is a parameter at most as a whole. -/
structure InParens (r : Rules) (c c' : Cursor) : Prop where
  notClosed : (c.token.kind == .punct ")") = false
  notRest : (c.token.kind == .punct "...") = false
  notThis : (c.token.kind == .word "this" false) = false
  pattern : ∀ ctx, Leads Anyhow (· = c) (r.pattern ctx) fun _ m => m = c' ∨ Blocks m
  closed : c'.token.kind = .punct ")"

theorem InParens.parameter (h : InParens r c c') :
    Leads Anyhow (· = c) (r.parameter ctx true) fun _ m => m = c' ∨ Blocks m := by
  have hother : ∀ m, m = c' ∨ Blocks m → ∀ text, text ∉ ["(", ")"] →
      (m.token.kind == .punct text) = false := by
    rintro m (rfl | hm) text htext
    · rw [h.closed, beq_eq_false_iff_ne]
      exact fun heq => htext (by simp [TokenKind.punct.inj heq])
    · exact hm.beq_punct fun heq => htext (by simp [heq])
  refine .position (.gives (eat_of_ne h.notRest) (.gives (.pure _) ?_))
  have hbinding : Leads Anyhow (· = c)
      (r.parameterBinding { ctx with allowIn := true, inConditional := false } r.dialect.typescript)
      fun _ m => m = c' ∨ Blocks m := by
    refine .gives (show Gives (Parser.atWord "this") c false c by rw [← h.notThis]; exact .pure _) ?_
    rw [Bool.and_false]
    exact h.pattern _
  refine .bind hbinding fun t => .fix fun m hm => ?_
  refine .gives (eatMark_of_ne (hother m hm _ (by decide))) ?_
  refine .gives (typeAscription?_of_ne (hother m hm _ (by decide))) ?_
  refine .gives ((eat_of_ne (hother m hm _ (by decide))).bind (.pure _)) (.spanFrom (.pure ?_))
  rintro _ rfl
  exact hm

theorem arrowHead_fails (hopen : c.token.kind = .punct "(") (h : InParens r c.next c')
    (harrow : (c'.next.token.kind == .punct "=>") = false)
    (hcolon : (c'.next.token.kind == .punct ":") = false) :
    Leads Anyhow (· = c) (r.arrowHead ctx) fun _ _ => False := by
  have hgenerics : Gives (r.arrowGenerics ctx) c [] c := by
    refine atPunct_bind.mpr ?_
    rw [hopen, show (TokenKind.punct "(" == .punct "<") = false from rfl, Bool.and_false]
    exact .pure _
  have hparameters : Leads Anyhow (· = c) (r.parameters { ctx with inGenerator := false } true)
      fun _ m => m = c'.next := by
    refine .gives (expect hopen) ?_
    unfold Parser.commaSeparated
    cases r.limit with
    | zero => exact .unexpected
    | succ n =>
        refine .loop_succ (I := fun _ _ => False) ?_ nofun
        refine commaStep_lands_last h.notClosed (h.parameter.post fun _ m hm => ?_) h.closed [] _
        exact hm.imp_right fun hm => ⟨hm.beq_punct (by decide), hm.beq_punct (by decide)⟩
  have hresult : Gives (r.returnType? ctx) c'.next [] c'.next := (eatMark_of_ne hcolon).bind (.pure _)
  refine .gives hgenerics (.bind hparameters fun params => .gives hresult ?_)
  refine .gives (atPunct_of_ne harrow) (.peek fun newline => ?_)
  rw [Bool.false_and]
  exact .bind (R := fun _ _ => False) .unexpected fun _ => nofun

theorem plainArrow?_of_parens (hopen : c.token.kind = .punct "(") (h : InParens r c.next c')
    (harrow : (c'.next.token.kind == .punct "=>") = false)
    (hcolon : (c'.next.token.kind == .punct ":") = false) (start : Nat) (isAsync : Bool) :
    Gives (r.plainArrow? ctx start isAsync) c none c := by
  have hbefore : Gives nameBeforeArrow c false c := by
    refine kind_bind.mpr ?_
    rw [hopen]
    exact .pure _
  refine hbefore.bind (atPunct_bind.mpr (atPunct_bind.mpr ?_))
  rw [hopen, beq_self_eq_true, Bool.true_or, if_pos rfl]
  exact get_bind.mpr ((attempt_none (arrowHead_fails hopen h harrow hcolon)).bind (.pure _))

theorem arrow?_of_plainArrow? (hasync : (c.token.kind == .word "async" false) = false)
    (h : ∀ start, Gives (r.plainArrow? ctx start false) c none c) : Gives (r.arrow? ctx) c none c := by
  refine get_bind.mpr ((h _).bind (atWord_bind.mpr (following_bind.mpr ?_)))
  rw [hasync, Bool.false_and]
  exact .pure _

/-- No arrow function begins at a token that is no name, parenthesis or angle bracket. -/
theorem plainArrow?_of_first (hbefore : Gives nameBeforeArrow c false c)
    (hopen : (c.token.kind == .punct "(") = false) (hangle : (c.token.kind == .punct "<") = false)
    (start : Nat) (isAsync : Bool) : Gives (r.plainArrow? ctx start isAsync) c none c := by
  refine hbefore.bind (atPunct_bind.mpr (atPunct_bind.mpr ?_))
  rw [hopen, hangle, Bool.and_false, Bool.or_false]
  exact .pure _

theorem nameBeforeArrow_of_reserved {name : String} (hkind : c.token.kind = .word name false)
    (hname : name ∈ reservedWords) : Gives nameBeforeArrow c false c := by
  have hreserved : reservedWords.contains name = true := List.contains_iff_mem.mpr hname
  refine kind_bind.mpr ?_
  rw [hkind]
  refine following_bind.mpr ?_
  rw [hreserved, Bool.not_true, Bool.false_and, Bool.false_and]
  exact .pure _

end Arrows

end Rules

end Recompose.Script
