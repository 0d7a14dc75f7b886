import Recompose.Proofs.Script.Logic

/-!
# Names, templates and the rules in use

What the constructs of the grammar rely on: that the rules for their parts read
nested trees (`Rules.Sound`). The parsers for names, comma expressions and
templates are the first that are shown to do so.
-/

namespace Recompose.Script

open Recompose.Script.Parser

variable {text : List Char}

/-! ## Single tokens -/

theorem leads_leaf {E : Failure → Prop} {k : Kind} {c : Cursor} (hc : c.Sound text)
    (hk : k.closes [] = true) :
    Leads E (· = c) (do advance; pure (.leaf k c.token.span) : Parser Tree)
      fun t => Passage text true c [t] := by
  refine .afterAdvance (.pure ?_)
  rintro _ rfl
  exact .leaf hc hk

theorem readsOne_bindingName : ReadsOne text bindingName := by
  intro c hc
  have : MayFail (· = c) (Failure.Within text c) := hc.mayFail
  refine .kind ?_
  split
  · refine .ite .unexpected_bind ?_
    exact .get (leads_leaf hc rfl)
  · exact .unexpected

theorem yields_bindingName : Yields bindingName (·.kind.isBinding = true) := by
  refine .whatever fun k => ?_
  split
  · refine .ite .unexpected_bind (.whatever fun c => .whatever fun _ => .pure fun _ _ => rfl)
  · exact .unexpected

theorem yields_propertyName :
    Yields propertyName fun t => t.isKey = true ∧ t.kind.isBinding = true := by
  refine .whatever fun k => ?_
  split
  · exact .whatever fun c => .whatever fun _ => .pure fun _ _ => ⟨rfl, rfl⟩
  · exact .unexpected

theorem readsOne_propertyName : ReadsOne text propertyName := by
  intro c hc
  have : MayFail (· = c) (Failure.Within text c) := hc.mayFail
  refine .kind ?_
  split
  · exact .get (leads_leaf hc rfl)
  · exact .unexpected

theorem readsOne_stringLiteral : ReadsOne text stringLiteral := by
  intro c hc
  have : MayFail (· = c) (Failure.Within text c) := hc.mayFail
  refine .kind ?_
  split
  · exact .get (leads_leaf hc rfl)
  · exact .unexpected

/-- A loop that collects no trees. -/
theorem skips_loop {σ β : Type} {step : σ → Parser (Step σ β)} (h : ∀ s, Skips text false (step s))
    (limit : Nat) (s : σ) : Skips text false (loop limit step s) := by
  refine .of_leads fun c => ?_
  refine .loop (fun _ => Passage text false c []) (fun _ h => h) fun s => ?_
  refine (h s).leads.post fun next _ hpass => ?_
  cases next <;> exact hpass

theorem skips_dottedNames (limit : Nat) : Skips text false (dottedNames limit) := by
  refine skips_loop (fun _ => .of_leads fun c => ?_) limit ()
  refine .skip (skips_eat _) fun _ => .ite ?_ (.pure fun _ h => h)
  exact .pass readsOne_propertyName.skips fun _ => .pure fun _ h => h.weaken

/-! ## Templates -/

/-- The substitutions of a template are read in their order. -/
theorem reads_template {p : Parser Tree} (h : ReadsOne text p) (limit : Nat) :
    Reads text true id (template limit p) := by
  intro c hc
  refine .get ?_
  -- Between two substitutions, the place counts at which the text goes on; the cursor is
  -- only where a failure stops.
  refine .loop (fun (s : List Tree × Nat × List Char) c' =>
    Passage text false c [] c' ∧
      Rest text s.2.1 s.2.2 ∧ Passage text true c s.1.reverse (Cursor.start s.2.1 s.2.2))
    ?_ ?_
  · rintro _ rfl
    exact ⟨.refl hc, hc.after, .advance hc⟩
  rintro ⟨parts, pos, cs⟩
  refine .fix fun c₁ ⟨hcursor, hrest, hpass⟩ => ?_
  simp only
  split
  · refine .blame ?_
    rintro _ rfl
    exact hcursor.blame (.of_boundaries (Nat.le_add_right_of_le hc.start_le) ⟨_, hc.here⟩
      ⟨[], hc.after.toEnd⟩)
  · rename_i stop rest hread
    have hstop := hpass.restart hrest (advances_readTemplateText? hread)
    refine .set (.pure ?_)
    rintro _ rfl
    exact hstop
  · rename_i stop rest hread
    have hstop := hpass.restart hrest (advances_readTemplateText? hread)
    refine .set ?_
    refine .mono ?_ (fun c heq => heq ▸ hstop : ∀ c, c = _ → Passage text true _ parts.reverse c)
    refine h.bind fun tree => .peek fun _ => .ite ?_ .unexpected_bind
    refine .fix fun c₂ hc₂ => .get (.pure ?_)
    rintro _ rfl
    exact ⟨hc₂.drop.weaken, hc₂.sound.after, hc₂.next.push⟩

/-! ## The rules for parts -/

/-- A markup element leaves the cursor on its last token. -/
def ReadsElement (text : List Char) (p : Parser Tree) : Prop :=
  ∀ c, c.Sound text →
    Leads (Failure.Within text c) (· = c) p fun t c' =>
      Passage text false c [] c' ∧ Passage text true c [t] c'.next

/-- All rules read nested trees. -/
structure Rules.Sound (text : List Char) (r : Rules) : Prop where
  assignment : ∀ c, ReadsOne text (r.assignment c)
  operand : ∀ c, ReadsOne text (r.operand c)
  constructed : ∀ c, ReadsOne text (r.constructed c)
  element : ∀ c, ReadsElement text (r.element c)
  pattern : ∀ c, ReadsOne text (r.pattern c)
  binding : ∀ c, Yields (r.pattern c) (·.kind.isBinding = true)
  statement : ∀ c, ReadsOne text (r.statement c)
  typeExpr : ∀ c, ReadsOne text (r.typeExpr c)

theorem Rules.sound_refusing (dialect : Dialect) (limit : Nat) :
    (Rules.refusing dialect limit).Sound text where
  assignment _ _ hc := hc.unexpected
  operand _ _ hc := hc.unexpected
  constructed _ _ hc := hc.unexpected
  element _ _ hc := hc.unexpected
  pattern _ _ hc := hc.unexpected
  binding _ := .unexpected
  statement _ _ hc := hc.unexpected
  typeExpr _ _ hc := hc.unexpected

namespace Rules.Sound

variable {r : Rules}

theorem expression (hr : r.Sound text) (ctx : Context) : ReadsOne text (r.expression ctx) := by
  intro c hc
  refine .position (.enter hc ?_)
  refine (hr.assignment ctx).bind fun first => .peek fun _ => .ite ?_ (.pure fun _ h => h)
  refine .bind (R := fun ts => Passage text true c ts) ?_ fun ts => .node rfl .rfl
  refine .loop (fun items : List Tree => Passage text true c items.reverse) (fun _ h => h) ?_
  intro items
  refine .eats (.ifTrue ?_) (.ifFalse (.pure fun _ h => h))
  exact (hr.assignment ctx).bind fun t => .pure fun _ h => h.push

end Rules.Sound

end Recompose.Script
