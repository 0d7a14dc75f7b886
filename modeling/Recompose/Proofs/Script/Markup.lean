import Recompose.Proofs.Script.Types
import Recompose.Script.Grammar.Markup

/-!
# Markup elements are nested

Between the tokens of an element there is text that is not made of tokens, so
the cursor is set anew behind it. An element ends on its last token, which is
part of its span.
-/

namespace Recompose.Script.Rules.Sound

open Recompose.Script.Parser

variable {text : List Char} {r : Rules}

/-! ## Names and attributes -/

theorem markupWord : Skips text true Rules.markupWord := by
  intro c hc
  refine .get ?_
  split
  · have hadv := advances_readMarkupName c.token.span.start c.here
    rintro _ rfl
    exact Passage.jump hc (rest_of_advances hc.here hadv) hadv.le
  · exact hc.unexpected

/-- The name is told with its place. -/
theorem placedName (limit : Nat) {c₀ : Cursor} {E : Failure → Prop} [Covers text c₀ E] {b : Bool}
    {ts : List Tree} :
    Leads E (Passage text b c₀ ts) (Rules.markupName limit) fun name c =>
      Passage text true c₀ ts c ∧ name.2.IsSlice text := by
  have hmore : Skips text false (loop limit (fun (_ : Unit) => do
      if ← atAnyPunct [".", ":"] then
        advance
        Rules.markupWord
        return .more ()
      else return Step.done ()) ()) := by
    refine skips_loop (fun _ => .of_leads fun c => .peek fun _ => .ite ?_ (.pure fun _ h => h)) _ _
    refine .pass skips_advance fun _ => .pass markupWord fun _ => .pure fun _ h => h.weaken
  refine .fix fun c h => ?_
  have : Covers text c E := h.covers
  refine .get (.enter h.sound (.pass markupWord fun _ => .skip hmore fun _ => ?_))
  refine .fix fun c' h' => .spanFrom (.pure ?_)
  rintro _ rfl
  have hall := h.trans h'
  rw [Bool.or_true, List.append_nil] at hall
  exact ⟨hall, h'.isSlice⟩

theorem markupName (limit : Nat) : Skips text true (Rules.markupName limit) :=
  .of_leads fun _ => (placedName limit).post fun _ _ h => h.1

theorem markupExpression (hr : r.Sound text) (ctx : Context) :
    Reads text true id (r.markupExpression ctx) := by
  refine .of_leads fun c => .pass (skips_expect _) fun _ => ?_
  refine .peek fun _ => .ite (.pure fun _ h => h) (.skip (skips_eat _) fun _ => ?_)
  refine (hr.expression _).bind fun inner => .peek fun _ => .ite (.pure fun _ h => h) .unexpected_bind

theorem attributeString {quote : Char} {rest : List Char} {c : Cursor} (hc : c.Sound text)
    (hquote : quote.utf8Size = 1) (hhere : c.here = quote :: rest) :
    Leads (Failure.Within text c) (· = c) (Rules.attributeString quote rest)
      (Passage text true c) := by
  refine .get ?_
  split
  · rename_i stop after hread
    have hadv : Advances c.token.span.start (quote :: rest) stop after :=
      .step (hquote.symm ▸ advances_readMarkupString? hread)
    refine .set (.pure ?_)
    rintro _ rfl
    exact .jump hc (rest_of_advances (hhere ▸ hc.here) hadv) hadv.le
  · refine .blame ?_
    rintro _ rfl
    exact (Passage.refl hc).blame
      (.of_boundaries (Nat.le_add_right ..) ⟨_, hc.here⟩ ⟨[], hc.here.toEnd⟩)

theorem attributeValue (hr : r.Sound text) (ctx : Context) :
    Reads text true id (r.attributeValue ctx) := by
  intro c hc
  have : MayFail (· = c) (Failure.Within text c) := hc.mayFail
  refine .get ?_
  split
  · rename_i hhere
    exact attributeString hc rfl hhere
  · rename_i hhere
    exact attributeString hc rfl hhere
  refine .peek fun _ => .ite ?_ (.peek fun _ => .ite ?_ .unexpected)
  · refine .enter hc ((hr.markupExpression ctx).bind fun parts => ?_)
    exact .pass skips_advance fun _ => .pure fun _ h => h
  · refine .bind (hr.element ctx c hc) fun tree => ?_
    refine .fix fun c₁ ⟨_, hpass⟩ => .afterAdvance (.pure ?_)
    rintro _ rfl
    exact hpass

theorem markupAttributes (hr : r.Sound text) (ctx : Context) :
    ReadsMany text (r.markupAttributes ctx) := by
  refine .of_leads fun c => .loop (fun parts => Passage text false c parts) (fun _ h => h) ?_
  intro parts
  refine .peek fun _ => .ite (.pure fun _ h => h) (.peek fun _ => .ite ?_ ?_)
  · refine (hr.markupExpression ctx).bind fun inner => ?_
    exact .pass skips_advance fun _ => .pure fun _ h => h.weaken
  refine .pass (markupName _) fun _ => .skip (skips_eat _) fun _ => .ite ?_ ?_
  · exact (hr.attributeValue ctx).bind fun value => .pure fun _ h => h.weaken
  · exact .pure fun _ h => h.weaken

/-! ## Elements -/

/-- Children are read from the end of one token to the start of another one. -/
theorem markupChildren (hr : r.Sound text) (ctx : Context) :
    Reads text true id (r.markupChildren ctx) := by
  intro c hc
  have hstart : ∀ c₁, c₁ = c → Passage text false c [] c₁ ∧ Passage text true c [] c₁.next := by
    rintro _ rfl
    exact ⟨.refl hc, .advance hc⟩
  refine .loop (fun parts c₁ => Passage text false c [] c₁ ∧ Passage text true c parts c₁.next)
    hstart ?_
  intro parts
  refine .fix fun c₁ ⟨h₁, hpass⟩ => .get ?_
  have hadv := advances_readMarkupText c₁.token.span.stop c₁.after
  have hstop := hpass.restart h₁.sound.after hadv
  refine .set (.mono ?_ (fun _ h => h ▸ hstop : ∀ c₂, c₂ = _ → Passage text true c parts c₂))
  refine .peek fun _ => .ite ?_ (.peek fun _ => .ite ?_ .unexpected_bind)
  · exact (hr.markupExpression ctx).bind fun inner => .pure fun _ h => ⟨h.drop.weaken, h.next⟩
  refine .peek fun _ => .ite (.pure fun _ h => h) ?_
  refine .fix fun c₂ h₂ => ?_
  have hcovers : Covers text c₂ (Failure.Within text c) := h₂.covers
  have helement := (hr.element ctx c₂ h₂.sound).ends hcovers.within fun _ _ h => h
  refine .bind helement fun child => .pure ?_
  rintro c₃ ⟨hc₃, hchild⟩
  exact ⟨(h₂.drop.trans hc₃).weaken, h₂.trans hchild⟩

theorem markupElement (hr : r.Sound text) (ctx : Context) :
    ReadsElement text (r.markupElement ctx) := by
  intro c hc
  have hfinish : ∀ {b : Bool} {ts us : List Tree}, us.Perm ts →
      Leads (Failure.Within text c) (Passage text b c ts)
      (do return .node .expression ⟨c.token.span.start, (← MonadState.get).token.span.stop⟩ us)
      fun t c' => Passage text false c [] c' ∧ Passage text true c [t] c'.next := by
    intro b ts us hperm
    refine .fix fun c₁ h₁ => .get (.pure ?_)
    rintro _ rfl
    exact ⟨h₁.drop.weaken, h₁.next.close rfl hperm⟩
  refine .position (.enter hc (.pass (skips_expect _) fun _ => .peek fun _ => .ite ?_ ?_))
  · refine (hr.markupChildren ctx).bind fun children => ?_
    refine .pass (skips_expect _) fun _ => .pass (skips_expect _) fun _ => ?_
    exact .peek fun _ => .ite (hfinish .rfl) .unexpected_bind
  refine .pass (markupName _) fun _ => .peek fun _ => ?_
  refine (readsMany_readIf (hr.typeArguments ctx) _).bind fun types => ?_
  refine (hr.markupAttributes ctx).bind fun attributes => .skip (skips_eat _) fun _ => .ite ?_ ?_
  · exact .peek fun _ => .ite (hfinish List.perm_append_comm) .unexpected_bind
  refine (hr.markupChildren ctx).bind fun children => ?_
  refine .pass (skips_expect _) fun _ => .pass (skips_expect _) fun _ => ?_
  refine .peek fun _ => .ite .unexpected_bind (.bind (placedName _) fun closing => .ite ?_ ?_)
  · refine .peek fun _ => .ite ((hfinish ?_).mono fun _ h => h.1) .unexpected_bind
    exact List.perm_append_comm.append_right children
  · exact .blame_bind fun _ h => h.1.blame h.2

end Recompose.Script.Rules.Sound
