import Recompose.Proofs.Excerpts.Repeating
import Recompose.Proofs.Script.Operands

/-!
# Patterns and function bodies of an excerpt

Rules of plain scripts, without types and markup, that repeat what other rules read of an
excerpt (`Rules.RepeatedBy`), and what is made of them for patterns, parameters and bodies.
The contexts of both may differ in anything but whether `in` is an operator.
-/

namespace Recompose.Script

/-! ## Without types -/

namespace Rules

variable {r : Rules} (hplain : r.dialect = {}) {ctx : Context} {c : Cursor}
include hplain

theorem eatMark_of_plain {text : String} : Gives (r.eatMark text) c false c := by
  unfold eatMark
  rw [hplain]
  exact .pure _

theorem typeAscription?_of_plain : Gives (r.typeAscription? ctx) c [] c :=
  (eatMark_of_plain hplain).bind (.pure _)

theorem returnType?_of_plain : Gives (r.returnType? ctx) c [] c :=
  (eatMark_of_plain hplain).bind (.pure _)

theorem optionalTypeParameters_of_plain : Gives (r.optionalTypeParameters ctx) c [] c := by
  unfold optionalTypeParameters
  rw [hplain]
  exact .pure _

end Rules

/-! ## Repeated rules -/

/-- Punctuation in front of which a target ends, whose default may follow. -/
def targetEnds : List String := "=" :: itemEnds

/-- What is an expression up to a cursor is a target, too, up to another one, and from
there on its default, if it has one. -/
structure Rules.ReadsTarget (r : Rules) (c m d : Cursor) : Prop where
  pattern : ∀ ctx, Reaches (r.pattern ctx) c m
  whole : m.token.kind ≠ .punct "=" → d = m
  default : m.token.kind = .punct "=" → ∀ {ctx : Context}, ctx.allowIn = true →
    Reaches (r.assignment ctx) m.next d

/-- Rules for the parts of constructs that give in the whole text what others give for an
excerpt of it. -/
structure Rules.RepeatedBy (e : Excerpt) (r r' : Rules) : Prop where
  plain : r.dialect = {}
  plain' : r'.dialect = {}
  positive : 0 < r.limit
  limit : r.limit ≤ r'.limit
  needs : r.NeedTokens
  begins : ∀ {ctx : Context} {c d : Cursor}, Reaches (r.assignment ctx) c d →
    c.token.kind.isAnyPunct [")", "..."] = false
  /-- The word `let` alone is no expression. -/
  goesOn_let : ∀ {ctx : Context} {c d : Cursor}, Reaches (r.assignment ctx) c d →
    c.token.kind = .word "let" false → c.next.token.kind ≠ .done
  assignment : ∀ {ctx ctx' : Context} {c c' : Cursor}, ctx'.allowIn = ctx.allowIn → e.At c c' →
    e.RepeatsOne (r.assignment ctx) (r'.assignment ctx') c c'
  operand : ∀ {ctx ctx' : Context} {c c' : Cursor}, ctx'.allowIn = ctx.allowIn → e.At c c' →
    e.RepeatsOne (r.operand ctx) (r'.operand ctx') c c'
  constructed : ∀ {ctx ctx' : Context} {c c' : Cursor}, ctx'.allowIn = ctx.allowIn → e.At c c' →
    e.RepeatsOne (r.constructed ctx) (r'.constructed ctx') c c'
  pattern : ∀ {ctx ctx' : Context} {c c' : Cursor}, ctx'.allowIn = ctx.allowIn → e.At c c' →
    e.RepeatsOne (r.pattern ctx) (r'.pattern ctx') c c'
  statement : ∀ {ctx ctx' : Context} {c c' : Cursor}, ctx'.allowIn = ctx.allowIn → e.At c c' →
    e.RepeatsOne (r.statement ctx) (r'.statement ctx') c c'
  /-- An expression of the excerpt is read in any other context that treats `in` the same. -/
  anyContext : ∀ {ctx ctx' : Context} {c c' d : Cursor}, ctx'.allowIn = ctx.allowIn → e.At c c' →
    Reaches (r.assignment ctx) c d → Reaches (r.assignment ctx') c d
  /-- An expression of the excerpt that is a target in the whole text is one in the excerpt. -/
  target : ∀ {ctx ctx' : Context} {c c' d m' : Cursor}, ctx.allowIn = true → e.At c c' →
    Reaches (r.assignment ctx) c d → Reaches (r'.pattern ctx') c' m' →
    m'.token.kind.isAnyPunct targetEnds = true → ∃ m, e.At m m' ∧ r.ReadsTarget c m d

namespace Rules.RepeatedBy

open Excerpt
open Recompose.Script.Parser (Step)

variable {e : Excerpt} {r r' : Rules} (hr : r.RepeatedBy e r') {ctx ctx' : Context} {c c' : Cursor}

/-! ## Names and keys -/

theorem bindingName (h : e.At c c') : e.RepeatsOne Parser.bindingName Parser.bindingName c c' := by
  refine .of_needsToken .bindingName fun hkind => .kind h hkind (fun _ _ => .unexpected) ?_
  split
  · exact .ite (fun _ => .unexpected_bind) fun _ => .get (.leaf h hkind _)
  · exact .unexpected

include hr

theorem propertyKey (h : e.At c c') :
    e.RepeatsOne (r.propertyKey ctx) (r'.propertyKey ctx') c c' := by
  refine .of_needsToken (needsToken_propertyKey ctx) fun hkind => ?_
  refine .get (.kind h hkind (fun _ _ => .unexpected) ?_)
  split
  · exact .leaf h hkind _
  · exact .leaf h hkind _
  · exact .leaf h hkind _
  · exact .leaf h hkind _
  · rw [h.span hkind]
    refine .advance h hkind fun d d' h => .bind (hr.assignment rfl h) fun key d d' h => ?_
    exact .expect h fun _ d d' h => .node h rfl
  · exact .unexpected

/-! ## Patterns -/

theorem withDefault (h : e.At c c') (start : Nat) (t : Tree) :
    e.RepeatsOne (r.withDefault ctx start t)
      (r'.withDefault ctx' (start + e.offset) (t.shift e.offset)) c c' := by
  refine .eat h (.inl rfl) (fun _ d d' h => .ifTrue ?_) fun _ => .ifFalse (.pure h rfl)
  exact .bind (hr.assignment rfl h) fun value d d' h => .node h rfl

theorem patternElement (hctx : ctx'.allowIn = ctx.allowIn) (h : e.At c c') :
    e.RepeatsOne (r.patternElement ctx) (r'.patternElement ctx') c c' := by
  refine .of_needsToken (.position fun _ => (hr.needs.pattern ctx).bind) fun hkind => ?_
  refine .position h hkind (.bind (hr.pattern hctx h) fun t d d' h => ?_)
  exact hr.withDefault h _ t

theorem patternRest (hctx : ctx'.allowIn = ctx.allowIn) (h : e.At c c') :
    e.RepeatsOne (r.patternRest ctx) (r'.patternRest ctx') c c' := by
  refine .of_needsToken (.position fun _ => (NeedsToken.expect _).bind) fun hkind => ?_
  refine .position h hkind (.expect h fun _ d d' h => ?_)
  exact .bind (hr.pattern hctx h) fun inner d d' h => .node h rfl

theorem patternProperty (hctx : ctx'.allowIn = ctx.allowIn) (h : e.At c c') :
    e.RepeatsOne (r.patternProperty ctx) (r'.patternProperty ctx') c c' := by
  refine .of_needsToken ?_ fun hkind => ?_
  · exact .atPunct (.position fun _ => (needsToken_propertyKey ctx).bind) _
  refine .atPunct h (.inl rfl) (.ite (fun _ => hr.patternRest hctx h) fun _ => ?_)
  refine .position h hkind (.bind (hr.propertyKey h) fun key d d' h => ?_)
  refine .eat h (.inl rfl) (fun _ d d' h => .ifTrue ?_) fun _ => .ifFalse ?_
  · exact .bind (hr.patternElement hctx h) fun value d d' h => .node h rfl
  rw [Tree.kind_shift]
  split
  · refine .eat h (.inl rfl) (fun _ d d' h => .ifTrue ?_) fun _ => .ifFalse (.node h rfl)
    exact .bind (hr.assignment rfl h) fun value d d' h => .node h rfl
  · exact .unexpected

theorem patternItem (hctx : ctx'.allowIn = ctx.allowIn) (h : e.At c c') :
    e.RepeatsOne (r.patternItem ctx) (r'.patternItem ctx') c c' :=
  .atPunct h (.inl rfl) (.ite (fun _ => hr.patternRest hctx h) fun _ => hr.patternElement hctx h)

omit hr in
/-- The elements of an array or its pattern, of which some may be left out. -/
theorem elements {limit limit' : Nat} (hlimit : limit ≤ limit') {item item' : Parser Tree}
    (hitem : ∀ d d', e.At d d' → e.RepeatsOne item item' d d') (h : e.At c c') :
    e.RepeatsMany (Parser.loop limit (elementStep item) []) (Parser.loop limit' (elementStep item') [])
      c c' := by
  refine .loop (u := List.map (Tree.shift e.offset)) hlimit (fun items d d' h => ?_) h []
  refine .eat h (.inl rfl) (fun _ d d' h => .ifTrue (.pure h ?_)) fun _ => .ifFalse ?_
  · simp [Step.map]
  refine .atPunct h (.inl rfl) (.ite (fun hcomma => ?_) fun _ => ?_)
  · have hkind : d.token.kind ≠ .done := TokenKind.ne_done_of_punct (eq_of_beq hcomma)
    exact .position h hkind (.advance h hkind fun d d' h => .pure h rfl)
  refine .bind (hitem d d' h) fun t d d' h => .eat h (.inl rfl) (fun _ d d' h => ?_) fun _ => ?_
  · exact .ifTrue (.pure h (by simp [Step.map]))
  · exact .ifFalse (.expect h fun _ d d' h => .pure h rfl)

theorem bindingPattern (hctx : ctx'.allowIn = ctx.allowIn) (h : e.At c c') :
    e.RepeatsOne (r.bindingPattern ctx) (r'.bindingPattern ctx') c c' := by
  refine .of_needsToken (needsToken_bindingPattern ctx) fun hkind => ?_
  refine .position h hkind (.kind h hkind (fun _ _ => bindingName h) ?_)
  split
  · refine .advance h hkind fun d d' h => ?_
    refine .bind (elements hr.limit (fun _ _ h => hr.patternItem hctx h) h) fun ts d d' h => ?_
    exact .node h rfl
  · refine .advance h hkind fun d d' h => ?_
    refine .bind (.commaSeparated hr.limit rfl (fun _ _ h => hr.patternProperty hctx h) h)
      fun ts d d' h => ?_
    exact .node h rfl
  · exact bindingName h

theorem expression (hctx : ctx'.allowIn = ctx.allowIn) (h : e.At c c') :
    e.RepeatsOne (r.expression ctx) (r'.expression ctx') c c' := by
  refine .of_needsToken (needsToken_expression ctx hr.needs) fun hkind => ?_
  refine .position h hkind (.bind (hr.assignment hctx h) fun first d d' h => ?_)
  refine .atPunct h (.inl rfl) (.ite (fun _ => ?_) fun _ => .pure h rfl)
  refine .bind (f := List.map (Tree.shift e.offset)) (.loop (u := List.map (Tree.shift e.offset)) hr.limit (fun items d d' h => ?_) h [first])
    fun all d d' h => .node h rfl
  refine .eat h (.inl rfl) (fun _ d d' h => .ifTrue ?_) fun _ => .ifFalse (.pure h ?_)
  · exact .bind (hr.assignment hctx h) fun a d d' h => .pure h rfl
  · rw [← List.map_reverse]
    rfl

/-! ## Parameters -/

omit hr in
/-- Fields are declared by parameters only where there are types. -/
theorem parameterWords_stays (hplain : r.dialect = {}) {ofArrow : Bool} {u : Unit} {d : Cursor}
    (hrun : Gives (r.parameterWords ofArrow) c u d) :
    d = c ∧ ∀ r' : Rules, r'.dialect = {} → r.limit ≤ r'.limit → ∀ c',
      Gives (r'.parameterWords ofArrow) c' () c' := by
  cases ofArrow with
  | true =>
      cases hrun
      exact ⟨rfl, fun _ _ _ _ => .pure _⟩
  | false =>
      have hgives : ∀ r' : Rules, r'.dialect = {} → 0 < r'.limit → ∀ c',
          Gives (r'.parameterWords false) c' () c' := by
        intro r' hplain' hlimit' c'
        refine .loop hlimit' (Gives.following_bind.mpr ((Gives.atAnyWord _).bind ?_))
        rw [hplain']
        exact .pure _
      have hlimit : 0 < r.limit := by
        refine Nat.pos_of_ne_zero fun hzero => ?_
        unfold Rules.parameterWords Rules.skipFieldModifiers at hrun
        rw [hzero] at hrun
        cases hrun
      exact ⟨((hgives r hplain hlimit c).unique hrun).2.symm,
        fun r' hplain' hle c' => hgives r' hplain' (Nat.lt_of_lt_of_le hlimit hle) c'⟩

theorem parameterWords (h : e.At c c') (ofArrow : Bool) :
    e.Repeats id (r.parameterWords ofArrow) (r'.parameterWords ofArrow) c c' := by
  intro u d hrun
  obtain ⟨rfl, hgives⟩ := parameterWords_stays hr.plain hrun
  exact ⟨c', hgives r' hr.plain' hr.limit c', h⟩

theorem restParameter (hctx : ctx'.allowIn = ctx.allowIn) (h : e.At c c') (start : Nat)
    (ofArrow : Bool) :
    e.RepeatsOne (r.restParameter ctx start ofArrow)
      (r'.restParameter ctx' (start + e.offset) ofArrow) c c' := by
  refine .bind (hr.pattern hctx h) fun t d d' h => ?_
  refine .gives (typeAscription?_of_plain hr.plain) (typeAscription?_of_plain hr.plain') ?_
  refine .spanFrom h (.atPunct h (.inl rfl) (.ite (fun _ => .pure h ?_) fun _ => .unexpected_bind))
  rw [Tree.span_shift, ← apply_ite (Span.shift · e.offset), Tree.shift_node, List.map_singleton,
    Tree.shift_node, List.map_singleton]

theorem needsToken_parameterBinding (ctx : Context) :
    NeedsToken (r.parameterBinding ctx r.dialect.typescript) := by
  refine .atWord ?_ _
  rw [Bool.and_false]
  exact hr.needs.pattern ctx

theorem parameterBinding (hctx : ctx'.allowIn = ctx.allowIn) (h : e.At c c') :
    e.RepeatsOne (r.parameterBinding ctx r.dialect.typescript)
      (r'.parameterBinding ctx' r'.dialect.typescript) c c' := by
  refine .of_needsToken (hr.needsToken_parameterBinding ctx) fun hkind => ?_
  rw [hr.plain, hr.plain']
  exact .atWord h (.inr hkind) (hr.pattern hctx h)

theorem parameter (h : e.At c c') (ofArrow : Bool) :
    e.RepeatsOne (r.parameter ctx ofArrow) (r'.parameter ctx' ofArrow) c c' := by
  refine .of_needsToken ?_ fun hkind => .position h hkind ?_
  · refine .position fun _ => .eat (.through ?_ fun _ => .bind (hr.needsToken_parameterBinding _)) _
    exact fun _ _ _ _ hrun => (parameterWords_stays hr.plain hrun).1
  refine .eat h (.inl rfl) (fun _ d d' h => .ifTrue (hr.restParameter (by rfl) h _ _)) fun _ =>
    .ifFalse ?_
  refine .bind (hr.parameterWords h ofArrow) fun _ d d' h => ?_
  refine .bind (hr.parameterBinding (by rfl) h) fun t d d' h => ?_
  refine .gives (eatMark_of_plain hr.plain) (eatMark_of_plain hr.plain') ?_
  refine .gives (typeAscription?_of_plain hr.plain) (typeAscription?_of_plain hr.plain') ?_
  dsimp only
  rw [show (t.shift e.offset).extend [] = (t.extend []).shift e.offset from Tree.extend_shift _ t []]
  refine .bind (hr.withDefault h _ _) fun full d d' h => .spanFrom h (.pure h ?_)
  simp [Tree.shift_node]

theorem parameters (h : e.At c c') (ofArrow : Bool) :
    e.RepeatsMany (r.parameters ctx ofArrow) (r'.parameters ctx' ofArrow) c c' :=
  .expect h fun _ _ _ h => .commaSeparated hr.limit rfl (fun _ _ h => hr.parameter h ofArrow) h

/-! ## Bodies -/

theorem statementsInBraces (hctx : ctx'.allowIn = ctx.allowIn) (h : e.At c c') :
    e.RepeatsMany (r.statementsInBraces ctx) (r'.statementsInBraces ctx') c c' := by
  refine .expect h fun _ d d' h => ?_
  refine .loop (u := List.map (Tree.shift e.offset)) hr.limit (fun items d d' h => ?_) h []
  refine .eat h (.inl rfl) (fun _ d d' h => .ifTrue (.pure h ?_)) fun _ => .ifFalse ?_
  · simp [Step.map]
  · exact .bind (hr.statement hctx h) fun t d d' h => .pure h rfl

theorem blockStatement (hctx : ctx'.allowIn = ctx.allowIn) (h : e.At c c') :
    e.RepeatsOne (r.blockStatement ctx) (r'.blockStatement ctx') c c' := by
  refine .of_needsToken (.position fun _ => (NeedsToken.expect _).bind.bind) fun hkind => ?_
  exact .position h hkind (.bind (hr.statementsInBraces hctx h) fun ts d d' h => .node h rfl)

theorem functionRest (h : e.At c c') (isGenerator bodyNeeded bodyNeeded' : Bool) :
    e.RepeatsMany (r.functionRest isGenerator bodyNeeded) (r'.functionRest isGenerator bodyNeeded')
      c c' := by
  refine .gives (optionalTypeParameters_of_plain hr.plain) (optionalTypeParameters_of_plain hr.plain') ?_
  refine .bind (hr.parameters h false) fun params d d' h => ?_
  refine .gives (returnType?_of_plain hr.plain) (returnType?_of_plain hr.plain') ?_
  refine .gives (.pure _) (.pure _) ?_
  -- Without types, a body must follow whatever stands here.
  rw [hr.plain, hr.plain', Bool.not_false, Bool.or_true, Bool.or_true]
  refine .ifTrue (.bind (hr.blockStatement (by rfl) h) fun body d d' h => .pure h ?_)
  simp only [List.map_append, List.map_singleton, List.append_nil]

end Rules.RepeatedBy

end Recompose.Script
