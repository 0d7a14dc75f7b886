import Recompose.Proofs.Excerpts.Arrows

/-!
# Expressions of an excerpt

Behind its operands, an expression of the excerpt goes on in the whole text as it does
alone. Where the excerpt is over, it ends in both: the token behind it goes on with
nothing.
-/

namespace Recompose.Script

theorem Excerpt.Repeats.operatorHere {e : Excerpt} {β : Type} {g : β → β} {c c' : Cursor}
    {k k' : Option String → Parser β} (h : e.At c c') (hkind : c.token.kind ≠ .done)
    (hk : ∀ op?, (∀ op ∈ op?, e.At (.start (c.token.span.start + op.length) (c.here.drop op.length))
      (.start (c'.token.span.start + op.length) (c'.here.drop op.length))) →
        e.Repeats g (k op?) (k' op?) c c') :
    e.Repeats g (Rules.operatorHere >>= k) (Rules.operatorHere >>= k') c c' := by
  intro b d hrun
  obtain ⟨op?, m, hop, hrest⟩ := hrun.of_bind
  obtain ⟨rfl, hop', hskip⟩ := h.operatorHere hkind hop
  obtain ⟨d', hrest', hd⟩ := hk op? hskip b d hrest
  exact ⟨d', hop'.bind hrest', hd⟩

theorem Rules.reaches_joined (start : Nat) (operands : List Tree) (c : Cursor) :
    Reaches (Rules.joined start operands) c c := by
  unfold Rules.joined
  split
  · exact .pure _
  · exact .node _ _ _

namespace Rules.RepeatedBy

open Excerpt
open Recompose.Script.Parser (Step)

variable {e : Excerpt} {r r' : Rules} (hr : r.RepeatedBy e r') {ctx ctx' : Context} {c c' : Cursor}

/-! ## Operands -/

section

variable (hctx : ctx'.allowIn = ctx.allowIn) (h : e.At c c')
include hr hctx h

theorem primary : e.RepeatsOne (r.primary ctx) (r'.primary ctx') c c' := by
  refine .of_needsToken (needsToken_primary ctx) fun hkind => ?_
  refine .get (.kind h hkind (fun _ _ => .unexpected) ?_)
  rw [h.span hkind, hr.plain, hr.plain']
  split
  case h_4 =>
    refine .advance h hkind fun d d' h => .atWord h (.inl rfl) (.ite (fun _ => .pure h rfl) fun _ => ?_)
    exact .unexpected_bind
  case h_5 =>
    refine .advance h hkind fun d d' h => .bind (hr.expression rfl h) fun inner d d' h => ?_
    exact .expect h fun _ d d' h => .node h rfl
  case h_6 => exact hr.arrayLiteral h
  case h_7 => exact hr.objectLiteral h
  case h_8 heq => exact hr.templateLiteral h heq
  case h_9 heq => exact regexLiteral h (by rw [heq]; rfl)
  case h_10 heq => exact regexLiteral h (by rw [heq]; rfl)
  case h_11 => exact .unexpected
  case h_12 => exact hr.functionFrom h _ _ _ _
  case h_13 => exact hr.classFrom hctx h _ _
  case h_18 =>
    refine .following (.advance h hkind fun d d' h' => ?_)
    rw [(h.next hkind).word_inLine]
    exact .ite (fun _ => hr.functionFrom h' _ _ _ _) fun _ => .pure h' rfl
  case h_19 =>
    refine .ite (fun _ => .unexpected_bind) fun _ => .advance h hkind fun d d' h => .pure h rfl
  case h_20 => exact .unexpected
  all_goals exact .advance h hkind fun d d' h => .pure h rfl

omit hctx in
theorem keywordOperand (hkind : c.token.kind ≠ .done) (name : String) :
    e.RepeatsOne (r.keywordOperand ctx name) (r'.keywordOperand ctx' name) c c' := by
  refine .get ?_
  rw [h.span hkind]
  refine .advance h hkind fun d d' h => .atPunct h (.inl rfl) (.ite (fun _ => ?_) fun _ => ?_)
  · exact .bind (hr.arguments h) fun args d d' h => .node h rfl
  refine .eat h (.inl rfl) (fun _ d d' h => .ifTrue ?_) fun _ => .ifFalse (.ite (fun _ => ?_) fun _ => ?_)
  · exact .bind (accessedName h) fun _ d d' h => .node h rfl
  · refine .expect h fun _ d d' h => .bind (hr.expression rfl h) fun key d d' h => ?_
    exact .expect h fun _ d d' h => .node h rfl
  · exact .unexpected

end

/-! ## Chains -/

/-- A chain that stands the same in a text further on. -/
def shiftChain (k : Nat) (state : Chain) : Chain := (state.1.shift k, state.2)

section

variable (h : e.At c c') (start : Nat) (tree : Tree) (optional : Bool)
include h

theorem access (key : Tree) :
    e.Repeats (Step.map (shiftChain e.offset) (Tree.shift e.offset))
      (Rules.access start tree optional key)
      (Rules.access (start + e.offset) (tree.shift e.offset) optional (key.shift e.offset)) c c' := by
  refine .bind (.node h rfl) fun inner d d' h => .ite (fun _ => ?_) fun _ => .pure h rfl
  exact .bind (.node h rfl) fun wrapped d d' h => .pure h rfl

theorem call (args : List Tree) :
    e.Repeats (Step.map (shiftChain e.offset) (Tree.shift e.offset))
      (Rules.call start tree optional args)
      (Rules.call (start + e.offset) (tree.shift e.offset) optional (args.map (Tree.shift e.offset)))
      c c' :=
  .bind (.node h rfl) fun _ _ _ h => .pure h rfl

end

include hr

theorem computedKey (h : e.At c c') : e.RepeatsOne (r.computedKey ctx) (r'.computedKey ctx') c c' := by
  refine .of_needsToken (.position fun _ => (NeedsToken.expect _).bind) fun hkind => ?_
  refine .position h hkind (.expect h fun _ d d' h => .bind (hr.expression rfl h) fun key d d' h => ?_)
  exact .expect h fun _ d d' h => .node h rfl

theorem optionalLink (h : e.At c c') (start : Nat) (tree : Tree) :
    e.Repeats (Step.map (shiftChain e.offset) (Tree.shift e.offset)) (r.optionalLink ctx start tree)
      (r'.optionalLink ctx' (start + e.offset) (tree.shift e.offset)) c c' := by
  have haccess : e.Repeats (Step.map (shiftChain e.offset) (Tree.shift e.offset))
      (Rules.accessedName >>= Rules.access start tree true)
      (Rules.accessedName >>= Rules.access (start + e.offset) (tree.shift e.offset) true) c c' :=
    .bind (accessedName h) fun key d d' h => access h start tree true key
  refine .of_needsToken (.kind NeedsToken.accessedName.bind) fun hkind => ?_
  refine .kind h hkind (fun _ _ => haccess) ?_
  rw [hr.plain, hr.plain']
  split
  · exact .bind (hr.arguments h) fun args d d' h => call h start tree true args
  · exact .bind (hr.computedKey h) fun key d d' h => access h start tree true key
  · exact .unexpected
  · exact .unexpected
  · exact haccess

theorem chainStep (h : e.At c c') (start : Nat) (calls : Bool) (state : Chain) :
    e.Repeats (Step.map (shiftChain e.offset) (Tree.shift e.offset))
      (r.chainStep ctx start calls state)
      (r'.chainStep ctx' (start + e.offset) calls (shiftChain e.offset state)) c c' := by
  obtain ⟨tree, chained⟩ := state
  by_cases hkind : c.token.kind = .done
  · have hends := (h.resumes hkind).ends.endsValue.endsOperand
    have hdone := (Cursor.ends_of_kind (.inl hkind)).endsValue.endsOperand
    exact .of_gives h (chainStep_of_ends hdone ..) (chainStep_of_ends hends ..)
  refine .kind h hkind (fun _ _ => .pure h rfl) ?_
  rw [hr.plain, hr.plain']
  split
  · refine .advance h hkind fun d d' h => .bind (accessedName h) fun key d d' h => ?_
    exact access h start tree chained key
  · refine .ite (fun _ => ?_) fun _ => .unexpected_bind
    exact .advance h hkind fun d d' h => hr.optionalLink h start tree
  · exact .bind (hr.computedKey h) fun key d d' h => access h start tree chained key
  · refine .ite (fun _ => ?_) fun _ => .pure h rfl
    exact .bind (hr.arguments h) fun args d d' h => call h start tree chained args
  · rename_i heq
    refine .bind (hr.templateLiteral h heq) fun quasi d d' h => ?_
    exact .bind (.node h rfl) fun tagged d d' h => .pure h rfl
  · exact .afterNewline h hkind (.pure h rfl)
  · exact .pure h rfl
  · exact .pure h rfl

theorem argumentsHere (h : e.At c c') :
    e.RepeatsMany (r.argumentsHere ctx) (r'.argumentsHere ctx') c c' :=
  .atPunct h (.inl rfl) (.ite (fun _ => hr.arguments h) fun _ => .pure h rfl)

section

variable (hctx : ctx'.allowIn = ctx.allowIn) (h : e.At c c')
include hctx h

theorem newExpression : e.RepeatsOne (r.newExpression ctx) (r'.newExpression ctx') c c' := by
  refine .of_needsToken (.position fun _ => (NeedsToken.expectWord _).bind) fun hkind => ?_
  refine .position h hkind (.expectWord h fun _ d d' h => .eat h (.inl rfl) (fun _ d d' h => ?_) fun _ => ?_)
  · exact .ifTrue (.bind (propertyName h) fun _ d d' h => .node h rfl)
  refine .ifFalse (.bind (hr.constructed hctx h) fun callee d d' h => ?_)
  exact .bind (hr.argumentsHere h) fun args d d' h => .node h rfl

theorem chainHead : e.RepeatsOne (r.chainHead ctx) (r'.chainHead ctx') c c' := by
  refine .of_needsToken (needsToken_chainHead ctx) fun hkind => ?_
  refine .atWord h (.inr hkind) (.ite (fun _ => hr.newExpression hctx h) fun _ => ?_)
  refine .atWord h (.inr hkind) (.ite (fun _ => hr.keywordOperand h hkind _) fun _ => ?_)
  refine .atWord h (.inr hkind) (.ite (fun _ => hr.keywordOperand h hkind _) fun _ => ?_)
  exact hr.primary hctx h

theorem chain : e.RepeatsOne (r.chain ctx) (r'.chain ctx') c c' := by
  refine .of_needsToken (needsToken_chain ctx) fun hkind => ?_
  refine .position h hkind (.bind (hr.chainHead hctx h) fun head d d' h => ?_)
  exact .loop hr.limit (fun s d d' h => hr.chainStep h _ true s) h (head, false)

theorem callee : e.RepeatsOne (r.callee ctx) (r'.callee ctx') c c' := by
  refine .of_needsToken (needsToken_callee ctx) fun hkind => ?_
  refine .position h hkind (.bind (hr.chainHead hctx h) fun head d d' h => ?_)
  exact .loop hr.limit (fun s d d' h => hr.chainStep h _ false s) h (head, false)

theorem prefixed : e.RepeatsOne (r.prefixed ctx) (r'.prefixed ctx') c c' := by
  refine .of_needsToken (needsToken_prefixed ctx) fun hkind => .position h hkind ?_
  have hinner : ∀ (k : Kind) (start : Nat), e.RepeatsOne
      (Parser.advance >>= fun _ => r.operand ctx >>= fun inner => Parser.node k start [inner])
      (Parser.advance >>= fun _ => r'.operand ctx' >>= fun inner =>
        Parser.node k (start + e.offset) [inner]) c c' := by
    intro k start
    refine .advance h hkind fun d d' h => .bind (hr.operand hctx h) fun inner d d' h => ?_
    exact .node h rfl
  refine .atAnyPunct h (.inr hkind) (.ite (fun _ => hinner _ _) fun _ => ?_)
  refine .atAnyWord h hkind (.ite (fun _ => hinner _ _) fun _ => ?_)
  refine .atAnyPunct h (.inr hkind) (.ite (fun _ => hinner _ _) fun _ => ?_)
  rw [hr.plain, hr.plain']
  refine .atPunct h (.inr hkind) (.bind (hr.chain hctx h) fun tree d d' h => ?_)
  -- Behind the excerpt, an operator of one operand stands on a new line.
  refine .gives (Gives.atAnyPunct _) (Gives.atAnyPunct _) (.gives (p := Parser.afterNewline) (.pure _) (.pure _) ?_)
  rw [h.isAnyPunct_inLine]
  refine .ite (fun hstep => ?_) fun _ => .pure h rfl
  refine .advance h (fun hdone => ?_) fun d d' h => .node h rfl
  rw [hdone] at hstep
  cases hstep

/-! ## Operators -/

omit hr hctx in
theorem joined (start : Nat) (operands : List Tree) :
    e.RepeatsOne (Rules.joined start operands)
      (Rules.joined (start + e.offset) (operands.map (Tree.shift e.offset))) c c' := by
  match operands with
  | [] => exact .node h rfl
  | [t] => exact .pure h rfl
  | t :: u :: ts => exact .node h (List.map_reverse (l := t :: u :: ts)).symm

theorem operandStep (start : Nat) (operands : List Tree) :
    e.Repeats (Step.map (List.map (Tree.shift e.offset)) (Tree.shift e.offset))
      (r.operandStep ctx start operands)
      (r'.operandStep ctx' (start + e.offset) (operands.map (Tree.shift e.offset))) c c' := by
  by_cases hkind : c.token.kind = .done
  · obtain ⟨t, ht⟩ := reaches_joined start operands c
    obtain ⟨t', ht'⟩ := reaches_joined (start + e.offset) (operands.map (Tree.shift e.offset)) c'
    obtain ⟨_, hsame, -⟩ := joined h start operands t c ht
    obtain ⟨rfl, -⟩ := ht'.unique hsame
    have hends := (h.resumes hkind).ends.endsValue
    have hdone := (Cursor.ends_of_kind (.inl hkind)).endsValue
    exact .of_gives h (operandStep_of_ends hdone ht) (operandStep_of_ends hends ht')
  have hwhole : e.Repeats (Step.map (List.map (Tree.shift e.offset)) (Tree.shift e.offset))
      (Rules.joined start operands >>= fun t => Pure.pure (.done t))
      (Rules.joined (start + e.offset) (operands.map (Tree.shift e.offset)) >>= fun t =>
        Pure.pure (.done t)) c c' :=
    .bind (joined h start operands) fun _ _ _ h => .pure h rfl
  have hmore : ∀ {c c' : Cursor}, e.At c c' →
      e.Repeats (Step.map (List.map (Tree.shift e.offset)) (Tree.shift e.offset))
        (r.prefixed ctx >>= fun t => Pure.pure (.more (t :: operands)))
        (r'.prefixed ctx' >>= fun t =>
          Pure.pure (.more (t :: operands.map (Tree.shift e.offset)))) c c' :=
    fun h => .bind (hr.prefixed hctx h) fun _ _ _ h => .pure h rfl
  refine .operatorHere h hkind fun op? hskip => ?_
  cases op? with
  | some op => exact .ite (fun _ => .gives rfl rfl (hmore (hskip op rfl))) fun _ => hwhole
  | none =>
      refine .atWord h (.inl rfl) (.atWord h (.inl rfl) ?_)
      rw [hctx]
      refine .ite (fun _ => .advance h hkind fun d d' h => hmore h) fun _ => ?_
      refine .atAnyWord h hkind (.afterNewline h hkind ?_)
      rw [hr.plain, hr.plain']
      exact hwhole

theorem operation : e.RepeatsOne (r.operation ctx) (r'.operation ctx') c c' := by
  refine .of_needsToken (needsToken_operation ctx) fun hkind => ?_
  refine .position h hkind (.bind (hr.prefixed hctx h) fun first d d' h => ?_)
  exact .loop hr.limit (fun operands d d' h => hr.operandStep hctx h _ operands) h [first]

theorem conditional : e.RepeatsOne (r.conditional ctx) (r'.conditional ctx') c c' := by
  refine .of_needsToken (needsToken_conditional ctx) fun hkind => ?_
  refine .position h hkind (.bind (hr.operation hctx h) fun test d d' h => ?_)
  refine .eat h (.inl rfl) (fun _ d d' h => .ifTrue ?_) fun _ => .ifFalse (.pure h rfl)
  refine .bind (hr.assignment (by rfl) h) fun yes d d' h => .expect h fun _ d d' h => ?_
  exact .bind (hr.assignment hctx h) fun no d d' h => .node h rfl

/-! ## Assignments -/

/-- Where no arrow function begins, an expression does. -/
theorem arrow {β : Type} {g : β → β} {k k' : Option Tree → Parser β}
    (hsome : ∀ t d d', e.At d d' → e.Repeats g (k (some t)) (k' (some (t.shift e.offset))) d d')
    (hread : ∀ b d, Gives (k none) c b d → ∃ j, Reaches (r.conditional ctx) c j)
    (hnone : e.Repeats g (k none) (k' none) c c') :
    e.Repeats g (r.arrow? ctx >>= k) (r'.arrow? ctx' >>= k') c c' := by
  intro b d hrun
  obtain ⟨tree?, m, harrow, hrest⟩ := hrun.of_bind
  cases tree? with
  | some tree =>
      obtain ⟨m', harrow', hm⟩ := hr.arrow?_some hctx h harrow
      obtain ⟨d', hrest', hd⟩ := hsome tree m m' hm b d hrest
      exact ⟨d', harrow'.bind hrest', hd⟩
  | none =>
      obtain ⟨rfl, -⟩ := arrow?_cases hr.plain harrow
      obtain ⟨j, hleft⟩ := hread b d hrest
      obtain ⟨d', hrest', hd⟩ := hnone b d hrest
      exact ⟨d', (hr.arrow?_none h harrow hleft).bind hrest', hd⟩

theorem assignmentExpression :
    e.RepeatsOne (r.assignmentExpression ctx) (r'.assignmentExpression ctx') c c' := by
  refine .of_needsToken (needsToken_assignmentExpression ctx) fun hkind => ?_
  refine .position h hkind (.atWord h (.inr hkind) ?_)
  rw [beq_eq_false_iff_ne.mpr h.notYield, Bool.and_false, Bool.and_false]
  refine .ifFalse (hr.arrow hctx h (fun t d d' h => .pure h rfl) (fun t d hrun => ?_) ?_)
  · obtain ⟨_, j, hleft, -⟩ := Gives.of_bind hrun
    exact ⟨j, hleft.reaches⟩
  refine .bind (hr.conditional hctx h) fun left d d' h => ?_
  by_cases hdone : d.token.kind = .done
  · obtain ⟨op?, hop, hnone⟩ := operatorHere_of_ends (h.resumes hdone).ends.endsValue
    have hend : Gives operatorHere d none d := by
      refine Gives.get_bind.mpr ?_
      rw [hdone]
      exact .pure _
    refine .gives hend hop ?_
    cases op? with
    | none => exact .pure h rfl
    | some op =>
        dsimp only
        rw [(hnone op rfl).2]
        exact .pure h rfl
  refine .operatorHere h hdone fun op? hskip => ?_
  cases op? with
  | none => exact .pure h rfl
  | some op =>
      refine .ite (fun _ => ?_) fun _ => .pure h rfl
      rw [Tree.isAssignable_shift]
      refine .ite (fun _ => ?_) fun _ => .of_fails fun _ _ => nofun
      refine .gives rfl rfl (.bind (hr.assignment hctx (hskip op rfl)) fun right d d' h => .node h ?_)
      rw [Tree.assignmentTarget_shift, ← apply_ite (Tree.shift e.offset)]
      rfl

end

end Rules.RepeatedBy

end Recompose.Script
