import Recompose.Proofs.Excerpts.Expressions

/-!
# Statements of an excerpt

A statement of the excerpt may end where the excerpt does, without a semicolon: the token
behind it stands on a new line. What could only follow there begins no statement, so the
statement does not go on in the whole text.
-/

namespace Recompose.Script

namespace Rules

theorem skipAssignedMark_of_plain {r : Rules} (hplain : r.dialect = {}) {c : Cursor} :
    Gives r.skipAssignedMark c () c := by
  refine Gives.atPunct_bind.mpr ((Gives.followedByPunct _).bind ?_)
  rw [hplain]
  exact .pure _

theorem reaches_bindingMode? (c : Cursor) : Reaches bindingMode? c c := by
  refine .atWord ?_
  split
  · exact .pure _
  refine .atWord ?_
  split
  · exact .pure _
  refine .atWord ?_
  split
  · refine .following ?_
    split <;> exact .pure _
  · exact .pure _

theorem bindingMode?_of_last {c : Cursor} (hkind : c.token.kind = .word "let" false)
    (hnext : c.next.token.kind = .done) : Gives bindingMode? c none c := by
  refine Gives.atWord_bind.mpr ?_
  rw [hkind]
  refine Gives.atWord_bind.mpr ?_
  rw [hkind]
  refine Gives.atWord_bind.mpr ?_
  rw [hkind]
  refine Gives.following_bind.mpr ?_
  rw [hnext]
  exact .pure _

theorem reaches_atLabel (c : Cursor) : Reaches atLabel c c := by
  refine .kind ?_
  split
  · exact .afterNewline (.pure _)
  · exact .pure _

theorem kind_of_atLabel {c d : Cursor} (h : Gives atLabel c true d) : c.token.kind ≠ .done := by
  intro hdone
  replace h := Gives.kind_bind.mp h
  rw [hdone] at h
  cases h

theorem reaches_startsAsyncFunction (c : Cursor) : Reaches startsAsyncFunction c c :=
  .following (.atWord (.pure _))

theorem reaches_labels (c : Cursor) : Reaches labels c c := by
  refine .kind ?_
  split
  · exact .of_gives (Gives.followedByPunct _) (.pure _)
  · exact .pure _

theorem keywordStatement?_none {r : Rules} {ctx : Context} {c d : Cursor}
    (h : Gives (r.keywordStatement? ctx) c none d) : d = c := by
  replace h := Gives.kind_bind.mp h
  split at h
  case h_13 =>
    cases h
    rfl
  all_goals
    obtain ⟨_, _, -, h⟩ := h.of_bind
    cases h

theorem declaration?_none {r : Rules} {ctx : Context} {c d : Cursor}
    (h : Gives (r.declaration? ctx) c none d) : d = c := by
  have hsome : ∀ {p : Parser Tree} {c : Cursor},
      ¬ Gives (p >>= fun t => pure (some t)) c none d := by
    intro p c h
    obtain ⟨_, _, -, h⟩ := h.of_bind
    cases h
  replace h := Gives.atWord_bind.mp (Gives.position_bind.mp h)
  split at h
  · exact absurd h hsome
  replace h := Gives.atWord_bind.mp h
  split at h
  · exact absurd h hsome
  obtain ⟨told, htold⟩ := reaches_startsAsyncFunction c
  replace h := htold.of_gives_bind h
  cases told with
  | true => exact absurd (Gives.advance_bind.mp h) hsome
  | false =>
      cases h
      rfl

theorem typeDeclaration?_of_plain {r : Rules} (hplain : r.dialect = {}) {ctx : Context} {c : Cursor} :
    Gives (r.typeDeclaration? ctx) c none c := by
  unfold typeDeclaration?
  rw [hplain]
  exact .pure _

/-! A plain parser is strict. -/

section

variable {r : Rules} (hplain : r.dialect = {}) (ctx : Context)
include hplain

theorem declarators_of_plain :
    r.declarators ctx = Parser.loop r.limit (r.declaratorStep ctx) [] := by
  unfold declarators
  rw [hplain]
  rfl

theorem endDeclaration_of_plain : r.endDeclaration ctx = Parser.endStatement := by
  unfold endDeclaration
  rw [hplain]
  rfl

theorem endExpression_of_plain (start : Nat) (value : Tree) :
    r.endExpression ctx start value
      = (do Parser.endStatement; Parser.node .exprStmt start [value]) := by
  unfold endExpression
  rw [hplain]
  rfl

end

theorem labels_next {c d : Cursor} (h : Gives labels c true d) :
    c.next.token.kind.isAnyPunct [":"] = true := by
  replace h := Gives.kind_bind.mp h
  split at h
  · have hlabels := Gives.of_gives_bind (Gives.followedByPunct _) h
    obtain ⟨htold, -⟩ := (Gives.pure _).unique hlabels
    exact ((Bool.and_eq_true _ _).mp htold).2
  · cases h

end Rules

namespace Rules.RepeatedBy

open Excerpt
open Recompose.Script.Parser (Step)

variable {e : Excerpt} {r r' : Rules} (hr : r.RepeatedBy e r') {ctx ctx' : Context} {c c' : Cursor}

section

variable (hctx : ctx'.allowIn = ctx.allowIn) (h : e.At c c')
include hr hctx h

/-! ## Variables -/

theorem declarator : e.RepeatsOne (r.declarator ctx) (r'.declarator ctx') c c' := by
  refine .of_needsToken (.position fun _ => (hr.needs.pattern _).bind) fun hkind => ?_
  refine .position h hkind (.bind (hr.pattern hctx h) fun pattern d d' h => ?_)
  refine .gives (skipAssignedMark_of_plain hr.plain) (skipAssignedMark_of_plain hr.plain') ?_
  refine .gives (typeAscription?_of_plain hr.plain) (typeAscription?_of_plain hr.plain') ?_
  refine .bind (.took h (.inl rfl)) fun valued d d' h => ?_
  refine .bind (.readIf _ h fun _ => hr.assignment hctx h) fun value d d' h => .node h ?_
  rw [List.map_cons, ← Tree.extend_shift, List.map_nil]

theorem declarators : e.RepeatsMany (r.declarators ctx) (r'.declarators ctx') c c' := by
  rw [declarators_of_plain hr.plain, declarators_of_plain hr.plain']
  refine .loop (u := List.map (Tree.shift e.offset)) hr.limit (fun items d d' h => ?_) h []
  refine .bind (hr.declarator hctx h) fun t d d' h => ?_
  refine .eat h (.inl rfl) (fun _ d d' h => .ifTrue (.pure h rfl)) fun _ => .ifFalse (.pure h ?_)
  rw [← List.map_cons, ← List.map_reverse]
  rfl

end

theorem bindingMode?_same (h : e.At c c') (hkind : c.token.kind ≠ .done)
    (hlast : ¬ (c.token.kind = .word "let" false ∧ c.next.token.kind = .done))
    {mode? : Option BindingMode} (hmode : Gives bindingMode? c mode? c) :
    Gives bindingMode? c' mode? c' := by
  have hrepeats : e.Repeats id bindingMode? bindingMode? c c' := by
    refine .atWord h (.inr hkind) (.ite (fun _ => .pure h rfl) fun _ => ?_)
    refine .atWord h (.inr hkind) (.ite (fun _ => .pure h rfl) fun _ => ?_)
    refine .atWord h (.inr hkind) (.ite (fun hlet => .following ?_) fun _ => .pure h rfl)
    have hnext : c.next.token.kind ≠ .done := fun hdone => hlast ⟨eq_of_beq hlet, hdone⟩
    rw [(h.next hkind).kind hnext]
    cases c.next.token.kind with
    | word name escaped =>
        rw [show (TokenKind.word name escaped).shift e.offset = .word name escaped from rfl]
        split <;> exact .pure h rfl
    | punct text =>
        rw [show (TokenKind.punct text).shift e.offset = .punct text from rfl]
        split <;> exact .pure h rfl
    | _ => exact .pure h rfl
  exact hrepeats.same (reaches_bindingMode? c') hmode

/-- How a word declares variables, unless it is the last one of the excerpt. -/
theorem bindingMode {β : Type} {g : β → β} {k k' : Option BindingMode → Parser β} (h : e.At c c')
    (hkind : c.token.kind ≠ .done)
    (hlet : ∀ b d, Gives (k none) c b d → c.token.kind = .word "let" false →
      c.next.token.kind ≠ .done)
    (hk : ∀ mode?, e.Repeats g (k mode?) (k' mode?) c c') :
    e.Repeats g (bindingMode? >>= k) (bindingMode? >>= k') c c' := by
  intro b d hrun
  by_cases hlast : c.token.kind = .word "let" false ∧ c.next.token.kind = .done
  · replace hrun := (bindingMode?_of_last hlast.1 hlast.2).of_gives_bind hrun
    exact absurd hlast.2 (hlet b d hrun hlast.1)
  · obtain ⟨mode?, hmode⟩ := reaches_bindingMode? c
    exact Excerpt.Repeats.gives hmode (bindingMode?_same h hkind hlast hmode) (hk mode?) b d hrun

include hr

/-! ## Loops -/

section

variable (hctx : ctx'.allowIn = ctx.allowIn) (h : e.At c c') (start : Nat)
include hctx h

theorem loopSource : e.RepeatsOne (r.loopSource ctx) (r'.loopSource ctx') c c' := by
  refine .of_needsToken (.eatWord (NeedsToken.expectWord _).bind _) fun hkind => ?_
  refine .eatWord h (.inr hkind) (fun _ d d' h => .ifTrue (hr.assignment hctx h)) fun _ => .ifFalse ?_
  exact .expectWord h fun _ d d' h => hr.expression hctx h

theorem collectionLoop (head : Tree) :
    e.RepeatsOne (r.collectionLoop ctx start head)
      (r'.collectionLoop ctx' (start + e.offset) (head.shift e.offset)) c c' := by
  refine .bind (hr.loopSource hctx h) fun source d d' h => .expect h fun _ d d' h => ?_
  exact .bind (hr.statement hctx h) fun body d d' h => .node h rfl

theorem countingLoop (init : List Tree) :
    e.RepeatsOne (r.countingLoop ctx start init)
      (r'.countingLoop ctx' (start + e.offset) (init.map (Tree.shift e.offset))) c c' := by
  refine .expect h fun _ d d' h => .atPunct h (.inl rfl) ?_
  refine .bind (.readIf _ h fun _ => hr.expression hctx h) fun test d d' h => ?_
  refine .expect h fun _ d d' h => .atPunct h (.inl rfl) ?_
  refine .bind (.readIf _ h fun _ => hr.expression hctx h) fun update d d' h => ?_
  refine .expect h fun _ d d' h => .bind (hr.statement hctx h) fun body d d' h => .node h ?_
  simp only [List.map_append, List.map_cons, List.map_nil]

/-- A loop from behind what it assigns to. -/
theorem loopRest (head head₁ : Tree) (hkind : c.token.kind ≠ .done) :
    e.RepeatsOne
      (do if (← Parser.atWord "of") || (← Parser.atWord "in") then r.collectionLoop ctx start head
          else r.countingLoop ctx start [head₁])
      (do if (← Parser.atWord "of") || (← Parser.atWord "in") then
            r'.collectionLoop ctx' (start + e.offset) (head.shift e.offset)
          else r'.countingLoop ctx' (start + e.offset) [head₁.shift e.offset]) c c' := by
  refine .atWord h (.inr hkind) (.atWord h (.inl rfl) (.ite (fun _ => ?_) fun _ => ?_))
  · exact hr.collectionLoop hctx h start head
  · exact hr.countingLoop hctx h start [head₁]

end

theorem forStatement (h : e.At c c') : e.RepeatsOne (r.forStatement ctx) (r'.forStatement ctx') c c' := by
  have hrest : ∀ ctx start head head₁, NeedsToken
      (do if (← Parser.atWord "of") || (← Parser.atWord "in") then r.collectionLoop ctx start head
          else r.countingLoop ctx start [head₁]) :=
    fun ctx start head head₁ => .atWord (.atWord (NeedsToken.expect _).bind _) _
  refine .of_needsToken (.position fun _ => (NeedsToken.expectWord _).bind) fun hkind => ?_
  refine .position h hkind (.expectWord h fun _ d d' h => ?_)
  refine .of_needsToken (.eatWord (NeedsToken.expect _).bind _) fun hkind => ?_
  refine .bind (.tookWord h (.inr hkind)) fun _ d d' h => .expect h fun _ d d' h => ?_
  refine .of_needsToken (.atPunct (.position fun _ => .stays (fun _ => bindingMode?_of_done)
    (needsToken_expression _ hr.needs).bind) _) fun hkind => ?_
  refine .atPunct h (.inr hkind) (.ite (fun _ => hr.countingLoop (by rfl) h _ []) fun _ => ?_)
  refine .position h hkind (bindingMode h hkind (fun t d hrun hlet => ?_) fun mode? => ?_)
  · obtain ⟨_, _, hhead, -⟩ := hrun.of_bind
    obtain ⟨_, _, hfirst, -⟩ := (Gives.position_bind.mp hhead).of_bind
    exact hr.goesOn_let hfirst.reaches hlet
  cases mode? with
  | some mode =>
      refine .advance h hkind fun d d' h => .bind (hr.declarators (by rfl) h) fun items d d' h => ?_
      refine .bind (.node h rfl) fun head d d' h => ?_
      refine .of_needsToken (hrest _ _ _ _) fun hkind => hr.loopRest (by rfl) h _ head head hkind
  | none =>
      refine .bind (hr.expression (by rfl) h) fun head d d' h => ?_
      refine .of_needsToken (hrest _ _ _ _) fun hkind => ?_
      rw [loopTarget, loopTarget, Tree.asPattern_shift]
      exact hr.loopRest (by rfl) h _ (asPattern head) head hkind

/-! ## Branches -/

section

variable (hctx : ctx'.allowIn = ctx.allowIn) (h : e.At c c') (hkind : c.token.kind ≠ .done)
include h

theorem parenthesized : e.RepeatsOne (r.parenthesized ctx) (r'.parenthesized ctx') c c' := by
  refine .expect h fun _ d d' h => .bind (hr.expression (by rfl) h) fun inner d d' h => ?_
  exact .expect h fun _ d d' h => .pure h rfl

include hctx

theorem caughtPattern : e.RepeatsOne (r.caughtPattern ctx) (r'.caughtPattern ctx') c c' := by
  refine .bind (hr.pattern hctx h) fun pattern d d' h => ?_
  refine .gives (typeAscription?_of_plain hr.plain) (typeAscription?_of_plain hr.plain') ?_
  exact .expect h fun _ d d' h => .pure h (Tree.extend_shift _ pattern [])

theorem handlerParts : e.RepeatsMany (r.handlerParts ctx) (r'.handlerParts ctx') c c' := by
  refine .bind (.took h (.inl rfl)) fun binds d d' h => ?_
  refine .bind (.readIf _ h fun _ => hr.caughtPattern hctx h) fun param d d' h => ?_
  refine .bind (hr.blockStatement hctx h) fun body d d' h => .pure h ?_
  rw [List.map_append, List.map_singleton]

theorem finalizer : e.RepeatsMany (r.finalizer ctx) (r'.finalizer ctx') c c' := by
  refine .bind (.tookWord h (.inl rfl)) fun hasFinally d d' h => ?_
  exact .readIf _ h fun _ => hr.blockStatement hctx h

include hkind

theorem ifStatement : e.RepeatsOne (r.ifStatement ctx) (r'.ifStatement ctx') c c' := by
  refine .position h hkind (.advance h hkind fun d d' h => ?_)
  refine .bind (hr.parenthesized h) fun test d d' h => .bind (hr.statement hctx h) fun yes d d' h => ?_
  refine .bind (.tookWord h (.inl rfl)) fun hasElse d d' h => ?_
  exact .bind (.readIf _ h fun _ => hr.statement hctx h) fun no d d' h => .node h rfl

theorem whileStatement : e.RepeatsOne (r.whileStatement ctx) (r'.whileStatement ctx') c c' := by
  refine .position h hkind (.advance h hkind fun d d' h => .bind (hr.parenthesized h) fun test d d' h => ?_)
  exact .bind (hr.statement hctx h) fun body d d' h => .node h rfl

theorem doStatement : e.RepeatsOne (r.doStatement ctx) (r'.doStatement ctx') c c' := by
  refine .position h hkind (.advance h hkind fun d d' h => .bind (hr.statement hctx h) fun body d d' h => ?_)
  refine .expectWord h fun _ d d' h => .bind (hr.parenthesized h) fun test d d' h => ?_
  exact .bind (.took h (.inl rfl)) fun _ d d' h => .node h rfl

theorem switchStatement : e.RepeatsOne (r.switchStatement ctx) (r'.switchStatement ctx') c c' := by
  refine .position h hkind (.advance h hkind fun d d' h => ?_)
  refine .bind (hr.parenthesized h) fun subject d d' h => .expect h fun _ d d' h => ?_
  refine .bind (.loop (u := Prod.map (List.map (Tree.shift e.offset)) id) hr.limit
    (fun state d d' h => ?_) h ([], false)) fun cases d d' h => .node h rfl
  obtain ⟨items, inCase⟩ := state
  refine .eat h (.inl rfl) (fun _ d d' h => .ifTrue (.pure h ?_)) fun _ => .ifFalse ?_
  · show Step.done (items.map (Tree.shift e.offset)).reverse = _
    rw [← List.map_reverse]
    rfl
  refine .of_needsToken (.position fun _ => .eatWord (.eatWord ?_ _) _) fun hkind => ?_
  · cases inCase with
    | true => exact (hr.needs.statement ctx).bind
    | false => exact .unexpected
  refine .position h hkind (.eatWord h (.inl rfl) (fun _ d d' h => .ifTrue ?_) fun _ => .ifFalse ?_)
  · refine .bind (hr.expression (by rfl) h) fun test d d' h => .expect h fun _ d d' h => ?_
    exact .bind (.node h rfl) fun _ d d' h => .pure h rfl
  refine .eatWord h (.inl rfl) (fun _ d d' h => .ifTrue ?_) fun _ => .ifFalse ?_
  · exact .expect h fun _ d d' h => .pure h rfl
  refine .ite (fun _ => .unexpected) fun _ => ?_
  exact .bind (hr.statement hctx h) fun t d d' h => .pure h rfl

theorem catchClause : e.RepeatsOne (r.catchClause ctx) (r'.catchClause ctx') c c' := by
  refine .position h hkind (.advance h hkind fun d d' h => ?_)
  exact .bind (hr.handlerParts hctx h) fun parts d d' h => .node h rfl

theorem tryStatement : e.RepeatsOne (r.tryStatement ctx) (r'.tryStatement ctx') c c' := by
  refine .position h hkind (.advance h hkind fun d d' h => .bind (hr.blockStatement hctx h) fun block d d' h => ?_)
  refine .atWord h (.inl rfl) (.bind (.readIf (f := Tree.shift e.offset) _ h fun hcatch => ?_) fun handler d d' h => ?_)
  · exact hr.catchClause hctx h (TokenKind.ne_done_of_word (eq_of_beq hcatch))
  refine .bind (hr.finalizer hctx h) fun finalizer d d' h => ?_
  rw [List.isEmpty_map, List.isEmpty_map, hr.plain, hr.plain']
  refine .ite (fun _ => .unexpected_bind) fun _ => .node h ?_
  rw [List.cons_append, List.map_append, ← List.cons_append, List.map_cons]

end

/-! ## Jumps -/

theorem returnStatement (h : e.At c c') (hkind : c.token.kind ≠ .done) :
    e.RepeatsOne (r.returnStatement ctx) (r'.returnStatement ctx') c c' := by
  refine .position h hkind (.advance h hkind fun d d' h => ?_)
  refine .gives (Gives.atAnyPunct _) (Gives.atAnyPunct _) ?_
  refine .gives (p := Parser.atDone) (.pure _) (.pure _) (.gives (p := Parser.afterNewline) (.pure _) (.pure _) ?_)
  have hends : (d'.token.kind.isAnyPunct [";", "\x7d"] || d'.token.kind == .done || d'.token.afterNewline)
      = (d.token.kind.isAnyPunct [";", "\x7d"] || d.token.kind == .done || d.token.afterNewline) := by
    rw [Bool.or_assoc, Bool.or_assoc, h.ends, h.isAnyPunct (.inl ?_)]
    decide
  rw [hends]
  refine .bind (.readIf _ h fun _ => hr.expression (by rfl) h) fun value d d' h => ?_
  exact .bind (.endStatement h) fun _ d d' h => .node h rfl

theorem throwStatement (h : e.At c c') (hkind : c.token.kind ≠ .done) :
    e.RepeatsOne (r.throwStatement ctx) (r'.throwStatement ctx') c c' := by
  refine .position h hkind (.advance h hkind fun d d' h => ?_)
  refine .of_needsToken (.afterNewline fun told => ?_) fun hkind => ?_
  · cases told with
    | true => exact NeedsToken.unexpected.bind
    | false => exact (needsToken_expression _ hr.needs).bind
  refine .afterNewline h hkind (.ite (fun _ => .unexpected_bind) fun _ => ?_)
  refine .bind (hr.expression (by rfl) h) fun value d d' h => ?_
  exact .bind (.endStatement h) fun _ d d' h => .node h rfl

omit hr in
theorem atLabel_same (h : e.At c c') {told : Bool} (htold : Gives Rules.atLabel c told c) :
    Gives Rules.atLabel c' told c' := by
  have hrepeats : e.Repeats id Rules.atLabel Rules.atLabel c c' := by
    by_cases hkind : c.token.kind = .done
    · have hnone : Gives Rules.atLabel c false c := by
        refine Gives.kind_bind.mpr ?_
        rw [hkind]
        exact .pure _
      refine .of_gives h hnone (Gives.kind_bind.mpr ?_)
      split
      · rename_i name escaped hword
        refine Gives.afterNewline_bind.mpr ?_
        rw [(h.resumes hkind).newLine.resolve_right (TokenKind.ne_done_of_word hword)]
        exact .pure _
      · exact .pure _
    · refine .kind h hkind (fun _ _ => .pure h rfl) ?_
      split
      · exact .afterNewline h hkind (.pure h rfl)
      · exact .pure h rfl
  exact hrepeats.same (reaches_atLabel c') htold

omit hr in
theorem jumpStatement (h : e.At c c') (hkind : c.token.kind ≠ .done) :
    e.RepeatsOne Rules.jumpStatement Rules.jumpStatement c c' := by
  refine .position h hkind (.advance h hkind fun d d' h => ?_)
  obtain ⟨told, htold⟩ := reaches_atLabel d
  refine .gives htold (atLabel_same h htold) ?_
  have hskip : e.Repeats id (Parser.advanceIf told) (Parser.advanceIf told) d d' := by
    cases told with
    | false => exact .pure h rfl
    | true => exact advanceIf h (kind_of_atLabel htold) true
  exact .bind hskip fun _ d d' h => .bind (.endStatement h) fun _ d d' h => .node h rfl

/-! ## Declarations and labels -/

omit hr in
theorem startsAsyncFunction_same (h : e.At c c') (hkind : c.token.kind ≠ .done) {told : Bool}
    (htold : Gives Rules.startsAsyncFunction c told c) :
    Gives Rules.startsAsyncFunction c' told c' := by
  have hrepeats : e.Repeats id Rules.startsAsyncFunction Rules.startsAsyncFunction c c' := by
    refine .following (.atWord h (.inr hkind) (.pure h ?_))
    rw [Bool.and_assoc, Bool.and_assoc, (h.next hkind).word_inLine]
    rfl
  exact hrepeats.same (reaches_startsAsyncFunction c') htold

section

variable (hctx : ctx'.allowIn = ctx.allowIn) (h : e.At c c') (hkind : c.token.kind ≠ .done)
include hctx h hkind

theorem declaration? : e.Repeats (Option.map (Tree.shift e.offset)) (r.declaration? ctx)
    (r'.declaration? ctx') c c' := by
  refine .position h hkind (.atWord h (.inr hkind) (.ite (fun _ => .found (hr.functionFrom h _ _ _ _)) fun _ => ?_))
  refine .atWord h (.inr hkind) (.ite (fun _ => .found (hr.classFrom hctx h _ _)) fun _ => ?_)
  obtain ⟨told, htold⟩ := reaches_startsAsyncFunction c
  refine .gives htold (startsAsyncFunction_same h hkind htold) (.ite (fun _ => ?_) fun _ => .pure h rfl)
  exact .advance h hkind fun d d' h => .found (hr.functionFrom h _ _ _ _)

theorem keywordStatement? : e.Repeats (Option.map (Tree.shift e.offset)) (r.keywordStatement? ctx)
    (r'.keywordStatement? ctx') c c' := by
  refine .kind h hkind (fun _ _ => .pure h rfl) ?_
  split
  · exact .found (hr.ifStatement hctx h hkind)
  · exact .found (hr.forStatement h)
  · exact .found (hr.whileStatement hctx h hkind)
  · exact .found (hr.whileStatement hctx h hkind)
  · exact .found (hr.doStatement hctx h hkind)
  · exact .found (hr.returnStatement h hkind)
  · exact .found (hr.throwStatement h hkind)
  · exact .found (jumpStatement h hkind)
  · exact .found (jumpStatement h hkind)
  · exact .found (jumpStatement h hkind)
  · exact .found (hr.switchStatement hctx h hkind)
  · exact .found (hr.tryStatement hctx h hkind)
  · exact .pure h rfl

end

/-! ## Statements -/

omit hr in
theorem labels_same (h : e.At c c') (hkind : c.token.kind ≠ .done) {told : Bool}
    (htold : Gives Rules.labels c told c) : Gives Rules.labels c' told c' := by
  have hrepeats : e.Repeats id Rules.labels Rules.labels c c' := by
    refine .kind h hkind (fun _ _ => .pure h rfl) ?_
    split
    · exact .followedByPunct h hkind (.inl (by decide)) (.pure h rfl)
    · exact .pure h rfl
  exact hrepeats.same (reaches_labels c') htold

theorem expressionStatement (hctx : ctx'.allowIn = ctx.allowIn) (h : e.At c c') :
    e.RepeatsOne (r.expressionStatement ctx) (r'.expressionStatement ctx') c c' := by
  refine .of_needsToken (needsToken_expressionStatement ctx hr.needs) fun hkind => .position h hkind ?_
  obtain ⟨told, htold⟩ := reaches_labels c
  refine .gives htold (labels_same h hkind htold) ?_
  cases told with
  | true =>
      have hnext := TokenKind.ne_done_of_isAnyPunct (labels_next htold)
      refine .ifTrue (.gives (p := Parser.advance) rfl rfl ?_)
      refine .advance (h.next hkind) hnext fun d d' h => .bind (hr.statement hctx h) fun body d d' h => ?_
      exact .node h rfl
  | false =>
      refine .ifFalse (.bind (hr.expression (by rfl) h) fun value d d' h => ?_)
      rw [endExpression_of_plain hr.plain, endExpression_of_plain hr.plain']
      exact .bind (.endStatement h) fun _ d d' h => .node h rfl

theorem expressionStatement_let {d : Cursor} {t : Tree}
    (h : Gives (r.expressionStatement ctx) c t d) (hkind : c.token.kind = .word "let" false) :
    c.next.token.kind ≠ .done := by
  obtain ⟨told, htold⟩ := reaches_labels c
  cases told with
  | true => exact TokenKind.ne_done_of_isAnyPunct (labels_next htold)
  | false =>
      replace h := htold.of_gives_bind (Gives.position_bind.mp h)
      obtain ⟨_, _, hvalue, -⟩ := h.of_bind
      obtain ⟨_, _, hfirst, -⟩ := (Gives.position_bind.mp hvalue).of_bind
      exact hr.goesOn_let hfirst.reaches hkind

theorem plainStatement (hctx : ctx'.allowIn = ctx.allowIn) (h : e.At c c')
    (hkind : c.token.kind ≠ .done) (start : Nat) :
    e.RepeatsOne (r.plainStatement ctx start) (r'.plainStatement ctx' (start + e.offset)) c c' := by
  refine bindingMode h hkind (fun t d hrun hlet => ?_) fun mode? => ?_
  · exact hr.expressionStatement_let hrun hlet
  cases mode? with
  | some mode =>
      refine .advance h hkind fun d d' h => .bind (hr.declarators hctx h) fun items d d' h => ?_
      rw [endDeclaration_of_plain hr.plain, endDeclaration_of_plain hr.plain']
      exact .bind (.endStatement h) fun _ d d' h => .node h rfl
  | none => exact hr.expressionStatement hctx h

theorem anyStatement (h : e.At c c') :
    e.RepeatsOne (r.anyStatement ctx) (r'.anyStatement ctx') c c' := by
  refine .of_needsToken (needsToken_anyStatement ctx hr.needs (by rw [hr.plain])) fun hkind => ?_
  refine .position h hkind (.atPunct h (.inr hkind) (.ite (fun _ => hr.blockStatement (by rfl) h) fun _ => ?_))
  refine .eat h (.inl rfl) (fun _ d d' h => .ifTrue (.node h rfl)) fun _ => .ifFalse ?_
  refine .orElse (hr.keywordStatement? (by rfl) h hkind) (fun _ => keywordStatement?_none)
    (fun t d d' h => .pure h rfl) fun c' h => ?_
  refine .gives (typeDeclaration?_of_plain hr.plain) (typeDeclaration?_of_plain hr.plain') ?_
  refine .orElse (hr.declaration? (by rfl) h hkind) (fun _ => declaration?_none)
    (fun t d d' h => .pure h rfl) fun c' h => ?_
  rw [hr.plain, hr.plain']
  exact hr.plainStatement (by rfl) h hkind _

theorem nestedStatement (h : e.At c c') :
    e.RepeatsOne (r.nestedStatement ctx) (r'.nestedStatement ctx') c c' := by
  refine .of_needsToken (needsToken_nestedStatement ctx hr.needs (by rw [hr.plain])) fun hkind => ?_
  refine .atWord h (.inr hkind) ?_
  rw [hr.plain, hr.plain']
  exact hr.anyStatement h

end Rules.RepeatedBy

end Recompose.Script
