import Recompose.Proofs.Script.Expressions
import Recompose.Script.Grammar.Statements

/-!
# Statements are nested

One theorem per rule for statements and for the declarations of types.
-/

namespace Recompose.Script

open Recompose.Script.Parser

variable {text : List Char}

/-! ## Looking ahead -/

namespace Peeks

instance : Peeks Rules.bindingMode? := by
  refine bind inferInstance fun _ => ?_
  split
  · exact pure _
  refine bind inferInstance fun _ => ?_
  split
  · exact pure _
  refine bind inferInstance fun _ => ?_
  split
  · refine bind inferInstance fun _ => ?_
    split <;> exact pure _
  · exact pure _

instance : Peeks Rules.atLabel := by
  refine bind inferInstance fun _ => ?_
  split
  · exact bind inferInstance fun _ => pure _
  · exact pure _

instance : Peeks Rules.followedByName := by
  refine bind inferInstance fun _ => ?_
  split <;> exact pure _

instance : Peeks Rules.followedByString := by
  refine bind inferInstance fun _ => ?_
  split <;> exact pure _

instance : Peeks Rules.startsAsyncFunction :=
  bind inferInstance fun _ => bind inferInstance fun _ => pure _

instance : Peeks Rules.labels := by
  refine bind inferInstance fun _ => ?_
  split
  · exact bind inferInstance fun _ => pure _
  · exact pure _

end Peeks

/-! ## Earlier starts -/

@[simp] theorem Tree.span_startingAt (t : Tree) (n : Nat) :
    (t.startingAt n).span = ⟨n, t.span.stop⟩ := by
  unfold Tree.startingAt
  split <;> rfl

theorem Tree.Nested.startingAt {t : Tree} {n : Nat} (h : t.Nested text) (hn : IsBoundary text n)
    (hle : n ≤ t.span.start) : (t.startingAt n).Nested text := by
  have hslice : Span.IsSlice ⟨n, t.span.stop⟩ text :=
    .of_boundaries (Nat.le_trans hle h.le) hn h.isSlice.stop
  unfold Tree.startingAt
  split
  · exact (Row.single h hle (Nat.le_refl _)).node hslice rfl
  · exact (Row.single h hle (Nat.le_refl _)).node hslice rfl
  · rename_i k s ps hblock hobject
    have hbraced : k.isBraced = false := by
      unfold Kind.isBraced
      split
      · exact absurd rfl hblock
      · exact absurd rfl hobject
      · rfl
    have hk : k.closes ps = true := by
      rw [Kind.closes, hbraced]
      exact h.fits
    exact (h.row.mono hle (Nat.le_refl _)).node hslice hk

/-- A tree may start where the way to it starts. -/
theorem Passage.startingAt {c₀ c : Cursor} {t : Tree} (h : Passage text true c₀ [t] c) :
    Passage text true c₀ [t.startingAt c₀.token.span.start] c := by
  obtain ⟨hlo, hhi⟩ := h.row.inside t (List.mem_singleton_self t)
  refine h.replace (h.only.startingAt ⟨_, h.base.here⟩ hlo) ?_ ?_
  · exact Nat.le_of_eq (congrArg Span.start (t.span_startingAt _)).symm
  · rw [Tree.span_startingAt]
    exact hhi

namespace Rules.Sound

variable {r : Rules}

/-! ## Variables -/

theorem skipAssignedMark (r : Rules) : Skips text false r.skipAssignedMark :=
  .of_leads fun _ => .peek fun _ => .peek fun _ => (skips_advanceIf _).leads

theorem declarator (hr : r.Sound text) (ctx : Context) : ReadsOne text (r.declarator ctx) := by
  intro c hc
  refine .position (.enter hc ((hr.pattern ctx).given (hr.binding ctx) fun pattern hbinding => ?_))
  refine .skip (skipAssignedMark r) fun _ => ?_
  refine .extend hbinding (hr.typeAscription ctx) fun ascription => ?_
  refine .skip (skips_eat _) fun _ => (readsMany_readIf (hr.assignment ctx) _).bind fun value => ?_
  exact .node rfl .rfl

theorem declaratorStep (hr : r.Sound text) (ctx : Context) (items : List Tree) {c₀ : Cursor}
    {E : Failure → Prop} [Covers text c₀ E] :
    Leads E (Passage text false c₀ items.reverse) (r.declaratorStep ctx items)
      (Leads.StepPost (fun items => Passage text false c₀ items.reverse)
        (Passage text false c₀)) := by
  refine (hr.declarator ctx).bind fun item => .skip (skips_eat _) fun _ => .ite ?_ ?_
  · exact .pure fun _ h => h.weaken.push
  · exact .pure fun _ h => h.weaken.push

theorem declarators (hr : r.Sound text) (ctx : Context) :
    ReadsMany text (r.declarators ctx) := by
  refine .of_leads fun c => ?_
  refine .loop (fun items : List Tree => Passage text false c items.reverse) (fun _ h => h) ?_
  intro items
  refine .ite (.peek fun _ => .ite (.pure fun _ h => h) ?_) ?_ <;> exact hr.declaratorStep ctx items

theorem endDeclaration (hr : r.Sound text) (ctx : Context) :
    Skips text false (r.endDeclaration ctx) := by
  refine .of_leads fun c => .ite ?_ skips_endStatement.leads
  refine .skip (skips_attempt skips_endStatement) fun _ => .ite ?_ (.pure fun _ h => h)
  exact .skip (skips_tolerate (hr.expression ctx)) fun _ => (skips_skipToEnd _).leads

/-! ## Loops -/

theorem loopSource (hr : r.Sound text) (ctx : Context) : ReadsOne text (r.loopSource ctx) := by
  refine .of_leads fun c => .eatsWord (.ifTrue (hr.assignment ctx).leads) (.ifFalse ?_)
  exact .pass (skips_expectWord _) fun _ => (hr.expression ctx).leads

variable {c₀ : Cursor} {E : Failure → Prop} [Covers text c₀ E]

theorem collectionLoop (hr : r.Sound text) (ctx : Context) {head : Tree} :
    Leads E (Passage text true c₀ [head]) (r.collectionLoop ctx c₀.token.span.start head)
      fun t => Passage text true c₀ [t] := by
  refine (hr.loopSource ctx).bind fun source => .pass (skips_expect _) fun _ => ?_
  exact (hr.statement ctx).bind fun body => .node rfl .rfl

theorem countingLoop (hr : r.Sound text) (ctx : Context) {init : List Tree} :
    Leads E (Passage text true c₀ init) (r.countingLoop ctx c₀.token.span.start init)
      fun t => Passage text true c₀ [t] := by
  refine .pass (skips_expect _) fun _ => .peek fun _ => ?_
  refine (readsMany_readIf (hr.expression ctx) _).bind fun test => .pass (skips_expect _) fun _ => ?_
  refine .peek fun _ => (readsMany_readIf (hr.expression ctx) _).bind fun update => ?_
  exact .pass (skips_expect _) fun _ => (hr.statement ctx).bind fun body => .node rfl .rfl

theorem forStatement (hr : r.Sound text) (ctx : Context) : ReadsOne text (r.forStatement ctx) := by
  intro c hc
  refine .position (.enter hc (.pass (skips_expectWord _) fun _ => ?_))
  refine .skip (skips_eatWord _) fun _ => .pass (skips_expect _) fun _ => ?_
  refine .peek fun _ => .ite (hr.countingLoop _) ?_
  refine .fix fun c₁ h₁ => ?_
  have : Covers text c₁ (Failure.Within text c) := h₁.covers
  refine .position (.enter h₁.sound (.peek fun mode? => ?_))
  split
  · refine .pass skips_advance fun _ => (hr.declarators _).bind fun items => ?_
    refine .bind (.node rfl .rfl) fun head => .mono ?_ fun _ h => h₁.trans h
    exact .peek fun _ => .peek fun _ => .ite (hr.collectionLoop _) (hr.countingLoop _)
  · refine (hr.expression _).bind fun head => .mono ?_ fun _ h => h₁.trans h
    refine .peek fun _ => .peek fun _ => .ite (.mono (hr.collectionLoop _) fun _ h => ?_)
      (hr.countingLoop _)
    exact h.respanOne h.only.asPattern (span_asPattern head)

/-! ## Branches -/

theorem parenthesized (hr : r.Sound text) (ctx : Context) :
    ReadsOne text (r.parenthesized ctx) := by
  refine .of_leads fun c => .pass (skips_expect _) fun _ => (hr.expression _).bind fun inner => ?_
  exact .pass (skips_expect _) fun _ => .pure fun _ h => h

theorem ifStatement (hr : r.Sound text) (ctx : Context) : ReadsOne text (r.ifStatement ctx) := by
  intro c hc
  refine .position (.enter hc (.pass skips_advance fun _ => ?_))
  refine (hr.parenthesized ctx).bind fun test => (hr.statement ctx).bind fun yes => ?_
  refine .skip (skips_eatWord _) fun _ => ?_
  exact (readsMany_readIf (hr.statement ctx) _).bind fun no => .node rfl .rfl

theorem whileStatement (hr : r.Sound text) (ctx : Context) :
    ReadsOne text (r.whileStatement ctx) := by
  intro c hc
  refine .position (.enter hc (.pass skips_advance fun _ => ?_))
  exact (hr.parenthesized ctx).bind fun test => (hr.statement ctx).bind fun body => .node rfl .rfl

theorem doStatement (hr : r.Sound text) (ctx : Context) : ReadsOne text (r.doStatement ctx) := by
  intro c hc
  refine .position (.enter hc (.pass skips_advance fun _ => ?_))
  refine (hr.statement ctx).bind fun body => .pass (skips_expectWord _) fun _ => ?_
  refine (hr.parenthesized ctx).bind fun test => .skip (skips_eat _) fun _ => ?_
  exact .node rfl (.swap body test [])

theorem switchStatement (hr : r.Sound text) (ctx : Context) :
    ReadsOne text (r.switchStatement ctx) := by
  intro c hc
  refine .position (.enter hc (.pass skips_advance fun _ => ?_))
  refine (hr.parenthesized ctx).bind fun subject => .pass (skips_expect _) fun _ => ?_
  refine .bind (R := fun ts => Passage text true c (subject :: ts)) ?_ fun ts => .node rfl .rfl
  refine .loop (fun s : List Tree × Bool => Passage text true c (subject :: s.1.reverse))
    (fun _ h => h) ?_
  rintro ⟨items, inCase⟩
  have hpush : ∀ {t c₁}, Passage text true c (subject :: items.reverse ++ [t]) c₁ →
      Passage text true c (subject :: (t :: items).reverse) c₁ := by
    intro t c₁ h
    rwa [List.reverse_cons]
  refine .skip (skips_eat _) fun _ => .ite (.pure fun _ h => h) ?_
  refine .fix fun c₁ h₁ => ?_
  have : Covers text c₁ (Failure.Within text c) := h₁.covers
  refine .position (.enter h₁.sound ?_)
  refine .eatsWord (.ifTrue ?_) (.ifFalse ?_)
  · refine (hr.expression _).bind fun test => .pass (skips_expect _) fun _ => ?_
    exact .bind (.node rfl .rfl) fun t => .pure fun _ h => hpush (h₁.trans h)
  refine .mono ?_ fun _ h => h₁.trans h
  refine .skip (skips_eatWord _) fun _ => .ite ?_ (.ite .unexpected ?_)
  · refine .pass (skips_expect _) fun _ => .pure fun _ h => ?_
    rwa [List.append_nil] at h
  · rw [List.append_nil]
    exact (hr.statement ctx).bind fun t => .pure fun _ h => hpush h

theorem caughtPattern (hr : r.Sound text) (ctx : Context) :
    ReadsOne text (r.caughtPattern ctx) := by
  refine .of_leads fun c => (hr.pattern ctx).given (hr.binding ctx) fun pattern hbinding => ?_
  refine .extend hbinding (hr.typeAscription ctx) fun ascription => ?_
  exact .pass (skips_expect _) fun _ => .pure fun _ h => h

theorem handlerParts (hr : r.Sound text) (ctx : Context) :
    Reads text true id (r.handlerParts ctx) := by
  refine .of_leads fun c => .skip (skips_eat _) fun _ => ?_
  refine (readsMany_readIf (hr.caughtPattern ctx) _).bind fun param => ?_
  exact (hr.blockStatement ctx).bind fun body => .pure fun _ h => h

theorem catchClause (hr : r.Sound text) (ctx : Context) : ReadsOne text (r.catchClause ctx) := by
  intro c hc
  refine .position (.enter hc (.pass skips_advance fun _ => ?_))
  exact (hr.handlerParts ctx).bind fun parts => .node rfl .rfl

theorem finalizer (hr : r.Sound text) (ctx : Context) : ReadsMany text (r.finalizer ctx) :=
  .of_leads fun _ => .skip (skips_eatWord _) fun _ =>
    (readsMany_readIf (hr.blockStatement ctx) _).leads

theorem tryStatement (hr : r.Sound text) (ctx : Context) : ReadsOne text (r.tryStatement ctx) := by
  intro c hc
  refine .position (.enter hc (.pass skips_advance fun _ => ?_))
  refine (hr.blockStatement ctx).bind fun block => .peek fun _ => ?_
  refine (readsMany_readIf (hr.catchClause ctx) _).bind fun handler => ?_
  refine (hr.finalizer ctx).bind fun finalizer => ?_
  exact .ite .unexpected_bind (.node rfl .rfl)

/-! ## Jumps -/

theorem returnStatement (hr : r.Sound text) (ctx : Context) :
    ReadsOne text (r.returnStatement ctx) := by
  intro c hc
  refine .position (.enter hc (.pass skips_advance fun _ => ?_))
  refine .peek fun _ => .peek fun _ => .peek fun _ => ?_
  refine (readsMany_readIf (hr.expression _) _).bind fun value => ?_
  exact .skip skips_endStatement fun _ => .node rfl .rfl

theorem throwStatement (hr : r.Sound text) (ctx : Context) :
    ReadsOne text (r.throwStatement ctx) := by
  intro c hc
  refine .position (.enter hc (.pass skips_advance fun _ => ?_))
  refine .peek fun _ => .ite .unexpected_bind ((hr.expression _).bind fun value => ?_)
  exact .skip skips_endStatement fun _ => .node rfl .rfl

theorem jumpStatement : ReadsOne text Rules.jumpStatement := by
  intro c hc
  refine .position (.enter hc (.pass skips_advance fun _ => .peek fun _ => ?_))
  exact .skip (skips_advanceIf _) fun _ => .skip skips_endStatement fun _ => .node rfl .rfl

/-! ## Declarations of types -/

theorem interfaceRest (hr : r.Sound text) (ctx : Context) {b : Bool} :
    Leads E (Passage text b c₀ []) (r.interfaceRest ctx c₀.token.span.start)
      fun t => Passage text true c₀ [t] := by
  refine .pass readsOne_bindingName.skips fun _ => ?_
  refine (hr.optionalTypeParameters ctx).bind fun generics => (hr.typesAfter ctx _).bind fun bases => ?_
  exact (hr.objectType ctx).bind fun body => .node rfl .rfl

theorem aliasRest (hr : r.Sound text) (ctx : Context) {b : Bool} :
    Leads E (Passage text b c₀ []) (r.aliasRest ctx c₀.token.span.start)
      fun t => Passage text true c₀ [t] := by
  refine .pass readsOne_bindingName.skips fun _ => ?_
  refine (hr.optionalTypeParameters ctx).bind fun generics => .pass (skips_expect _) fun _ => ?_
  exact (hr.typeExpr ctx).bind fun t => .skip skips_endStatement fun _ => .node rfl .rfl

theorem enumMember (hr : r.Sound text) (ctx : Context) : ReadsOne text (r.enumMember ctx) := by
  intro c hc
  refine .position (.enter hc ((hr.propertyKey ctx).bind fun key => .skip (skips_eat _) fun _ => ?_))
  exact (readsMany_readIf (hr.assignment _) _).bind fun value => .node rfl .rfl

theorem enumRest (hr : r.Sound text) (ctx : Context) {b : Bool} :
    Leads E (Passage text b c₀ []) (r.enumRest ctx c₀.token.span.start)
      fun t => Passage text true c₀ [t] := by
  refine .pass readsOne_bindingName.skips fun _ => .pass (skips_expect _) fun _ => ?_
  exact (readsMany_commaSeparated (hr.enumMember ctx) _ _).bind fun members => .node rfl .rfl

theorem namespaceName (r : Rules) : Skips text true r.namespaceName := by
  refine .of_leads fun c => .peek fun k => ?_
  split
  · exact skips_advance.leads
  · exact .pass readsOne_bindingName.skips fun _ => (skips_dottedNames _).leads

theorem namespaceRest (hr : r.Sound text) (ctx : Context) {b : Bool} :
    Leads E (Passage text b c₀ []) (r.namespaceRest ctx c₀.token.span.start)
      fun t => Passage text true c₀ [t] := by
  refine .pass (namespaceName r) fun _ => .peek fun _ => .ite ?_ ?_
  · exact (hr.blockStatement ctx).bind fun body => .node rfl .rfl
  · exact .skip skips_endStatement fun _ => .node rfl .rfl

theorem typeDeclaration (hr : r.Sound text) (ctx : Context) :
    Reads text false Option.toList (r.typeDeclaration? ctx) := by
  intro c hc
  have hfound : ∀ {p : Parser Tree},
      Leads (Failure.Within text c) (Passage text true c []) p (fun t => Passage text true c [t]) →
      Leads (Failure.Within text c) (Passage text false c []) (do advance; return some (← p))
        fun t? => Passage text false c t?.toList :=
    fun hp => .pass skips_advance fun _ => .bind hp fun t => .pure fun _ h => h.weaken
  refine .ite (.enter hc (.pure fun _ h => h)) (.position (.enter hc (.peek fun _ => ?_)))
  refine .peek fun _ => .ite (hfound (hr.interfaceRest ctx)) ?_
  refine .peek fun _ => .ite (hfound (hr.aliasRest ctx)) ?_
  refine .peek fun _ => .ite (hfound (hr.enumRest ctx)) ?_
  refine .peek fun _ => .peek fun _ => .ite ?_ ?_
  · exact hfound (.pass skips_advance fun _ => hr.enumRest ctx)
  refine .peek fun _ => .peek fun _ => .ite (hfound (hr.classFrom ctx true)) ?_
  refine .peek fun _ => .ite (hfound (hr.namespaceRest ctx)) ?_
  refine .peek fun _ => .peek fun _ => .ite (hfound (hr.namespaceRest ctx)) ?_
  refine .peek fun _ => .peek fun _ => .ite ?_ ?_
  · refine .pass skips_advance fun _ => (hr.blockStatement ctx).bind fun body => ?_
    exact .bind (.node rfl .rfl) fun t => .pure fun _ h => h.weaken
  refine .peek fun _ => .ite (.pass skips_advance fun _ => ?_) (.pure fun _ h => h)
  exact (hr.statement ctx).bind fun inner => .pure fun _ h => h.startingAt.weaken

/-! ## Statements -/

theorem keywordStatement (hr : r.Sound text) (ctx : Context) :
    Reads text false Option.toList (r.keywordStatement? ctx) := by
  refine .of_leads fun c => .peek fun k => ?_
  have hfound : ∀ {p : Parser Tree}, ReadsOne text p →
      Leads (Failure.Within text c) (Passage text false c []) (do return some (← p))
        fun t? => Passage text false c t?.toList :=
    fun hp => hp.bind fun t => .pure fun _ h => h.weaken
  split
  · exact hfound (hr.ifStatement ctx)
  · exact hfound (hr.forStatement ctx)
  · exact hfound (hr.whileStatement ctx)
  · exact hfound (hr.whileStatement ctx)
  · exact hfound (hr.doStatement ctx)
  · exact hfound (hr.returnStatement ctx)
  · exact hfound (hr.throwStatement ctx)
  · exact hfound jumpStatement
  · exact hfound jumpStatement
  · exact hfound jumpStatement
  · exact hfound (hr.switchStatement ctx)
  · exact hfound (hr.tryStatement ctx)
  · exact .pure fun _ h => h

theorem declaration (hr : r.Sound text) (ctx : Context) :
    Reads text false Option.toList (r.declaration? ctx) := by
  intro c hc
  refine .position (.enter hc ?_)
  refine .peek fun _ => .ite (.bind (hr.functionFrom _ _ _) fun t => .pure fun _ h => h.weaken) ?_
  refine .peek fun _ => .ite (.bind (hr.classFrom ctx _) fun t => .pure fun _ h => h.weaken) ?_
  refine .peek fun _ => .ite (.pass skips_advance fun _ => ?_) (.pure fun _ h => h)
  exact .bind (hr.functionFrom _ _ _) fun t => .pure fun _ h => h.weaken

theorem strayOperator : Finds text Rules.strayOperator? := by
  intro c hc
  refine .bind (operatorHere c hc) fun op? => .peek fun _ => .ite (.pure ?_) (.pure ?_)
  · exact fun _ h => ⟨h.1, nofun⟩
  · refine fun _ h => ⟨h.1, fun op hop => h.2 op ?_⟩
    exact (Option.filter_eq_some_iff.mp hop).1

theorem endExpression (hr : r.Sound text) (ctx : Context) {value : Tree} :
    Leads E (Passage text true c₀ [value]) (r.endExpression ctx c₀.token.span.start value)
      fun t => Passage text true c₀ [t] := by
  have hplain : Leads E (Passage text true c₀ [value])
      (do endStatement; node .exprStmt c₀.token.span.start [value])
      fun t => Passage text true c₀ [t] :=
    .skip skips_endStatement fun _ => .node rfl .rfl
  refine .ite (found strayOperator (fun op => ?_) hplain) hplain
  refine .bind skipOperator fun _ => (hr.operation ctx).bind fun operands => ?_
  exact .bind (.node rfl .rfl) fun whole => .node rfl .rfl

/-- A word that is taken may make up a tree. -/
theorem eatsWord {name : String} {k : Kind} (hk : k.closes [] = true) {β : Type}
    {f : Bool → Parser β} {Q : β → Cursor → Prop} (hc : c₀.Sound text)
    (htook : Leads E (Passage text true c₀ [.leaf k c₀.token.span]) (f true) Q)
    (hleft : Leads E (· = c₀) (f false) Q) : Leads E (· = c₀) (eatWord name >>= f) Q := by
  refine .bind (.eatWord name) fun took => ?_
  cases took with
  | true =>
      refine htook.mono ?_
      rintro _ (⟨-, rfl⟩ | ⟨⟨⟩, -⟩)
      exact .leaf hc hk
  | false =>
      refine hleft.mono ?_
      rintro _ (⟨⟨⟩, -⟩ | ⟨-, rfl⟩)
      rfl

theorem strayHandlers (hr : r.Sound text) (ctx : Context) :
    Reads text false Option.toList (r.strayHandlers? ctx) := by
  intro c hc
  have hhandler := skips_tolerate (hr.handlerParts ctx)
  have hfinalizer := skips_tolerate (hr.finalizer ctx)
  have hblock := skips_tolerate (hr.blockStatement ctx)
  have hleaf : Kind.exprStmt.closes [] = true := rfl
  refine .get (eatsWord hleaf hc (.ifTrue ?_) (.ifFalse ?_))
  · exact .skip hhandler fun _ => .skip hfinalizer fun _ => .pure fun _ h => h.weaken
  refine eatsWord hleaf hc (.ifTrue ?_) (.ifFalse (.enter hc (.pure fun _ h => h)))
  exact .skip hblock fun _ => .pure fun _ h => h.weaken

theorem expressionStatement (hr : r.Sound text) (ctx : Context) :
    ReadsOne text (r.expressionStatement ctx) := by
  intro c hc
  refine .position (.enter hc (.peek fun _ => .ite ?_ ?_))
  · refine .pass skips_advance fun _ => .pass skips_advance fun _ => ?_
    exact (hr.statement ctx).bind fun body => .node rfl .rfl
  · exact (hr.expression _).bind fun value => hr.endExpression _

theorem plainStatement (hr : r.Sound text) (ctx : Context) :
    Leads E (Passage text false c₀ []) (r.plainStatement ctx c₀.token.span.start)
      fun t => Passage text true c₀ [t] := by
  refine .peek fun mode? => ?_
  split
  · refine .pass skips_advance fun _ => (hr.declarators _).bind fun items => ?_
    exact .skip (hr.endDeclaration _) fun _ => .node rfl .rfl
  · exact (hr.expressionStatement _).leads

theorem anyStatement (hr : r.Sound text) (ctx : Context) : ReadsOne text (r.anyStatement ctx) := by
  intro c hc
  refine .position (.enter hc (.peek fun _ => .ite (hr.blockStatement _).leads ?_))
  refine .eats (.ifTrue (.node rfl .rfl)) (.ifFalse ?_)
  refine .maybe (hr.keywordStatement _) (fun tree => .pure fun _ h => h) ?_
  refine .maybe (hr.typeDeclaration _) (fun tree => .pure fun _ h => h) ?_
  refine .maybe (hr.declaration _) (fun tree => .pure fun _ h => h) ?_
  have hplain : Leads (Failure.Within text c) (Passage text false c [])
      (r.plainStatement ctx.bracketed c.token.span.start) fun t => Passage text true c [t] :=
    hr.plainStatement _
  exact .ite (.maybe (hr.strayHandlers _) (fun tree => .pure fun _ h => h) hplain) hplain

end Rules.Sound

end Recompose.Script
