import Recompose.Proofs.Script.Grammar
import Recompose.Script.Grammar.Types

/-!
# Types are nested

One theorem per rule of the grammar of types.
-/

namespace Recompose.Script.Rules.Sound

open Recompose.Script.Parser

variable {text : List Char} {r : Rules}

/-! ## Type arguments and parameters -/

theorem typeArguments (hr : r.Sound text) (ctx : Context) :
    ReadsOne text (r.typeArguments ctx) := by
  intro c hc
  refine .position (.enter hc ?_)
  refine .pass (skips_expect _) fun _ => ?_
  refine (readsMany_commaSeparated (hr.typeExpr _) _ _).bind fun args => ?_
  exact .ite .unexpected_bind (.node rfl .rfl)

theorem typeParameters (hr : r.Sound text) (ctx : Context) :
    Reads text true (fun p => [p.1]) (r.typeParameters ctx) := by
  intro c hc
  refine .position (.enter hc ?_)
  refine .pass (skips_expect _) fun _ => ?_
  refine .bind (R := fun s => Passage text true c s.1) ?_ fun s => ?_
  · refine .loop (fun s : List Tree × Bool => Passage text true c s.1.reverse) (fun _ h => h) ?_
    rintro ⟨items, distinct⟩
    refine .skip (skips_eat _) fun _ => .ite (.pure fun _ h => h) ?_
    refine .fix fun c₁ h₁ => .position (.enter h₁.sound ?_)
    have : Covers text c₁ (Failure.Within text c) := h₁.covers
    refine .skip (skips_eatWord _) fun _ => ?_
    refine .peek fun _ => .peek fun _ => .skip (skips_advanceIf _) fun _ => ?_
    refine .peek fun _ => .peek fun _ => .skip (skips_advanceIf _) fun _ => ?_
    refine .pass readsOne_bindingName.skips fun _ => ?_
    refine .skip (skips_eatWord _) fun _ => ?_
    refine (readsMany_readIf (hr.typeExpr _) _).bind fun bound => ?_
    refine .skip (skips_eat _) fun _ => ?_
    refine (readsMany_readIf (hr.typeExpr _) _).bind fun default => ?_
    refine .bind (.node rfl .rfl) fun item => ?_
    refine .skip (skips_eat _) fun _ => .ite (.pure fun _ h => (h₁.trans h).push) ?_
    exact .pass (skips_expect _) fun _ => .pure fun _ h => (h₁.trans h).push
  · refine .ite .unexpected_bind ?_
    exact .bind (.node rfl .rfl) fun t => .pure fun _ h => h

theorem optionalTypeParameters (hr : r.Sound text) (ctx : Context) :
    ReadsMany text (r.optionalTypeParameters ctx) := by
  refine .of_leads fun c => .peek fun _ => .ite ?_ (.pure fun _ h => h)
  exact (hr.typeParameters ctx).bind fun p => .pure fun _ h => h.weaken

theorem eatMark (r : Rules) (t : String) : Skips text false (r.eatMark t) :=
  .of_leads fun _ => .ite (skips_eat t).leads (.pure fun _ h => h)

theorem typeAscription (hr : r.Sound text) (ctx : Context) :
    ReadsMany text (r.typeAscription? ctx) := by
  refine .of_leads fun c => .skip (eatMark r _) fun _ => .ite ?_ (.pure fun _ h => h)
  exact (hr.typeExpr _).bind fun t => .pure fun _ h => h.weaken

theorem predicateType (hr : r.Sound text) (ctx : Context) :
    ReadsOne text (r.predicateType ctx) := by
  intro c hc
  refine .position (.enter hc ?_)
  refine .peek fun next => .peek fun _ => .ite ?_ ?_
  · refine .pass skips_advance fun _ => ?_
    refine .pass readsOne_propertyName.skips fun _ => .peek fun _ => .peek fun _ => .ite ?_ ?_
    · refine .pass skips_advance fun _ => ?_
      exact (hr.typeExpr _).bind fun t => .node rfl .rfl
    · exact .node rfl .rfl
  · refine .peek fun _ => .ite ?_ (hr.typeExpr _).leads
    refine .pass skips_advance fun _ => .pass skips_advance fun _ => ?_
    exact (hr.typeExpr _).bind fun t => .node rfl .rfl

theorem returnType (hr : r.Sound text) (ctx : Context) : ReadsMany text (r.returnType? ctx) := by
  refine .of_leads fun c => .skip (eatMark r _) fun _ => .ite ?_ (.pure fun _ h => h)
  exact (hr.predicateType _).bind fun t => .pure fun _ h => (h.wrap rfl).weaken

/-! ## Members of object types -/

theorem parameterBinding (hr : r.Sound text) (ctx : Context) (allowThis : Bool) :
    ReadsOne text (r.parameterBinding ctx allowThis) :=
  .of_leads fun _ => .peek fun _ => .ite readsOne_propertyName.leads (hr.pattern _).leads

theorem binding_parameterBinding (hr : r.Sound text) (ctx : Context) (allowThis : Bool) :
    Yields (r.parameterBinding ctx allowThis) (·.kind.isBinding = true) :=
  .whatever fun _ => .ite (yields_propertyName.post fun _ _ h => h.2) (hr.binding ctx)

theorem typeLevelParams (hr : r.Sound text) (ctx : Context) :
    Reads text true id (r.typeLevelParams ctx) := by
  refine .of_leads fun c => .pass (skips_expect _) fun _ => ?_
  refine (readsMany_commaSeparated ?_ _ _).leads
  intro c₁ hc₁
  refine .position (.enter hc₁ ?_)
  refine .skip (skips_eat _) fun _ => ?_
  refine (hr.parameterBinding ctx true).bind fun binding => ?_
  refine .skip (skips_eat _) fun _ => ?_
  exact (hr.typeAscription ctx).bind fun ascription => .node rfl .rfl

theorem signature (hr : r.Sound text) (ctx : Context) : Reads text true id (r.signature ctx) := by
  refine .of_leads fun c => ?_
  refine (hr.optionalTypeParameters ctx).bind fun generics => ?_
  refine (hr.typeLevelParams ctx).bind fun params => ?_
  refine (hr.returnType ctx).bind fun result => .pure fun _ h => h.perm ?_
  exact List.perm_append_comm.append_right result

theorem endTypeMember : Skips text false Rules.endTypeMember := by
  refine .of_leads fun c => ?_
  refine .skip (skips_eat _) fun _ => .ite (.pure fun _ h => h) ?_
  refine .skip (skips_eat _) fun _ => .ite (.pure fun _ h => h) ?_
  exact .peek fun _ => .peek fun _ => .ite (.pure fun _ h => h) .unexpected

theorem typeMemberKey (hr : r.Sound text) (ctx : Context) :
    ReadsOne text (r.typeMemberKey ctx) := by
  intro c hc
  refine .position (.peek fun k => .enter hc ?_)
  split
  · exact readsOne_propertyName.leads
  · exact .pass skips_advance fun _ => .node rfl .rfl
  · exact .pass skips_advance fun _ => .node rfl .rfl
  · exact .pass skips_advance fun _ => .node rfl .rfl
  · exact .pass skips_advance fun _ => .node rfl .rfl
  · refine .pass skips_advance fun _ => ?_
    refine (hr.assignment _).bind fun key => ?_
    exact .pass (skips_expect _) fun _ => .node rfl .rfl
  · exact .unexpected

theorem indexSignature (hr : r.Sound text) (ctx : Context) :
    ReadsOne text (r.indexSignature ctx) := by
  intro c hc
  refine .position (.enter hc ?_)
  refine .pass (skips_expect _) fun _ => .pass readsOne_bindingName.skips fun _ => ?_
  refine .peek fun _ => .ite ?_ .unexpected_bind
  refine (hr.typeAscription ctx).bind fun key => .pass (skips_expect _) fun _ => ?_
  exact (hr.typeAscription ctx).bind fun value => .node rfl .rfl

theorem namedTypeMember (hr : r.Sound text) (ctx : Context) {c₀ : Cursor} {E : Failure → Prop}
    [Covers text c₀ E] :
    Leads E (Passage text false c₀ []) (r.namedTypeMember ctx c₀.token.span.start)
      fun t => Passage text true c₀ [t] := by
  refine .peek fun _ => .peek fun _ => .peek fun _ => .skip (skips_advanceIf _) fun _ => ?_
  refine (hr.typeMemberKey ctx).bind fun key => .skip (skips_eat _) fun _ => ?_
  refine .peek fun _ => .peek fun _ => .ite ?_ ?_
  · refine (hr.signature ctx).bind fun parts => ?_
    exact .skip endTypeMember fun _ => .node rfl .rfl
  · refine (hr.typeAscription ctx).bind fun parts => ?_
    exact .skip endTypeMember fun _ => .node rfl .rfl

theorem typeMember (hr : r.Sound text) (ctx : Context) : ReadsOne text (r.typeMember ctx) := by
  intro c hc
  refine .position (.enter hc ?_)
  refine .peek fun _ => .peek fun _ => .ite ?_ ?_
  · refine (hr.signature ctx).bind fun parts => ?_
    exact .skip endTypeMember fun _ => .node rfl .rfl
  refine .peek fun _ => .peek fun _ => .ite ?_ ?_
  · refine .pass skips_advance fun _ => (hr.signature ctx).bind fun parts => ?_
    exact .skip endTypeMember fun _ => .node rfl .rfl
  refine .peek fun _ => .peek fun _ => .skip (skips_advanceIf _) fun _ => ?_
  refine .peek fun _ => .ite ?_ (hr.namedTypeMember ctx)
  refine .attempt (hr.indexSignature ctx).leads (fun index => ?_) (hr.namedTypeMember ctx)
  exact .skip endTypeMember fun _ => .pure fun _ h => h

theorem mappedReadonly : Skips text false Rules.mappedReadonly := by
  refine .of_leads fun c => .peek fun _ => .ite ?_ ?_
  · exact .skip skips_advance.weaken fun _ => (skips_expectWord _).weaken.leads
  · exact .peek fun _ => .peek fun _ => (skips_advanceIf _).leads

theorem mappedOptional : Skips text false Rules.mappedOptional := by
  refine .of_leads fun c => .peek fun _ => .ite ?_ ?_
  · exact .skip skips_advance.weaken fun _ => (skips_expect _).weaken.leads
  · exact .skip (skips_eat _) fun _ => .pure fun _ h => h

theorem mappedType (hr : r.Sound text) (ctx : Context) : Reads text true id (r.mappedType ctx) := by
  refine .of_leads fun c => .skip mappedReadonly fun _ => .pass (skips_expect _) fun _ => ?_
  refine .pass readsOne_bindingName.skips fun _ => .pass (skips_expectWord _) fun _ => ?_
  refine (hr.typeExpr ctx).bind fun source => .skip (skips_eatWord _) fun _ => ?_
  refine (readsMany_readIf (hr.typeExpr ctx) _).bind fun renamed => ?_
  refine .pass (skips_expect _) fun _ => .skip mappedOptional fun _ => ?_
  refine (hr.typeAscription ctx).bind fun value => ?_
  refine .skip (skips_eat _) fun _ => .skip (skips_eat _) fun _ => ?_
  exact .pass (skips_expect _) fun _ => .pure fun _ h => h

theorem objectType (hr : r.Sound text) (ctx : Context) : ReadsOne text (r.objectType ctx) := by
  intro c hc
  refine .position (.enter hc (.pass (skips_expect _) fun _ => ?_))
  refine .attempt (hr.mappedType ctx).leads (fun parts => .node rfl .rfl) ?_
  refine .bind (R := fun ts => Passage text true c ts) ?_ fun ts => .node rfl .rfl
  refine .loop (fun items : List Tree => Passage text true c items.reverse) (fun _ h => h) ?_
  intro items
  refine .skip (skips_eat _) fun _ => .ite (.pure fun _ h => h) ?_
  exact (hr.typeMember ctx).bind fun t => .pure fun _ h => h.push

/-! ## Operands -/

theorem tupleElement (hr : r.Sound text) (ctx : Context) : ReadsOne text (r.tupleElement ctx) := by
  intro c hc
  have hname : Skips text true (do
      let _ ← propertyName
      let _ ← eat "?"
      expect ":" : Parser Unit) :=
    .of_leads fun _ => .pass readsOne_propertyName.skips fun _ => .skip (skips_eat _) fun _ =>
      (skips_expect _).leads
  refine .position (.enter hc (.skip (skips_eat _) fun _ => ?_))
  refine .attempt hname.leads (fun _ => ?_) ?_
  · exact (hr.typeExpr ctx).bind fun t => .node rfl .rfl
  · exact (hr.typeExpr ctx).bind fun t => .skip (skips_eat _) fun _ => .node rfl .rfl

theorem typeReference (hr : r.Sound text) (ctx : Context) :
    ReadsOne text (r.typeReference ctx) := by
  intro c hc
  refine .position (.enter hc (.pass readsOne_propertyName.skips fun _ => ?_))
  refine .skip (skips_dottedNames _) fun _ => .peek fun _ => .peek fun _ => .ite ?_ (.node rfl .rfl)
  exact (hr.typeArguments ctx).bind fun args => .node rfl .rfl

theorem importType (hr : r.Sound text) (ctx : Context) : ReadsOne text (r.importType ctx) := by
  intro c hc
  refine .position (.enter hc (.pass (skips_expectWord _) fun _ => .pass (skips_expect _) fun _ => ?_))
  refine .pass readsOne_stringLiteral.skips fun _ => .skip (skips_eat _) fun _ => ?_
  refine .skip (skips_readIf (skips_attempt (hr.assignment ctx).skips) _) fun _ => ?_
  refine .pass (skips_expect _) fun _ => .skip (skips_dottedNames _) fun _ => ?_
  refine .peek fun _ => .ite ?_ (.node rfl .rfl)
  exact (hr.typeArguments ctx).bind fun args => .node rfl .rfl

theorem primaryType (hr : r.Sound text) (ctx : Context) : ReadsOne text (r.primaryType ctx) := by
  intro c hc
  refine .position (.peek fun k => .enter hc ?_)
  split
  · refine .pass skips_advance fun _ => (hr.typeExpr _).bind fun t => ?_
    exact .pass (skips_expect _) fun _ => .node rfl .rfl
  · refine .pass skips_advance fun _ => ?_
    exact (readsMany_commaSeparated (hr.tupleElement _) _ _).bind fun parts => .node rfl .rfl
  · exact (hr.objectType _).leads
  · exact (reads_template (hr.typeExpr _) _).bind fun parts => .node rfl .rfl
  · refine .pass skips_advance fun _ => .peek fun k => ?_
    split
    · exact .pass skips_advance fun _ => .node rfl .rfl
    · exact .pass skips_advance fun _ => .node rfl .rfl
    · exact .unexpected
  · exact .pass skips_advance fun _ => .node rfl .rfl
  · exact .pass skips_advance fun _ => .node rfl .rfl
  · exact .pass skips_advance fun _ => .node rfl .rfl
  · refine .pass skips_advance fun _ => .peek fun _ => .ite ?_ ?_
    · exact (hr.importType _).bind fun t => .node rfl .rfl
    · exact (hr.typeReference _).bind fun t => .node rfl .rfl
  · exact (hr.importType _).leads
  · refine .ite ?_ (.ite .unexpected (hr.typeReference _).leads)
    exact .pass skips_advance fun _ => .node rfl .rfl
  · exact (hr.typeReference _).leads
  · exact .unexpected

theorem arrayType (hr : r.Sound text) (ctx : Context) : ReadsOne text (r.arrayType ctx) := by
  intro c hc
  refine .position (.enter hc ((hr.primaryType ctx).bind fun base => ?_))
  refine .loop (fun t => Passage text true c [t]) (fun _ h => h) fun t => ?_
  refine .peek fun _ => .peek fun _ => .ite ?_ (.pure fun _ h => h)
  refine .pass skips_advance fun _ => .skip (skips_eat _) fun _ => .ite ?_ ?_
  · exact .bind (.node rfl .rfl) fun t => .pure fun _ h => h
  · refine (hr.typeExpr _).bind fun index => .pass (skips_expect _) fun _ => ?_
    exact .bind (.node rfl .rfl) fun t => .pure fun _ h => h

theorem typeOperand (hr : r.Sound text) (ctx : Context) : ReadsOne text (r.typeOperand ctx) := by
  intro c hc
  have hbound : ReadsOne text (do
      expectWord "extends"
      let t ← r.typeExpr { ctx with allowConditionalType := false }
      if ctx.allowConditionalType && (← atPunct "?") then unexpected
      pure t : Parser Tree) := by
    refine .of_leads fun _ => .pass (skips_expectWord _) fun _ => (hr.typeExpr _).bind fun t => ?_
    exact .peek fun _ => .ite .unexpected_bind (.pure fun _ h => h)
  refine .position (.enter hc ?_)
  refine .loop (fun _ => Passage text false c []) (fun _ h => h) fun _ => ?_
  refine .peek fun next => .peek fun _ => .ite ?_ ?_
  · exact .pass skips_advance fun _ => .pure fun _ h => h.weaken
  refine .peek fun _ => .ite ?_ ?_
  · refine .pass skips_advance fun _ => .pass readsOne_bindingName.skips fun _ => ?_
    refine .attempt hbound.leads (fun bound => ?_) ?_
    · exact .bind (.node rfl .rfl) fun t => .pure fun _ h => h
    · exact .bind (.node rfl .rfl) fun t => .pure fun _ h => h
  · refine (hr.arrayType ctx).bind fun t => ?_
    exact .bind (.node rfl .rfl) fun t => .pure fun _ h => h

theorem unionType (hr : r.Sound text) (ctx : Context) : ReadsOne text (r.unionType ctx) := by
  intro c hc
  refine .position (.enter hc (.peek fun _ => .skip (skips_advanceIf _) fun _ => ?_))
  refine (hr.typeOperand ctx).bind fun first => ?_
  refine .bind (R := fun ts => Passage text true c ts) ?_ fun ts => ?_
  · refine .loop (fun items : List Tree => Passage text true c items.reverse) (fun _ h => h) ?_
    intro items
    refine .peek fun _ => .ite ?_ (.pure fun _ h => h)
    refine .pass skips_advance fun _ => ?_
    exact (hr.typeOperand ctx).bind fun t => .pure fun _ h => h.push
  · split <;> exact .node rfl .rfl

theorem constructorWords : Skips text false Rules.constructorWords := by
  refine .of_leads fun c => .peek fun _ => .ite ?_ ?_
  · exact .skip skips_advance.weaken fun _ => .pure fun _ h => h
  · refine .peek fun _ => .peek fun _ => .ite ?_ (.pure fun _ h => h)
    refine .skip skips_advance.weaken fun _ => .skip skips_advance.weaken fun _ => ?_
    exact .pure fun _ h => h

theorem functionType (hr : r.Sound text) (ctx : Context) :
    Reads text false Option.toList (r.functionType? ctx) := by
  intro c hc
  have hhead : Reads text true id (do
      let params ← r.typeLevelParams ctx
      expect "=>"
      pure params : Parser (List Tree)) :=
    .of_leads fun _ => (hr.typeLevelParams ctx).bind fun params => .pass (skips_expect _) fun _ =>
      .pure fun _ h => h
  refine .position (.enter hc (.skip constructorWords fun _ => .peek fun _ => .ite ?_ ?_))
  · refine (hr.optionalTypeParameters ctx).bind fun generics => ?_
    refine (hr.typeLevelParams ctx).bind fun params => .pass (skips_expect _) fun _ => ?_
    refine (hr.predicateType ctx).bind fun result => ?_
    refine .bind (.node rfl ?_) fun t => .pure fun _ h => h.weaken
    exact List.perm_append_comm.append_right [result]
  refine .peek fun _ => .ite ?_ (.pure fun _ h => h)
  refine .attempt hhead.leads (fun params => ?_) (.pure fun _ h => h)
  refine (hr.predicateType ctx).bind fun result => ?_
  exact .bind (.node rfl .rfl) fun t => .pure fun _ h => h.weaken

theorem anyType (hr : r.Sound text) (ctx : Context) : ReadsOne text (r.anyType ctx) := by
  intro c hc
  refine .position (.enter hc (.maybe (hr.functionType ctx) (fun t => .pure fun _ h => h) ?_))
  refine (hr.unionType ctx).bind fun t => .peek fun _ => .peek fun _ => .ite ?_ (.pure fun _ h => h)
  refine .pass skips_advance fun _ => (hr.typeExpr _).bind fun bound => ?_
  refine .pass (skips_expect _) fun _ => (hr.typeExpr _).bind fun yes => ?_
  refine .pass (skips_expect _) fun _ => (hr.typeExpr _).bind fun no => ?_
  exact .node rfl .rfl

end Recompose.Script.Rules.Sound
