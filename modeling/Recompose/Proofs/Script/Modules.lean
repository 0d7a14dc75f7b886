import Recompose.Proofs.Script.Statements
import Recompose.Script.Grammar.Modules

/-!
# Imports, exports and scripts are nested

One theorem per rule for what stands at the top of a script.
-/

namespace Recompose.Script

open Recompose.Script.Parser

variable {text : List Char} {r : Rules}

/-! ## Looking ahead -/

namespace Peeks

instance : Peeks Rules.followedByModuleName := by
  refine bind inferInstance fun _ => ?_
  split <;> exact pure _

instance : Peeks r.marksImport :=
  bind inferInstance fun _ => bind inferInstance fun _ => bind inferInstance fun _ =>
    bind inferInstance fun _ => pure _

instance : Peeks r.importsTypes := by
  refine bind inferInstance fun _ => ?_
  split
  · exact pure _
  refine bind inferInstance fun _ => ?_
  split
  · exact pure _
  · exact bind inferInstance fun _ => pure _
  · exact pure _
  · exact pure _

instance : Peeks r.marksExport :=
  bind inferInstance fun _ => bind inferInstance fun _ => bind inferInstance fun _ =>
    bind inferInstance fun _ => pure _

instance : Peeks r.declares :=
  bind inferInstance fun _ => bind inferInstance fun _ => bind inferInstance fun _ => pure _

end Peeks

namespace Rules.Sound

/-! ## Imports -/

theorem moduleName : ReadsOne text Rules.moduleName := by
  refine .of_leads fun c => .peek fun k => ?_
  split
  · exact readsOne_stringLiteral.leads
  · exact readsOne_propertyName.leads

theorem importSpecifier (r : Rules) : ReadsOne text r.importSpecifier := by
  intro c hc
  refine .position (.enter hc (.peek fun _ => .skip (skips_advanceIf _) fun _ => ?_))
  refine moduleName.bind fun imported => .skip (skips_eatWord _) fun _ => .ite ?_ ?_
  · exact readsOne_bindingName.bind fun bound => .node rfl .rfl
  split
  · exact .ite (.blame_bind fun _ h => h.blame h.only.isSlice) (.node rfl .rfl)
  · exact .unexpected

theorem importAttributes (hr : r.Sound text) : Skips text false r.importAttributes := by
  refine .of_leads fun c => .peek fun _ => .peek fun _ => .peek fun _ => .ite ?_ (.pure fun _ h => h)
  exact .pass skips_advance fun _ => .pass (hr.objectLiteral _).skips fun _ => .pure fun _ h => h.weaken

theorem importedDefault : ReadsMany text Rules.importedDefault := by
  intro c hc
  refine .peek fun k => ?_
  split
  · refine .position (.enter hc (readsOne_bindingName.bind fun name => ?_))
    exact .bind (.node rfl .rfl) fun t => .pure fun _ h => h.weaken
  · exact .enter hc (.pure fun _ h => h)

theorem importedNames (r : Rules) : ReadsMany text r.importedNames := by
  intro c hc
  refine .position (.enter hc (.eats (.ifTrue ?_) (.ifFalse ?_)))
  · refine .pass (skips_expectWord _) fun _ => readsOne_bindingName.bind fun name => ?_
    exact .bind (.node rfl .rfl) fun t => .pure fun _ h => h.weaken
  · exact .pass (skips_expect _) fun _ =>
      (readsMany_commaSeparated (importSpecifier r) _ _).leads.post fun _ _ h => h.weaken

theorem importClause (r : Rules) : ReadsMany text r.importClause := by
  refine .of_leads fun c => importedDefault.bind fun first => ?_
  cases first with
  | nil => exact .ifTrue (importedNames r).leads
  | cons name names =>
      refine .ifFalse (.eats (.ifTrue ?_) (.ifFalse (.pure fun _ h => h)))
      exact (importedNames r).bind fun names => .pure fun _ h => h.weaken

theorem aliased (hr : r.Sound text) : Skips text true r.aliased := by
  refine .of_leads fun c => .peek fun _ => .peek fun _ => .ite ?_ ?_
  · refine .pass skips_advance fun _ => .pass (skips_expect _) fun _ => ?_
    exact .pass readsOne_stringLiteral.skips fun _ => (skips_expect _).leads
  · exact .pass (hr.typeReference _).skips fun _ => .pure fun _ h => h

variable {c₀ : Cursor} {E : Failure → Prop} [Covers text c₀ E]

theorem importAliasRest (hr : r.Sound text) :
    Leads E (Passage text true c₀ []) (r.importAliasRest c₀.token.span.start)
      fun t => Passage text true c₀ [t] :=
  .pass (skips_expect _) fun _ => .pass hr.aliased fun _ =>
    .skip skips_endStatement fun _ => .node rfl .rfl

theorem importDeclaration (hr : r.Sound text) : ReadsOne text r.importDeclaration := by
  intro c hc
  refine .position (.enter hc (.pass (skips_expectWord _) fun _ => .peek fun k => ?_))
  split
  · refine readsOne_stringLiteral.bind fun source => .skip hr.importAttributes fun _ => ?_
    exact .skip skips_endStatement fun _ => .node rfl .rfl
  refine .peek fun typeOnly => .skip (skips_advanceIf _) fun _ => .peek fun _ => .ite ?_ ?_
  · exact .pass readsOne_bindingName.skips fun _ => hr.importAliasRest
  refine (importClause r).bind fun names => .pass (skips_expectWord _) fun _ => ?_
  refine readsOne_stringLiteral.bind fun source => .skip hr.importAttributes fun _ => ?_
  exact .skip skips_endStatement fun _ => .node rfl .rfl

/-! ## Exports -/

theorem defaultDeclaration (hr : r.Sound text) :
    Reads text false Option.toList r.defaultDeclaration? := by
  intro c hc
  refine .position (.enter hc ?_)
  refine .peek fun _ => .ite (.bind (hr.functionFrom _ _ _) fun t => .pure fun _ h => h.weaken) ?_
  refine .peek fun _ => .ite (.bind (hr.classFrom _ _) fun t => .pure fun _ h => h.weaken) ?_
  refine .peek fun _ => .ite (.pass skips_advance fun _ => ?_) ?_
  · exact .bind (hr.functionFrom _ _ _) fun t => .pure fun _ h => h.weaken
  refine .peek fun _ => .peek fun _ => .ite (.pass skips_advance fun _ => ?_) ?_
  · exact .bind (hr.classFrom _ _) fun t => .pure fun _ h => h.weaken
  refine .peek fun _ => .peek fun _ => .ite (.pass skips_advance fun _ => ?_) (.pure fun _ h => h)
  exact .bind (hr.interfaceRest _) fun t => .pure fun _ h => h.weaken

theorem defaultExport (hr : r.Sound text) :
    Leads E (Passage text true c₀ []) (r.defaultExport c₀.token.span.start)
      fun t => Passage text true c₀ [t] := by
  refine .maybe hr.defaultDeclaration (fun tree => .node rfl .rfl) ?_
  exact (hr.assignment _).bind fun value => .skip skips_endStatement fun _ => .node rfl .rfl

theorem exportedAs : Skips text false Rules.exportedAs := by
  refine .of_leads fun c => .skip (skips_eatWord _) fun _ => .ite ?_ (.pure fun _ h => h)
  exact .pass moduleName.skips fun _ => .pure fun _ h => h.weaken

theorem exportSpecifier (r : Rules) : Skips text true r.exportSpecifier :=
  .of_leads fun _ => .peek fun _ => .skip (skips_advanceIf _) fun _ =>
    .pass moduleName.skips fun _ => exportedAs.leads

theorem exportSource (hr : r.Sound text) : Skips text true r.exportSource := by
  refine .of_leads fun c => .pass (skips_expectWord _) fun _ => ?_
  refine .pass readsOne_stringLiteral.skips fun _ => .skip hr.importAttributes fun _ => ?_
  exact skips_endStatement.leads

theorem exportEnd (hr : r.Sound text) : Skips text false r.exportEnd :=
  .of_leads fun _ => .peek fun _ => .ite hr.exportSource.weaken.leads skips_endStatement.leads

theorem typeExport (hr : r.Sound text) :
    Leads E (Passage text true c₀ []) (r.typeExport? c₀.token.span.start)
      fun t? => Passage text true c₀ t?.toList := by
  refine .ite (.pure fun _ h => h) (.skip (skips_eat _) fun _ => .ite ?_ ?_)
  · refine (hr.expression _).bind fun value => .skip skips_endStatement fun _ => ?_
    exact .bind (.node rfl .rfl) fun t => .pure fun _ h => h
  refine .peek fun _ => .peek fun _ => .ite ?_ ?_
  · refine .pass skips_advance fun _ => .pass skips_advance fun _ => ?_
    refine .pass readsOne_bindingName.skips fun _ => .skip skips_endStatement fun _ => ?_
    exact .bind (.node rfl .rfl) fun t => .pure fun _ h => h
  refine .peek fun _ => .peek fun _ => .skip (skips_advanceIf _) fun _ => .peek fun _ => ?_
  refine .ite (hr.importDeclaration.bind fun inner => ?_) (.pure fun _ h => h)
  exact .bind (.node rfl .rfl) fun t => .pure fun _ h => h

theorem exportDeclaration (hr : r.Sound text) : ReadsOne text r.exportDeclaration := by
  intro c hc
  refine .position (.enter hc (.pass (skips_expectWord _) fun _ => ?_))
  refine .skip (skips_eatWord _) fun _ => .ite hr.defaultExport ?_
  refine .bind hr.typeExport fun tree? => ?_
  cases tree? with
  | some tree => exact .pure fun _ h => h
  | none =>
      refine .skip (skips_eat _) fun _ => .ite ?_ ?_
      · exact .skip exportedAs fun _ => .pass hr.exportSource fun _ => .node rfl .rfl
      refine .skip (skips_eat _) fun _ => .ite ?_ ?_
      · refine .pass (reads_commaSeparated (exportSpecifier r) _ _).skips fun _ => ?_
        exact .skip hr.exportEnd fun _ => .node rfl .rfl
      refine .peek fun _ => .ite ((hr.anyStatement _).bind fun inner => ?_) .unexpected_bind
      split
      · exact .blame fun _ h => h.blame h.only.isSlice
      · exact .node rfl .rfl

/-! ## Scripts -/

theorem moduleItem (hr : r.Sound text) : ReadsOne text r.moduleItem := by
  refine .of_leads fun c => .peek fun _ => .ite hr.exportDeclaration.leads ?_
  refine .peek fun _ => .peek fun _ => .ite hr.importDeclaration.leads ?_
  exact (hr.anyStatement _).leads

theorem nestedStatement (hr : r.Sound text) (ctx : Context) :
    ReadsOne text (r.nestedStatement ctx) :=
  .of_leads fun _ => .peek fun _ => .ite hr.exportDeclaration.leads (hr.anyStatement ctx).leads

theorem moduleItems (hr : r.Sound text) : ReadsMany text r.moduleItems := by
  refine .of_leads fun c => ?_
  refine .loop (fun items : List Tree => Passage text false c items.reverse) (fun _ h => h) ?_
  intro items
  refine .peek fun _ => .ite (.pure fun _ h => h) ?_
  exact hr.moduleItem.bind fun item => .pure fun _ h => h.weaken.push

end Rules.Sound

end Recompose.Script
