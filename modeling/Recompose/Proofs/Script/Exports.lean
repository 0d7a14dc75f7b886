import Recompose.Proofs.Script.Parser

/-!
# Where default exports begin

A default export is read behind the word `export`. In a script with types, a namespace
may hold one, and the word `declare` may stand in front of it. No other statement is one,
so the character that a default export begins with takes one byte.
-/

namespace Recompose.Script

open Recompose.Script.Parser

/-! ## Statements that are no default exports -/

def Kind.isDefaultExport : Kind → Bool
  | .exportDefault => true
  | _ => false

namespace Rules

variable {r : Rules} {ctx : Context} {start : Nat}

/-- A parser for anything but a default export. -/
abbrev NoExport (p : Parser Tree) : Prop := Yields p (·.kind.isDefaultExport = false)

/-- A parser for what may stand here and is no default export. -/
abbrev NoExport? (p : Parser (Option Tree)) : Prop :=
  Yields p fun t? => ∀ t ∈ t?, t.kind.isDefaultExport = false

theorem noExport_node {k : Kind} (hk : k.isDefaultExport = false) {ts : List Tree} :
    NoExport (node k start ts) := yields_node fun _ => hk

theorem NoExport.found {p : Parser Tree} (h : NoExport p) :
    NoExport? (do return some (← p)) := by
  refine .bind h fun t => .pure ?_
  rintro c ht _ ⟨⟩
  exact ht

theorem noExport?_none : NoExport? (pure none) := .pure fun _ _ => nofun

theorem noExport_functionFrom {isAsync nameNeeded bodyNeeded : Bool} :
    NoExport (r.functionFrom start isAsync nameNeeded bodyNeeded) :=
  .whatever fun _ => .whatever fun _ => .whatever fun _ => .whatever fun _ => .whatever fun _ =>
    noExport_node rfl

theorem noExport_classFrom {nameNeeded : Bool} : NoExport (r.classFrom ctx start nameNeeded) :=
  .whatever fun _ => .whatever fun _ => .whatever fun _ => .whatever fun _ => .whatever fun _ =>
    .whatever fun _ => .whatever fun _ => noExport_node rfl

theorem noExport_blockStatement : NoExport (r.blockStatement ctx) :=
  .whatever fun _ => .whatever fun _ => noExport_node rfl

theorem noExport_collectionLoop {head : Tree} : NoExport (r.collectionLoop ctx start head) :=
  .whatever fun _ => .whatever fun _ => .whatever fun _ => noExport_node rfl

theorem noExport_countingLoop {init : List Tree} : NoExport (r.countingLoop ctx start init) :=
  .whatever fun _ => .whatever fun _ => .whatever fun _ => .whatever fun _ => .whatever fun _ =>
    .whatever fun _ => .whatever fun _ => .whatever fun _ => noExport_node rfl

theorem noExport_forStatement : NoExport (r.forStatement ctx) := by
  refine .whatever fun _ => .whatever fun _ => .whatever fun _ => .whatever fun _ => ?_
  refine .whatever fun _ => .ite noExport_countingLoop ?_
  refine .whatever fun _ => .whatever fun mode? => ?_
  cases mode? with
  | some mode =>
      refine .whatever fun _ => .whatever fun _ => .whatever fun _ => ?_
      refine .whatever fun _ => .whatever fun _ => .ite ?_ noExport_countingLoop
      exact noExport_collectionLoop
  | none =>
      refine .whatever fun _ => .whatever fun _ => .whatever fun _ => ?_
      exact .ite noExport_collectionLoop noExport_countingLoop

theorem noExport_ifStatement : NoExport (r.ifStatement ctx) :=
  .whatever fun _ => .whatever fun _ => .whatever fun _ => .whatever fun _ => .whatever fun _ =>
    .whatever fun _ => noExport_node rfl

theorem noExport_whileStatement : NoExport (r.whileStatement ctx) :=
  .whatever fun _ => .whatever fun _ => .whatever fun _ => .whatever fun _ => noExport_node rfl

theorem noExport_doStatement : NoExport (r.doStatement ctx) :=
  .whatever fun _ => .whatever fun _ => .whatever fun _ => .whatever fun _ => .whatever fun _ =>
    .whatever fun _ => noExport_node rfl

theorem noExport_switchStatement : NoExport (r.switchStatement ctx) :=
  .whatever fun _ => .whatever fun _ => .whatever fun _ => .whatever fun _ => .whatever fun _ =>
    noExport_node rfl

theorem noExport_tryStatement : NoExport (r.tryStatement ctx) :=
  .whatever fun _ => .whatever fun _ => .whatever fun _ => .whatever fun _ => .whatever fun _ =>
    .whatever fun _ => .ite .unexpected_bind (noExport_node rfl)

theorem noExport_returnStatement : NoExport (r.returnStatement ctx) :=
  .whatever fun _ => .whatever fun _ => .whatever fun _ => .whatever fun _ => .whatever fun _ =>
    .whatever fun _ => .whatever fun _ => noExport_node rfl

theorem noExport_throwStatement : NoExport (r.throwStatement ctx) :=
  .whatever fun _ => .whatever fun _ => .whatever fun _ => .ite .unexpected_bind <|
    .whatever fun _ => .whatever fun _ => noExport_node rfl

theorem noExport_jumpStatement : NoExport jumpStatement :=
  .whatever fun _ => .whatever fun _ => .whatever fun _ => .whatever fun _ => .whatever fun _ =>
    noExport_node rfl

theorem noExport_declaration? : NoExport? (r.declaration? ctx) := by
  refine .whatever fun _ => .whatever fun _ => .ite noExport_functionFrom.found ?_
  refine .whatever fun _ => .ite noExport_classFrom.found ?_
  refine .whatever fun _ => .ite (.whatever fun _ => ?_) noExport?_none
  exact noExport_functionFrom.found

theorem noExport_strayHandlers? : NoExport? (r.strayHandlers? ctx) := by
  have hleaf : ∀ span, NoExport? (pure (some (.leaf .exprStmt span))) := by
    intro span
    refine .pure ?_
    rintro _ - _ ⟨⟩
    exact rfl
  refine .whatever fun _ => .whatever fun _ => .ite ?_ ?_
  · exact .whatever fun _ => .whatever fun _ => hleaf _
  refine .whatever fun _ => .ite (.whatever fun _ => hleaf _) noExport?_none

theorem noExport_endExpression {value : Tree} : NoExport (r.endExpression ctx start value) := by
  have hends : NoExport (do endStatement; node .exprStmt start [value]) :=
    .whatever fun _ => noExport_node rfl
  refine .ite (.whatever fun op? => ?_) hends
  cases op? with
  | none => exact hends
  | some op =>
      exact .whatever fun _ => .whatever fun _ => .whatever fun _ => noExport_node rfl

theorem noExport_expressionStatement : NoExport (r.expressionStatement ctx) := by
  refine .whatever fun _ => .whatever fun _ => .ite ?_ (.whatever fun _ => noExport_endExpression)
  exact .whatever fun _ => .whatever fun _ => .whatever fun _ => noExport_node rfl

theorem noExport_plainStatement : NoExport (r.plainStatement ctx start) := by
  refine .whatever fun mode? => ?_
  cases mode? with
  | some mode =>
      exact .whatever fun _ => .whatever fun _ => .whatever fun _ => noExport_node rfl
  | none => exact noExport_expressionStatement

theorem noExport_interfaceRest : NoExport (r.interfaceRest ctx start) :=
  .whatever fun _ => .whatever fun _ => .whatever fun _ => .whatever fun _ => noExport_node rfl

theorem noExport_aliasRest : NoExport (r.aliasRest ctx start) :=
  .whatever fun _ => .whatever fun _ => .whatever fun _ => .whatever fun _ => .whatever fun _ =>
    noExport_node rfl

theorem noExport_enumRest : NoExport (r.enumRest ctx start) :=
  .whatever fun _ => .whatever fun _ => .whatever fun _ => noExport_node rfl

theorem noExport_namespaceRest : NoExport (r.namespaceRest ctx start) := by
  refine .whatever fun _ => .whatever fun _ => .ite ?_ ?_ <;>
    exact .whatever fun _ => noExport_node rfl

theorem noExport_importDeclaration : NoExport r.importDeclaration := by
  have hnames : ∀ {start typeOnly}, NoExport (do
      let names ← r.importClause
      expectWord "from"
      let source ← stringLiteral
      r.importAttributes
      endStatement
      node (.importDecl typeOnly) start (names ++ [source])) :=
    .whatever fun _ => .whatever fun _ => .whatever fun _ => .whatever fun _ => .whatever fun _ =>
      noExport_node rfl
  refine .whatever fun _ => .whatever fun _ => .whatever fun kind => ?_
  split
  · exact .whatever fun _ => .whatever fun _ => .whatever fun _ => noExport_node rfl
  refine .whatever fun _ => .whatever fun _ => .whatever fun _ => .ite ?_ hnames
  exact .whatever fun _ => .whatever fun _ => .whatever fun _ => .whatever fun _ =>
    noExport_node rfl

/-! ## Default exports begin with a word -/

/-- A default export begins at the cursor, which stands on one of its words. -/
def BeginsAt (c : Cursor) (t : Tree) : Prop :=
  t.kind.isDefaultExport = true → t.span.start = c.token.span.start ∧
    ∃ name ∈ ["export", "declare"], c.token.kind = .word name false

theorem NoExport.beginsAt {p : Parser Tree} (h : NoExport p) {P : Cursor → Prop} (c : Cursor) :
    Leads Anyhow P p fun t _ => BeginsAt c t :=
  (h.mono fun _ _ => trivial).post fun _ _ ht hexport => absurd (hexport.symm.trans ht) nofun

theorem NoExport?.beginsAt {p : Parser (Option Tree)} (h : NoExport? p) {P : Cursor → Prop}
    (c : Cursor) : Leads Anyhow P p fun t? _ => ∀ t ∈ t?, BeginsAt c t :=
  (h.mono fun _ _ => trivial).post fun _ _ ht t hmem hexport =>
    absurd (hexport.symm.trans (ht t hmem)) nofun

variable {c : Cursor}

/-- A parser that returns what it finds first, and else goes on. -/
theorem beginsAt_found {P : Cursor → Prop} {p : Parser (Option Tree)}
    {f : Option Tree → Parser Tree} (hp : Leads Anyhow P p fun t? _ => ∀ t ∈ t?, BeginsAt c t)
    (hsome : ∀ t, f (some t) = pure t)
    (hnone : Leads Anyhow (fun _ => True) (f none) fun t _ => BeginsAt c t) :
    Leads Anyhow P (p >>= f) fun t _ => BeginsAt c t := by
  refine .bind hp fun t? => ?_
  cases t? with
  | some t =>
      rw [hsome]
      exact .pure fun _ ht => ht t rfl
  | none => exact hnone.mono fun _ _ => trivial

theorem beginsAt_typeDeclaration? :
    Leads Anyhow (· = c) (r.typeDeclaration? ctx) fun t? _ => ∀ t ∈ t?, BeginsAt c t := by
  refine .ite (noExport?_none.beginsAt c) (.position (.peek fun named => ?_))
  refine .peek fun _ => .ite (.whatever fun _ => noExport_interfaceRest.found.beginsAt c) ?_
  refine .peek fun _ => .ite (.whatever fun _ => noExport_aliasRest.found.beginsAt c) ?_
  refine .peek fun _ => .ite (.whatever fun _ => noExport_enumRest.found.beginsAt c) ?_
  refine .peek fun _ => .peek fun _ => .ite ?_ ?_
  · exact .whatever fun _ => .whatever fun _ => noExport_enumRest.found.beginsAt c
  refine .peek fun _ => .peek fun _ => .ite ?_ ?_
  · exact .whatever fun _ => noExport_classFrom.found.beginsAt c
  refine .peek fun _ => .ite (.whatever fun _ => noExport_namespaceRest.found.beginsAt c) ?_
  refine .peek fun _ => .peek fun _ => .ite ?_ ?_
  · exact .whatever fun _ => noExport_namespaceRest.found.beginsAt c
  refine .peek fun _ => .peek fun _ => .ite ?_ ?_
  · exact .whatever fun _ => .whatever fun _ => (noExport_node rfl).found.beginsAt c
  refine .atWord ?_
  split
  · rename_i hdeclare
    have hkind := eq_of_beq (Bool.and_eq_true_iff.mp hdeclare).1
    refine .whatever fun _ => .whatever fun inner => .pure ?_
    rintro _ - _ ⟨⟩ -
    refine ⟨?_, "declare", List.mem_cons_of_mem _ (List.mem_cons_self ..), hkind⟩
    rw [Tree.span_startingAt]
  · exact noExport?_none.beginsAt c

theorem beginsAt_keywordStatement? :
    Leads Anyhow (· = c) (r.keywordStatement? ctx) fun t? c' =>
      (∀ t ∈ t?, BeginsAt c t) ∧ (t? = none → c' = c) := by
  have hfound : ∀ {p : Parser Tree}, NoExport p → Leads Anyhow (· = c) (do return some (← p))
      fun t? c' => (∀ t ∈ t?, BeginsAt c t) ∧ (t? = none → c' = c) := by
    intro p h
    refine .bind (h.beginsAt c) fun t => .pure fun _ ht => ⟨?_, nofun⟩
    rintro _ ⟨⟩
    exact ht
  refine .kind ?_
  split
  · exact hfound noExport_ifStatement
  · exact hfound noExport_forStatement
  · exact hfound noExport_whileStatement
  · exact hfound noExport_whileStatement
  · exact hfound noExport_doStatement
  · exact hfound noExport_returnStatement
  · exact hfound noExport_throwStatement
  · exact hfound noExport_jumpStatement
  · exact hfound noExport_jumpStatement
  · exact hfound noExport_jumpStatement
  · exact hfound noExport_switchStatement
  · exact hfound noExport_tryStatement
  · exact .pure fun _ hc => ⟨nofun, fun _ => hc⟩

theorem beginsAt_anyStatement :
    Leads Anyhow (· = c) (r.anyStatement ctx) fun t _ => BeginsAt c t := by
  refine .position (.peek fun _ => .ite (noExport_blockStatement.beginsAt c) ?_)
  refine .bind (.eat ";") fun took => .fix fun c' hc' => ?_
  obtain ⟨rfl, -, -⟩ | ⟨rfl, rfl⟩ := hc'
  · exact (noExport_node rfl).beginsAt c
  refine .bind beginsAt_keywordStatement? fun t? => ?_
  cases t? with
  | some t => exact .pure fun _ ht => ht.1 t rfl
  | none =>
  refine .fix fun c₁ hc₁ => ?_
  obtain rfl := hc₁.2 rfl
  refine beginsAt_found beginsAt_typeDeclaration? (fun _ => rfl) ?_
  refine beginsAt_found (noExport_declaration?.beginsAt _) (fun _ => rfl) ?_
  refine .ite ?_ (noExport_plainStatement.beginsAt _)
  refine beginsAt_found (noExport_strayHandlers?.beginsAt _) (fun _ => rfl) ?_
  exact noExport_plainStatement.beginsAt _

theorem noExport_typeExport? : NoExport? (r.typeExport? start) := by
  refine .ite noExport?_none (.whatever fun _ => .ite ?_ ?_)
  · exact .whatever fun _ => .whatever fun _ => (noExport_node rfl).found
  refine .whatever fun _ => .whatever fun _ => .ite ?_ ?_
  · exact .whatever fun _ => .whatever fun _ => .whatever fun _ => .whatever fun _ =>
      (noExport_node rfl).found
  refine .whatever fun _ => .whatever fun _ => .whatever fun _ => .whatever fun _ => ?_
  exact .ite (.whatever fun _ => (noExport_node rfl).found) noExport?_none

theorem beginsAt_exportDeclaration (hkind : c.token.kind = .word "export" false) :
    Leads Anyhow (· = c) r.exportDeclaration fun t _ => BeginsAt c t := by
  have hnode : ∀ {k ts P}, Leads Anyhow P (node k c.token.span.start ts) fun t _ => BeginsAt c t :=
    fun _ _ _ => ⟨rfl, "export", List.mem_cons_self .., hkind⟩
  refine .position (.whatever fun _ => ?_)
  refine .whatever fun _ => .ite (.whatever fun tree? => ?_) ?_
  · cases tree? with
    | some tree => exact hnode
    | none => exact .whatever fun _ => .whatever fun _ => hnode
  refine beginsAt_found (noExport_typeExport?.beginsAt c) (fun _ => rfl) ?_
  refine .whatever fun _ => .ite ?_ ?_
  · exact .whatever fun _ => .whatever fun _ => hnode
  refine .whatever fun _ => .ite ?_ ?_
  · exact .whatever fun _ => .whatever fun _ => hnode
  refine .whatever fun _ => .ite (.whatever fun inner => ?_) .unexpected_bind
  split
  · exact .blame fun _ _ => trivial
  · exact hnode

theorem beginsAt_moduleItem : Leads Anyhow (· = c) r.moduleItem fun t _ => BeginsAt c t := by
  refine .atWord ?_
  split
  · rename_i hexport
    exact beginsAt_exportDeclaration (eq_of_beq hexport)
  refine .peek fun _ => .peek fun _ => .ite (noExport_importDeclaration.beginsAt c) ?_
  exact beginsAt_anyStatement

theorem BeginsAt.isBoundary {text : List Char} {t : Tree} (h : BeginsAt c t) (hc : c.Sound text)
    (hexport : t.kind.isDefaultExport = true) : IsBoundary text (t.span.start + 1) := by
  obtain ⟨hstart, name, hname, hkind⟩ := h hexport
  obtain ⟨behind, hhere⟩ := hc.token.word name hkind
  have hrest := hc.here
  rw [← hhere, ← hstart] at hrest
  rcases List.mem_cons.mp hname with rfl | hname
  · exact ⟨_, hrest.tail⟩
  · obtain rfl := List.mem_singleton.mp hname
    exact ⟨_, hrest.tail⟩

/-- The items of a script are read behind each other. -/
theorem isBoundary_moduleItems {text : List Char} (hr : r.Sound text) :
    Leads Anyhow (·.Sound text) r.moduleItems fun items _ => ∀ item ∈ items,
      item.kind.isDefaultExport = true → IsBoundary text (item.span.start + 1) := by
  have hgood : ∀ c, c.Sound text → Leads Anyhow (· = c) r.moduleItem fun t c' =>
      (t.kind.isDefaultExport = true → IsBoundary text (t.span.start + 1)) ∧ c'.Sound text := by
    rintro c hc _ rfl
    cases hrun : r.moduleItem _ with
    | error e => exact trivial
    | ok res =>
        have hbegins := beginsAt_moduleItem.ok rfl hrun
        exact ⟨hbegins.isBoundary hc, ((hr.moduleItem _ hc).ok rfl hrun).sound⟩
  refine .loop (fun items c => c.Sound text ∧ ∀ item ∈ items,
    item.kind.isDefaultExport = true → IsBoundary text (item.span.start + 1)) ?_ ?_
  · exact fun c hc => ⟨hc, nofun⟩
  intro items
  refine .peek fun _ => .ite ?_ ?_
  · exact .pure fun c h item hmem => h.2 item (List.mem_reverse.mp hmem)
  refine .fix fun c hc => .bind (hgood c hc.1) fun t => .pure fun c' ht => ⟨ht.2, ?_⟩
  exact List.forall_mem_cons.mpr ⟨ht.1, hc.2⟩

end Rules

/-- The character that a default export begins with takes one byte. -/
theorem isBoundary_of_read {dialect : Dialect} {source : String} {script : Script}
    (h : read dialect source = .ok script) :
    ∀ item ∈ script.items, item.kind = .exportDefault →
      IsBoundary source.toList (item.span.start + 1) := by
  obtain ⟨-, lenient, htree⟩ := parseAs_of_read h
  unfold parseAs at htree
  dsimp only at htree
  split at htree
  · rename_i items _ hrun
    have hitems : script.items = items := congrArg Tree.parts (Except.ok.inj htree).symm
    rw [hitems]
    intro item hitem hkind
    have hsound := Cursor.Sound.start (rest_skipHashbang source.toList)
    have hbegins := (Rules.isBoundary_moduleItems (sound_rules ..)).ok hsound hrun
    exact hbegins item hitem (by rw [hkind]; rfl)
  · cases htree

end Recompose.Script
