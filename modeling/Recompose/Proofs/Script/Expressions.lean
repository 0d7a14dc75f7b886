import Recompose.Proofs.Script.Patterns
import Recompose.Script.Grammar.Expressions

/-!
# Expressions are nested

One theorem per rule. A rule that goes on with what was read before it, such as
a link of a chain, is given the place where its tree starts; what is known about
it leads from that place.
-/

namespace Recompose.Script

open Recompose.Script.Parser

variable {text : List Char}

/-! ## Looking ahead -/

namespace Peeks

instance : Peeks Rules.nameBeforeArrow := by
  refine bind inferInstance fun k => ?_
  split
  · exact bind inferInstance fun _ => pure _
  · exact pure _

instance (words : List String) : Peeks (Rules.modifiesProperty words) :=
  bind inferInstance fun _ => bind inferInstance fun _ => pure _

instance (words : List String) : Peeks (Rules.modifiesMember words) :=
  bind inferInstance fun _ => bind inferInstance fun _ => pure _

instance : Peeks Rules.canFollowTypeArguments := by
  refine bind inferInstance fun newline => ?_
  split
  · exact pure _
  refine bind inferInstance fun k => ?_
  split <;> exact pure _

end Peeks

namespace Rules.Sound

variable {r : Rules} {E : Failure → Prop}

/-! ## Arrow functions -/

theorem arrowGenerics (hr : r.Sound text) (ctx : Context) : ReadsMany text (r.arrowGenerics ctx) := by
  refine .of_leads fun c => .peek fun _ => .ite ?_ (.pure fun _ h => h)
  refine (hr.typeParameters ctx).bind fun p => ?_
  exact .ite .unexpected_bind (.pure fun _ h => h.weaken)

theorem arrowHead (hr : r.Sound text) (ctx : Context) :
    Reads text true (fun (params, generics, result) => generics ++ params ++ result)
      (r.arrowHead ctx) := by
  refine .of_leads fun c => (hr.arrowGenerics ctx).bind fun generics => ?_
  refine (hr.parameters _ true).bind fun params => (hr.returnType ctx).bind fun result => ?_
  refine .peek fun _ => .peek fun _ => .ite ?_ .unexpected_bind
  exact .pass skips_advance fun _ => .pure fun _ h => h

theorem arrowBody (hr : r.Sound text) (ctx : Context) : ReadsOne text (r.arrowBody ctx) := by
  refine .of_leads fun c => .peek fun _ => .ite (hr.blockStatement _).leads ?_
  exact (hr.assignment _).bind fun body => .pure fun _ h => h.wrapOne rfl

/-- The way back when it is no arrow function. -/
theorem arrowFunction (hr : r.Sound text) (ctx : Context) (isAsync : Bool) {b : Bool} {c₀ : Cursor}
    [Covers text c₀ E] :
    Leads E (Passage text b c₀ []) (r.arrowFunction? ctx c₀.token.span.start isAsync)
      fun t? => Passage text b c₀ t?.toList := by
  refine .fix fun saved hsaved => .get (.mono ?_ fun _ h => h ▸ hsaved)
  refine .attempt (hr.arrowHead ctx).leads ?_ (.pure fun _ h => h)
  rintro ⟨params, generics, result⟩
  rw [Bool.or_true]
  have hfinish : ∀ {E : Failure → Prop} [Covers text c₀ E],
      Leads E (Passage text true c₀ (generics ++ params ++ result))
        (do
          node (.arrow isAsync) c₀.token.span.start
            (params ++ [← r.arrowBody ctx] ++ generics ++ result))
        fun t => Passage text true c₀ [t] :=
    (hr.arrowBody ctx).bind fun body => .node rfl (perm_functionParts ..)
  have hclose : ∀ {t c}, Passage text true c₀ [t] c → Passage text b c₀ [t] c := by
    intro t c h
    exact { h with passed := fun _ => h.passed rfl }
  refine .ite ?_ (.bind hfinish fun tree => .pure fun _ h => hclose h)
  refine .attempt (R := fun t => Passage text true c₀ [t]) (.bind hfinish fun tree => ?_) ?_ ?_
  · exact .peek fun _ => .ite (.pure fun _ h => h) .unexpected_bind
  · exact fun tree => .pure fun _ h => hclose h
  · refine .set (.pure ?_)
    rintro _ rfl
    exact hsaved

theorem bareArrow (hr : r.Sound text) (ctx : Context) (isAsync : Bool) {b : Bool} {c₀ : Cursor}
    [Covers text c₀ E] :
    Leads E (Passage text b c₀ []) (r.bareArrow ctx c₀.token.span.start isAsync)
      fun t => Passage text true c₀ [t] := by
  refine readsOne_bindingName.bind fun name => .pass (skips_expect _) fun _ => ?_
  refine .mono ?_ fun _ h => Passage.wrapOne (k := .param false) h rfl
  exact (hr.arrowBody ctx).bind fun body => .node rfl .rfl

/-! ## Properties -/

theorem methodRest (hr : r.Sound text) (isAsync isGenerator : Bool) {c₀ : Cursor} {key : Tree}
    [Covers text c₀ E] :
    Leads E (Passage text true c₀ [key]) (r.methodRest c₀.token.span.start isAsync isGenerator key)
      fun t => Passage text true c₀ [t] :=
  (hr.functionRest isGenerator true).bind fun _ => .node rfl .rfl

theorem getterRest (hr : r.Sound text) {c₀ : Cursor} {key : Tree}
    [Covers text c₀ E] :
    Leads E (Passage text true c₀ [key]) (r.getterRest c₀.token.span.start key)
      fun t => Passage text true c₀ [t] := by
  refine .pass (skips_expect _) fun _ => .pass (skips_expect _) fun _ => ?_
  refine (hr.returnType _).bind fun result => (hr.blockStatement _).bind fun body => ?_
  exact .node rfl .rfl

theorem propertyRest (hr : r.Sound text) (ctx : Context) (key : Tree) {c : Cursor}
    [Covers text c E] :
    Leads E (Passage text true c [key]) (r.propertyRest ctx c.token.span.start key)
      fun t => Passage text true c [t] := by
  refine .peek fun _ => .peek fun _ => .ite (hr.methodRest _ _) ?_
  have hvalue : ∀ k : Kind, (∀ value, k.closes [key, value] = true) →
      Leads E (Passage text true c [key]) (do node k c.token.span.start [key, ← r.assignment ctx])
      fun t => Passage text true c [t] :=
    fun k hk => (hr.assignment _).bind fun value => .node (hk value) .rfl
  split
  · refine .eats (.ifTrue (hvalue _ fun _ => rfl)) (.ifFalse ?_)
    refine .eats (.ifTrue (hvalue _ fun _ => rfl)) (.ifFalse ?_)
    exact .peek fun _ => .ite (.node rfl .rfl) .unexpected
  · exact .pass (skips_expect _) fun _ => hvalue _ fun _ => rfl

theorem property (hr : r.Sound text) (ctx : Context) : ReadsOne text (r.property ctx) := by
  intro c hc
  refine .position (.enter hc (.eats (.ifTrue ?_) (.ifFalse ?_)))
  · exact (hr.assignment _).bind fun inner => .node rfl .rfl
  refine .eats (.ifTrue ?_) (.ifFalse ?_)
  · exact (hr.propertyKey _).bind fun key => hr.methodRest _ _
  refine .peek fun _ => .peek fun _ => .ite ?_ ?_
  · refine .pass skips_advance fun _ => .skip (skips_eat _) fun _ => ?_
    exact (hr.propertyKey _).bind fun key => hr.methodRest _ _
  refine .peek fun _ => .peek fun _ => .ite ?_ ?_
  · refine .peek fun _ => .pass skips_advance fun _ => (hr.propertyKey _).bind fun key => ?_
    refine .ite hr.getterRest ?_
    refine (hr.functionRest _ _).bind fun parts => ?_
    exact .node rfl .rfl
  exact (hr.propertyKey _).bind fun key => hr.propertyRest _ key

/-! ## Literals -/

theorem item (hr : r.Sound text) (ctx : Context) : ReadsOne text (r.item ctx) := by
  intro c hc
  refine .position (.enter hc (.eats (.ifTrue ?_) (.ifFalse (hr.assignment _).leads)))
  exact (hr.assignment _).bind fun inner => .node rfl .rfl

theorem arrayLiteral (hr : r.Sound text) (ctx : Context) : ReadsOne text (r.arrayLiteral ctx) := by
  intro c hc
  refine .position (.enter hc (.pass (skips_expect _) fun _ => ?_))
  refine .bind (R := fun ts => Passage text true c ts) ?_ fun ts => .node rfl .rfl
  refine .loop (fun items : List Tree => Passage text true c items.reverse) (fun _ h => h) ?_
  intro items
  refine .skip (skips_eat _) fun _ => .ite (.pure fun _ h => h) ?_
  refine .peek fun _ => .ite ?_ ?_
  · refine .fix fun c₁ h₁ => .position (.afterAdvance (.pure ?_))
    rintro _ rfl
    exact (h₁.trans (.hole h₁.sound)).push
  refine (hr.item ctx).bind fun item => ?_
  refine .skip (skips_eat _) fun _ => .ite (.pure fun _ h => h.push) ?_
  exact .pass (skips_expect _) fun _ => .pure fun _ h => h.push

/-- An object begins with its brace. -/
theorem objectLiteral (hr : r.Sound text) (ctx : Context) : ReadsOne text (r.objectLiteral ctx) := by
  intro c hc
  have : MayFail (· = c) (Failure.Within text c) := hc.mayFail
  refine .position (.bind (.expect _) fun _ => .fix fun c₁ ⟨hbrace, hc₁⟩ => ?_)
  subst hc₁
  have : Covers text c.next (Failure.Within text c) := (Passage.advance hc).covers
  refine .enter hc.next ((readsMany_commaSeparated (hr.property ctx) _ _).bind fun ts => ?_)
  exact fun _ hpass => .closeBraced hc hbrace hpass nofun rfl

theorem templateLiteral (hr : r.Sound text) (ctx : Context) :
    ReadsOne text (r.templateLiteral ctx) := by
  intro c hc
  refine .position (.enter hc ?_)
  exact (reads_template (hr.expression _) _).bind fun parts => .node rfl .rfl

/-- Behind the slash, the text of a regular expression follows. -/
theorem regexLiteral {c : Cursor} (hc : c.Sound text)
    (hslash : c.token.kind = .punct "/" ∨ c.token.kind = .punct "/=") :
    Leads (Failure.Within text c) (· = c) Rules.regexLiteral fun t => Passage text true c [t] := by
  obtain ⟨rest, hrest⟩ : ∃ rest, c.here = '/' :: rest := by
    rcases hslash with hkind | hkind
    · obtain ⟨⟨⟨rest, hrest⟩, -⟩, -⟩ := hc.token.stands _ hkind
      exact ⟨rest, hrest.symm⟩
    · obtain ⟨⟨⟨rest, hrest⟩, -⟩, -⟩ := hc.token.stands _ hkind
      exact ⟨'=' :: rest, hrest.symm⟩
  refine .get ?_
  rw [hrest]
  dsimp only
  split
  · rename_i stop after hread
    have hadv : Advances c.token.span.start ('/' :: rest) stop after :=
      .step (advances_readRegex? hread)
    have hstop : Rest text stop after := rest_of_advances (hrest ▸ hc.here) hadv
    refine .set (.pure ?_)
    rintro _ rfl
    exact (Passage.jump hc hstop hadv.le).close rfl .rfl
  · refine .blame ?_
    rintro _ rfl
    have hline := hc.here
    rw [hrest, ← List.takeWhile_append_dropWhile (p := (!isLineEnd ·)) (l := '/' :: rest)] at hline
    exact (Passage.refl hc).blame
      (.of_boundaries (Nat.le_add_right ..) ⟨_, hc.here⟩ ⟨_, hline.append⟩)

theorem arguments (hr : r.Sound text) (ctx : Context) : Reads text true id (r.arguments ctx) :=
  .of_leads fun _ => .pass (skips_expect _) fun _ =>
    (readsMany_commaSeparated (hr.item ctx) _ _).leads

theorem argumentsHere (hr : r.Sound text) (ctx : Context) :
    ReadsMany text (r.argumentsHere ctx) :=
  .of_leads fun _ => .peek fun _ => .ite (hr.arguments ctx).weaken.leads (.pure fun _ h => h)

theorem functionFrom (hr : r.Sound text) (isAsync nameNeeded bodyNeeded : Bool) {b : Bool}
    {c₀ : Cursor} [Covers text c₀ E] :
    Leads E (Passage text b c₀ [])
      (r.functionFrom c₀.token.span.start isAsync nameNeeded bodyNeeded)
      fun t => Passage text true c₀ [t] := by
  refine .pass (skips_expectWord _) fun _ => .skip (skips_eat _) fun _ => .peek fun _ => ?_
  refine (readsMany_readIf readsOne_bindingName _).bind fun name => ?_
  exact (hr.functionRest _ _).bind fun parts => .node rfl .rfl

/-! ## Classes -/

theorem accessedName : ReadsOne text Rules.accessedName := by
  intro c hc
  refine .get (.kind ?_)
  split
  · exact leads_leaf hc rfl
  · exact readsOne_propertyName c hc

theorem isKey_accessedName : Yields Rules.accessedName (·.isKey = true) := by
  refine .whatever fun c => .whatever fun k => ?_
  split
  · exact .whatever fun _ => .pure fun _ _ => rfl
  · exact yields_propertyName.post fun _ _ h => h.1

theorem memberKey (hr : r.Sound text) (ctx : Context) : ReadsOne text (r.memberKey ctx) := by
  refine .of_leads fun c => .peek fun k => ?_
  split
  · exact accessedName.leads
  · exact (hr.propertyKey ctx).leads

theorem skipMemberModifiers (r : Rules) : Skips text false r.skipMemberModifiers := by
  refine skips_loop (fun _ => .of_leads fun c => ?_) _ _
  refine .peek fun _ => .peek fun _ => .ite ?_ (.pure fun _ h => h)
  exact .pass skips_advance fun _ => .pure fun _ h => h.weaken

theorem memberRest (hr : r.Sound text) (ctx : Context) (isGenerator marks : Bool) {b : Bool}
    {c₀ : Cursor} [Covers text c₀ E] :
    Leads E (Passage text b c₀ []) (r.memberRest ctx c₀.token.span.start isGenerator marks)
      fun t => Passage text true c₀ [t] := by
  refine (hr.memberKey ctx).bind fun key => ?_
  rw [Bool.or_true]
  refine .skip (eatMark r _) fun _ => .peek fun _ => .peek fun _ => .ite ?_ ?_
  · exact (hr.functionRest _ _).bind fun parts => .node rfl .rfl
  refine .ite .unexpected_bind (.skip (eatMark r _) fun _ => ?_)
  refine (hr.typeAscription ctx).bind fun ascription => .skip (skips_eat _) fun _ => ?_
  refine (readsMany_readIf (hr.assignment _) _).bind fun value => ?_
  refine .skip skips_endStatement fun _ => .node rfl ?_
  exact List.Perm.cons key List.perm_append_comm

theorem accessorMember (hr : r.Sound text) (ctx : Context) (isAsync isGenerator : Bool) {b : Bool}
    {c₀ : Cursor} [Covers text c₀ E] :
    Leads E (Passage text b c₀ []) (r.accessorMember ctx c₀.token.span.start isAsync isGenerator)
      fun t => Passage text true c₀ [t] :=
  .peek fun _ => .peek fun _ => .skip (skips_advanceIf _) fun _ => hr.memberRest ctx _ _

theorem markedMember (hr : r.Sound text) (ctx : Context) {b : Bool} {c₀ : Cursor}
    [Covers text c₀ E] :
    Leads E (Passage text b c₀ []) (r.markedMember ctx c₀.token.span.start)
      fun t => Passage text true c₀ [t] := by
  refine .peek fun _ => .peek fun _ => .peek fun _ => .skip (skips_advanceIf _) fun _ => ?_
  exact .skip (skips_eat _) fun _ => hr.accessorMember ctx _ _

theorem classMember (hr : r.Sound text) (ctx : Context) : ReadsOne text (r.classMember ctx) := by
  intro c hc
  refine .position (.enter hc (.peek fun _ => .peek fun _ => .ite ?_ ?_))
  · exact .pass skips_advance fun _ => (hr.blockStatement _).leads
  refine .skip (skipMemberModifiers r) fun _ => .peek fun _ => .ite ?_ (hr.markedMember ctx)
  refine .attempt (hr.indexSignature ctx).leads (fun index => ?_) (hr.markedMember ctx)
  exact .skip skips_endStatement fun _ => .pure fun _ h => h

theorem className (r : Rules) (nameNeeded : Bool) : ReadsMany text (r.className nameNeeded) :=
  .of_leads fun _ => .peek fun _ => .peek fun _ => .peek fun _ => .peek fun _ =>
    (readsMany_readIf readsOne_bindingName _).leads

theorem classBase (hr : r.Sound text) (ctx : Context) : ReadsMany text (r.classBase ctx) := by
  refine .of_leads fun c => .skip (skips_eatWord _) fun _ => .ite ?_ (.pure fun _ h => h)
  refine (hr.operand ctx).bind fun base => .peek fun _ => ?_
  exact (readsMany_readIf (hr.typeArguments ctx) _).bind fun types => .pure fun _ h => h.weaken

theorem typesAfter (hr : r.Sound text) (ctx : Context) (word : String) :
    ReadsMany text (r.typesAfter ctx word) := by
  refine .of_leads fun c => .skip (skips_eatWord _) fun _ => .ite ?_ (.pure fun _ h => h)
  refine .loop (fun items : List Tree => Passage text false c items.reverse) (fun _ h => h) ?_
  intro items
  refine (hr.typeExpr ctx).bind fun t => .skip (skips_eat _) fun _ => .ite ?_ ?_
  · exact .pure fun _ h => h.weaken.push
  · exact .pure fun _ h => h.weaken.push

theorem classInterfaces (hr : r.Sound text) (ctx : Context) :
    ReadsMany text (r.classInterfaces ctx) :=
  .of_leads fun _ => .ite (hr.typesAfter ctx _).leads (.pure fun _ h => h)

/-- The parts of a class stand in another order than in the text. -/
theorem perm_classParts (name generics bases members : List Tree) :
    (name ++ members ++ bases ++ generics).Perm (name ++ generics ++ bases ++ members) := by
  have hinner : (members ++ (bases ++ generics)).Perm (generics ++ bases ++ members) :=
    (List.perm_append_comm).trans (List.perm_append_comm.append_right members)
  have hall := hinner.append_left name
  simp only [List.append_assoc] at hall ⊢
  exact hall

theorem classFrom (hr : r.Sound text) (ctx : Context) (nameNeeded : Bool) {b : Bool} {c₀ : Cursor}
    [Covers text c₀ E] :
    Leads E (Passage text b c₀ []) (r.classFrom ctx c₀.token.span.start nameNeeded)
      fun t => Passage text true c₀ [t] := by
  refine .pass (skips_expectWord _) fun _ => (className r nameNeeded).bind fun name => ?_
  refine (hr.optionalTypeParameters ctx).bind fun generics => (hr.classBase ctx).bind fun base => ?_
  refine (hr.classInterfaces ctx).bind fun interfaces => .pass (skips_expect _) fun _ => ?_
  refine .bind (R := fun ts => Passage text true c₀ (name ++ generics ++ (base ++ interfaces) ++ ts))
    ?_ fun members => .node rfl (perm_classParts ..)
  refine .loop (fun items : List Tree =>
    Passage text true c₀ (name ++ generics ++ (base ++ interfaces) ++ items.reverse))
    (fun _ h => by simpa using h) ?_
  intro items
  refine .skip (skips_eat _) fun _ => .ite (.pure fun _ h => h) ?_
  refine .skip (skips_eat _) fun _ => .ite (.pure fun _ h => h) ?_
  refine (hr.classMember ctx).bind fun member => .pure fun _ h => ?_
  simpa [Leads.StepPost] using h

/-! ## Operands -/

theorem primary (hr : r.Sound text) (ctx : Context) : ReadsOne text (r.primary ctx) := by
  intro c hc
  have : MayFail (· = c) (Failure.Within text c) := hc.mayFail
  refine .get (.kind ?_)
  dsimp only
  split
  · exact leads_leaf hc rfl
  · exact leads_leaf hc rfl
  · exact leads_leaf hc rfl
  · have : MayFail (· = c.next) (Failure.Within text c) := (Passage.advance hc).mayFail
    refine .afterAdvance (.peek fun _ => .ite (.pure ?_) .unexpected_bind)
    rintro _ rfl
    exact .leaf hc rfl
  · refine .enter hc (.pass skips_advance fun _ => (hr.expression _).bind fun inner => ?_)
    exact .pass (skips_expect _) fun _ => .node rfl .rfl
  · exact hr.arrayLiteral ctx c hc
  · exact hr.objectLiteral ctx c hc
  · exact hr.templateLiteral ctx c hc
  · rename_i hslash
    exact regexLiteral hc (.inl hslash)
  · rename_i hslash
    exact regexLiteral hc (.inr hslash)
  · refine .ite (.bind (hr.element ctx c hc) fun tree => ?_) .unexpected
    refine .fix fun c₁ ⟨_, hpass⟩ => .afterAdvance (.pure ?_)
    rintro _ rfl
    exact hpass
  · exact .enter hc (hr.functionFrom _ _ _)
  · exact .enter hc (hr.classFrom ctx _)
  · exact leads_leaf hc rfl
  · exact leads_leaf hc rfl
  · exact leads_leaf hc rfl
  · exact leads_leaf hc rfl
  · refine .peek fun next => .afterAdvance (.ite ?_ (.pure ?_))
    · exact (hr.functionFrom _ _ _).mono fun _ h => h ▸ Passage.advance hc
    · rintro _ rfl
      exact .leaf hc rfl
  · exact .ite .unexpected_bind (leads_leaf hc rfl)
  · exact .unexpected

theorem keywordOperand (hr : r.Sound text) (ctx : Context) (name : String) :
    ReadsOne text (r.keywordOperand ctx name) := by
  intro c hc
  have hleaf : Passage text true c [.leaf (.keyword name) c.token.span] c.next := .leaf hc rfl
  refine .get (.afterAdvance (.mono ?_ fun _ h => h ▸ hleaf))
  refine .peek fun _ => .ite ?_ (.mono ?_ fun _ h => h.drop)
  · exact (hr.arguments ctx).bind fun args => .node rfl .rfl
  refine .skip (skips_eat _) fun _ => .ite ?_ ?_
  · exact .pass accessedName.skips fun _ => .node rfl .rfl
  refine .ite (.pass (skips_expect _) fun _ => ?_) .unexpected
  exact (hr.expression _).bind fun key => .pass (skips_expect _) fun _ => .node rfl .rfl

/-! ## Chains -/

/-- The tree of a chain is all that was read since its start. -/
abbrev ChainPost (text : List Char) (c₀ : Cursor) : Step Chain Tree → Cursor → Prop :=
  Leads.StepPost (fun s => Passage text true c₀ [s.1]) fun t => Passage text true c₀ [t]

variable {c₀ : Cursor} {tree : Tree}

theorem access (optional : Bool) {key : Tree} (hkey : key.isKey = true) :
    Leads E (Passage text true c₀ [tree, key]) (Rules.access c₀.token.span.start tree optional key)
      (ChainPost text c₀) := by
  refine .bind (.node hkey .rfl) fun inner => .ite ?_ (.pure fun _ h => h)
  exact .bind (.node rfl .rfl) fun outer => .pure fun _ h => h

theorem call (optional : Bool) {args read : List Tree} (hperm : args.Perm read) :
    Leads E (Passage text true c₀ (tree :: read)) (Rules.call c₀.token.span.start tree optional args)
      (ChainPost text c₀) := by
  have hkind : (if optional then Kind.expression else Kind.call).closes (tree :: args) = true := by
    cases optional <;> rfl
  exact .bind (.node hkind (hperm.cons tree)) fun t => .pure fun _ h => h

variable [Covers text c₀ E]

theorem computedKey (hr : r.Sound text) (ctx : Context) : ReadsOne text (r.computedKey ctx) := by
  intro c hc
  refine .position (.enter hc (.pass (skips_expect _) fun _ => ?_))
  exact (hr.expression _).bind fun key => .pass (skips_expect _) fun _ => .node rfl .rfl

theorem isKey_computedKey (r : Rules) (ctx : Context) :
    Yields (r.computedKey ctx) (·.isKey = true) := by
  refine .whatever fun pos => .whatever fun _ => .whatever fun key => .whatever fun _ => ?_
  exact yields_node fun _ => rfl

theorem optionalLink (hr : r.Sound text) (ctx : Context) :
    Leads E (Passage text true c₀ [tree]) (r.optionalLink ctx c₀.token.span.start tree)
      (ChainPost text c₀) := by
  refine .peek fun k => ?_
  split
  · exact (hr.arguments ctx).bind fun args => call true .rfl
  · exact (hr.computedKey ctx).given (isKey_computedKey r ctx) fun key hkey => access true hkey
  · refine .ite ?_ .unexpected
    refine (hr.typeArguments ctx).bind fun types => (hr.arguments ctx).bind fun args => ?_
    exact call true List.perm_append_comm
  · exact .unexpected
  · exact accessedName.given isKey_accessedName fun key hkey => access true hkey

theorem typeArgumentsLink (hr : r.Sound text) (ctx : Context) (calls chained : Bool) :
    Leads E (Passage text true c₀ [tree])
      (r.typeArgumentsLink ctx c₀.token.span.start calls tree chained) (ChainPost text c₀) := by
  refine .fix fun saved hsaved => .get (.mono ?_ fun _ h => h ▸ hsaved)
  refine .attempt (hr.typeArguments ctx).leads (fun types => ?_) (.pure fun _ h => h)
  refine .peek fun _ => .ite ?_ (.peek fun _ => .ite ?_ (.peek fun _ => .ite ?_ ?_))
  · exact (hr.arguments ctx).bind fun args => call chained List.perm_append_comm
  · refine (hr.templateLiteral ctx).bind fun quasi => ?_
    exact .bind (.node rfl .rfl) fun _ => .pure fun _ h => h
  · exact .bind (.node rfl .rfl) fun _ => .pure fun _ h => h
  refine .peek fun _ => .ite (.bind (.node rfl .rfl) fun _ => .pure fun _ h => h) ?_
  refine .set (.pure ?_)
  rintro _ rfl
  exact hsaved

/-- One link of a chain. -/
theorem chainStep (hr : r.Sound text) (ctx : Context) (calls chained : Bool) :
    Leads E (Passage text true c₀ [tree]) (r.chainStep ctx c₀.token.span.start calls (tree, chained))
      (ChainPost text c₀) := by
  refine .peek fun k => ?_
  split
  · refine .pass skips_advance fun _ => ?_
    exact accessedName.given isKey_accessedName fun key hkey => access chained hkey
  · refine .ite (.pass skips_advance fun _ => hr.optionalLink ctx) .unexpected_bind
  · exact (hr.computedKey ctx).given (isKey_computedKey r ctx) fun key hkey => access chained hkey
  · exact .ite ((hr.arguments ctx).bind fun args => call chained .rfl) (.pure fun _ h => h)
  · refine (hr.templateLiteral ctx).bind fun quasi => ?_
    exact .bind (.node rfl .rfl) fun _ => .pure fun _ h => h
  · refine .peek fun _ => .ite (.pass skips_advance fun _ => ?_) (.pure fun _ h => h)
    exact .bind (.node rfl .rfl) fun _ => .pure fun _ h => h
  · exact .ite (hr.typeArgumentsLink ctx calls chained) (.pure fun _ h => h)
  · exact .pure fun _ h => h

theorem newExpression (hr : r.Sound text) (ctx : Context) :
    ReadsOne text (r.newExpression ctx) := by
  intro c hc
  refine .position (.enter hc (.pass (skips_expectWord _) fun _ => ?_))
  refine .skip (skips_eat _) fun _ => .ite ?_ ?_
  · exact .pass readsOne_propertyName.skips fun _ => .node rfl .rfl
  exact (hr.constructed ctx).bind fun callee => (hr.argumentsHere ctx).bind fun args => .node rfl .rfl

theorem chainHead (hr : r.Sound text) (ctx : Context) : ReadsOne text (r.chainHead ctx) := by
  refine .of_leads fun c => ?_
  refine .peek fun _ => .ite (hr.newExpression ctx).leads ?_
  refine .peek fun _ => .ite (hr.keywordOperand ctx _).leads ?_
  exact .peek fun _ => .ite (hr.keywordOperand ctx _).leads (hr.primary ctx).leads

/-- A chain, of which the links may or may not be calls. -/
theorem links (hr : r.Sound text) (ctx : Context) (calls : Bool) :
    ReadsOne text (do
      let start ← position
      loop r.limit (r.chainStep ctx start calls) (← r.chainHead ctx, false)) := by
  intro c hc
  refine .position (.enter hc ((hr.chainHead ctx).bind fun head => ?_))
  refine .loop (fun s : Chain => Passage text true c [s.1]) (fun _ h => h) ?_
  rintro ⟨tree, chained⟩
  exact hr.chainStep ctx calls chained

theorem chain (hr : r.Sound text) (ctx : Context) : ReadsOne text (r.chain ctx) := hr.links ctx true

theorem callee (hr : r.Sound text) (ctx : Context) : ReadsOne text (r.callee ctx) :=
  hr.links ctx false

theorem prefixed (hr : r.Sound text) (ctx : Context) : ReadsOne text (r.prefixed ctx) := by
  intro c hc
  have hoperand : ∀ k : Kind, (∀ inner, k.closes [inner] = true) →
      Leads (Failure.Within text c) (Passage text false c [])
      (do advance; node k c.token.span.start [← r.operand ctx]) fun t => Passage text true c [t] :=
    fun k hk => .pass skips_advance fun _ => (hr.operand ctx).bind fun inner => .node (hk inner) .rfl
  refine .position (.enter hc ?_)
  have hplain := hoperand .expression fun _ => rfl
  refine .peek fun _ => .ite hplain (.peek fun _ => .ite hplain ?_)
  refine .peek fun _ => .ite (hoperand _ fun _ => rfl) (.peek fun _ => .ite ?_ ?_)
  · refine .pass skips_advance fun _ => .skip (skips_eatWord _) fun _ => ?_
    refine (readsMany_readIf (hr.typeExpr _) _).bind fun t => .pass (skips_expect _) fun _ => ?_
    exact (hr.operand ctx).bind fun inner => .node rfl (List.perm_append_singleton inner t).symm
  refine (hr.chain ctx).bind fun tree => .peek fun _ => .peek fun _ => .ite ?_ (.pure fun _ h => h)
  exact .pass skips_advance fun _ => .node rfl .rfl

/-! ## Operators -/

/-- Looks for an operator, which stands at the cursor if it is found. -/
def Finds (text : List Char) (p : Parser (Option String)) : Prop :=
  ∀ c, c.Sound text → Leads (fun _ => False) (· = c) p fun op? c' =>
    c' = c ∧ ∀ op, op? = some op → Stands op c.here

theorem found {p : Parser (Option String)} (hp : Finds text p) {β : Type} {b : Bool} {c₀ : Cursor}
    {ts : List Tree} {f : Option String → Parser β} {Q : β → Cursor → Prop}
    (hsome : ∀ op, Leads E (fun c => Passage text b c₀ ts c ∧ Stands op c.here) (f (some op)) Q)
    (hnone : Leads E (Passage text b c₀ ts) (f none) Q) :
    Leads E (Passage text b c₀ ts) (p >>= f) Q := by
  refine .fix fun c hc => .bind ((hp c hc.sound).ends nofun fun _ _ h => h) fun op? => ?_
  cases op? with
  | some op =>
      refine (hsome op).mono ?_
      rintro _ ⟨rfl, hstands⟩
      exact ⟨hc, hstands op rfl⟩
  | none =>
      refine hnone.mono ?_
      rintro _ ⟨rfl, -⟩
      exact hc

theorem operatorHere : Finds text Rules.operatorHere := by
  intro c hc
  refine .get ?_
  split
  · refine .pure fun _ h => ⟨h, fun op hop => ?_⟩
    exact stands_of_firstMatch? isAscii_greaterOperators hop
  · rename_i t _ hkind
    refine .pure fun _ h => ⟨h, ?_⟩
    rintro _ ⟨⟩
    exact (hc.token.stands t hkind).1
  · exact .pure fun _ h => ⟨h, nofun⟩

theorem skipOperator {op : String} {b : Bool} {c₀ : Cursor} {ts : List Tree} :
    Leads E (fun c => Passage text b c₀ ts c ∧ Stands op c.here) (Rules.skipOperator op)
      fun _ => Passage text true c₀ ts := by
  refine .fix fun c ⟨hc, hop⟩ => ?_
  have hadv := hop.advances c.token.span.start
  refine .get ?_
  rintro _ rfl
  have hpass := hc.trans (.jump hc.sound (rest_of_advances hc.sound.here hadv) hadv.le)
  rw [Bool.or_true, List.append_nil] at hpass
  exact hpass

theorem joined {c₀ : Cursor} (operands : List Tree) :
    Leads E (Passage text true c₀ operands.reverse) (Rules.joined c₀.token.span.start operands)
      fun t => Passage text true c₀ [t] := by
  unfold Rules.joined
  split
  · exact .pure fun _ h => h
  · exact .node rfl .rfl

theorem operation (hr : r.Sound text) (ctx : Context) : ReadsOne text (r.operation ctx) := by
  intro c hc
  refine .position (.enter hc ((hr.prefixed ctx).bind fun first => ?_))
  refine .loop (fun operands : List Tree => Passage text true c operands.reverse) (fun _ h => h) ?_
  intro operands
  refine found operatorHere (fun op => .ite ?_ ?_) ?_
  · refine .bind skipOperator fun _ => ?_
    exact (hr.prefixed ctx).bind fun t => .pure fun _ h => h.push
  · exact .bind ((joined operands).mono fun _ h => h.1) fun t => .pure fun _ h => h
  · refine .peek fun _ => .peek fun _ => .ite ?_ ?_
    · exact .pass skips_advance fun _ => (hr.prefixed ctx).bind fun t => .pure fun _ h => h.push
    refine .peek fun _ => .peek fun _ => .ite ?_ (.bind (joined operands) fun t => .pure fun _ h => h)
    refine .bind (joined operands) fun inner => .pass skips_advance fun _ => ?_
    refine .skip (skips_eatWord _) fun _ => .ite ?_ ?_
    · exact .bind (.node rfl .rfl) fun t => .pure fun _ h => h
    · exact (hr.typeExpr _).bind fun t => .bind (.node rfl .rfl) fun t => .pure fun _ h => h

theorem conditional (hr : r.Sound text) (ctx : Context) : ReadsOne text (r.conditional ctx) := by
  intro c hc
  refine .position (.enter hc ((hr.operation ctx).bind fun test => ?_))
  refine .skip (skips_eat _) fun _ => .ite ?_ (.pure fun _ h => h)
  refine (hr.assignment _).bind fun yes => .pass (skips_expect _) fun _ => ?_
  exact (hr.assignment _).bind fun no => .node rfl .rfl

theorem yieldExpression (hr : r.Sound text) (ctx : Context) :
    ReadsOne text (r.yieldExpression ctx) := by
  intro c hc
  refine .position (.enter hc (.pass skips_advance fun _ => ?_))
  refine .peek fun _ => .ite (.node rfl .rfl) (.skip (skips_eat _) fun _ => ?_)
  refine .peek fun _ => .peek fun _ => .peek fun _ => .peek fun _ => .ite (.node rfl .rfl) ?_
  exact (hr.assignment _).bind fun inner => .node rfl .rfl

theorem plainArrow (hr : r.Sound text) (ctx : Context) (isAsync : Bool) {b : Bool} {c₀ : Cursor}
    [Covers text c₀ E] :
    Leads E (Passage text b c₀ []) (r.plainArrow? ctx c₀.token.span.start isAsync)
      fun t? => Passage text b c₀ t?.toList := by
  refine .peek fun _ => .ite ?_ ?_
  · refine .bind (hr.bareArrow ctx isAsync) fun tree => .pure fun _ h => ?_
    exact { h with passed := fun _ => h.passed rfl }
  · refine .peek fun _ => .peek fun _ => .ite (hr.arrowFunction ctx isAsync) (.pure fun _ h => h)

theorem arrow (hr : r.Sound text) (ctx : Context) :
    Reads text false Option.toList (r.arrow? ctx) := by
  intro c hc
  refine .get (.enter hc (.bind (hr.plainArrow ctx false) fun tree? => ?_))
  split
  · exact .pure fun _ h => h
  refine .peek fun _ => .peek fun _ => .ite ?_ (.pure fun _ h => h)
  refine .pass skips_advance fun _ => .bind (hr.plainArrow ctx true) fun tree? => ?_
  split
  · exact .pure fun _ h => h.weaken
  · refine .set (.pure ?_)
    rintro _ rfl
    exact .refl hc

theorem assignmentExpression (hr : r.Sound text) (ctx : Context) :
    ReadsOne text (r.assignmentExpression ctx) := by
  intro c hc
  refine .position (.enter hc (.peek fun _ => .ite (hr.yieldExpression ctx).leads ?_))
  refine .maybe (hr.arrow ctx) (fun tree => .pure fun _ h => h) ?_
  refine (hr.conditional ctx).bind fun left => ?_
  refine found operatorHere (fun op => .ite (.ite ?_ ?_) ?_) (.pure fun _ h => h)
  · refine .bind skipOperator fun _ => ?_
    have htarget : ∀ c₁, Passage text true c [left] c₁ →
        Passage text true c [if op == "=" then assignmentTarget left else left] c₁ := by
      intro c₁ h
      split
      · exact h.respanOne h.only.assignmentTarget (span_assignmentTarget left)
      · exact h
    refine .mono ?_ htarget
    exact (hr.assignment ctx).bind fun right => .node rfl .rfl
  · exact .blame_bind fun _ h => h.1.blame h.1.only.isSlice
  · exact .pure fun _ h => h.1

end Rules.Sound

end Recompose.Script
