import Recompose.Proofs.Excerpts.Patterns

/-!
# Literals and members of an excerpt

Literals, functions and classes repeat what they read of an excerpt. A class member may
end without a semicolon where the excerpt ends, and then it is not told from the next line
what its last word modifies; but no class ends there.
-/

namespace Recompose.Script

namespace Rules.RepeatedBy

open Excerpt
open Recompose.Script.Parser (Step)

variable {e : Excerpt} {r r' : Rules} (hr : r.RepeatedBy e r') {ctx ctx' : Context} {c c' : Cursor}
include hr

/-! ## Literals -/

theorem item (h : e.At c c') : e.RepeatsOne (r.item ctx) (r'.item ctx') c c' := by
  refine .of_needsToken (.position fun _ => .eat (hr.needs.assignment _) _) fun hkind => ?_
  refine .position h hkind (.eat h (.inl rfl) (fun _ d d' h => .ifTrue ?_) fun _ => ?_)
  · exact .bind (hr.assignment rfl h) fun inner d d' h => .node h rfl
  · exact .ifFalse (hr.assignment (by rfl) h)

theorem arrayLiteral (h : e.At c c') : e.RepeatsOne (r.arrayLiteral ctx) (r'.arrayLiteral ctx') c c' := by
  refine .of_needsToken (.position fun _ => (NeedsToken.expect _).bind) fun hkind => ?_
  refine .position h hkind (.expect h fun _ d d' h => ?_)
  exact .bind (elements hr.limit (fun _ _ h => hr.item h) h) fun ts d d' h => .node h rfl

theorem arguments (h : e.At c c') : e.RepeatsMany (r.arguments ctx) (r'.arguments ctx') c c' :=
  .expect h fun _ _ _ h => .commaSeparated hr.limit rfl (fun _ _ h => hr.item h) h

theorem templateLiteral (h : e.At c c') (hkind : c.token.kind = .punct "`") :
    e.RepeatsOne (r.templateLiteral ctx) (r'.templateLiteral ctx') c c' := by
  refine .position h (TokenKind.ne_done_of_punct hkind) (.bind (.template hr.limit (fun _ _ h => ?_) h hkind) fun ts d d' h => ?_)
  · exact hr.expression rfl h
  · exact .node h rfl

omit hr in
theorem regexLiteral (h : e.At c c') (hkind : c.token.kind.isAnyPunct ["/", "/="] = true) :
    e.RepeatsOne Rules.regexLiteral Rules.regexLiteral c c' := by
  refine .get ?_
  dsimp only
  cases hread : readRegex? false false (c.token.span.start + 1) (c.here.drop 1) with
  | none => exact .of_fails fun _ _ => nofun
  | some read =>
      obtain ⟨stop, rest⟩ := read
      obtain ⟨hread', hat⟩ := h.regex hkind hread
      rw [hread', h.span (TokenKind.ne_done_of_isAnyPunct hkind)]
      rintro _ _ ⟨⟩
      exact ⟨_, rfl, hat⟩

theorem methodRest (h : e.At c c') (start : Nat) (isAsync isGenerator : Bool) (key : Tree) :
    e.RepeatsOne (r.methodRest start isAsync isGenerator key)
      (r'.methodRest (start + e.offset) isAsync isGenerator (key.shift e.offset)) c c' :=
  .bind (hr.functionRest h isGenerator true true) fun _ _ _ h => .node h rfl

theorem getterRest (h : e.At c c') (start : Nat) (key : Tree) :
    e.RepeatsOne (r.getterRest start key) (r'.getterRest (start + e.offset) (key.shift e.offset))
      c c' := by
  refine .expect h fun _ d d' h => .expect h fun _ d d' h => ?_
  refine .gives (returnType?_of_plain hr.plain) (returnType?_of_plain hr.plain') ?_
  exact .bind (hr.blockStatement (by rfl) h) fun body d d' h => .node h rfl

omit hr in
/-- Whether a word modifies what follows is the same to see, unless nothing follows. -/
theorem modifiesProperty (h : e.At c c') (hkind : c.token.kind ≠ .done)
    (hnext : c.next.token.kind ≠ .done) (words : List String) :
    ∃ told, Gives (Rules.modifiesProperty words) c told c ∧
      Gives (Rules.modifiesProperty words) c' told c' := by
  refine ⟨_, Gives.following_bind.mpr ((Gives.atAnyWord _).bind (.pure _)), ?_⟩
  refine Gives.following_bind.mpr ((Gives.atAnyWord _).bind ?_)
  rw [h.kind hkind, (h.next hkind).kind hnext]
  cases c.token.kind <;> cases c.next.token.kind <;> exact .pure _

theorem propertyRest (hctx : ctx'.allowIn = ctx.allowIn) (h : e.At c c') (start : Nat) (key : Tree) :
    e.RepeatsOne (r.propertyRest ctx start key)
      (r'.propertyRest ctx' (start + e.offset) (key.shift e.offset)) c c' := by
  have hvalue : ∀ (k : Kind) {c c' : Cursor}, e.At c c' → e.RepeatsOne
      (do Parser.node k start [key, ← r.assignment ctx])
      (do Parser.node k (start + e.offset) [key.shift e.offset, ← r'.assignment ctx']) c c' :=
    fun k _ _ h => .bind (hr.assignment hctx h) fun value d d' h => .node h rfl
  refine .of_needsToken (needsToken_propertyRest ctx start key) fun hkind => ?_
  refine .atPunct h (.inl rfl) (.atPunct h (.inl rfl) ?_)
  rw [hr.plain, hr.plain', Tree.kind_shift]
  refine .ite (fun _ => hr.methodRest h _ _ _ _) fun _ => ?_
  split
  · refine .eat h (.inl rfl) (fun _ d d' h => .ifTrue (hvalue _ h)) fun _ => .ifFalse ?_
    refine .eat h (.inl rfl) (fun _ d d' h => .ifTrue (hvalue _ h)) fun _ => .ifFalse ?_
    refine .atAnyPunct h (.inr hkind) (.ite (fun _ => .node h rfl) fun _ => .unexpected)
  · exact .expect h fun _ d d' h => hvalue _ h

theorem property (h : e.At c c') : e.RepeatsOne (r.property ctx) (r'.property ctx') c c' := by
  refine .of_needsToken (needsToken_property ctx) fun hkind => ?_
  by_cases hnext : c.next.token.kind = .done
  · exact .of_fails fun t d hrun => property_next ctx hr.needs hrun hnext
  obtain ⟨isAsync, hasync, hasync'⟩ := modifiesProperty h hkind hnext ["async"]
  obtain ⟨isAccessor, haccessor, haccessor'⟩ := modifiesProperty h hkind hnext ["get", "set"]
  refine .position h hkind (.eat h (.inl rfl) (fun _ d d' h => .ifTrue ?_) fun _ => .ifFalse ?_)
  · exact .bind (hr.assignment rfl h) fun inner d d' h => .node h rfl
  refine .eat h (.inl rfl) (fun _ d d' h => .ifTrue ?_) fun _ => .ifFalse ?_
  · exact .bind (hr.propertyKey h) fun key d d' h => hr.methodRest h _ _ _ _
  refine .gives hasync hasync' (.following ?_)
  rw [(h.next hkind).afterNewline hnext]
  refine .ite (fun _ => ?_) fun _ => .gives haccessor haccessor' (.followedByPunct h hkind (.inr hnext) ?_)
  · refine .advance h hkind fun d d' h => .bind (.took h (.inl rfl)) fun isGenerator d d' h => ?_
    exact .bind (hr.propertyKey h) fun key d d' h => hr.methodRest h _ _ _ _
  refine .ite (fun _ => ?_) fun _ => ?_
  · refine .atWord h (.inr hkind) (.advance h hkind fun d d' h => ?_)
    refine .bind (hr.propertyKey h) fun key d d' h => .ite (fun _ => hr.getterRest h _ _) fun _ => ?_
    exact .bind (hr.functionRest h _ _ _) fun parts d d' h => .node h rfl
  · exact .bind (hr.propertyKey h) fun key d d' h => hr.propertyRest (by rfl) h _ _

theorem functionFrom (h : e.At c c') (start : Nat) (isAsync nameNeeded bodyNeeded : Bool) :
    e.RepeatsOne (r.functionFrom start isAsync nameNeeded bodyNeeded)
      (r'.functionFrom (start + e.offset) isAsync nameNeeded bodyNeeded) c c' := by
  refine .expectWord h fun _ d d' h => .bind (.took h (.inl rfl)) fun isGenerator d d' h => ?_
  refine .of_needsToken (.atAnyPunct (NeedsToken.readIf ?_ .bindingName).bind _) fun hkind => ?_
  · rw [Bool.not_false, Bool.or_true]
  refine .atAnyPunct h (.inr hkind) (.bind (.readIf _ h fun _ => bindingName h) fun name d d' h => ?_)
  refine .bind (hr.functionRest h isGenerator bodyNeeded bodyNeeded) fun parts d d' h => .node h ?_
  rw [List.map_append]

theorem objectLiteral (h : e.At c c') : e.RepeatsOne (r.objectLiteral ctx) (r'.objectLiteral ctx') c c' := by
  refine .of_needsToken (.position fun _ => (NeedsToken.expect _).bind) fun hkind => ?_
  refine .position h hkind (.expect h fun _ d d' h => ?_)
  refine .bind (.commaSeparated hr.limit rfl (fun _ _ h => hr.property h) h) fun ts d d' h => ?_
  exact .node h rfl

/-! ## Class members -/

omit hr in
theorem modifiesMember (h : e.At c c') (hkind : c.token.kind ≠ .done)
    (hnext : c.next.token.kind ≠ .done) (words : List String) :
    ∃ told, Gives (Rules.modifiesMember words) c told c ∧
      Gives (Rules.modifiesMember words) c' told c' := by
  refine ⟨_, Gives.following_bind.mpr ((Gives.atAnyWord _).bind (.pure _)), ?_⟩
  refine Gives.following_bind.mpr ((Gives.atAnyWord _).bind ?_)
  rw [h.kind hkind, (h.next hkind).kind hnext]
  cases c.token.kind <;> cases c.next.token.kind <;> exact .pure _

omit hr in
theorem advanceIf (h : e.At c c') (hkind : c.token.kind ≠ .done) (told : Bool) :
    e.Repeats id (Parser.advanceIf told) (Parser.advanceIf told) c c' := by
  cases told with
  | true =>
      rintro _ _ ⟨⟩
      exact ⟨c'.next, rfl, h.next hkind⟩
  | false => exact .pure h rfl

omit hr in
theorem propertyName (h : e.At c c') : e.RepeatsOne Parser.propertyName Parser.propertyName c c' := by
  refine .of_needsToken .propertyName fun hkind => .kind h hkind (fun _ _ => .unexpected) ?_
  split
  · exact .get (.leaf h hkind _)
  · exact .unexpected

omit hr in
theorem accessedName (h : e.At c c') : e.RepeatsOne Rules.accessedName Rules.accessedName c c' := by
  refine .of_needsToken .accessedName fun hkind => ?_
  refine .get (.kind h hkind (fun _ _ => propertyName h) ?_)
  split
  · exact .leaf h hkind _
  · exact propertyName h

theorem memberKey (h : e.At c c') : e.RepeatsOne (r.memberKey ctx) (r'.memberKey ctx') c c' := by
  refine .of_needsToken (needsToken_memberKey ctx) fun hkind => ?_
  refine .kind h hkind (fun _ _ => hr.propertyKey h) ?_
  split
  · exact accessedName h
  · exact hr.propertyKey h

theorem memberRest (h : e.At c c') (start : Nat) (isGenerator marks : Bool) :
    e.RepeatsOne (r.memberRest ctx start isGenerator marks)
      (r'.memberRest ctx' (start + e.offset) isGenerator marks) c c' := by
  refine .bind (hr.memberKey h) fun key d d' h => ?_
  refine .gives (eatMark_of_plain hr.plain) (eatMark_of_plain hr.plain') ?_
  refine .atPunct h (.inl rfl) (.atPunct h (.inl rfl) ?_)
  rw [hr.plain, hr.plain']
  refine .ite (fun _ => ?_) fun _ => .ite (fun _ => .unexpected_bind) fun _ => ?_
  · exact .bind (hr.functionRest h _ _ _) fun parts d d' h => .node h rfl
  refine .gives (eatMark_of_plain hr.plain) (eatMark_of_plain hr.plain') ?_
  refine .gives (typeAscription?_of_plain hr.plain) (typeAscription?_of_plain hr.plain') ?_
  refine .bind (.took h (.inl rfl)) fun valued d d' h => ?_
  refine .bind (.readIf _ h fun _ => hr.assignment rfl h) fun value d d' h => ?_
  refine .bind (.endStatement h) fun _ d d' h => .node h ?_
  rw [List.append_nil, List.append_nil, List.map_cons]

theorem accessorMember (h : e.At c c') (start : Nat) (isAsync isGenerator : Bool) :
    e.RepeatsInside (Tree.shift e.offset) (r.accessorMember ctx start isAsync isGenerator)
      (r'.accessorMember ctx' (start + e.offset) isAsync isGenerator) c c' := by
  by_cases hkind : c.token.kind = .done
  · exact .of_repeats (.of_needsToken (needsToken_accessorMember ctx _ _ _) fun hne => absurd hkind hne)
  by_cases hnext : c.next.token.kind = .done
  · exact .of_last fun t d => accessorMember_of_last ctx hr.needs hnext
  obtain ⟨told, htold, htold'⟩ := modifiesMember h hkind hnext ["get", "set"]
  refine .gives htold htold' (.gives (Gives.followedByPunct _) (Gives.followedByPunct _) ?_)
  rw [(h.next hkind).isAnyPunct (.inr hnext)]
  exact .bind (advanceIf h hkind _) fun _ d d' h => .of_repeats (hr.memberRest h _ _ _)

theorem markedMember (h : e.At c c') (start : Nat) :
    e.RepeatsInside (Tree.shift e.offset) (r.markedMember ctx start)
      (r'.markedMember ctx' (start + e.offset)) c c' := by
  by_cases hkind : c.token.kind = .done
  · exact .of_repeats (.of_needsToken (needsToken_markedMember ctx _) fun hne => absurd hkind hne)
  by_cases hnext : c.next.token.kind = .done
  · exact .of_last fun t d => markedMember_of_last ctx hr.needs hnext
  obtain ⟨told, htold, htold'⟩ := modifiesMember h hkind hnext ["async"]
  refine .gives htold htold' (.gives (Gives.followedByPunct _) (Gives.followedByPunct _) ?_)
  have hline := (h.next hkind).afterNewline hnext
  refine .gives (p := Parser.following) (.pure _) (.pure _) ?_
  rw [(h.next hkind).isAnyPunct (.inr hnext), hline]
  refine .bind (advanceIf h hkind _) fun _ d d' h => .bind (.took h (.inl rfl)) fun isGenerator d d' h => ?_
  exact hr.accessorMember h _ _ _

omit hr in
theorem skipMemberModifier (h : e.At c c') (hkind : c.token.kind ≠ .done)
    (hnext : c.next.token.kind ≠ .done) (words : List String) :
    e.Repeats (Step.map id id) (Rules.skipMemberModifier words) (Rules.skipMemberModifier words)
      c c' := by
  obtain ⟨told, htold, htold'⟩ := modifiesMember h hkind hnext words
  refine .gives htold htold' (.followedByPunct h hkind (.inr hnext) (.ite (fun _ => ?_) fun _ => ?_))
  · exact .advance h hkind fun d d' h => .pure h rfl
  · exact .pure h rfl

/-- Behind the words that modify a member, either there is no more than one token or what
was read of the excerpt is read of the whole text. -/
theorem skipMemberModifiers (h : e.At c c') {u : Unit} {d : Cursor}
    (hrun : Gives r.skipMemberModifiers c u d) :
    (d.token.kind = .done ∨ d.next.token.kind = .done) ∨
      ∃ d', Gives r'.skipMemberModifiers c' () d' ∧ e.At d d' := by
  have hlimit := hr.limit
  unfold Rules.skipMemberModifiers Rules.memberModifiers at hrun ⊢
  rw [hr.plain] at hrun
  rw [hr.plain']
  generalize r.limit = n at hrun hlimit
  generalize r'.limit = n' at hlimit ⊢
  induction n generalizing n' c c' with
  | zero => cases hrun
  | succ n ih =>
      obtain ⟨k, rfl⟩ := Nat.exists_eq_add_of_lt hlimit
      by_cases hlast : c.token.kind = .done ∨ c.next.token.kind = .done
      · cases (skipMemberModifier_of_last hlast _).of_gives_bind hrun
        exact .inl hlast
      obtain ⟨hkind, hnext⟩ := not_or.mp hlast
      obtain ⟨next, m, hstep, hrest⟩ := Gives.of_bind hrun
      obtain ⟨m', hm', hat⟩ := skipMemberModifier h hkind hnext _ next m hstep
      cases next with
      | more s =>
          refine (ih hat hrest _ (Nat.le_add_right n k)).imp_right ?_
          rintro ⟨d', hd', hat⟩
          exact ⟨d', hm'.bind hd', hat⟩
      | done b =>
          cases hrest
          exact .inr ⟨m', hm'.bind (.pure _), hat⟩

theorem classMember (h : e.At c c') :
    e.RepeatsInside (Tree.shift e.offset) (r.classMember ctx) (r'.classMember ctx') c c' := by
  by_cases hlast : c.token.kind = .done ∨ c.next.token.kind = .done
  · exact .of_last fun t d hrun =>
      (classMember_of_last ctx hr.needs (by rw [hr.plain]) hlast hrun).2
  obtain ⟨hkind, hnext⟩ := not_or.mp hlast
  refine .gives (p := Parser.position) (.pure _) (.pure _) ?_
  rw [h.span hkind]
  refine .gives (p := Parser.atWord "static") (.pure _) (.pure _) ?_
  refine .gives (Gives.followedByPunct _) (Gives.followedByPunct _) ?_
  rw [h.beq_word "static" (.inr hkind), (h.next hkind).isAnyPunct (.inr hnext)]
  refine .ite (fun _ => .of_repeats ?_) fun _ => ?_
  · exact .advance h hkind fun d d' h => hr.blockStatement (by rfl) h
  intro t d hrun hinside
  obtain ⟨_, m, hskip, hrun⟩ := hrun.of_bind
  replace hrun := Gives.atPunct_bind.mp hrun
  rw [hr.plain, Bool.false_and, if_neg Bool.false_ne_true] at hrun
  rcases hr.skipMemberModifiers h hskip with hlast | ⟨m', hskip', hm⟩
  · rcases hlast with hdone | hnext
    · exact absurd hdone (needsToken_markedMember ctx _ _ _ _ hrun)
    · exact absurd (markedMember_of_last ctx hr.needs hnext hrun) hinside
  obtain ⟨d', hrun', hd⟩ := hr.markedMember hm _ t d hrun hinside
  refine ⟨d', hskip'.bind (Gives.atPunct_bind.mpr ?_), hd⟩
  rw [hr.plain', Bool.false_and, if_neg Bool.false_ne_true]
  exact hrun'

/-! ## Classes -/

theorem needsToken_className (nameNeeded : Bool) : NeedsToken (r.className nameNeeded) := by
  refine .atPunct (.atPunct (.atWord (.atWord ?_ _) _) _) _
  rw [hr.plain]
  exact .readIf (Bool.or_true nameNeeded) .bindingName

theorem className (h : e.At c c') (nameNeeded : Bool) :
    e.RepeatsMany (r.className nameNeeded) (r'.className nameNeeded) c c' := by
  refine .of_needsToken (hr.needsToken_className nameNeeded) fun hkind => ?_
  refine .atPunct h (.inr hkind) (.atPunct h (.inl rfl) (.atWord h (.inl rfl) (.atWord h (.inr hkind) ?_)))
  rw [hr.plain, hr.plain']
  exact .readIf _ h fun _ => bindingName h

theorem classBase (hctx : ctx'.allowIn = ctx.allowIn) (h : e.At c c') :
    e.RepeatsMany (r.classBase ctx) (r'.classBase ctx') c c' := by
  refine .eatWord h (.inl rfl) (fun _ d d' h => .ifTrue ?_) fun _ => .ifFalse (.pure h rfl)
  refine .bind (hr.operand hctx h) fun base d d' h => .atPunct h (.inl rfl) ?_
  rw [hr.plain, hr.plain']
  exact .pure h rfl

theorem classFrom (hctx : ctx'.allowIn = ctx.allowIn) (h : e.At c c') (start : Nat) (nameNeeded : Bool) :
    e.RepeatsOne (r.classFrom ctx start nameNeeded)
      (r'.classFrom ctx' (start + e.offset) nameNeeded) c c' := by
  refine .expectWord h fun _ d d' h => .bind (hr.className h _) fun name d d' h => ?_
  refine .gives (optionalTypeParameters_of_plain hr.plain) (optionalTypeParameters_of_plain hr.plain') ?_
  refine .bind (hr.classBase hctx h) fun base d d' h => ?_
  have hinterfaces : ∀ {r : Rules} {ctx c}, r.dialect = {} → Gives (r.classInterfaces ctx) c [] c := by
    intro r ctx c hplain
    unfold Rules.classInterfaces
    rw [hplain]
    exact .pure _
  refine .gives (hinterfaces hr.plain) (hinterfaces hr.plain') (.expect h fun _ d d' h => ?_)
  refine .bind (f := List.map (Tree.shift e.offset)) (.loopInside (u := List.map (Tree.shift e.offset))
    hr.limit (fun items => ?_) (fun items d d' h => ?_) (fun items d d' h members m hrun => ?_) h [])
    fun members d d' h => .node h (by simp)
  · exact .eat (.eat (needsToken_classMember ctx hr.needs (by rw [hr.plain])).bind _) _
  · refine .eat h rfl (fun d d' h => .of_repeats (.pure h (by simp [Step.map]))) ?_
    exact .eat h rfl (fun d d' h => .of_repeats (.pure h rfl)) (.map (hr.classMember h) fun _ => rfl)
  · rcases hrun.of_eat with ⟨hclose, hrun⟩ | ⟨-, hrun⟩
    · cases hrun
      have hkind : d.token.kind ≠ .done := TokenKind.ne_done_of_punct hclose
      have hclose' : d'.token.kind = .punct "\x7d" := by rw [h.kind hkind, hclose]; rfl
      exact ⟨d'.next, (Gives.eat hclose').bind (List.map_reverse ▸ .pure _), h.next hkind⟩
    rcases hrun.of_eat with ⟨-, hrun⟩ | ⟨-, hrun⟩
    · cases hrun
    · obtain ⟨_, _, -, hrun⟩ := hrun.of_bind
      cases hrun

end Rules.RepeatedBy

end Recompose.Script
