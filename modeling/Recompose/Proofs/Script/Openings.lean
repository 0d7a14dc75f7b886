import Recompose.Proofs.Script.Written

/-!
# What a script must have

Most constructs begin with a token, so no rule for one of them succeeds at the end of a
script. Those that are tried wherever a construct may go on are no such rules.
-/

namespace Recompose.Script

open Recompose.Script.Parser (Step)

/-! ## Succeeding -/

namespace Gives

variable {α β : Type} {c d : Cursor}

theorem of_bind {p : Parser α} {f : α → Parser β} {b : β} (h : Gives (p >>= f) c b d) :
    ∃ a m, Gives p c a m ∧ Gives (f a) m b d := by
  change (p c >>= fun r => f r.1 r.2) = .ok (b, d) at h
  cases hrun : p c with
  | error fault =>
      rw [hrun] at h
      cases h
  | ok r =>
      rw [hrun] at h
      exact ⟨r.1, r.2, hrun, h⟩

theorem unique {p : Parser α} {a a' : α} {d' : Cursor} (h : Gives p c a d) (h' : Gives p c a' d') :
    a = a' ∧ d = d' := Prod.mk.inj (Except.ok.inj (h.symm.trans h'))

/-- Goes on behind a parser whose result is known. -/
theorem of_gives_bind {p : Parser α} {f : α → Parser β} {a : α} {b : β} {m : Cursor}
    (hp : Gives p c a m) (h : Gives (p >>= f) c b d) : Gives (f a) m b d := by
  obtain ⟨a', m', hp', hf⟩ := h.of_bind
  obtain ⟨rfl, rfl⟩ := hp.unique hp'
  exact hf

theorem of_eat {text : String} {f : Bool → Parser β} {b : β}
    (h : Gives (Parser.eat text >>= f) c b d) :
    (c.token.kind = .punct text ∧ Gives (f true) c.next b d) ∨
      (c.token.kind ≠ .punct text ∧ Gives (f false) c b d) := by
  by_cases hkind : c.token.kind = .punct text
  · exact .inl ⟨hkind, (Gives.eat hkind).of_gives_bind h⟩
  · exact .inr ⟨hkind, (Gives.eat_of_ne (beq_eq_false_iff_ne.mpr hkind)).of_gives_bind h⟩

theorem of_eatWord {name : String} {f : Bool → Parser β} {b : β}
    (h : Gives (Parser.eatWord name >>= f) c b d) :
    (c.token.kind = .word name false ∧ Gives (f true) c.next b d) ∨
      (c.token.kind ≠ .word name false ∧ Gives (f false) c b d) := by
  by_cases hkind : c.token.kind = .word name false
  · exact .inl ⟨hkind, (Gives.eatWord hkind).of_gives_bind h⟩
  · exact .inr ⟨hkind, (Gives.eatWord_of_ne (beq_eq_false_iff_ne.mpr hkind)).of_gives_bind h⟩

theorem of_expect {text : String} {f : Unit → Parser β} {b : β}
    (h : Gives (Parser.expect text >>= f) c b d) :
    c.token.kind = .punct text ∧ Gives (f ()) c.next b d := by
  obtain ⟨_, m, hexpect, hf⟩ := h.of_bind
  rcases hexpect.of_eat with ⟨hkind, hpure⟩ | ⟨-, hfails⟩
  · cases hpure
    exact ⟨hkind, hf⟩
  · cases hfails

theorem of_expectWord {name : String} {f : Unit → Parser β} {b : β}
    (h : Gives (Parser.expectWord name >>= f) c b d) :
    c.token.kind = .word name false ∧ Gives (f ()) c.next b d := by
  obtain ⟨_, m, hexpect, hf⟩ := h.of_bind
  rcases hexpect.of_eatWord with ⟨hkind, hpure⟩ | ⟨-, hfails⟩
  · cases hpure
    exact ⟨hkind, hf⟩
  · cases hfails

end Gives

/-- From one cursor to another, a parser succeeds, whatever its result. -/
def Reaches {α : Type} (p : Parser α) (c d : Cursor) : Prop := ∃ a, Gives p c a d

namespace Reaches

variable {α β : Type} {p : Parser α} {f : α → Parser β} {c m d : Cursor} {a : α}

theorem bind (hp : Reaches p c m) (hf : ∀ a, Reaches (f a) m d) : Reaches (p >>= f) c d := by
  obtain ⟨a, hp⟩ := hp
  obtain ⟨b, hf⟩ := hf a
  exact ⟨b, hp.bind hf⟩

theorem of_gives (hp : Gives p c a m) (hf : Reaches (f a) m d) : Reaches (p >>= f) c d := by
  obtain ⟨b, hf⟩ := hf
  exact ⟨b, hp.bind hf⟩

theorem pure (a : α) : Reaches (Pure.pure a) c c := ⟨a, .pure a⟩

theorem node (kind : Kind) (start : Nat) (parts : List Tree) :
    Reaches (Parser.node kind start parts) c c := ⟨_, rfl⟩

theorem position {f : Nat → Parser β} (h : Reaches (f c.token.span.start) c d) :
    Reaches (Parser.position >>= f) c d := h

theorem kind {f : TokenKind → Parser β} (h : Reaches (f c.token.kind) c d) :
    Reaches (Parser.kind >>= f) c d := h

theorem advance {f : Unit → Parser β} (h : Reaches (f ()) c.next d) :
    Reaches (Parser.advance >>= f) c d := h

theorem following {f : Token → Parser β} (h : Reaches (f c.next.token) c d) :
    Reaches (Parser.following >>= f) c d := h

theorem spanFrom {start : Nat} {f : Span → Parser β} (h : Reaches (f ⟨start, c.prevStop⟩) c d) :
    Reaches (Parser.spanFrom start >>= f) c d := h

theorem afterNewline {f : Bool → Parser β} (h : Reaches (f c.token.afterNewline) c d) :
    Reaches (Parser.afterNewline >>= f) c d := h

theorem atPunct {text : String} {f : Bool → Parser β}
    (h : Reaches (f (c.token.kind == .punct text)) c d) : Reaches (Parser.atPunct text >>= f) c d := h

theorem atWord {name : String} {f : Bool → Parser β}
    (h : Reaches (f (c.token.kind == .word name false)) c d) :
    Reaches (Parser.atWord name >>= f) c d := h

end Reaches

theorem Gives.reaches {α : Type} {p : Parser α} {c d : Cursor} {a : α} (h : Gives p c a d) :
    Reaches p c d := ⟨a, h⟩

/-! ## Needing a token -/

/-- A parser that fails at the end of a script. -/
def NeedsToken {α : Type} (p : Parser α) : Prop :=
  ∀ c a d, Gives p c a d → c.token.kind ≠ .done

namespace NeedsToken

variable {α β : Type} {f : α → Parser β} {p : Parser α}

theorem bind (h : NeedsToken p) : NeedsToken (p >>= f) := by
  intro c b d hrun
  obtain ⟨a, m, hp, -⟩ := hrun.of_bind
  exact h c a m hp

theorem unexpected : NeedsToken (Parser.unexpected : Parser α) := fun _ _ _ => nofun

/-- A parser that stays at the end of a script, and what comes behind it. -/
theorem stays {a : α} (hp : ∀ c, c.token.kind = .done → Gives p c a c) (h : NeedsToken (f a)) :
    NeedsToken (p >>= f) :=
  fun c b d hrun hdone => h c b d (Gives.of_gives_bind (hp c hdone) hrun) hdone

/-- A parser that does not move at the end of a script, if it succeeds there. -/
theorem through (hp : ∀ c a d, c.token.kind = .done → Gives p c a d → d = c)
    (h : ∀ a, NeedsToken (f a)) : NeedsToken (p >>= f) := by
  intro c b d hrun hdone
  obtain ⟨a, m, hp₁, hf⟩ := hrun.of_bind
  obtain rfl := hp c a m hdone hp₁
  exact h a m b d hf hdone

theorem position {f : Nat → Parser β} (h : ∀ n, NeedsToken (f n)) :
    NeedsToken (Parser.position >>= f) := fun _ => h _ _

theorem afterNewline {f : Bool → Parser β} (h : ∀ b, NeedsToken (f b)) :
    NeedsToken (Parser.afterNewline >>= f) := fun _ => h _ _

theorem get {f : Cursor → Parser β} (h : ∀ c, NeedsToken (f c)) : NeedsToken (MonadState.get >>= f) :=
  fun c => h _ c

theorem following {f : Token → Parser β} (h : ∀ t, NeedsToken (f t)) :
    NeedsToken (Parser.following >>= f) := fun c => h _ c

theorem followedByPunct {texts : List String} {f : Bool → Parser β} (h : ∀ b, NeedsToken (f b)) :
    NeedsToken (Parser.followedByPunct texts >>= f) :=
  fun c b d hrun => h _ c b d (Gives.of_gives_bind (Gives.followedByPunct _) hrun)

theorem kind {f : TokenKind → Parser β} (h : NeedsToken (f .done)) : NeedsToken (Parser.kind >>= f) :=
  .stays (fun _ hdone => hdone ▸ .pure _) h

section

variable {f : Bool → Parser β} (h : NeedsToken (f false))
include h

theorem atPunct (text : String) : NeedsToken (Parser.atPunct text >>= f) :=
  .stays (fun c hdone => by
    have hne : (c.token.kind == .punct text) = false := by rw [hdone]; rfl
    exact hne ▸ .pure _) h

theorem atWord (name : String) : NeedsToken (Parser.atWord name >>= f) :=
  .stays (fun c hdone => by
    have hne : (c.token.kind == .word name false) = false := by rw [hdone]; rfl
    exact hne ▸ .pure _) h

theorem atAnyPunct (texts : List String) : NeedsToken (Parser.atAnyPunct texts >>= f) :=
  .stays (fun c hdone => by
    have hne : c.token.kind.isAnyPunct texts = false := by rw [hdone]; rfl
    exact hne ▸ Gives.atAnyPunct texts) h

theorem atAnyWord (names : List String) : NeedsToken (Parser.atAnyWord names >>= f) :=
  .stays (fun c hdone => by
    have hne : c.token.kind.isAnyWord names = false := by rw [hdone]; rfl
    exact hne ▸ Gives.atAnyWord names) h

theorem eat (text : String) : NeedsToken (Parser.eat text >>= f) :=
  .stays (fun c hdone => Gives.eat_of_ne (by rw [hdone]; rfl)) h

theorem eatWord (name : String) : NeedsToken (Parser.eatWord name >>= f) :=
  .stays (fun c hdone => Gives.eatWord_of_ne (by rw [hdone]; rfl)) h

end

theorem expect (text : String) : NeedsToken (Parser.expect text) :=
  .eat .unexpected text

theorem expectWord (name : String) : NeedsToken (Parser.expectWord name) :=
  .eatWord .unexpected name

theorem bindingName : NeedsToken Parser.bindingName := .kind .unexpected

theorem loop {σ : Type} {step : σ → Parser (Step σ β)} (h : ∀ s, NeedsToken (step s)) (limit : Nat)
    (s : σ) : NeedsToken (Parser.loop limit step s) := by
  cases limit with
  | zero => exact .unexpected
  | succ limit => exact (h s).bind

theorem readIf {told : Bool} (htold : told = true) (h : NeedsToken p) :
    NeedsToken (Parser.readIf told p) := by
  subst htold
  exact h.bind

theorem propertyName : NeedsToken Parser.propertyName := .kind .unexpected

theorem accessedName : NeedsToken Rules.accessedName := .get fun _ => .kind .propertyName

end NeedsToken

/-- Rules for constructs that begin with a token each. -/
structure Rules.NeedTokens (r : Rules) : Prop where
  assignment : ∀ ctx, NeedsToken (r.assignment ctx)
  operand : ∀ ctx, NeedsToken (r.operand ctx)
  constructed : ∀ ctx, NeedsToken (r.constructed ctx)
  pattern : ∀ ctx, NeedsToken (r.pattern ctx)
  statement : ∀ ctx, NeedsToken (r.statement ctx)

namespace Rules

variable {r : Rules} (ctx : Context)

theorem needsToken_propertyKey : NeedsToken (r.propertyKey ctx) := .get fun _ => .kind .unexpected

theorem needsToken_bindingPattern : NeedsToken (r.bindingPattern ctx) :=
  .position fun _ => .kind .bindingName

theorem modifiesProperty_of_done {c : Cursor} (h : c.token.kind = .done) (words : List String) :
    Gives (modifiesProperty words) c false c := by
  refine Gives.following_bind.mpr ((Gives.atAnyWord _).bind ?_)
  rw [h]
  exact .pure _

theorem needsToken_property : NeedsToken (r.property ctx) := by
  refine .position fun _ => .eat (.eat ?_ _) _
  refine .stays (fun c hdone => modifiesProperty_of_done hdone _) (.following fun _ => ?_)
  rw [Bool.false_and]
  refine .stays (fun c hdone => modifiesProperty_of_done hdone _) (.followedByPunct fun _ => ?_)
  rw [Bool.false_and]
  exact (needsToken_propertyKey _).bind

theorem needsToken_primary : NeedsToken (r.primary ctx) := .get fun _ => .kind .unexpected

theorem needsToken_chainHead : NeedsToken (r.chainHead ctx) :=
  .atWord (.atWord (.atWord (needsToken_primary ctx) _) _) _

theorem needsToken_chain : NeedsToken (r.chain ctx) := .position fun _ => (needsToken_chainHead ctx).bind

theorem needsToken_callee : NeedsToken (r.callee ctx) :=
  .position fun _ => (needsToken_chainHead ctx).bind

theorem needsToken_prefixed : NeedsToken (r.prefixed ctx) := by
  refine .position fun _ => .atAnyPunct (.atAnyWord (.atAnyPunct (.atPunct ?_ _) _) _) _
  rw [Bool.and_false]
  exact (needsToken_chain ctx).bind

theorem needsToken_operation : NeedsToken (r.operation ctx) :=
  .position fun _ => (needsToken_prefixed ctx).bind

theorem needsToken_conditional : NeedsToken (r.conditional ctx) :=
  .position fun _ => (needsToken_operation ctx).bind

theorem arrow?_of_done {c : Cursor} (h : c.token.kind = .done) : Gives (r.arrow? ctx) c none c := by
  refine Gives.get_bind.mpr ((plainArrow?_punct (.inl h) _ _).bind (Gives.atWord_bind.mpr ?_))
  rw [h]
  exact Gives.following_bind.mpr (.pure _)

theorem needsToken_assignmentExpression : NeedsToken (r.assignmentExpression ctx) := by
  refine .position fun _ => .atWord ?_ _
  rw [Bool.and_false]
  exact .stays (fun c => arrow?_of_done ctx) (needsToken_conditional ctx).bind

theorem bindingMode?_of_done {c : Cursor} (h : c.token.kind = .done) :
    Gives bindingMode? c none c := by
  refine Gives.atWord_bind.mpr ?_
  rw [h]
  refine Gives.atWord_bind.mpr ?_
  rw [h]
  refine Gives.atWord_bind.mpr ?_
  rw [h]
  exact .pure _

section

variable (hr : r.NeedTokens)
include hr

theorem needsToken_expression : NeedsToken (r.expression ctx) :=
  .position fun _ => (hr.assignment ctx).bind

theorem needsToken_expressionStatement : NeedsToken (r.expressionStatement ctx) := by
  refine .position fun _ => .stays (a := false) (fun c hdone => Gives.kind_bind.mpr ?_)
    (needsToken_expression _ hr).bind
  rw [hdone]
  exact .pure _

theorem needsToken_anyStatement (hplain : r.dialect.typescript = false) :
    NeedsToken (r.anyStatement ctx) := by
  refine .position fun _ => .atPunct (.eat ?_ _) _
  have hkeyword : ∀ ctx c, c.token.kind = .done → Gives (r.keywordStatement? ctx) c none c := by
    intro ctx c hdone
    refine Gives.kind_bind.mpr ?_
    rw [hdone]
    exact .pure _
  have htype : ∀ ctx c, Gives (r.typeDeclaration? ctx) c none c := by
    intro ctx c
    unfold typeDeclaration?
    rw [hplain]
    exact .pure _
  have hdeclaration : ∀ ctx c, c.token.kind = .done → Gives (r.declaration? ctx) c none c := by
    intro ctx c hdone
    have hasync : Gives startsAsyncFunction c false c := by
      refine Gives.following_bind.mpr (Gives.atWord_bind.mpr ?_)
      rw [hdone]
      exact .pure _
    refine Gives.position_bind.mpr (Gives.atWord_bind.mpr ?_)
    rw [hdone]
    refine Gives.atWord_bind.mpr ?_
    rw [hdone]
    exact hasync.bind (.pure _)
  have hstray : ∀ ctx c, c.token.kind = .done → Gives (r.strayHandlers? ctx) c none c := by
    intro ctx c hdone
    have hword : ∀ name, Gives (Parser.eatWord name) c false c := by
      intro name
      refine Gives.eatWord_of_ne ?_
      rw [hdone]
      rfl
    exact Gives.get_bind.mpr ((hword _).bind ((hword _).bind (.pure _)))
  refine .stays (hkeyword _) (.stays (fun c _ => htype _ c) (.stays (hdeclaration _) ?_))
  have hrest : ∀ start, NeedsToken (r.plainStatement ctx.bracketed start) := fun _ =>
    .stays (fun _ => bindingMode?_of_done) (needsToken_expressionStatement _ hr)
  dsimp only
  split
  · exact .stays (hstray _) (hrest _)
  · exact hrest _

theorem needsToken_nestedStatement (hplain : r.dialect.typescript = false) :
    NeedsToken (r.nestedStatement ctx) := by
  refine .atWord ?_ _
  rw [Bool.and_false]
  exact needsToken_anyStatement ctx hr hplain

/-! ### Needing what follows -/

theorem propertyKey_of_last {c k : Cursor} {key : Tree} (hnext : c.next.token.kind = .done)
    (h : Gives (r.propertyKey ctx) c key k) : k.token.kind = .done := by
  replace h := Gives.kind_bind.mp (Gives.get_bind.mp h)
  split at h
  case h_5 =>
    obtain ⟨_, _, hvalue, -⟩ := (Gives.advance_bind.mp h).of_bind
    exact absurd hnext (hr.assignment _ _ _ _ hvalue)
  case h_6 => cases h
  all_goals
    cases h
    exact hnext

omit hr in
theorem needsToken_propertyRest (start : Nat) (key : Tree) :
    NeedsToken (r.propertyRest ctx start key) := by
  refine .atPunct (.atPunct ?_ _) _
  rw [Bool.and_false, Bool.or_false, if_neg Bool.false_ne_true]
  split
  · exact .eat (.eat (.atAnyPunct .unexpected _) _) _
  · exact (NeedsToken.expect _).bind

/-- A property goes on behind its first token. -/
theorem property_next {c d : Cursor} {t : Tree} (h : Gives (r.property ctx) c t d) :
    c.next.token.kind ≠ .done := by
  intro hnext
  have hmodifies : ∀ words, Gives (modifiesProperty words) c false c := by
    intro words
    refine Gives.following_bind.mpr ((Gives.atAnyWord _).bind ?_)
    rw [hnext, Bool.and_false]
    exact .pure _
  rcases (Gives.position_bind.mp h).of_eat with ⟨-, h⟩ | ⟨-, h⟩
  · obtain ⟨_, _, hvalue, -⟩ := h.of_bind
    exact hr.assignment _ _ _ _ hvalue hnext
  rcases h.of_eat with ⟨-, h⟩ | ⟨-, h⟩
  · obtain ⟨_, _, hkey, -⟩ := h.of_bind
    exact needsToken_propertyKey _ _ _ _ hkey hnext
  replace h := Gives.following_bind.mp ((hmodifies _).of_gives_bind h)
  rw [Bool.false_and, if_neg Bool.false_ne_true] at h
  replace h := (Gives.followedByPunct _).of_gives_bind ((hmodifies _).of_gives_bind h)
  rw [Bool.false_and, if_neg Bool.false_ne_true] at h
  obtain ⟨_, _, hkey, hrest⟩ := h.of_bind
  exact needsToken_propertyRest _ _ _ _ _ _ hrest (propertyKey_of_last _ hr hnext hkey)

/-! ### Members at the end -/

omit hr in
theorem modifiesMember_of_last {c : Cursor} (h : c.token.kind = .done ∨ c.next.token.kind = .done)
    (words : List String) : Gives (modifiesMember words) c false c := by
  refine Gives.following_bind.mpr ((Gives.atAnyWord _).bind ?_)
  rcases h with h | h <;> rw [h]
  · exact .pure _
  · rw [Bool.not_true, Bool.and_false]
    exact .pure _

omit hr in
theorem needsToken_memberKey : NeedsToken (r.memberKey ctx) := .kind (needsToken_propertyKey ctx)

omit hr in
theorem needsToken_accessorMember (start : Nat) (isAsync isGenerator : Bool) :
    NeedsToken (r.accessorMember ctx start isAsync isGenerator) := by
  refine .stays (fun c hdone => modifiesMember_of_last (.inl hdone) _) (.followedByPunct fun _ => ?_)
  rw [Bool.false_and]
  exact .stays (fun c _ => .pure _) (needsToken_memberKey ctx).bind

theorem memberKey_of_last {c k : Cursor} {key : Tree} (hnext : c.next.token.kind = .done)
    (h : Gives (r.memberKey ctx) c key k) : k.token.kind = .done := by
  replace h := Gives.kind_bind.mp h
  split at h
  · rename_i hkind
    replace h := Gives.kind_bind.mp (Gives.get_bind.mp h)
    rw [hkind] at h
    cases h
    exact hnext
  · exact propertyKey_of_last ctx hr hnext h

/-- A member that begins with the last token of a script ends there. -/
theorem memberRest_of_last {c d : Cursor} {start : Nat} {isGenerator marks : Bool} {t : Tree}
    (hnext : c.next.token.kind = .done) (h : Gives (r.memberRest ctx start isGenerator marks) c t d) :
    d.token.kind = .done := by
  obtain ⟨key, k, hkey, h⟩ := h.of_bind
  have hdone := memberKey_of_last ctx hr hnext hkey
  have hne : ∀ text, (k.token.kind == .punct text) = false := fun text => by rw [hdone]; rfl
  replace h := (eatMark_of_ne (hne _)).of_gives_bind h
  replace h := (Gives.atPunct_of_ne (hne _)).of_gives_bind ((Gives.atPunct_of_ne (hne _)).of_gives_bind h)
  rw [Bool.and_false, Bool.or_false, if_neg Bool.false_ne_true] at h
  dsimp only at h
  split at h
  · cases h
  replace h := (typeAscription?_of_ne (hne _)).of_gives_bind ((eatMark_of_ne (hne _)).of_gives_bind h)
  replace h := (Gives.eat_of_ne (hne _)).of_gives_bind h
  replace h := (endStatement_of_done hdone).of_gives_bind ((Gives.pure []).of_gives_bind h)
  cases h
  exact hdone

theorem accessorMember_of_last {c d : Cursor} {start : Nat} {isAsync isGenerator : Bool} {t : Tree}
    (hnext : c.next.token.kind = .done)
    (h : Gives (r.accessorMember ctx start isAsync isGenerator) c t d) : d.token.kind = .done := by
  replace h := (Gives.followedByPunct _).of_gives_bind ((modifiesMember_of_last (.inr hnext) _).of_gives_bind h)
  exact memberRest_of_last ctx hr hnext ((Gives.pure _).of_gives_bind h)

omit hr in
theorem needsToken_markedMember (start : Nat) : NeedsToken (r.markedMember ctx start) := by
  refine .stays (fun c hdone => modifiesMember_of_last (.inl hdone) _) (.followedByPunct fun _ => ?_)
  refine .following fun _ => ?_
  rw [Bool.false_and, Bool.false_and]
  exact .stays (fun c _ => .pure _) (.eat (needsToken_accessorMember ctx _ _ _) _)

theorem markedMember_of_last {c d : Cursor} {start : Nat} {t : Tree}
    (hnext : c.next.token.kind = .done) (h : Gives (r.markedMember ctx start) c t d) :
    d.token.kind = .done := by
  replace h := (Gives.followedByPunct _).of_gives_bind ((modifiesMember_of_last (.inr hnext) _).of_gives_bind h)
  replace h := (Gives.pure _).of_gives_bind (Gives.following_bind.mp h)
  rcases h.of_eat with ⟨-, h⟩ | ⟨-, h⟩
  · exact absurd hnext (needsToken_accessorMember _ _ _ _ _ _ _ h)
  · exact accessorMember_of_last ctx hr hnext h

omit hr in
theorem skipMemberModifier_of_last {c : Cursor} (h : c.token.kind = .done ∨ c.next.token.kind = .done)
    (words : List String) : Gives (skipMemberModifier words) c (.done ()) c := by
  refine (modifiesMember_of_last h _).bind ((Gives.followedByPunct _).bind ?_)
  rw [Bool.false_and]
  exact .pure _

omit hr in
theorem skipMemberModifiers_of_last {c d : Cursor} {u : Unit}
    (hlast : c.token.kind = .done ∨ c.next.token.kind = .done)
    (h : Gives r.skipMemberModifiers c u d) : d = c := by
  unfold skipMemberModifiers at h
  cases hlimit : r.limit with
  | zero =>
      rw [hlimit] at h
      cases h
  | succ n =>
      rw [hlimit] at h
      cases (skipMemberModifier_of_last hlast _).of_gives_bind h
      rfl

theorem classMember_of_last {c d : Cursor} {t : Tree} (hplain : r.dialect.typescript = false)
    (hlast : c.token.kind = .done ∨ c.next.token.kind = .done) (h : Gives (r.classMember ctx) c t d) :
    c.token.kind ≠ .done ∧ d.token.kind = .done := by
  replace h := (Gives.followedByPunct _).of_gives_bind
    (Gives.atWord_bind.mp (Gives.position_bind.mp h))
  have hstatic : (c.token.kind == .word "static" false && c.next.token.kind.isAnyPunct ["\x7b"])
      = false := by
    rcases hlast with hdone | hnext
    · rw [hdone]
      rfl
    · rw [hnext]
      exact Bool.and_false _
  rw [hstatic, if_neg Bool.false_ne_true] at h
  obtain ⟨_, m, hskip, h⟩ := h.of_bind
  cases skipMemberModifiers_of_last hlast hskip
  replace h := Gives.atPunct_bind.mp h
  rw [hplain, Bool.false_and, if_neg Bool.false_ne_true] at h
  have hkind := needsToken_markedMember ctx _ _ _ _ h
  exact ⟨hkind, markedMember_of_last ctx hr (hlast.resolve_left hkind) h⟩

theorem needsToken_classMember (hplain : r.dialect.typescript = false) :
    NeedsToken (r.classMember ctx) :=
  fun _ _ _ h hdone => (classMember_of_last ctx hr hplain (.inl hdone) h).1 hdone

end

end Rules

theorem needTokens_rules {dialect : Dialect} (hplain : dialect.typescript = false)
    (limit depth : Nat) : (rules dialect limit depth).NeedTokens := by
  induction depth with
  | zero => exact ⟨fun _ => .unexpected, fun _ => .unexpected, fun _ => .unexpected,
      fun _ => .unexpected, fun _ => .unexpected⟩
  | succ depth ih =>
      exact
        { assignment := fun ctx => Rules.needsToken_assignmentExpression ctx
          operand := fun ctx => Rules.needsToken_prefixed ctx
          constructed := fun ctx => Rules.needsToken_callee ctx
          pattern := fun ctx => Rules.needsToken_bindingPattern ctx
          statement := fun ctx => Rules.needsToken_nestedStatement ctx ih
            (by rwa [dialect_rules]) }

end Recompose.Script
