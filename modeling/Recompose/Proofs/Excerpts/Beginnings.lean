import Recompose.Proofs.Excerpts.Statements

/-!
# What stands in front of a statement

A statement is the same wherever the token in front of it ended, and whether a line ended
between them: no rule asks for that before it has taken a token.
-/

namespace Recompose.Script

/-- The token behind another one. -/
def Cursor.behind (c : Cursor) (prevStop : Nat) (newline : Bool) : Cursor :=
  { c with token := { c.token with afterNewline := newline }, prevStop := prevStop }

theorem Gives.bind_iff {α β : Type} {p : Parser α} {f : α → Parser β} {c m : Cursor} {a : α}
    (hp : Gives p c a m) {b : β} {d : Cursor} : Gives (p >>= f) c b d ↔ Gives (f a) m b d :=
  ⟨hp.of_gives_bind, hp.bind⟩

/-- A parser succeeds in the same way at two cursors. -/
def SameAt {α : Type} (p : Parser α) (c c' : Cursor) : Prop := ∀ a d, Gives p c' a d ↔ Gives p c a d

namespace SameAt

variable {α β : Type} {p : Parser α} {f : α → Parser β} {c c' : Cursor}

theorem bind (h : SameAt p c c') : SameAt (p >>= f) c c' := by
  refine fun b d => ⟨fun hrun => ?_, fun hrun => ?_⟩
  · obtain ⟨a, m, hp, hf⟩ := hrun.of_bind
    exact ((h a m).mp hp).bind hf
  · obtain ⟨a, m, hp, hf⟩ := hrun.of_bind
    exact ((h a m).mpr hp).bind hf

/-- Both go on from the same cursor. -/
theorem meet {m : Cursor} {a : α} (h : Gives p c a m) (h' : Gives p c' a m) :
    SameAt (p >>= f) c c' :=
  fun _ _ => h'.bind_iff.trans h.bind_iff.symm

theorem gives {a : α} (h : Gives p c a c) (h' : Gives p c' a c') (hf : SameAt (f a) c c') :
    SameAt (p >>= f) c c' :=
  fun b d => h'.bind_iff.trans ((hf b d).trans h.bind_iff.symm)

theorem fails (h : ∀ d, ¬ Reaches p c d) (h' : ∀ d, ¬ Reaches p c' d) : SameAt p c c' :=
  fun _ d => ⟨fun hrun => absurd hrun.reaches (h' d), fun hrun => absurd hrun.reaches (h d)⟩

end SameAt

/-- A parser that does not move, nor tells what stands in front of the token. -/
def Looks {α : Type} (p : Parser α) : Prop :=
  ∀ c n b, ∃ a, Gives p c a c ∧ Gives p (c.behind n b) a (c.behind n b)

/-- A parser to which it is all the same what stands in front of the token. -/
def Forgets {α : Type} (p : Parser α) : Prop := ∀ c n b, SameAt p c (c.behind n b)

/-- A parser for what may stand here, to which it is the same if it does. -/
def Tries {α : Type} (p : Parser (Option α)) : Prop :=
  ∀ c n b, SameAt p c (c.behind n b) ∨
    (Gives p c none c ∧ Gives p (c.behind n b) none (c.behind n b))

namespace Looks

variable {α β : Type} {p : Parser α} {f : α → Parser β}

theorem pure (a : α) : Looks (Pure.pure a : Parser α) := fun _ _ _ => ⟨a, .pure _, .pure _⟩

theorem bind (hp : Looks p) (h : ∀ a, Looks (f a)) : Looks (p >>= f) := by
  intro c n b
  obtain ⟨a, ha, ha'⟩ := hp c n b
  obtain ⟨v, hv, hv'⟩ := h a c n b
  exact ⟨v, ha.bind hv, ha'.bind hv'⟩

theorem position : Looks Parser.position := fun _ _ _ => ⟨_, .pure _, .pure _⟩

theorem kind : Looks Parser.kind := fun _ _ _ => ⟨_, .pure _, .pure _⟩

theorem following : Looks Parser.following := fun _ _ _ => ⟨_, .pure _, .pure _⟩

theorem atPunct (text : String) : Looks (Parser.atPunct text) := fun _ _ _ => ⟨_, .pure _, .pure _⟩

theorem atWord (name : String) : Looks (Parser.atWord name) := fun _ _ _ => ⟨_, .pure _, .pure _⟩

theorem atAnyPunct (texts : List String) : Looks (Parser.atAnyPunct texts) :=
  fun _ _ _ => ⟨_, Gives.atAnyPunct texts, Gives.atAnyPunct texts⟩

theorem atAnyWord (names : List String) : Looks (Parser.atAnyWord names) :=
  fun _ _ _ => ⟨_, Gives.atAnyWord names, Gives.atAnyWord names⟩

theorem followedByPunct (texts : List String) : Looks (Parser.followedByPunct texts) :=
  fun _ _ _ => ⟨_, Gives.followedByPunct texts, Gives.followedByPunct texts⟩

end Looks

namespace Forgets

variable {α β : Type} {p : Parser α} {f : α → Parser β}

theorem bind (hp : Forgets p) : Forgets (p >>= f) := fun c n b => (hp c n b).bind

theorem looks (hp : Looks p) (h : ∀ a, Forgets (f a)) : Forgets (p >>= f) := by
  intro c n b
  obtain ⟨a, ha, ha'⟩ := hp c n b
  exact .gives ha ha' (h a c n b)

theorem stays {a : α} (hp : ∀ c, Gives p c a c) (h : Forgets (f a)) : Forgets (p >>= f) :=
  fun c n b => .gives (hp _) (hp _) (h c n b)

theorem tries {p : Parser (Option α)} {f : Option α → Parser β} (hp : Tries p) (h : Forgets (f none)) :
    Forgets (p >>= f) := by
  intro c n b
  rcases hp c n b with hsame | ⟨hnone, hnone'⟩
  · exact hsame.bind
  · exact .gives hnone hnone' (h c n b)

theorem blame (span : Span) : Forgets (Parser.blame span : Parser α) :=
  fun _ _ _ => .fails nofun nofun

theorem unexpected : Forgets (Parser.unexpected : Parser α) := fun _ _ _ => .fails nofun nofun

theorem advance : Forgets Parser.advance := fun _ _ _ _ _ => .rfl

theorem set (d : Cursor) : Forgets (MonadState.set d : Parser PUnit) := fun _ _ _ _ _ => .rfl

theorem get {f : Cursor → Parser β} (hf : ∀ c n b, f (c.behind n b) = f c) (h : ∀ c, Forgets (f c)) :
    Forgets (MonadState.get >>= f) := by
  intro c n b a d
  rw [Gives.get_bind, Gives.get_bind, hf]
  exact h c c n b a d

theorem eat {f : Bool → Parser β} {text : String} (h : Forgets (f false)) :
    Forgets (Parser.eat text >>= f) := by
  intro c n b
  by_cases hkind : c.token.kind = .punct text
  · exact .meet (Gives.eat hkind) (Gives.eat hkind)
  · have hne : (c.token.kind == .punct text) = false := beq_eq_false_iff_ne.mpr hkind
    exact .gives (Gives.eat_of_ne hne) (Gives.eat_of_ne hne) (h c n b)

theorem eatWord {f : Bool → Parser β} {name : String} (h : Forgets (f false)) :
    Forgets (Parser.eatWord name >>= f) := by
  intro c n b
  by_cases hkind : c.token.kind = .word name false
  · exact .meet (Gives.eatWord hkind) (Gives.eatWord hkind)
  · have hne : (c.token.kind == .word name false) = false := beq_eq_false_iff_ne.mpr hkind
    exact .gives (Gives.eatWord_of_ne hne) (Gives.eatWord_of_ne hne) (h c n b)

theorem expect (text : String) : Forgets (Parser.expect text) := .eat .unexpected

theorem loop {σ : Type} {step : σ → Parser (Parser.Step σ β)} (h : ∀ s, Forgets (step s)) {limit : Nat}
    {s : σ} : Forgets (Parser.loop limit step s) := by
  cases limit with
  | zero => exact .unexpected
  | succ limit => exact (h s).bind

theorem expectWord (name : String) : Forgets (Parser.expectWord name) := .eatWord .unexpected

theorem ite {q q' : Parser α} {b : Bool} (h : Forgets q) (h' : Forgets q') :
    Forgets (if b = true then q else q') := by
  cases b with
  | true => exact h
  | false => exact h'

end Forgets

namespace Tries

variable {α β : Type}

theorem of_forgets {p : Parser (Option α)} (h : Forgets p) : Tries p := fun c n b => .inl (h c n b)

theorem none : Tries (Pure.pure Option.none : Parser (Option α)) :=
  fun _ _ _ => .inr ⟨.pure _, .pure _⟩

theorem looks {p : Parser β} {f : β → Parser (Option α)} (hp : Looks p) (h : ∀ a, Tries (f a)) :
    Tries (p >>= f) := by
  intro c n b
  obtain ⟨a, ha, ha'⟩ := hp c n b
  exact (h a c n b).imp (.gives ha ha') fun hnone => ⟨ha.bind hnone.1, ha'.bind hnone.2⟩

theorem some {p : Parser α} (h : Forgets p) : Tries (p >>= fun a => Pure.pure (Option.some a)) :=
  .of_forgets h.bind

theorem ite {q q' : Parser (Option α)} {b : Bool} (h : Tries q) (h' : Tries q') :
    Tries (if b = true then q else q') := by
  cases b with
  | true => exact h
  | false => exact h'

end Tries

namespace Rules

variable {r : Rules} {ctx : Context}

/-! ## Expressions -/

theorem forgets_bindingName : Forgets Parser.bindingName := by
  refine .looks .kind fun kind => ?_
  split
  · exact .ite Forgets.unexpected.bind (.get (fun _ _ _ => rfl) fun _ => Forgets.advance.bind)
  · exact .unexpected

theorem looks_nameBeforeArrow : Looks nameBeforeArrow := by
  refine Looks.bind .kind fun kind => ?_
  split
  · exact Looks.bind .following fun _ => .pure _
  · exact .pure _

theorem forgets_parameters (ofArrow : Bool) : Forgets (r.parameters ctx ofArrow) :=
  (Forgets.expect _).bind

theorem forgets_functionFrom (start : Nat) (isAsync nameNeeded bodyNeeded : Bool) :
    Forgets (r.functionFrom start isAsync nameNeeded bodyNeeded) := (Forgets.expectWord _).bind

theorem forgets_classFrom (start : Nat) (nameNeeded : Bool) :
    Forgets (r.classFrom ctx start nameNeeded) := (Forgets.expectWord _).bind

theorem forgets_blockStatement : Forgets (r.blockStatement ctx) :=
  .looks .position fun _ => (Forgets.expect _).bind.bind

theorem forgets_keywordOperand (name : String) : Forgets (r.keywordOperand ctx name) :=
  .get (fun _ _ _ => rfl) fun _ => Forgets.advance.bind

theorem forgets_regexLiteral : Forgets regexLiteral := by
  refine .get (fun _ _ _ => rfl) fun c => ?_
  dsimp only
  split
  · exact (Forgets.set _).bind
  · exact .blame _

section

variable (hplain : r.dialect = {})
include hplain

theorem forgets_arrowHead : Forgets (r.arrowHead ctx) :=
  .stays (fun _ => arrowGenerics_of_plain hplain) (forgets_parameters true).bind

theorem tries_arrowFunction? (start : Nat) (isAsync : Bool) :
    Tries (r.arrowFunction? ctx start isAsync) := by
  intro c n b
  have hhead : SameAt (r.arrowHead ctx) c (c.behind n b) := forgets_arrowHead hplain c n b
  by_cases hruns : ∃ head m, Gives (r.arrowHead ctx) c head m
  · obtain ⟨head, m, hrun⟩ := hruns
    obtain ⟨params, _, -, -, -, rfl, -⟩ := arrowHead_cases hplain hrun
    have hrun' := (hhead _ _).mpr hrun
    have hfound : ∀ {c}, Gives (r.arrowHead ctx) c (params, [], []) m → ∀ t? d,
        Gives (r.arrowFunction? ctx start isAsync) c t? d
          ↔ Gives (r.arrowBody ctx >>= (fun body =>
                Parser.node (.arrow isAsync) start (params ++ [body] ++ [] ++ [])) >>= fun t =>
              pure (some t)) m t? d := by
      intro c hrun t? d
      unfold arrowFunction?
      rw [Gives.get_bind, Gives.bind_iff (attempt_some hrun)]
      dsimp only
      rw [List.isEmpty_nil, Bool.not_true, Bool.and_false, if_neg Bool.false_ne_true]
    exact .inl fun t? d => (hfound hrun' t? d).trans (hfound hrun t? d).symm
  · have hnone : ∀ c, (∀ d, ¬ Reaches (r.arrowHead ctx) c d) →
        Gives (r.arrowFunction? ctx start isAsync) c none c :=
      fun c h => Gives.get_bind.mpr ((attempt_none h).bind (.pure _))
    refine .inr ⟨hnone c ?_, hnone _ ?_⟩
    · rintro d ⟨a, hrun⟩
      exact hruns ⟨a, d, hrun⟩
    · rintro d ⟨a, hrun⟩
      exact hruns ⟨a, d, (hhead a d).mp hrun⟩

theorem tries_plainArrow? (start : Nat) (isAsync : Bool) : Tries (r.plainArrow? ctx start isAsync) := by
  refine .looks looks_nameBeforeArrow fun told => .ite ?_ ?_
  · exact .some forgets_bindingName.bind
  · refine .looks (.atPunct _) fun opens => .looks (.atPunct _) fun _ => .ite ?_ .none
    exact tries_arrowFunction? hplain start isAsync

omit hplain in
/-- Where no arrow function begins, `async` may stand in front of one. -/
theorem gives_arrow?_iff {c d : Cursor} {t? : Option Tree}
    (hnone : Gives (r.plainArrow? ctx c.token.span.start false) c none c) :
    Gives (r.arrow? ctx) c t? d ↔
      (AsyncHere c ∧ t?.isSome ∧ Gives (r.plainArrow? ctx c.token.span.start true) c.next t? d) ∨
        (t? = none ∧ d = c ∧ (AsyncHere c →
          ∃ m, Gives (r.plainArrow? ctx c.token.span.start true) c.next none m)) := by
  unfold arrow?
  rw [Gives.get_bind, Gives.bind_iff hnone]
  dsimp only
  rw [Gives.atWord_bind, Gives.following_bind]
  by_cases hasync : AsyncHere c
  · rw [hasync.1, hasync.2, beq_self_eq_true, Bool.not_false, Bool.and_self, if_pos rfl,
      Gives.advance_bind]
    simp only [hasync, true_and, true_implies]
    constructor
    · intro hrun
      obtain ⟨tree?, m, hretry, hrun⟩ := hrun.of_bind
      cases tree? with
      | some tree =>
          cases hrun
          exact .inl ⟨rfl, hretry⟩
      | none =>
          cases hrun
          exact .inr ⟨rfl, rfl, m, hretry⟩
    · rintro (⟨hsome, hretry⟩ | ⟨rfl, rfl, m, hretry⟩)
      · obtain ⟨t, rfl⟩ := Option.isSome_iff_exists.mp hsome
        exact hretry.bind (.pure _)
      · exact hretry.bind rfl
  · have hif : ¬ (c.token.kind == .word "async" false && !c.next.token.afterNewline) = true := by
      rw [Bool.and_eq_true, beq_iff_eq, Bool.not_eq_true']
      exact hasync
    rw [if_neg hif]
    simp only [hasync, false_and, false_or, false_implies, and_true]
    constructor
    · intro hrun
      cases hrun
      exact ⟨rfl, rfl⟩
    · rintro ⟨rfl, rfl⟩
      exact .pure _

theorem tries_arrow? : Tries (r.arrow? ctx) := by
  intro c n b
  have htries : Tries (r.plainArrow? ctx c.token.span.start false) := tries_plainArrow? hplain _ _
  rcases htries c n b with hsame | ⟨hnone, hnone'⟩
  · left
    by_cases hnone : ∃ m, Gives (r.plainArrow? ctx c.token.span.start false) c none m
    · obtain ⟨m, hrun⟩ := hnone
      obtain ⟨rfl, -⟩ := plainArrow?_cases hplain hrun
      obtain ⟨hbehind, -⟩ := plainArrow?_cases hplain ((hsame _ _).mpr hrun)
      rw [← hbehind]
      exact fun _ _ => .rfl
    · intro t? d
      constructor
      · intro hrun
        obtain ⟨tree?, m, hfound, hrun⟩ := (Gives.get_bind.mp hrun).of_bind
        cases tree? with
        | some tree => exact Gives.get_bind.mpr (((hsame _ _).mp hfound).bind hrun)
        | none => exact absurd ⟨m, (hsame _ _).mp hfound⟩ hnone
      · intro hrun
        obtain ⟨tree?, m, hfound, hrun⟩ := (Gives.get_bind.mp hrun).of_bind
        cases tree? with
        | some tree => exact Gives.get_bind.mpr (((hsame _ _).mpr hfound).bind hrun)
        | none => exact absurd ⟨m, hfound⟩ hnone
  · by_cases hretry : AsyncHere c →
        ∃ m, Gives (r.plainArrow? ctx c.token.span.start true) c.next none m
    · have hstays := (gives_arrow?_iff hnone).mpr (.inr ⟨rfl, rfl, hretry⟩)
      exact .inr ⟨hstays, (gives_arrow?_iff hnone').mpr (.inr ⟨rfl, rfl, hretry⟩)⟩
    · refine .inl fun t? d => ?_
      refine (gives_arrow?_iff hnone').trans (.trans ?_ (gives_arrow?_iff hnone).symm)
      exact or_congr .rfl ⟨fun h => absurd h.2.2 hretry, fun h => absurd h.2.2 hretry⟩

theorem forgets_primary : Forgets (r.primary ctx) := by
  refine .get (fun _ _ _ => rfl) fun c => .looks .kind fun kind => ?_
  split
  case h_6 => exact .looks .position fun _ => (Forgets.expect _).bind
  case h_7 => exact .looks .position fun _ => (Forgets.expect _).bind
  case h_8 =>
    refine .looks .position fun _ => Forgets.bind (.get (fun _ _ _ => rfl) fun c => .loop fun s => ?_)
    dsimp only
    split
    · exact .blame _
    · exact (Forgets.set _).bind
    · exact (Forgets.set _).bind
  case h_9 => exact forgets_regexLiteral
  case h_10 => exact forgets_regexLiteral
  case h_11 =>
    rw [hplain]
    exact .unexpected
  case h_12 => exact forgets_functionFrom _ _ _ _
  case h_13 => exact forgets_classFrom _ _
  case h_18 => exact .looks .following fun _ => Forgets.advance.bind
  case h_19 => exact .ite Forgets.unexpected.bind Forgets.advance.bind
  case h_20 => exact .unexpected
  all_goals exact Forgets.advance.bind

theorem forgets_chainHead : Forgets (r.chainHead ctx) := by
  refine .looks (.atWord _) fun _ => .ite ?_ (.looks (.atWord _) fun _ => .ite ?_ ?_)
  · exact .looks .position fun _ => (Forgets.expectWord _).bind
  · exact forgets_keywordOperand _
  · exact .looks (.atWord _) fun _ => .ite (forgets_keywordOperand _) (forgets_primary hplain)

theorem forgets_prefixed : Forgets (r.prefixed ctx) := by
  refine .looks .position fun _ => .looks (.atAnyPunct _) fun _ => .ite Forgets.advance.bind ?_
  refine .looks (.atAnyWord _) fun _ => .ite Forgets.advance.bind ?_
  refine .looks (.atAnyPunct _) fun _ => .ite Forgets.advance.bind ?_
  refine .looks (.atPunct _) fun _ => .ite Forgets.advance.bind ?_
  exact Forgets.bind (.looks .position fun _ => (forgets_chainHead hplain).bind)

theorem forgets_conditional : Forgets (r.conditional ctx) :=
  .looks .position fun _ => Forgets.bind (.looks .position fun _ => (forgets_prefixed hplain).bind)

theorem forgets_assignmentExpression : Forgets (r.assignmentExpression ctx) := by
  refine .looks .position fun _ => .looks (.atWord _) fun _ => .ite ?_ ?_
  · exact .looks .position fun _ => Forgets.advance.bind
  · exact .tries (tries_arrow? hplain) (forgets_conditional hplain).bind

end

/-! ## Statements -/

theorem forgets_forStatement : Forgets (r.forStatement ctx) :=
  .looks .position fun _ => (Forgets.expectWord _).bind

theorem tries_keywordStatement? : Tries (r.keywordStatement? ctx) := by
  have hadvances : ∀ {f : Nat → Unit → Parser Tree},
      Forgets (Parser.position >>= fun start => Parser.advance >>= f start) :=
    fun {f} => .looks .position fun _ => Forgets.advance.bind
  refine .looks .kind fun kind => ?_
  split
  case h_2 => exact .some forgets_forStatement
  case h_13 => exact .none
  all_goals exact .some hadvances

theorem looks_startsAsyncFunction : Looks startsAsyncFunction :=
  Looks.bind .following fun _ => Looks.bind (.atWord _) fun _ => .pure _

theorem tries_declaration? : Tries (r.declaration? ctx) := by
  refine .looks .position fun start => .looks (.atWord _) fun _ => .ite ?_ ?_
  · exact .some (forgets_functionFrom start _ _ _)
  refine .looks (.atWord _) fun _ => .ite (.some (forgets_classFrom start _)) ?_
  exact .looks looks_startsAsyncFunction fun _ => .ite (.of_forgets Forgets.advance.bind) .none

theorem looks_bindingMode? : Looks bindingMode? := by
  refine Looks.bind (.atWord _) fun b => ?_
  split
  · exact .pure _
  refine Looks.bind (.atWord _) fun b => ?_
  split
  · exact .pure _
  refine Looks.bind (.atWord _) fun b => ?_
  split
  · refine Looks.bind .following fun token => ?_
    split <;> exact .pure _
  · exact .pure _

theorem looks_labels : Looks labels := by
  refine Looks.bind .kind fun kind => ?_
  split
  · exact Looks.bind (.followedByPunct _) fun _ => .pure _
  · exact .pure _

theorem forgets_expressionStatement (hassignment : ∀ ctx, Forgets (r.assignment ctx)) :
    Forgets (r.expressionStatement ctx) := by
  refine .looks .position fun _ => .looks looks_labels fun _ => .ite Forgets.advance.bind ?_
  exact Forgets.bind (.looks .position fun _ => (hassignment _).bind)

theorem forgets_plainStatement (hassignment : ∀ ctx, Forgets (r.assignment ctx)) (start : Nat) :
    Forgets (r.plainStatement ctx start) := by
  refine .looks looks_bindingMode? fun mode? => ?_
  cases mode? with
  | some mode => exact Forgets.advance.bind
  | none => exact forgets_expressionStatement hassignment

theorem forgets_anyStatement (hplain : r.dialect = {}) (hassignment : ∀ ctx, Forgets (r.assignment ctx)) :
    Forgets (r.anyStatement ctx) := by
  refine .looks .position fun _ => .looks (.atPunct _) fun _ => .ite forgets_blockStatement ?_
  refine .eat (.tries tries_keywordStatement? ?_)
  refine .stays (fun _ => typeDeclaration?_of_plain hplain) (.tries tries_declaration? ?_)
  rw [hplain]
  exact forgets_plainStatement hassignment _

end Rules

theorem forgets_assignment_rules (limit depth : Nat) (ctx : Context) :
    Forgets ((rules {} limit depth).assignment ctx) := by
  cases depth with
  | zero => exact .unexpected
  | succ depth => exact Rules.forgets_assignmentExpression (dialect_rules ..)

end Recompose.Script
