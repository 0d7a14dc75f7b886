import Recompose.Proofs.Excerpts.Places

/-!
# Reading an excerpt again

`Excerpt.Repeats` relates two parsers, one of which reads the excerpt alone and the other
one the whole text: where the first one succeeds, so does the second one, with the same
result further on and at the same place. There is one rule for each way in which parsers
are put together. A test for a token needs no more than that no statement begins with the
token, or that the excerpt is not over.
-/

namespace Recompose.Script

namespace Excerpt

/-- What a parser gives for the excerpt alone, another one gives in the whole text. -/
def Repeats {α : Type} (e : Excerpt) (f : α → α) (p p' : Parser α) (c c' : Cursor) : Prop :=
  ∀ a d, Gives p c a d → ∃ d', Gives p' c' (f a) d' ∧ e.At d d'

abbrev RepeatsOne (e : Excerpt) : Parser Tree → Parser Tree → Cursor → Cursor → Prop :=
  e.Repeats (Tree.shift e.offset)

abbrev RepeatsMany (e : Excerpt) : Parser (List Tree) → Parser (List Tree) → Cursor → Cursor → Prop :=
  e.Repeats (List.map (Tree.shift e.offset))

end Excerpt

namespace Excerpt.Repeats

open Recompose.Script.Parser (Step)

variable {e : Excerpt} {α β σ : Type} {f : α → α} {g : β → β} {p p' : Parser α} {q q' : Parser β}
  {c c' : Cursor}

theorem bind {k k' : α → Parser β} (hp : e.Repeats f p p' c c')
    (hk : ∀ a d d', e.At d d' → e.Repeats g (k a) (k' (f a)) d d') :
    e.Repeats g (p >>= k) (p' >>= k') c c' := by
  intro b d hrun
  obtain ⟨a, m, hp₁, hk₁⟩ := hrun.of_bind
  obtain ⟨m', hp₂, hm⟩ := hp a m hp₁
  obtain ⟨d', hk₂, hd⟩ := hk a m m' hm b d hk₁
  exact ⟨d', hp₂.bind hk₂, hd⟩

theorem pure {b b' : β} (h : e.At c c') (hb : b' = g b) :
    e.Repeats g (Pure.pure b) (Pure.pure b') c c' := by
  rintro _ _ ⟨⟩
  exact ⟨c', hb ▸ .pure _, h⟩

theorem of_gives {a : α} (h : e.At c c') (hp : Gives p c a c) (hp' : Gives p' c' (f a) c') :
    e.Repeats f p p' c c' := by
  intro b d hrun
  obtain ⟨rfl, rfl⟩ := hp.unique hrun
  exact ⟨c', hp', h⟩

/-- What looks ahead only sees the same. -/
theorem same {a : α} (hp : e.Repeats id p p' c c') (hstays : Reaches p' c' c') (h : Gives p c a c) :
    Gives p' c' a c' := by
  obtain ⟨a', hstays⟩ := hstays
  obtain ⟨_, ha, -⟩ := hp a c h
  obtain ⟨rfl, -⟩ := hstays.unique ha
  exact hstays

/-- What fails has nothing to repeat. -/
theorem of_fails (h : ∀ b d, ¬ Gives q c b d) : e.Repeats g q q' c c' :=
  fun b d hrun => absurd hrun (h b d)

theorem unexpected : e.Repeats g Parser.unexpected q' c c' := .of_fails fun _ _ => nofun

theorem unexpected_bind {k : α → Parser β} : e.Repeats g (Parser.unexpected >>= k) q' c c' :=
  .of_fails fun _ _ => nofun

/-- What needs a token is repeated in front of one. -/
theorem of_needsToken (hq : NeedsToken q) (h : c.token.kind ≠ .done → e.Repeats g q q' c c') :
    e.Repeats g q q' c c' := by
  intro b d hrun
  exact h (hq c b d hrun) b d hrun

theorem ifTrue {q₁ q₁' : Parser β} (h : e.Repeats g q q' c c') :
    e.Repeats g (if true = true then q else q₁) (if true = true then q' else q₁') c c' := h

theorem ifFalse {q₁ q₁' : Parser β} (h : e.Repeats g q q' c c') :
    e.Repeats g (if false = true then q₁ else q) (if false = true then q₁' else q') c c' := h

theorem ite {b : Bool} {q₁ q₁' : Parser β} (h : b = true → e.Repeats g q q' c c')
    (h' : b = false → e.Repeats g q₁ q₁' c c') :
    e.Repeats g (if b = true then q else q₁) (if b = true then q' else q₁') c c' := by
  cases b with
  | true => exact h rfl
  | false => exact h' rfl

/-- Goes on behind parsers whose results are known. -/
theorem gives {k k' : α → Parser β} {a a' : α} {d d' : Cursor} (hp : Gives p c a d)
    (hp' : Gives p' c' a' d') (hk : e.Repeats g (k a) (k' a') d d') :
    e.Repeats g (p >>= k) (p' >>= k') c c' := by
  intro b m hrun
  obtain ⟨m', hk', hm⟩ := hk b m (Gives.of_gives_bind hp hrun)
  exact ⟨m', hp'.bind hk', hm⟩

/-! ### Looking -/

theorem get {k k' : Cursor → Parser β} (hk : e.Repeats g (k c) (k' c') c c') :
    e.Repeats g (MonadState.get >>= k) (MonadState.get >>= k') c c' := hk

theorem atPunct {k k' : Bool → Parser β} (h : e.At c c') {text : String}
    (htext : (TokenKind.punct text).beginsAnew = false ∨ c.token.kind ≠ .done)
    (hk : e.Repeats g (k (c.token.kind == .punct text)) (k' (c.token.kind == .punct text)) c c') :
    e.Repeats g (Parser.atPunct text >>= k) (Parser.atPunct text >>= k') c c' :=
  .gives (.pure _) (.pure _) (h.beq_punct text htext ▸ hk)

theorem atWord {k k' : Bool → Parser β} (h : e.At c c') {name : String}
    (hname : (TokenKind.word name false).beginsAnew = false ∨ c.token.kind ≠ .done)
    (hk : e.Repeats g (k (c.token.kind == .word name false)) (k' (c.token.kind == .word name false))
      c c') :
    e.Repeats g (Parser.atWord name >>= k) (Parser.atWord name >>= k') c c' :=
  .gives (.pure _) (.pure _) (h.beq_word name hname ▸ hk)

theorem atAnyPunct {texts : List String} {k k' : Bool → Parser β} (h : e.At c c')
    (htexts : (∀ text ∈ texts, (TokenKind.punct text).beginsAnew = false) ∨ c.token.kind ≠ .done)
    (hk : e.Repeats g (k (c.token.kind.isAnyPunct texts)) (k' (c.token.kind.isAnyPunct texts)) c c') :
    e.Repeats g (Parser.atAnyPunct texts >>= k) (Parser.atAnyPunct texts >>= k') c c' :=
  .gives (Gives.atAnyPunct _) (Gives.atAnyPunct _) (h.isAnyPunct htexts ▸ hk)

theorem following {k k' : Token → Parser β} (hk : e.Repeats g (k c.next.token) (k' c'.next.token) c c') :
    e.Repeats g (Parser.following >>= k) (Parser.following >>= k') c c' := hk

section

variable (h : e.At c c') (hkind : c.token.kind ≠ .done)
include h hkind

theorem followedByPunct {texts : List String} {k k' : Bool → Parser β}
    (htexts : (∀ text ∈ texts, (TokenKind.punct text).beginsAnew = false) ∨
      c.next.token.kind ≠ .done)
    (hk : e.Repeats g (k (c.next.token.kind.isAnyPunct texts))
      (k' (c.next.token.kind.isAnyPunct texts)) c c') :
    e.Repeats g (Parser.followedByPunct texts >>= k) (Parser.followedByPunct texts >>= k') c c' :=
  .gives (Gives.followedByPunct _) (Gives.followedByPunct _) ((h.next hkind).isAnyPunct htexts ▸ hk)

/-- Which token stands here. Only the fault of one that is none tells of its place. -/
theorem kind {k k' : TokenKind → Parser β}
    (hinvalid : ∀ fault fault', e.Repeats g (k (.invalid fault)) (k' (.invalid fault')) c c')
    (hk : e.Repeats g (k c.token.kind) (k' c.token.kind) c c') :
    e.Repeats g (Parser.kind >>= k) (Parser.kind >>= k') c c' := by
  refine .gives (.pure _) (.pure _) ?_
  rw [h.kind hkind]
  cases hc : c.token.kind with
  | invalid fault => exact hinvalid _ _
  | _ =>
      rw [hc] at hk
      exact hk

theorem position {k k' : Nat → Parser β}
    (hk : e.Repeats g (k c.token.span.start) (k' (c.token.span.start + e.offset)) c c') :
    e.Repeats g (Parser.position >>= k) (Parser.position >>= k') c c' :=
  .gives (.pure _) (.pure _) (h.span hkind ▸ hk)

theorem afterNewline {k k' : Bool → Parser β}
    (hk : e.Repeats g (k c.token.afterNewline) (k' c.token.afterNewline) c c') :
    e.Repeats g (Parser.afterNewline >>= k) (Parser.afterNewline >>= k') c c' :=
  .gives (.pure _) (.pure _) (h.afterNewline hkind ▸ hk)

theorem atDone {k k' : Bool → Parser β} (hk : e.Repeats g (k false) (k' false) c c') :
    e.Repeats g (Parser.atDone >>= k) (Parser.atDone >>= k') c c' := by
  have hkind' : c'.token.kind ≠ .done := by
    rw [h.kind hkind]
    cases hk : c.token.kind with
    | done => exact absurd hk hkind
    | _ => exact nofun
  have hdone : ∀ j : Cursor, j.token.kind ≠ .done → Gives Parser.atDone j false j := by
    intro j hj
    rw [← beq_eq_false_iff_ne.mpr hj]
    exact .pure _
  exact .gives (hdone c hkind) (hdone c' hkind') hk

theorem atAnyWord {names : List String} {k k' : Bool → Parser β}
    (hk : e.Repeats g (k (c.token.kind.isAnyWord names)) (k' (c.token.kind.isAnyWord names)) c c') :
    e.Repeats g (Parser.atAnyWord names >>= k) (Parser.atAnyWord names >>= k') c c' := by
  refine .gives (Gives.atAnyWord _) (Gives.atAnyWord _) ?_
  have hany : c'.token.kind.isAnyWord names = c.token.kind.isAnyWord names := by
    rw [h.kind hkind]
    cases c.token.kind <;> rfl
  exact hany ▸ hk

theorem advance {k k' : Unit → Parser β}
    (hk : ∀ d d', e.At d d' → e.Repeats g (k ()) (k' ()) d d') :
    e.Repeats g (Parser.advance >>= k) (Parser.advance >>= k') c c' :=
  .gives (show Gives Parser.advance c () c.next from rfl)
    (show Gives Parser.advance c' () c'.next from rfl) (hk _ _ (h.next hkind))

theorem leaf (kind : Kind) :
    e.RepeatsOne (Parser.advance >>= fun _ => Pure.pure (.leaf kind c.token.span))
      (Parser.advance >>= fun _ => Pure.pure (.leaf kind c'.token.span)) c c' := by
  refine advance h hkind fun _ _ h' => .pure h' ?_
  rw [h.span hkind]
  rfl

end

/-! ### Taking -/

theorem eat {k k' : Bool → Parser β} (h : e.At c c') {text : String}
    (htext : (TokenKind.punct text).beginsAnew = false ∨ c.token.kind ≠ .done)
    (htook : c.token.kind = .punct text → ∀ d d', e.At d d' → e.Repeats g (k true) (k' true) d d')
    (hleft : c.token.kind ≠ .punct text → e.Repeats g (k false) (k' false) c c') :
    e.Repeats g (Parser.eat text >>= k) (Parser.eat text >>= k') c c' := by
  have hbeq := h.beq_punct text htext
  by_cases hkind : c.token.kind = .punct text
  · rw [hkind, beq_self_eq_true] at hbeq
    exact .gives (Gives.eat hkind) (Gives.eat (eq_of_beq hbeq))
      (htook hkind _ _ (h.next (TokenKind.ne_done_of_punct hkind)))
  · rw [beq_eq_false_iff_ne.mpr hkind] at hbeq
    exact .gives (Gives.eat_of_ne (beq_eq_false_iff_ne.mpr hkind)) (Gives.eat_of_ne hbeq) (hleft hkind)

theorem eatWord {k k' : Bool → Parser β} (h : e.At c c') {name : String}
    (hname : (TokenKind.word name false).beginsAnew = false ∨ c.token.kind ≠ .done)
    (htook : c.token.kind = .word name false → ∀ d d', e.At d d' →
      e.Repeats g (k true) (k' true) d d')
    (hleft : c.token.kind ≠ .word name false → e.Repeats g (k false) (k' false) c c') :
    e.Repeats g (Parser.eatWord name >>= k) (Parser.eatWord name >>= k') c c' := by
  have hbeq := h.beq_word name hname
  by_cases hkind : c.token.kind = .word name false
  · rw [hkind, beq_self_eq_true] at hbeq
    exact .gives (Gives.eatWord hkind) (Gives.eatWord (eq_of_beq hbeq))
      (htook hkind _ _ (h.next (TokenKind.ne_done_of_word hkind)))
  · rw [beq_eq_false_iff_ne.mpr hkind] at hbeq
    exact .gives (Gives.eatWord_of_ne (beq_eq_false_iff_ne.mpr hkind)) (Gives.eatWord_of_ne hbeq)
      (hleft hkind)

/-- Punctuation that may be taken, where as much goes on with it as without. -/
theorem took (h : e.At c c') {text : String}
    (htext : (TokenKind.punct text).beginsAnew = false ∨ c.token.kind ≠ .done) :
    e.Repeats id (Parser.eat text) (Parser.eat text) c c' := by
  have heat : e.Repeats id (Parser.eat text >>= Pure.pure) (Parser.eat text >>= Pure.pure) c c' :=
    .eat h htext (fun _ _ _ h => .pure h rfl) fun _ => .pure h rfl
  rwa [bind_pure] at heat

theorem tookWord (h : e.At c c') {name : String}
    (hname : (TokenKind.word name false).beginsAnew = false ∨ c.token.kind ≠ .done) :
    e.Repeats id (Parser.eatWord name) (Parser.eatWord name) c c' := by
  have heat : e.Repeats id (Parser.eatWord name >>= Pure.pure) (Parser.eatWord name >>= Pure.pure) c c' :=
    .eatWord h hname (fun _ _ _ h => .pure h rfl) fun _ => .pure h rfl
  rwa [bind_pure] at heat

theorem expect {k k' : Unit → Parser β} (h : e.At c c') {text : String}
    (hk : c.token.kind = .punct text → ∀ d d', e.At d d' → e.Repeats g (k ()) (k' ()) d d') :
    e.Repeats g (Parser.expect text >>= k) (Parser.expect text >>= k') c c' := by
  by_cases hkind : c.token.kind = .punct text
  · have hne : c.token.kind ≠ .done := TokenKind.ne_done_of_punct hkind
    have hkind' : c'.token.kind = .punct text := by rw [h.kind hne, hkind]; rfl
    exact .gives (Gives.expect hkind) (Gives.expect hkind') (hk hkind _ _ (h.next hne))
  · exact .of_fails fun b d hrun => hkind hrun.of_expect.1

theorem expectWord {k k' : Unit → Parser β} (h : e.At c c') {name : String}
    (hk : c.token.kind = .word name false → ∀ d d', e.At d d' →
      e.Repeats g (k ()) (k' ()) d d') :
    e.Repeats g (Parser.expectWord name >>= k) (Parser.expectWord name >>= k') c c' := by
  by_cases hkind : c.token.kind = .word name false
  · have hne : c.token.kind ≠ .done := TokenKind.ne_done_of_word hkind
    have hkind' : c'.token.kind = .word name false := by rw [h.kind hne, hkind]; rfl
    exact .gives (Gives.expectWord hkind) (Gives.expectWord hkind') (hk hkind _ _ (h.next hne))
  · exact .of_fails fun b d hrun => hkind hrun.of_expectWord.1

theorem node (h : e.At c c') {k : Kind} {start : Nat} {ts ts' : List Tree}
    (hts : ts' = ts.map (Tree.shift e.offset)) :
    e.RepeatsOne (Parser.node k start ts) (Parser.node k (start + e.offset) ts') c c' := by
  rintro _ _ ⟨⟩
  refine ⟨c', ?_, h⟩
  rw [Tree.shift_node, ← hts, Span.shift, ← h.prevStop]
  rfl

theorem spanFrom (h : e.At c c') {start : Nat} {k k' : Span → Parser β}
    (hk : e.Repeats g (k ⟨start, c.prevStop⟩) (k' (Span.shift ⟨start, c.prevStop⟩ e.offset)) c c') :
    e.Repeats g (Parser.spanFrom start >>= k) (Parser.spanFrom (start + e.offset) >>= k') c c' := by
  refine .gives (.pure _) (.pure _) ?_
  rw [h.prevStop]
  exact hk

theorem endStatement (h : e.At c c') : e.Repeats id Parser.endStatement Parser.endStatement c c' := by
  by_cases hkind : c.token.kind = .done
  · rintro _ _ hrun
    obtain ⟨-, rfl⟩ := (Rules.endStatement_of_done hkind).unique hrun
    have hresumes := h.resumes hkind
    refine ⟨c', ?_, h⟩
    rcases hresumes.newLine with hnew | hdone
    · exact Rules.endStatement_of_fresh ⟨hnew, hresumes.ends.goesOn⟩
    · exact Rules.endStatement_of_done hdone
  · refine .eat h (.inl rfl) (fun _ d d' h => .pure h rfl) fun _ => ?_
    refine .atPunct h (.inl rfl) (.atDone h hkind (.afterNewline h hkind ?_))
    exact .ite (fun _ => .pure h rfl) fun _ => .unexpected

theorem readIf {p p' : Parser α} (told : Bool) (h : e.At c c')
    (hp : told = true → e.Repeats f p p' c c') :
    e.Repeats (List.map f) (Parser.readIf told p) (Parser.readIf told p') c c' :=
  .ite (fun htold => .bind (hp htold) fun _ _ _ h => .pure h rfl) fun _ => .pure h rfl

/-- A construct that is tried, and stands here. -/
theorem found {p p' : Parser Tree} (hp : e.RepeatsOne p p' c c') :
    e.Repeats (Option.map (Tree.shift e.offset)) (p >>= fun t => Pure.pure (some t))
      (p' >>= fun t => Pure.pure (some t)) c c' :=
  .bind hp fun _ _ _ h => .pure h rfl

/-- A construct that is tried, and what stands here if it does not. -/
theorem orElse {p p' : Parser (Option Tree)} {k k' : Option Tree → Parser Tree}
    (hp : e.Repeats (Option.map (Tree.shift e.offset)) p p' c c')
    (hstays : ∀ d, Gives p c none d → d = c)
    (hsome : ∀ t d d', e.At d d' → e.RepeatsOne (k (some t)) (k' (some (t.shift e.offset))) d d')
    (hnone : ∀ c', e.At c c' → e.RepeatsOne (k none) (k' none) c c') :
    e.RepeatsOne (p >>= k) (p' >>= k') c c' := by
  intro b d hrun
  obtain ⟨t?, m, hm, hrest⟩ := hrun.of_bind
  obtain ⟨m', hm', hat⟩ := hp t? m hm
  cases t? with
  | some t =>
      obtain ⟨d', hrest', hd⟩ := hsome t m m' hat b d hrest
      exact ⟨d', hm'.bind hrest', hd⟩
  | none =>
      obtain rfl := hstays m hm
      obtain ⟨d', hrest', hd⟩ := hnone m' hat b d hrest
      exact ⟨d', hm'.bind hrest', hd⟩

/-! ### Repetition -/

end Excerpt.Repeats

/-! ### Ending inside -/

/-- As far as the excerpt goes on behind it, what a parser gives for the excerpt alone,
another one gives in the whole text. -/
def Excerpt.RepeatsInside {α : Type} (e : Excerpt) (f : α → α) (p p' : Parser α) (c c' : Cursor) :
    Prop :=
  ∀ a d, Gives p c a d → d.token.kind ≠ .done → ∃ d', Gives p' c' (f a) d' ∧ e.At d d'

namespace Excerpt.RepeatsInside

variable {e : Excerpt} {α β : Type} {f : α → α} {g : β → β} {p p' : Parser α} {q q' : Parser β}
  {c c' : Cursor}

theorem of_repeats (h : e.Repeats f p p' c c') : e.RepeatsInside f p p' c c' :=
  fun a d hrun _ => h a d hrun

theorem of_last (h : ∀ a d, Gives p c a d → d.token.kind = .done) : e.RepeatsInside f p p' c c' :=
  fun a d hrun hinside => absurd (h a d hrun) hinside

theorem bind {k k' : α → Parser β} (hp : e.Repeats f p p' c c')
    (hk : ∀ a d d', e.At d d' → e.RepeatsInside g (k a) (k' (f a)) d d') :
    e.RepeatsInside g (p >>= k) (p' >>= k') c c' := by
  intro b d hrun hinside
  obtain ⟨a, m, hp₁, hk₁⟩ := hrun.of_bind
  obtain ⟨m', hp₂, hm⟩ := hp a m hp₁
  obtain ⟨d', hk₂, hd⟩ := hk a m m' hm b d hk₁ hinside
  exact ⟨d', hp₂.bind hk₂, hd⟩

theorem gives {k k' : α → Parser β} {a a' : α} {d d' : Cursor} (hp : Gives p c a d)
    (hp' : Gives p' c' a' d') (hk : e.RepeatsInside g (k a) (k' a') d d') :
    e.RepeatsInside g (p >>= k) (p' >>= k') c c' := by
  intro b m hrun hinside
  obtain ⟨m', hk', hm⟩ := hk b m (Gives.of_gives_bind hp hrun) hinside
  exact ⟨m', hp'.bind hk', hm⟩

theorem ite {b : Bool} {q₁ q₁' : Parser β} (h : b = true → e.RepeatsInside g q q' c c')
    (h' : b = false → e.RepeatsInside g q₁ q₁' c c') :
    e.RepeatsInside g (if b = true then q else q₁) (if b = true then q' else q₁') c c' := by
  cases b with
  | true => exact h rfl
  | false => exact h' rfl

theorem map {φ φ' : α → β} (hp : e.RepeatsInside f p p' c c') (hφ : ∀ a, φ' (f a) = g (φ a)) :
    e.RepeatsInside g (p >>= fun a => Pure.pure (φ a)) (p' >>= fun a => Pure.pure (φ' a)) c c' := by
  intro b d hrun hinside
  obtain ⟨a, m, hp₁, hpure⟩ := hrun.of_bind
  cases hpure
  obtain ⟨d', hp₂, hd⟩ := hp a d hp₁ hinside
  exact ⟨d', hp₂.bind (hφ a ▸ .pure _), hd⟩

theorem eat {k k' : Bool → Parser β} (h : e.At c c') {text : String}
    (htext : (TokenKind.punct text).beginsAnew = false)
    (htook : ∀ d d', e.At d d' → e.RepeatsInside g (k true) (k' true) d d')
    (hleft : e.RepeatsInside g (k false) (k' false) c c') :
    e.RepeatsInside g (Parser.eat text >>= k) (Parser.eat text >>= k') c c' := by
  have hbeq := h.beq_punct text (.inl htext)
  by_cases hkind : c.token.kind = .punct text
  · rw [hkind, beq_self_eq_true] at hbeq
    exact .gives (Gives.eat hkind) (Gives.eat (eq_of_beq hbeq))
      (htook _ _ (h.next (TokenKind.ne_done_of_punct hkind)))
  · rw [beq_eq_false_iff_ne.mpr hkind] at hbeq
    exact .gives (Gives.eat_of_ne (beq_eq_false_iff_ne.mpr hkind)) (Gives.eat_of_ne hbeq) hleft

end Excerpt.RepeatsInside

/-- What a step says, with state and result changed. -/
def Parser.Step.map {σ β : Type} (u : σ → σ) (g : β → β) : Parser.Step σ β → Parser.Step σ β
  | .more s => .more (u s)
  | .done b => .done (g b)

/-- Steps that say the same, with states that belong together. -/
inductive StepRel {σ β : Type} (R : σ → σ → Prop) (g : β → β) :
    Parser.Step σ β → Parser.Step σ β → Prop where
  | more {s s' : σ} (h : R s s') : StepRel R g (.more s) (.more s')
  | done (b : β) : StepRel R g (.done b) (.done (g b))

namespace Excerpt.Repeats

open Recompose.Script.Parser (Step)

variable {e : Excerpt} {α β σ : Type} {f : α → α} {g : β → β} {p p' : Parser α} {c c' : Cursor}

/-- Loops whose states belong together. -/
theorem loopOn {R : σ → σ → Prop} {step step' : σ → Parser (Step σ β)} {n n' : Nat} (hn : n ≤ n')
    (hstep : ∀ s s' d d', R s s' → e.At d d' → ∀ next m, Gives (step s) d next m →
      ∃ next' m', Gives (step' s') d' next' m' ∧ e.At m m' ∧ StepRel R g next next')
    (h : e.At c c') {s s' : σ} (hs : R s s') :
    e.Repeats g (Parser.loop n step s) (Parser.loop n' step' s') c c' := by
  induction n generalizing n' s s' c c' with
  | zero => exact .unexpected
  | succ n ih =>
      obtain ⟨m, rfl⟩ := Nat.exists_eq_add_of_lt hn
      intro b d hrun
      obtain ⟨next, d₁, hnext, hrest⟩ := hrun.of_bind
      obtain ⟨next', d₁', hnext', hd₁, hrel⟩ := hstep s s' c c' hs h next d₁ hnext
      cases hrel with
      | more hs =>
          obtain ⟨d', hrest', hd⟩ := ih (Nat.le_add_right n m) hd₁ hs b d hrest
          exact ⟨d', hnext'.bind hrest', hd⟩
      | done b =>
          cases hrest
          exact ⟨d₁', hnext'.bind (.pure _), hd₁⟩

theorem loop {u : σ → σ} {step step' : σ → Parser (Step σ β)} {n n' : Nat} (hn : n ≤ n')
    (hstep : ∀ s d d', e.At d d' → e.Repeats (Step.map u g) (step s) (step' (u s)) d d')
    (h : e.At c c') (s : σ) :
    e.Repeats g (Parser.loop n step s) (Parser.loop n' step' (u s)) c c' := by
  refine .loopOn (R := fun s s' => s' = u s) hn ?_ h rfl
  rintro s _ d d' rfl hd next m hnext
  obtain ⟨m', hnext', hm⟩ := hstep s d d' hd next m hnext
  refine ⟨_, m', hnext', hm, ?_⟩
  cases next with
  | more s => exact .more rfl
  | done b => exact .done b

/-- Loops of which no step is taken where the excerpt is over. A step in front of another
one ends inside. -/
theorem loopInside {u : σ → σ} {step step' : σ → Parser (Step σ β)} {n n' : Nat} (hn : n ≤ n')
    (hneeds : ∀ s, NeedsToken (step s))
    (hmore : ∀ s d d', e.At d d' → e.RepeatsInside (Step.map u g) (step s) (step' (u s)) d d')
    (hdone : ∀ s d d', e.At d d' → ∀ b m, Gives (step s) d (.done b) m →
      ∃ m', Gives (step' (u s)) d' (.done (g b)) m' ∧ e.At m m')
    (h : e.At c c') (s : σ) :
    e.Repeats g (Parser.loop n step s) (Parser.loop n' step' (u s)) c c' := by
  induction n generalizing n' s c c' with
  | zero => exact .unexpected
  | succ n ih =>
      obtain ⟨m, rfl⟩ := Nat.exists_eq_add_of_lt hn
      intro b d hrun
      obtain ⟨next, d₁, hnext, hrest⟩ := hrun.of_bind
      cases next with
      | more s₁ =>
          have hinside := NeedsToken.loop hneeds n s₁ d₁ b d hrest
          obtain ⟨d₁', hnext', hd₁⟩ := hmore s c c' h _ d₁ hnext hinside
          obtain ⟨d', hrest', hd⟩ := ih (Nat.le_add_right n m) hd₁ s₁ b d hrest
          exact ⟨d', hnext'.bind hrest', hd⟩
      | done b₁ =>
          obtain ⟨d₁', hnext', hd₁⟩ := hdone s c c' h b₁ d₁ hnext
          cases hrest
          exact ⟨d₁', hnext'.bind (.pure _), hd₁⟩

theorem commaSeparated {limit limit' : Nat} (hlimit : limit ≤ limit') {close : String}
    (hclose : (TokenKind.punct close).beginsAnew = false)
    (hp : ∀ d d', e.At d d' → e.Repeats f p p' d d') (h : e.At c c') :
    e.Repeats (List.map f) (Parser.commaSeparated limit close p)
      (Parser.commaSeparated limit' close p') c c' := by
  refine .loop (u := List.map f) hlimit (fun items d d' h => ?_) h []
  refine .eat h (.inl hclose) (fun _ d d' h => .pure h ?_) fun _ => .bind (hp d d' h) fun a d d' h => ?_
  · simp [Step.map]
  refine .eat h (.inl hclose) (fun _ d d' h => .pure h ?_) fun _ => .expect h fun _ d d' h => .pure h ?_
  · simp [Step.map]
  · simp [Step.map]

theorem template {limit limit' : Nat} (hlimit : limit ≤ limit') {part part' : Parser Tree}
    (hpart : ∀ d d', e.At d d' → e.RepeatsOne part part' d d') (h : e.At c c')
    (hkind : c.token.kind = .punct "`") :
    e.RepeatsMany (Parser.template limit part) (Parser.template limit' part') c c' := by
  intro ts d hrun
  refine loopOn (R := fun (s s' : List Tree × Nat × List Char) => ∃ j j', e.At j j' ∧
    j.token.kind.isAnyPunct ["`", "\x7d"] = true ∧ s = (s.1, j.token.span.stop, j.after) ∧
      s' = (s.1.map (Tree.shift e.offset), j'.token.span.stop, j'.after)) hlimit ?_ h ?_ ts d hrun
  · rintro ⟨parts, pos, text⟩ _ i i' ⟨j, j', hj, hopen, hs, rfl⟩ hi next m hnext
    obtain ⟨rfl, rfl⟩ : pos = j.token.span.stop ∧ text = j.after :=
      ⟨congrArg (·.2.1) hs, congrArg (·.2.2) hs⟩
    dsimp only at hnext ⊢
    cases hread : readTemplateText? false j.token.span.stop j.after with
    | none =>
        rw [hread] at hnext
        cases hnext
    | some piece =>
        obtain ⟨ended, stop, rest⟩ := piece
        obtain ⟨hread', hrest⟩ := hj.template hopen hread
        rw [hread] at hnext
        rw [hread']
        cases ended with
        | true =>
            cases hnext
            refine ⟨.done (parts.map (Tree.shift e.offset)).reverse, _, rfl, hrest, ?_⟩
            rw [← List.map_reverse]
            exact .done _
        | false =>
            dsimp only at hnext ⊢
            obtain ⟨_, _, hset, hnext⟩ := hnext.of_bind
            cases hset
            obtain ⟨tree, brace, htree, hclose⟩ := hnext.of_bind
            obtain ⟨brace', htree', hat⟩ := hpart _ _ hrest _ _ htree
            have hbeq := hat.beq_punct "\x7d" (.inl rfl)
            by_cases hbrace : brace.token.kind = .punct "\x7d"
            · replace hclose := Gives.atPunct_bind.mp hclose
              rw [hbrace, beq_self_eq_true] at hclose hbeq
              cases hclose
              refine ⟨.more (tree.shift e.offset :: parts.map (Tree.shift e.offset),
                brace'.token.span.stop, brace'.after), brace', ?_, hat,
                .more ⟨m, brace', hat, by rw [hbrace]; rfl, rfl, rfl⟩⟩
              refine Gives.bind rfl (htree'.bind (Gives.atPunct_bind.mpr ?_))
              rw [hbeq]
              rfl
            · replace hclose := Gives.atPunct_bind.mp hclose
              rw [beq_eq_false_iff_ne.mpr hbrace] at hclose
              cases hclose
  · exact ⟨c, c', h, by rw [hkind]; rfl, rfl, rfl⟩

end Excerpt.Repeats

end Recompose.Script
