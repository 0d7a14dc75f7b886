import Recompose.Proofs.Script.Nesting
import Recompose.Script.Grammar

/-!
# A logic for parsers

`Leads E P p Q` says how the parser `p` ends that starts at a cursor with `P`: where
it succeeds, its result and its cursor have `Q`, and where it fails, its failure has
`E`. There is one rule for each way in which parsers are put together, so that the
proof about a parser follows its text. Rules of the grammar are specified by
`Reads`: what they read on their way are the trees of their result, and where they
fail, they stop on their way and blame a piece of the script.
-/

namespace Recompose.Script

open Recompose.Script.Parser (Step)

/-! ## Triples -/

/-- How a parser ended. -/
def Outcome {α : Type} (E : Failure → Prop) (Q : α → Cursor → Prop) :
    Except Failure (α × Cursor) → Prop
  | .ok (a, c) => Q a c
  | .error e => E e

/-- From a cursor with `P`, the parser `p` ends with a result and a cursor that have
`Q`, or with a failure that has `E`. -/
def Leads {α : Type} (E : Failure → Prop) (P : Cursor → Prop) (p : Parser α)
    (Q : α → Cursor → Prop) : Prop :=
  ∀ c, P c → Outcome E Q (p c)

/-- Nothing is said about failures. -/
abbrev Anyhow : Failure → Prop := fun _ => True

/-- A parser may fail at every cursor with `P`. -/
class MayFail (P : Cursor → Prop) (E : Failure → Prop) : Prop where
  here : ∀ c, P c → E ⟨c.fault, c.stop⟩

instance (P : Cursor → Prop) : MayFail P Anyhow := ⟨fun _ _ => trivial⟩

namespace Leads

variable {α β σ : Type} {E E' : Failure → Prop} {P P' : Cursor → Prop} {Q : β → Cursor → Prop}

theorem ok {p : Parser β} (h : Leads E P p Q) {c c' : Cursor} {b : β} (hc : P c)
    (hrun : p c = .ok (b, c')) : Q b c' := by
  have houtcome := h c hc
  rwa [hrun] at houtcome

theorem error {p : Parser β} (h : Leads E P p Q) {c : Cursor} {e : Failure} (hc : P c)
    (hrun : p c = .error e) : E e := by
  have houtcome := h c hc
  rwa [hrun] at houtcome

theorem bind {p : Parser α} {f : α → Parser β} {R : α → Cursor → Prop} (hp : Leads E P p R)
    (hf : ∀ a, Leads E (R a) (f a) Q) : Leads E P (p >>= f) Q := by
  intro c hc
  show Outcome E Q (p c >>= fun r => f r.1 r.2)
  cases hrun : p c with
  | error e => exact hp.error hc hrun
  | ok r => exact hf r.1 r.2 (hp.ok hc hrun)

theorem pure {b : β} (h : ∀ c, P c → Q b c) : Leads E P (pure b) Q := h

theorem mono {p : Parser β} (h : Leads E P' p Q) (hP : ∀ c, P c → P' c) : Leads E P p Q :=
  fun c hc => h c (hP c hc)

theorem ends {p : Parser β} {Q' : β → Cursor → Prop} (h : Leads E' P p Q')
    (hE : ∀ e, E' e → E e) (hQ : ∀ b c, Q' b c → Q b c) : Leads E P p Q := by
  intro c hc
  cases hrun : p c with
  | error e => exact hE e (h.error hc hrun)
  | ok r => exact hQ r.1 r.2 (h.ok hc hrun)

theorem post {p : Parser β} {Q' : β → Cursor → Prop} (h : Leads E P p Q')
    (hQ : ∀ b c, Q' b c → Q b c) : Leads E P p Q :=
  h.ends (fun _ he => he) hQ

/-- Names the cursor at which a parser starts. -/
theorem fix {p : Parser β} (h : ∀ c, P c → Leads E (· = c) p Q) : Leads E P p Q :=
  fun c hc => h c hc c rfl

/-- Nothing is known of the first parser. -/
theorem whatever {p : Parser α} {f : α → Parser β}
    (hf : ∀ a, Leads Anyhow (fun _ => True) (f a) Q) : Leads Anyhow P (p >>= f) Q := by
  refine .bind (R := fun _ _ => True) ?_ hf
  intro c _
  cases p c <;> exact trivial

theorem ite {q : Prop} [Decidable q] {p p' : Parser β} (h : Leads E P p Q) (h' : Leads E P p' Q) :
    Leads E P (if q then p else p') Q := by
  split
  · exact h
  · exact h'

theorem blame {s : Span} (h : ∀ c, P c → E ⟨s, c.stop⟩) : Leads E P (Parser.blame s) Q := h

theorem blame_bind {s : Span} {f : α → Parser β} (h : ∀ c, P c → E ⟨s, c.stop⟩) :
    Leads E P (Parser.blame s >>= f) Q := h

theorem unexpected [h : MayFail P E] : Leads E P Parser.unexpected Q := h.here

theorem unexpected_bind [h : MayFail P E] {f : α → Parser β} :
    Leads E P (Parser.unexpected >>= f) Q := h.here

/-- What a repeated step keeps, and what it ends with. -/
def StepPost (I : σ → Cursor → Prop) (Q : β → Cursor → Prop) : Step σ β → Cursor → Prop
  | .more s => I s
  | .done b => Q b

theorem loop {step : σ → Parser (Step σ β)} {limit : Nat} {s : σ} (I : σ → Cursor → Prop)
    [hfail : ∀ s, MayFail (I s) E] (hstart : ∀ c, P c → I s c)
    (h : ∀ s, Leads E (I s) (step s) (StepPost I Q)) : Leads E P (Parser.loop limit step s) Q := by
  suffices hrun : Leads E (I s) (Parser.loop limit step s) Q from hrun.mono hstart
  clear hstart
  induction limit generalizing s with
  | zero => exact .unexpected
  | succ n ih =>
      refine .bind (h s) ?_
      intro next
      cases next with
      | more s => exact ih
      | done b => exact .pure fun _ hb => hb

end Leads

/-! ## Looking -/

/-- A parser that looks, and neither moves nor fails. -/
class Peeks {α : Type} (p : Parser α) : Prop where
  stays : ∀ c, Leads (fun _ => False) (· = c) p fun _ c' => c' = c

namespace Peeks

variable {α β : Type}

theorem bind {p : Parser α} {f : α → Parser β} (hp : Peeks p) (hf : ∀ a, Peeks (f a)) :
    Peeks (p >>= f) :=
  ⟨fun c => .bind (hp.stays c) fun a => (hf a).stays c⟩

theorem pure (a : α) : Peeks (pure a) := ⟨fun _ => .pure fun _ h => h⟩

instance : Peeks (get : Parser Cursor) := ⟨fun _ _ h => h⟩

instance : Peeks Parser.kind := bind inferInstance fun _ => pure _

instance (n : Nat) : Peeks (Parser.spanFrom n) := bind inferInstance fun _ => pure _

instance : Peeks Parser.afterNewline := bind inferInstance fun _ => pure _

instance (text : String) : Peeks (Parser.atPunct text) := bind inferInstance fun _ => pure _

instance (name : String) : Peeks (Parser.atWord name) := bind inferInstance fun _ => pure _

instance : Peeks Parser.atDone := bind inferInstance fun _ => pure _

instance : Peeks Parser.following := bind inferInstance fun _ => pure _

instance (texts : List String) : Peeks (Parser.atAnyPunct texts) := by
  refine bind inferInstance fun k => ?_
  split <;> exact pure _

instance (names : List String) : Peeks (Parser.atAnyWord names) := by
  refine bind inferInstance fun k => ?_
  split <;> exact pure _

instance (texts : List String) : Peeks (Parser.followedByPunct texts) := by
  refine bind inferInstance fun k => ?_
  split <;> exact pure _

instance (p : Parser α) : Peeks (Parser.lookahead p) where
  stays := by
    rintro c _ rfl
    unfold Parser.lookahead
    split <;> exact rfl

end Peeks

namespace Leads

variable {α β : Type} {E : Failure → Prop} {P : Cursor → Prop} {Q : β → Cursor → Prop}
  {c : Cursor}

/-- Looking changes nothing. -/
theorem peek {p : Parser α} [hp : Peeks p] {f : α → Parser β} (hf : ∀ a, Leads E P (f a) Q) :
    Leads E P (p >>= f) Q := by
  refine .fix fun c hc => .bind ((hp.stays c).ends nofun fun _ _ h => h) fun a => ?_
  exact (hf a).mono fun c' hc' => hc' ▸ hc

theorem position {f : Nat → Parser β} (h : Leads E (· = c) (f c.token.span.start) Q) :
    Leads E (· = c) (Parser.position >>= f) Q := by
  rintro c rfl
  exact h c rfl

theorem spanFrom {n : Nat} {f : Span → Parser β} (h : Leads E (· = c) (f ⟨n, c.prevStop⟩) Q) :
    Leads E (· = c) (Parser.spanFrom n >>= f) Q := by
  rintro c rfl
  exact h c rfl

theorem get {f : Cursor → Parser β} (h : Leads E (· = c) (f c) Q) :
    Leads E (· = c) (MonadState.get >>= f) Q := by
  rintro c rfl
  exact h c rfl

theorem kind {f : TokenKind → Parser β} (h : Leads E (· = c) (f c.token.kind) Q) :
    Leads E (· = c) (Parser.kind >>= f) Q := by
  rintro c rfl
  exact h c rfl

theorem atWord {name : String} {f : Bool → Parser β}
    (h : Leads E (· = c) (f (c.token.kind == .word name false)) Q) :
    Leads E (· = c) (Parser.atWord name >>= f) Q := by
  rintro c rfl
  exact h c rfl

theorem set {d : Cursor} {f : PUnit → Parser β} (h : Leads E (· = d) (f ⟨⟩) Q) :
    Leads E P (MonadState.set d >>= f) Q :=
  fun _ _ => h d rfl

theorem afterAdvance {f : Unit → Parser β} (h : Leads E (· = c.next) (f ()) Q) :
    Leads E (· = c) (Parser.advance >>= f) Q := by
  rintro c rfl
  exact h c.next rfl

theorem advance : Leads E (· = c) Parser.advance fun _ c' => c' = c.next := by
  rintro c rfl
  exact rfl

/-- Punctuation that was taken stood at the cursor. -/
theorem eat (t : String) :
    Leads E (· = c) (Parser.eat t) fun took c' =>
      took = true ∧ c.token.kind = .punct t ∧ c' = c.next ∨ took = false ∧ c' = c := by
  rintro c rfl
  show Outcome E _ ((if (c.token.kind == .punct t) = true then _ else _ : Parser Bool) c)
  split
  · rename_i hkind
    exact .inl ⟨rfl, eq_of_beq hkind, rfl⟩
  · exact .inr ⟨rfl, rfl⟩

theorem eatWord (name : String) :
    Leads E (· = c) (Parser.eatWord name) fun took c' =>
      took = true ∧ c' = c.next ∨ took = false ∧ c' = c := by
  refine .peek fun at' => .ite ?_ ?_
  · exact .bind advance fun _ => .pure fun c' hc' => .inl ⟨rfl, hc'⟩
  · exact .pure fun c' hc' => .inr ⟨rfl, hc'⟩

theorem expect [MayFail (· = c) E] (t : String) :
    Leads E (· = c) (Parser.expect t) fun _ c' => c.token.kind = .punct t ∧ c' = c.next := by
  refine .bind (eat t) fun took => ?_
  cases took with
  | true =>
      refine .pure ?_
      rintro c' (⟨-, h⟩ | ⟨⟨⟩, -⟩)
      exact h
  | false =>
      refine .fix fun c' hc' => ?_
      obtain ⟨⟨⟩, -⟩ | ⟨-, rfl⟩ := hc'
      exact .unexpected

theorem expectWord [MayFail (· = c) E] (name : String) :
    Leads E (· = c) (Parser.expectWord name) fun _ c' => c' = c.next := by
  refine .bind (eatWord name) fun took => ?_
  cases took with
  | true =>
      refine .pure ?_
      rintro c' (⟨-, h⟩ | ⟨⟨⟩, -⟩)
      exact h
  | false =>
      refine .fix fun c' hc' => ?_
      obtain ⟨⟨⟩, -⟩ | ⟨-, rfl⟩ := hc'
      exact .unexpected

end Leads

/-! ## Reading -/

/-- A failure on the way from a cursor: the parser stopped on its way, and blames a
piece of the script. -/
structure Failure.Within (text : List Char) (c₀ : Cursor) (e : Failure) : Prop where
  way : Passage text false c₀ [] e.stop
  slice : e.span.IsSlice text

theorem Passage.stop {text : List Char} {b : Bool} {c₀ c : Cursor} {ts : List Tree}
    (h : Passage text b c₀ ts c) : Passage text false c₀ [] c.stop := by
  unfold Cursor.stop
  split
  · exact h.next.drop.weaken
  · exact h.drop.weaken

/-- A parser that starts at a cursor may fail on its way. -/
class Covers (text : List Char) (c₀ : Cursor) (E : Failure → Prop) : Prop where
  within : ∀ e, e.Within text c₀ → E e

/-- A parser that reads the trees of its result; `moved` when it passes at least
one token. -/
def Reads {α : Type} (text : List Char) (moved : Bool) (trees : α → List Tree) (p : Parser α) :
    Prop :=
  ∀ c, c.Sound text →
    Leads (Failure.Within text c) (· = c) p fun a => Passage text moved c (trees a)

/-- A parser for one tree. -/
abbrev ReadsOne (text : List Char) (p : Parser Tree) : Prop := Reads text true (fun t => [t]) p

/-- A parser for any number of trees. -/
abbrev ReadsMany (text : List Char) (p : Parser (List Tree)) : Prop := Reads text false id p

/-- A parser that passes tokens whose trees are of no use. -/
abbrev Skips {α : Type} (text : List Char) (moved : Bool) (p : Parser α) : Prop :=
  Reads text moved (fun _ => []) p

section

variable {text : List Char} {α β σ : Type} {b m : Bool} {trees : α → List Tree} {p : Parser α}
  {f : α → Parser β} {E : Failure → Prop} {Q : β → Cursor → Prop} {c₀ c : Cursor}
  {ts us : List Tree}

/-! ### Where parsers fail -/

instance : Covers text c₀ (Failure.Within text c₀) := ⟨fun _ h => h⟩

instance : Covers text c₀ Anyhow := ⟨fun _ _ => trivial⟩

/-- What fails further on the way fails on the way. -/
theorem Passage.covers (h : Passage text b c₀ ts c) [hcovers : Covers text c₀ E] :
    Covers text c E :=
  ⟨fun e he => hcovers.within e ⟨(h.drop.trans he.way).weaken, he.slice⟩⟩

theorem Passage.blame (h : Passage text b c₀ ts c) [hcovers : Covers text c₀ E] {s : Span}
    (hs : s.IsSlice text) : E ⟨s, c.stop⟩ :=
  hcovers.within _ ⟨h.stop, hs⟩

theorem Passage.mayFail (h : Passage text b c₀ ts c) [Covers text c₀ E] : MayFail (· = c) E :=
  ⟨fun _ heq => heq ▸ h.blame h.sound.isSlice_fault⟩

instance [Covers text c₀ E] : MayFail (Passage text b c₀ ts) E :=
  ⟨fun _ h => h.mayFail.here _ rfl⟩

instance (P R : Cursor → Prop) [h : MayFail P E] : MayFail (fun c => P c ∧ R c) E :=
  ⟨fun c hc => h.here c hc.1⟩

theorem Cursor.Sound.mayFail (hc : c.Sound text) [Covers text c E] : MayFail (· = c) E :=
  (Passage.refl hc).mayFail

theorem Cursor.Sound.unexpected (hc : c.Sound text) [Covers text c E] :
    Leads E (· = c) Parser.unexpected Q :=
  have : MayFail (· = c) E := hc.mayFail
  .unexpected

/-! ### Ways -/

/-- What is read goes behind what was read before. -/
theorem Reads.leads (h : Reads text m trees p) [Covers text c₀ E] :
    Leads E (Passage text b c₀ ts) p fun a => Passage text (b || m) c₀ (ts ++ trees a) := by
  refine .fix fun c hc => (h c hc.sound).ends (fun e he => ?_) fun _ _ hpass => hc.trans hpass
  have hcovers : Covers text c E := hc.covers
  exact hcovers.within e he

theorem Reads.bind (h : Reads text m trees p) [Covers text c₀ E]
    (hf : ∀ a, Leads E (Passage text (b || m) c₀ (ts ++ trees a)) (f a) Q) :
    Leads E (Passage text b c₀ ts) (p >>= f) Q :=
  .bind h.leads hf

/-- A parser starts with nothing read. -/
theorem Leads.enter {p : Parser β} (hc : c₀.Sound text)
    (h : Leads E (Passage text false c₀ []) p Q) : Leads E (· = c₀) p Q := by
  refine h.mono ?_
  rintro _ rfl
  exact .refl hc

theorem Reads.of_leads
    (h : ∀ c, Leads (Failure.Within text c) (Passage text false c []) p
      fun a => Passage text m c (trees a)) : Reads text m trees p :=
  fun c hc => .enter hc (h c)

/-- All results of a parser have a property. -/
def Yields {α : Type} (p : Parser α) (P : α → Prop) : Prop :=
  Leads Anyhow (fun _ => True) p fun a _ => P a

theorem yields_node {k : Kind} {start : Nat} {ts : List Tree} {P : Tree → Prop}
    (h : ∀ span, P (.node k span ts)) : Yields (Parser.node k start ts) P :=
  fun _ _ => h _

/-- Goes on with what is known of the tree that was read. -/
theorem Reads.given {P : α → Prop} (h : Reads text m trees p) (hp : Yields p P) [Covers text c₀ E]
    (hf : ∀ a, P a → Leads E (Passage text (b || m) c₀ (ts ++ trees a)) (f a) Q) :
    Leads E (Passage text b c₀ ts) (p >>= f) Q := by
  refine .bind (R := fun a c => P a ∧ Passage text (b || m) c₀ (ts ++ trees a) c) ?_ fun a => ?_
  · intro c hc
    cases hrun : p c with
    | error e => exact h.leads.error hc hrun
    | ok r => exact ⟨hp.ok trivial hrun, h.leads.ok (E := E) hc hrun⟩
  · rintro c ⟨ha, hc⟩
    exact hf a ha c hc

theorem Reads.weaken (h : Reads text m trees p) : Reads text false trees p :=
  fun c hc => (h c hc).post fun _ _ hpass => hpass.weaken

theorem Reads.skips (h : Reads text m trees p) : Skips text m p :=
  fun c hc => (h c hc).post fun _ _ hpass => hpass.drop

theorem skips_advance : Skips text true Parser.advance := fun _ hc =>
  Leads.advance.post fun _ _ h => h ▸ .advance hc

theorem skips_advanceIf (told : Bool) : Skips text false (Parser.advanceIf told) :=
  .of_leads fun _ => .ite skips_advance.weaken.leads (.pure fun _ h => h)

theorem skips_readIf (h : Skips text m p) (told : Bool) : Skips text false (Parser.readIf told p) :=
  .of_leads fun _ => .ite (h.bind fun _ => .pure fun _ h => h.weaken) (.pure fun _ h => h)

theorem readsMany_readIf {p : Parser Tree} (h : ReadsOne text p) (told : Bool) :
    ReadsMany text (Parser.readIf told p) :=
  .of_leads fun _ => .ite (h.bind fun _ => .pure fun _ h => h.weaken) (.pure fun _ h => h)

theorem skips_expect (t : String) : Skips text true (Parser.expect t) := fun c hc =>
  have : MayFail (· = c) (Failure.Within text c) := hc.mayFail
  (Leads.expect t).post fun _ _ h => h.2 ▸ .advance hc

theorem skips_expectWord (name : String) : Skips text true (Parser.expectWord name) := fun c hc =>
  have : MayFail (· = c) (Failure.Within text c) := hc.mayFail
  (Leads.expectWord name).post fun _ _ h => h ▸ .advance hc

theorem skips_eat (t : String) : Skips text false (Parser.eat t) := by
  intro c hc
  refine (Leads.eat t).post ?_
  rintro _ _ (⟨-, -, rfl⟩ | ⟨-, rfl⟩)
  · exact (Passage.advance hc).weaken
  · exact .refl hc

theorem skips_eatWord (name : String) : Skips text false (Parser.eatWord name) := by
  intro c hc
  refine (Leads.eatWord name).post ?_
  rintro _ _ (⟨-, rfl⟩ | ⟨-, rfl⟩)
  · exact (Passage.advance hc).weaken
  · exact .refl hc

namespace Leads

theorem pass {p : Parser α} (hp : Skips text true p) [Covers text c₀ E]
    (h : ∀ a, Leads E (Passage text true c₀ ts) (f a) Q) :
    Leads E (Passage text b c₀ ts) (p >>= f) Q := by
  refine hp.bind fun a => ?_
  rw [Bool.or_true, List.append_nil]
  exact h a

theorem skip {p : Parser α} (hp : Skips text false p) [Covers text c₀ E]
    (h : ∀ a, Leads E (Passage text b c₀ ts) (f a) Q) :
    Leads E (Passage text b c₀ ts) (p >>= f) Q := by
  refine hp.bind fun a => ?_
  rw [Bool.or_false, List.append_nil]
  exact h a

theorem weaken {p : Parser β} (h : Leads E (Passage text false c₀ ts) p Q) :
    Leads E (Passage text b c₀ ts) p Q :=
  h.mono fun _ hpass => hpass.weaken

theorem ifTrue {p p' : Parser β} {P : Cursor → Prop} (h : Leads E P p Q) :
    Leads E P (if true = true then p else p') Q := h

theorem ifFalse {p p' : Parser β} {P : Cursor → Prop} (h : Leads E P p' Q) :
    Leads E P (if false = true then p else p') Q := h

/-- Punctuation that may be taken. -/
theorem eats {t : String} {f : Bool → Parser β}
    (htook : Leads E (Passage text true c₀ ts) (f true) Q)
    (hleft : Leads E (Passage text b c₀ ts) (f false) Q) :
    Leads E (Passage text b c₀ ts) (Parser.eat t >>= f) Q := by
  refine .fix fun c hc => .bind (eat t) fun took => ?_
  cases took with
  | true =>
      refine htook.mono ?_
      rintro _ (⟨-, -, rfl⟩ | ⟨⟨⟩, -⟩)
      exact hc.next
  | false =>
      refine hleft.mono ?_
      rintro _ (⟨⟨⟩, -⟩ | ⟨-, rfl⟩)
      exact hc

theorem eatsWord {name : String} {f : Bool → Parser β}
    (htook : Leads E (Passage text true c₀ ts) (f true) Q)
    (hleft : Leads E (Passage text b c₀ ts) (f false) Q) :
    Leads E (Passage text b c₀ ts) (Parser.eatWord name >>= f) Q := by
  refine .fix fun c hc => .bind (eatWord name) fun took => ?_
  cases took with
  | true =>
      refine htook.mono ?_
      rintro _ (⟨-, rfl⟩ | ⟨⟨⟩, -⟩)
      exact hc.next
  | false =>
      refine hleft.mono ?_
      rintro _ (⟨⟨⟩, -⟩ | ⟨-, rfl⟩)
      exact hc

theorem node {k : Kind} (hk : k.closes us = true) (hperm : us.Perm ts) :
    Leads E (Passage text true c₀ ts) (Parser.node k c₀.token.span.start us)
      fun t => Passage text true c₀ [t] :=
  fun _ hc => hc.close hk hperm

/-- A tree that may be there. -/
theorem maybe {p : Parser (Option Tree)} {f : Option Tree → Parser β}
    (hp : Reads text false Option.toList p) [Covers text c₀ E]
    (hsome : ∀ t, Leads E (Passage text true c₀ (ts ++ [t])) (f (some t)) Q)
    (hnone : Leads E (Passage text b c₀ ts) (f none) Q) :
    Leads E (Passage text b c₀ ts) (p >>= f) Q := by
  refine hp.bind fun t? => ?_
  cases t? with
  | some t => exact (hsome t).mono fun _ h => h.moved (List.mem_append_right _ (List.mem_singleton_self t))
  | none =>
      refine hnone.mono fun _ h => ?_
      rwa [Option.toList_none, Bool.or_false, List.append_nil] at h

/-- A parser that is tried, and undone when it fails. -/
theorem tried {P : Cursor → Prop} {R : α → Cursor → Prop} (hp : Leads Anyhow P p R) :
    Leads E P (Parser.attempt p) fun a? c => match a? with
      | some a => R a c
      | none => P c := by
  intro c hc
  unfold Parser.attempt
  split
  · rename_i hrun
    exact hp.ok hc hrun
  · exact hc

theorem attempt {P : Cursor → Prop} {R : α → Cursor → Prop} {f : Option α → Parser β}
    (hp : Leads Anyhow P p R) (hsome : ∀ a, Leads E (R a) (f (some a)) Q)
    (hnone : Leads E P (f none) Q) : Leads E P (Parser.attempt p >>= f) Q := by
  refine .bind (tried hp) fun a? => ?_
  cases a? with
  | some a => exact hsome a
  | none => exact hnone

end Leads

theorem skips_attempt (h : Skips text m p) : Skips text false (Parser.attempt p) := by
  refine .of_leads fun c => (Leads.tried h.leads).post fun a? _ hpass => ?_
  cases a? <;> exact hpass.weaken

/-- A parser that fails has passed what it had passed. -/
theorem skips_tolerate (h : Reads text m trees p) : Skips text false (Parser.tolerate p) := by
  rintro c hc _ rfl
  unfold Parser.tolerate
  split
  · rename_i hrun
    exact ((h _ hc).ok rfl hrun).drop.weaken
  · rename_i hrun
    exact ((h _ hc).error rfl hrun).way

/-! ## Ends and lists -/

theorem skips_endStatement : Skips text false Parser.endStatement := by
  refine .of_leads fun c => ?_
  refine .skip (skips_eat _) fun _ => .ite (.pure fun _ h => h) ?_
  exact .peek fun _ => .peek fun _ => .peek fun _ => .ite (.pure fun _ h => h) .unexpected

theorem skips_skipToEnd (limit : Nat) : Skips text false (Parser.skipToEnd limit) := by
  refine .of_leads fun c => ?_
  refine .loop (fun _ => Passage text false c []) (fun _ h => h) fun _ => ?_
  refine .skip (skips_attempt skips_endStatement) fun _ => .ite (.pure fun _ h => h) ?_
  refine .pass skips_advance fun _ => .peek fun _ => ?_
  split <;> exact .pure fun _ h => h.weaken

/-- The items of a list are read in their order. -/
theorem reads_commaSeparated (h : Reads text m trees p) (limit : Nat) (close : String) :
    Reads text true (fun items => items.flatMap trees) (Parser.commaSeparated limit close p) := by
  refine .of_leads fun c => ?_
  refine .loop (fun items : List α => Passage text false c (items.reverse.flatMap trees))
    (fun _ h => h) fun items => ?_
  have hsplit : ∀ a, (a :: items).reverse.flatMap trees = items.reverse.flatMap trees ++ trees a := by
    intro a
    simp
  refine .eats (.ifTrue (.pure fun _ h => h)) (.ifFalse ?_)
  refine h.bind fun a => .weaken (.eats (.ifTrue (.pure fun _ h => ?_)) (.ifFalse ?_))
  · show Passage text true c ((a :: items).reverse.flatMap trees) _
    rw [hsplit]
    exact h
  · refine .pass (skips_expect _) fun _ => (.pure fun _ h => ?_)
    show Passage text false c ((a :: items).reverse.flatMap trees) _
    rw [hsplit]
    exact h.weaken

theorem readsMany_commaSeparated {p : Parser Tree} (h : ReadsOne text p) (limit : Nat)
    (close : String) : Reads text true id (Parser.commaSeparated limit close p) := by
  intro c hc
  refine (reads_commaSeparated h limit close c hc).post fun items _ hpass => ?_
  simpa only [List.flatMap_singleton', id_eq] using hpass

end

end Recompose.Script
