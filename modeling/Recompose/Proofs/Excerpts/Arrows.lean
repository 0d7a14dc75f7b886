import Recompose.Proofs.Excerpts.Targets

/-!
# Arrow functions of an excerpt

Where no arrow function begins in the excerpt but an expression, none begins in the whole
text: what its parentheses enclose would be parameters in the excerpt, too, and no line
begins with an arrow.
-/

namespace Recompose.Script

namespace Listed

variable {close : String} {item item' : Cursor → Cursor → Prop} {holes : Bool} {n : Nat} {c d : Cursor}

theorem imp (h : Listed holes close item n c d) (hitem : ∀ c d, item c d → item' c d) :
    Listed holes close item' n c d := by
  induction h with
  | closed hclose => exact .closed hclose
  | hole hholes hopen hcomma _ ih => exact .hole hholes hopen hcomma ih
  | last hopen hhole h hclose => exact .last hopen hhole (hitem _ _ h) hclose
  | more hopen hhole h hmore hcomma _ ih => exact .more hopen hhole (hitem _ _ h) hmore hcomma ih

end Listed

namespace Rules

open Recompose.Script.Parser (Step)

variable {r : Rules} {ctx : Context} {c d j : Cursor} {t : Tree}

/-- One round of reading operands of the comma operator. -/
def sequenceStep (r : Rules) (ctx : Context) (items : List Tree) : Parser (Step (List Tree) (List Tree)) := do
  if ← Parser.eat "," then return .more ((← r.assignment ctx) :: items)
  else return .done items.reverse

section

variable (hbegins : ∀ {c d}, Reaches (r.assignment ctx) c d → c.token.kind ≠ .punct ")")
include hbegins

theorem listed_of_sequence {n : Nat} {items : List Tree} {ts : List Tree} {m : Cursor}
    (hitem : Reaches (r.assignment ctx) c m)
    (h : Gives (Parser.loop n (r.sequenceStep ctx) items) m ts j) (hclose : j.token.kind = .punct ")") :
    Listed false ")" (Reaches (r.assignment ctx)) n c j.next := by
  induction n generalizing items c m with
  | zero => cases h
  | succ n ih =>
      obtain ⟨next, k, hstep, hrest⟩ := Gives.of_bind h
      rcases hstep.of_eat with ⟨hcomma, hstep⟩ | ⟨-, hpure⟩
      · obtain ⟨a, _, ha, hpure⟩ := hstep.of_bind
        cases hpure
        exact .more (hbegins hitem) nofun hitem (by rw [hcomma]; decide) hcomma (ih ha.reaches hrest)
      · cases hpure
        cases hrest
        exact .last (hbegins hitem) nofun hitem hclose

/-- Expressions between which the comma operator stands, up to a closing parenthesis. -/
theorem listed_of_expression (hlimit : 0 < r.limit) (h : Gives (r.expression ctx) c t j)
    (hclose : j.token.kind = .punct ")") :
    Listed false ")" (Reaches (r.assignment ctx)) r.limit c j.next := by
  obtain ⟨first, m, hfirst, h⟩ := (Gives.position_bind.mp h).of_bind
  replace h := Gives.atPunct_bind.mp h
  by_cases hcomma : m.token.kind = .punct ","
  · rw [hcomma, beq_self_eq_true, if_pos rfl] at h
    obtain ⟨ts, _, hloop, hnode⟩ := h.of_bind
    cases hnode
    exact listed_of_sequence hbegins hfirst.reaches hloop hclose
  · rw [beq_eq_false_iff_ne.mpr hcomma, if_neg Bool.false_ne_true] at h
    cases h
    obtain ⟨n, hn⟩ := Nat.exists_eq_add_of_le' hlimit
    rw [hn]
    exact .last (hbegins hfirst.reaches) nofun hfirst.reaches hclose

end

/-! ## Attempts -/

theorem attempt_cases {α : Type} {p : Parser α} {a? : Option α} (h : Gives (Parser.attempt p) c a? d) :
    (∃ a, a? = some a ∧ Gives p c a d) ∨ (a? = none ∧ d = c ∧ ∀ d, ¬ Reaches p c d) := by
  unfold Gives Parser.attempt at h
  split at h
  · rename_i a m hrun
    cases h
    exact .inl ⟨a, rfl, hrun⟩
  · rename_i fault hrun
    cases h
    refine .inr ⟨rfl, rfl, fun d => ?_⟩
    rintro ⟨a, ha⟩
    rw [Gives, hrun] at ha
    cases ha

theorem attempt_some {α : Type} {p : Parser α} {a : α} (h : Gives p c a d) :
    Gives (Parser.attempt p) c (some a) d := by
  unfold Gives Parser.attempt
  rw [show p c = .ok (a, d) from h]

theorem attempt_none {α : Type} {p : Parser α} (h : ∀ d, ¬ Reaches p c d) :
    Gives (Parser.attempt p) c none c := by
  unfold Gives Parser.attempt
  cases hrun : p c with
  | ok r => exact (h r.2 ⟨r.1, hrun⟩).elim
  | error e => rfl

section

variable (hplain : r.dialect = {})
include hplain

theorem arrowGenerics_of_plain : Gives (r.arrowGenerics ctx) c [] c := by
  unfold arrowGenerics
  rw [hplain]
  exact .pure _

theorem arrowHead_cases {head : List Tree × List Tree × List Tree} (h : Gives (r.arrowHead ctx) c head d) :
    ∃ params m, Gives (r.parameters { ctx with inGenerator := false } true) c params m ∧
      m.token.kind = .punct "=>" ∧ m.token.afterNewline = false ∧ head = (params, [], []) ∧
      d = m.next := by
  obtain ⟨params, m, hparams, h⟩ := (arrowGenerics_of_plain hplain).of_gives_bind h |>.of_bind
  replace h := (returnType?_of_plain hplain).of_gives_bind h
  replace h := Gives.afterNewline_bind.mp (Gives.atPunct_bind.mp h)
  dsimp only at h
  split at h
  case isFalse => cases h
  rename_i hif
  rw [Bool.and_eq_true, beq_iff_eq, Bool.not_eq_true'] at hif
  cases h
  exact ⟨params, m, hparams, hif.1, hif.2, rfl, rfl⟩

theorem reaches_arrowHead {m : Cursor} (hopen : c.token.kind = .punct "(")
    (hlist : Listed false ")" (Reaches (r.parameter { ctx with inGenerator := false } true)) r.limit
      c.next m)
    (harrow : m.token.kind = .punct "=>") (hline : m.token.afterNewline = false) :
    Reaches (r.arrowHead ctx) c m.next := by
  refine .of_gives (arrowGenerics_of_plain hplain) ?_
  refine .bind (m := m) (.of_gives (.expect hopen) (reaches_commaSteps_iff.mpr hlist)) fun params => ?_
  refine .of_gives (returnType?_of_plain hplain) (.atPunct (.afterNewline ?_))
  rw [harrow, hline]
  exact .advance (.pure _)

/-- No parenthesis stands here that opens the parameters of an arrow function. -/
def NoArrowHead (r : Rules) (ctx : Context) (c : Cursor) : Prop :=
  c.token.kind = .punct "(" → ∀ d, ¬ Reaches (r.arrowHead ctx) c d

omit hplain in
theorem reaches_nameBeforeArrow (c : Cursor) : Reaches nameBeforeArrow c c := by
  refine .kind ?_
  split
  · exact .following (.pure _)
  · exact .pure _

theorem plainArrow?_cases {start : Nat} {isAsync : Bool}
    (h : Gives (r.plainArrow? ctx start isAsync) c none d) :
    d = c ∧ Gives nameBeforeArrow c false c ∧ r.NoArrowHead ctx c := by
  obtain ⟨told, hbefore⟩ := reaches_nameBeforeArrow c
  replace h := hbefore.of_gives_bind h
  cases told with
  | true =>
      obtain ⟨_, _, -, h⟩ := h.of_bind
      cases h
  | false =>
      replace h := Gives.atPunct_bind.mp h
      replace h := Gives.atPunct_bind.mp h
      rw [hplain, Bool.false_and, Bool.or_false] at h
      by_cases hopen : c.token.kind = .punct "("
      · rw [hopen, beq_self_eq_true, if_pos rfl] at h
        obtain ⟨head?, m, hattempt, h⟩ := (Gives.get_bind.mp h).of_bind
        rcases attempt_cases hattempt with ⟨head, rfl, hhead⟩ | ⟨rfl, rfl, hnone⟩
        · obtain ⟨params, _, -, -, -, rfl, -⟩ := arrowHead_cases hplain hhead
          dsimp only at h
          rw [List.isEmpty_nil, Bool.not_true, Bool.and_false, if_neg Bool.false_ne_true] at h
          obtain ⟨_, _, -, h⟩ := h.of_bind
          cases h
        · cases h
          exact ⟨rfl, hbefore, fun _ => hnone⟩
      · rw [beq_eq_false_iff_ne.mpr hopen, if_neg Bool.false_ne_true] at h
        cases h
        exact ⟨rfl, hbefore, fun hopen' => absurd hopen' hopen⟩

theorem plainArrow?_none (hbefore : Gives nameBeforeArrow c false c) (h : r.NoArrowHead ctx c)
    (start : Nat) (isAsync : Bool) : Gives (r.plainArrow? ctx start isAsync) c none c := by
  refine hbefore.bind (Gives.atPunct_bind.mpr (Gives.atPunct_bind.mpr ?_))
  rw [hplain, Bool.false_and, Bool.or_false]
  by_cases hopen : c.token.kind = .punct "("
  · rw [hopen, beq_self_eq_true, if_pos rfl]
    exact Gives.get_bind.mpr ((attempt_none (h hopen)).bind (.pure _))
  · rw [beq_eq_false_iff_ne.mpr hopen, if_neg Bool.false_ne_true]
    exact .pure _

/-- The word `async` on the line of what follows it. -/
def AsyncHere (c : Cursor) : Prop :=
  c.token.kind = .word "async" false ∧ c.next.token.afterNewline = false

theorem arrow?_cases (h : Gives (r.arrow? ctx) c none d) :
    d = c ∧ Gives nameBeforeArrow c false c ∧ r.NoArrowHead ctx c ∧
      (AsyncHere c → Gives nameBeforeArrow c.next false c.next ∧ r.NoArrowHead ctx c.next) := by
  obtain ⟨tree?, m, hplainArrow, h⟩ := (Gives.get_bind.mp h).of_bind
  cases tree? with
  | some tree => cases h
  | none =>
      obtain ⟨rfl, hbefore, hhead⟩ := plainArrow?_cases hplain hplainArrow
      replace h := Gives.following_bind.mp (Gives.atWord_bind.mp h)
      split at h
      · rename_i hasync
        obtain ⟨tree?, k, hplainArrow', h⟩ := (Gives.advance_bind.mp h).of_bind
        cases tree? with
        | some tree => cases h
        | none =>
            cases h
            obtain ⟨-, hbefore', hhead'⟩ := plainArrow?_cases hplain hplainArrow'
            exact ⟨rfl, hbefore, hhead, fun _ => ⟨hbefore', hhead'⟩⟩
      · rename_i hasync
        cases h
        refine ⟨rfl, hbefore, hhead, fun hhere => absurd ?_ hasync⟩
        rw [hhere.1, hhere.2]
        rfl

theorem arrow?_none (hbefore : Gives nameBeforeArrow c false c) (hhead : r.NoArrowHead ctx c)
    (hasync : AsyncHere c → Gives nameBeforeArrow c.next false c.next ∧ r.NoArrowHead ctx c.next) :
    Gives (r.arrow? ctx) c none c := by
  refine Gives.get_bind.mpr ((plainArrow?_none hplain hbefore hhead _ _).bind ?_)
  refine Gives.atWord_bind.mpr (Gives.following_bind.mpr ?_)
  split
  · rename_i hhere
    rw [Bool.and_eq_true, beq_iff_eq, Bool.not_eq_true'] at hhere
    obtain ⟨hbefore', hhead'⟩ := hasync hhere
    exact Gives.advance_bind.mpr ((plainArrow?_none hplain hbefore' hhead' _ _).bind (.bind rfl (.pure _)))
  · exact .pure _

end

end Rules

namespace Rules.RepeatedBy

open Excerpt

variable {e : Excerpt} {r r' : Rules} (hr : r.RepeatedBy e r') {ctx ctx' : Context}
  {c c' d : Cursor}

/-- Whether an arrow follows a name is the same to see. -/
theorem nameBeforeArrow (h : e.At c c') (hkind : c.token.kind ≠ .done) :
    e.Repeats id Rules.nameBeforeArrow Rules.nameBeforeArrow c c' := by
  refine .kind h hkind (fun _ _ => .pure h rfl) ?_
  split
  · refine .following ?_
    have hnext := h.next hkind
    rw [hnext.beq_punct "=>" (.inl rfl)]
    by_cases hdone : c.next.token.kind = .done
    · refine .pure h ?_
      rw [hdone, show (TokenKind.done == TokenKind.punct "=>") = false from rfl, Bool.and_false,
        Bool.false_and, Bool.false_and]
      rfl
    · rw [hnext.afterNewline hdone]
      exact .pure h rfl
  · exact .pure h rfl

theorem nameBeforeArrow_same (h : e.At c c') (hkind : c.token.kind ≠ .done) {told : Bool}
    (hbefore : Gives Rules.nameBeforeArrow c told c) : Gives Rules.nameBeforeArrow c' told c' :=
  (nameBeforeArrow h hkind).same (reaches_nameBeforeArrow c') hbefore

include hr

/-- What parentheses enclose are no parameters in the whole text, if it is expressions in
the excerpt, and no parameters. -/
theorem noArrowHead (h : e.At c c') (hkind : c.token.kind ≠ .done) {ctx₁ : Context}
    (hlist : c.token.kind = .punct "(" →
      ∃ j, Listed false ")" (Reaches (r.item ctx₁)) r.limit c.next j)
    (hnone : r.NoArrowHead ctx c) : r'.NoArrowHead ctx' c' := by
  rintro hopen' d' ⟨head, hrun'⟩
  have hopen := (h.punct_iff (.inl rfl)).mp hopen'
  obtain ⟨j, hlist⟩ := hlist hopen
  obtain ⟨params, m', hparams', harrow', hline', -, rfl⟩ := arrowHead_cases hr.plain' hrun'
  obtain ⟨-, hparams'⟩ := hparams'.of_expect
  obtain ⟨hlist₁, hj⟩ := Excerpt.Transfers.listed (by decide) rfl
    (fun h => hr.transfers_parameter { ctx with inGenerator := false } _ h) (h.next hkind) hlist
    (reaches_commaSteps_iff.mp hparams'.reaches)
  have harrow := (hj.punct_iff (.inl rfl)).mp harrow'
  rw [hj.afterNewline (TokenKind.ne_done_of_punct harrow)] at hline'
  exact hnone hopen _ (reaches_arrowHead hr.plain hopen hlist₁ harrow hline')

/-! ## No arrow functions -/

/-- Items that are expressions in parentheses. -/
theorem listed_of_paren (hopen : c.token.kind = .punct "(")
    (hrun : Reaches (r.conditional ctx) c d) :
    ∃ j, Listed false ")" (Reaches (r.item ctx)) r.limit c.next j := by
  obtain ⟨_, hrun⟩ := hrun
  obtain ⟨_, _, hchain⟩ := chain_of_conditional hr.plain (by rw [hopen]; rfl) (by rw [hopen]; rfl) hrun
  obtain ⟨_, _, hhead, -⟩ := (Gives.position_bind.mp hchain).of_bind
  have hprimary := Gives.kind_bind.mp (Gives.get_bind.mp (primary_of_chainHead (by rw [hopen]; rfl) hhead))
  rw [hopen] at hprimary
  obtain ⟨_, j, hinner, hclose⟩ := (Gives.advance_bind.mp hprimary).of_bind
  have hbegins : ∀ {text}, text ∈ [")", "..."] → ∀ {c d}, Reaches (r.assignment ctx.bracketed) c d →
      c.token.kind ≠ .punct text := by
    intro text htext c d hrun hkind
    have hnot := hr.begins hrun
    rw [TokenKind.isAnyPunct_iff.mpr ⟨text, htext, hkind⟩] at hnot
    cases hnot
  refine ⟨j.next, (listed_of_expression (hbegins (by decide)) hr.positive hinner hclose.of_expect.1).imp ?_⟩
  rintro c d ⟨_, hrun⟩
  have hdots : c.token.kind ≠ .punct "..." := hbegins (by decide) ⟨_, hrun⟩
  exact .position (.of_gives (.eat_of_ne (beq_eq_false_iff_ne.mpr hdots)) ⟨_, hrun⟩)

/-- Items that are the arguments of a function named `async`. -/
theorem listed_of_async (hkind : c.token.kind = .word "async" false)
    (hopen : c.next.token.kind = .punct "(") (hrun : Reaches (r.conditional ctx) c d) :
    ∃ j, Listed false ")" (Reaches (r.item ctx)) r.limit c.next.next j := by
  obtain ⟨_, hrun⟩ := hrun
  obtain ⟨_, _, hchain⟩ := chain_of_conditional hr.plain (by rw [hkind]; rfl) (by rw [hkind]; rfl) hrun
  obtain ⟨_, _, hhead, hloop⟩ := (Gives.position_bind.mp hchain).of_bind
  obtain rfl := next_of_chainHead hkind (by decide) hopen hhead
  obtain ⟨n, hn⟩ := Nat.exists_eq_add_of_le' hr.positive
  rw [hn] at hloop
  obtain ⟨_, _, hstep, -⟩ := hloop.of_bind
  replace hstep := Gives.kind_bind.mp hstep
  rw [hopen] at hstep
  obtain ⟨_, j, harguments, -⟩ := Gives.of_bind hstep
  exact ⟨j, reaches_commaSteps_iff.mp harguments.of_expect.2.reaches⟩

/-- Where no arrow function begins in the excerpt but an expression, none begins in the
whole text. -/
theorem arrow?_none (h : e.At c c') (hnone : Gives (r.arrow? ctx) c none c)
    (hrun : Reaches (r.conditional ctx) c d) : Gives (r'.arrow? ctx') c' none c' := by
  obtain ⟨-, hbefore, hhead, hasync⟩ := arrow?_cases hr.plain hnone
  have hkind : c.token.kind ≠ .done := by
    obtain ⟨_, hrun⟩ := hrun
    exact needsToken_conditional _ _ _ _ hrun
  refine Rules.arrow?_none hr.plain' (nameBeforeArrow_same h hkind hbefore)
    (hr.noArrowHead h hkind (fun hopen => hr.listed_of_paren hopen hrun) hhead) ?_
  rintro ⟨hword', hline'⟩
  have hword : c.token.kind = .word "async" false := by
    have hbeq := h.beq_word "async" (.inr hkind)
    rw [hword', beq_self_eq_true] at hbeq
    exact eq_of_beq hbeq.symm
  have hnext := h.next hkind
  by_cases hdone : c.next.token.kind = .done
  · have hdone' := (hnext.resumes hdone).newLine.resolve_left (by rw [hline']; exact nofun)
    refine ⟨Gives.kind_bind.mpr ?_, ?_⟩
    · rw [hdone']
      exact .pure _
    · intro hopen
      rw [hdone'] at hopen
      cases hopen
  · rw [hnext.afterNewline hdone] at hline'
    obtain ⟨hbefore', hhead'⟩ := hasync ⟨hword, hline'⟩
    refine ⟨nameBeforeArrow_same hnext hdone hbefore', ?_⟩
    exact hr.noArrowHead hnext hdone (fun hopen => hr.listed_of_async hword hopen hrun) hhead'

/-! ## Arrow functions -/

theorem arrowHead (h : e.At c c') {head : List Tree × List Tree × List Tree}
    (hrun : Gives (r.arrowHead ctx) c head d) :
    ∃ params d', head = (params, [], []) ∧
      Gives (r'.arrowHead ctx') c' (params.map (Tree.shift e.offset), [], []) d' ∧ e.At d d' := by
  obtain ⟨params, m, hparams, harrow, hline, rfl, rfl⟩ := arrowHead_cases hr.plain hrun
  have hrepeats : e.RepeatsMany (r.parameters { ctx with inGenerator := false } true)
      (r'.parameters { ctx' with inGenerator := false } true) c c' := hr.parameters h true
  obtain ⟨m', hparams', hm⟩ := hrepeats _ m hparams
  have hkind : m.token.kind ≠ .done := TokenKind.ne_done_of_punct harrow
  refine ⟨params, m'.next, rfl, ?_, hm.next hkind⟩
  refine (arrowGenerics_of_plain hr.plain').bind (hparams'.bind ?_)
  refine (returnType?_of_plain hr.plain').bind (Gives.atPunct_bind.mpr (Gives.afterNewline_bind.mpr ?_))
  rw [(hm.punct_iff (.inl rfl)).mpr harrow, hm.afterNewline hkind, hline]
  exact Gives.advance_bind.mpr (.pure _)

theorem arrowBody (hctx : ctx'.allowIn = ctx.allowIn) (h : e.At c c') :
    e.RepeatsOne (r.arrowBody ctx) (r'.arrowBody ctx') c c' := by
  refine .of_needsToken (.atPunct (hr.needs.assignment _).bind _) fun hkind => ?_
  refine .atPunct h (.inr hkind) (.ite (fun _ => hr.blockStatement (by rfl) h) fun _ => ?_)
  refine .bind (hr.assignment hctx h) fun body d d' h => .pure h ?_
  rw [Tree.shift_node, Tree.span_shift, List.map_singleton]

theorem bareArrow (hctx : ctx'.allowIn = ctx.allowIn) (h : e.At c c') (start : Nat) (isAsync : Bool) :
    e.RepeatsOne (r.bareArrow ctx start isAsync) (r'.bareArrow ctx' (start + e.offset) isAsync) c c' := by
  refine .bind (bindingName h) fun name d d' h => .expect h fun _ d d' h => ?_
  refine .bind (hr.arrowBody hctx h) fun body d d' h => .node h ?_
  simp [Tree.shift_node]

theorem arrowFunction?_some (hctx : ctx'.allowIn = ctx.allowIn) (h : e.At c c') {start : Nat}
    {isAsync : Bool} {t : Tree} (hrun : Gives (r.arrowFunction? ctx start isAsync) c (some t) d) :
    ∃ d', Gives (r'.arrowFunction? ctx' (start + e.offset) isAsync) c' (some (t.shift e.offset)) d' ∧
      e.At d d' := by
  obtain ⟨head?, m, hattempt, hrun⟩ := (Gives.get_bind.mp hrun).of_bind
  rcases attempt_cases hattempt with ⟨head, rfl, hhead⟩ | ⟨rfl, -, -⟩
  case inr => cases hrun
  obtain ⟨params, m', rfl, hhead', hm⟩ : ∃ params m', head = (params, [], []) ∧
      Gives (r'.arrowHead ctx') c' (params.map (Tree.shift e.offset), [], []) m' ∧ e.At m m' :=
    hr.arrowHead h hhead
  -- Without a return type, a conditional has no say.
  dsimp only at hrun
  rw [List.isEmpty_nil, Bool.not_true, Bool.and_false, if_neg Bool.false_ne_true] at hrun
  have hfinish : e.RepeatsOne
      (do let body ← r.arrowBody ctx; Parser.node (.arrow isAsync) start (params ++ [body] ++ [] ++ []))
      (do let body ← r'.arrowBody ctx'; Parser.node (.arrow isAsync) (start + e.offset)
            (params.map (Tree.shift e.offset) ++ [body] ++ [] ++ [])) m m' :=
    .bind (hr.arrowBody hctx hm) fun body d d' h => .node h (by simp)
  obtain ⟨tree, _, hrun, hpure⟩ := hrun.of_bind
  cases hpure
  obtain ⟨d', hrun', hd⟩ := hfinish t d hrun
  refine ⟨d', Gives.get_bind.mpr ((attempt_some hhead').bind ?_), hd⟩
  dsimp only
  rw [List.isEmpty_nil, Bool.not_true, Bool.and_false, if_neg Bool.false_ne_true]
  exact hrun'.bind (.pure _)

theorem plainArrow?_some (hctx : ctx'.allowIn = ctx.allowIn) (h : e.At c c') {start : Nat}
    {isAsync : Bool} {t : Tree} (hrun : Gives (r.plainArrow? ctx start isAsync) c (some t) d) :
    c.token.kind ≠ .done ∧
      ∃ d', Gives (r'.plainArrow? ctx' (start + e.offset) isAsync) c' (some (t.shift e.offset)) d' ∧
        e.At d d' := by
  have hkind : c.token.kind ≠ .done := by
    intro hdone
    cases ((plainArrow?_punct (.inl hdone) start isAsync).unique hrun).1
  refine ⟨hkind, ?_⟩
  obtain ⟨told, hbefore⟩ := reaches_nameBeforeArrow c
  have hbefore' := nameBeforeArrow_same h hkind hbefore
  replace hrun := hbefore.of_gives_bind hrun
  cases told with
  | true =>
      obtain ⟨tree, _, hbare, hpure⟩ := hrun.of_bind
      cases hpure
      obtain ⟨d', hbare', hd⟩ := hr.bareArrow hctx h start isAsync t d hbare
      exact ⟨d', hbefore'.bind (hbare'.bind (.pure _)), hd⟩
  | false =>
      replace hrun := Gives.atPunct_bind.mp hrun
      replace hrun := Gives.atPunct_bind.mp hrun
      rw [hr.plain, Bool.false_and, Bool.or_false] at hrun
      split at hrun
      case isFalse => cases hrun
      rename_i hopen
      obtain ⟨d', hfunction', hd⟩ := hr.arrowFunction?_some hctx h hrun
      refine ⟨d', hbefore'.bind (Gives.atPunct_bind.mpr (Gives.atPunct_bind.mpr ?_)), hd⟩
      rw [hr.plain', Bool.false_and, Bool.or_false, h.beq_punct "(" (.inl rfl), if_pos hopen]
      exact hfunction'

theorem arrow?_some (hctx : ctx'.allowIn = ctx.allowIn) (h : e.At c c') {t : Tree}
    (hrun : Gives (r.arrow? ctx) c (some t) d) :
    ∃ d', Gives (r'.arrow? ctx') c' (some (t.shift e.offset)) d' ∧ e.At d d' := by
  obtain ⟨tree?, m, hplainArrow, hrun⟩ := (Gives.get_bind.mp hrun).of_bind
  cases tree? with
  | some tree =>
      cases hrun
      obtain ⟨hkind, d', hplainArrow', hd⟩ := hr.plainArrow?_some hctx h hplainArrow
      rw [← show c'.token.span.start = c.token.span.start + e.offset from
        congrArg Span.start (h.span hkind)] at hplainArrow'
      exact ⟨d', Gives.get_bind.mpr (hplainArrow'.bind (.pure _)), hd⟩
  | none =>
      obtain ⟨rfl, hbefore, -⟩ := plainArrow?_cases hr.plain hplainArrow
      replace hrun := Gives.following_bind.mp (Gives.atWord_bind.mp hrun)
      split at hrun
      case isFalse => cases hrun
      rename_i hasync
      obtain ⟨hword, hline⟩ := (Bool.and_eq_true _ _).mp hasync
      rw [beq_iff_eq] at hword
      have hkind : m.token.kind ≠ .done := TokenKind.ne_done_of_word hword
      have hword' : c'.token.kind = .word "async" false := by rw [h.kind hkind, hword]; rfl
      obtain ⟨tree?, k, hplainArrow', hrun⟩ := (Gives.advance_bind.mp hrun).of_bind
      cases tree? with
      | none => cases hrun
      | some tree =>
          cases hrun
          obtain ⟨hnext, d', hnext', hd⟩ := hr.plainArrow?_some hctx (h.next hkind) hplainArrow'
          rw [← show c'.token.span.start = m.token.span.start + e.offset from
            congrArg Span.start (h.span hkind)] at hnext'
          refine ⟨d', Gives.get_bind.mpr ?_, hd⟩
          have hhead' : r'.NoArrowHead ctx' c' := fun hopen => by rw [hword'] at hopen; cases hopen
          refine (plainArrow?_none hr.plain' (nameBeforeArrow_same h hkind hbefore) hhead' _ _).bind ?_
          refine Gives.atWord_bind.mpr (Gives.following_bind.mpr ?_)
          rw [hword', (h.next hkind).afterNewline hnext, beq_self_eq_true, Bool.true_and, if_pos hline]
          exact Gives.advance_bind.mpr (hnext'.bind (.pure _))

end Rules.RepeatedBy

end Recompose.Script
