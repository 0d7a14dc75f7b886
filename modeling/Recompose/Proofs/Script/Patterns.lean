import Recompose.Proofs.Script.Types
import Recompose.Script.Grammar.Patterns

/-!
# Patterns, parameters and bodies are nested

Beside one theorem per rule, what is done to trees after they were read:
`asPattern` keeps every span, and `Tree.extend` makes room for the type that it
adds.
-/

namespace Recompose.Script

open Recompose.Script.Parser

variable {text : List Char}

/-! ## Literals as patterns -/

theorem asPatterns_eq_map (ts : List Tree) : asPatterns ts = ts.map asPattern := by
  induction ts with
  | nil => rfl
  | cons t ts ih => rw [asPatterns, ih, List.map_cons]

@[simp] theorem span_asPattern (t : Tree) : (asPattern t).span = t.span := by
  unfold asPattern
  split <;> rfl

theorem Tree.Nested.asPattern {t : Tree} (h : t.Nested text) : (asPattern t).Nested text := by
  induction h with
  | @node k s ps slice parts inside apart braced ordered fits ih =>
      have hrow : Row text s.start s.stop ps := ⟨parts, inside, apart⟩
      have hmap : Row text s.start s.stop (asPatterns ps) := by
        rw [asPatterns_eq_map]
        refine hrow.respan ?_ (by simp [Function.comp_def])
        intro t ht
        obtain ⟨t₀, ht₀, rfl⟩ := List.mem_map.mp ht
        exact ih t₀ ht₀
      have hnode : (Tree.node k s ps).Nested text :=
        .node slice parts inside apart braced ordered fits
      unfold Script.asPattern
      split <;> rename_i heq <;> cases heq
      · exact hmap.node slice rfl
      · exact hmap.node slice rfl
      · exact hmap.node slice rfl
      · rename_i key value
        have hvalue : (Script.asPattern value).Nested text := ih value (by simp)
        have hkey : key.Nested text := parts key (by simp)
        refine (hrow.respan ?_ (by simp)).node slice rfl
        simp [hkey, hvalue]
      · exact hrow.node slice rfl
      · exact hrow.node slice rfl
      · rename_i target rest
        have htarget : (Script.asPattern target).Nested text := ih target (by simp)
        have hrest : ∀ t ∈ rest, t.Nested text := fun t ht => parts t (List.mem_cons_of_mem _ ht)
        refine (hrow.respan ?_ (by simp)).node slice rfl
        simpa [htarget] using hrest
      · exact hnode
      · exact hnode
      · exact hnode
      · exact hnode
      · exact hnode.wrap rfl

/-- The left side of an assignment is nested where it was as an expression. -/
theorem Tree.Nested.assignmentTarget {t : Tree} (h : t.Nested text) :
    (assignmentTarget t).Nested text := by
  unfold Script.assignmentTarget
  split
  · exact h.asPattern
  · exact h.asPattern
  · exact h

@[simp] theorem span_assignmentTarget (t : Tree) : (assignmentTarget t).span = t.span := by
  unfold assignmentTarget
  split <;> simp

/-! ## Added parts -/

theorem Tree.extend_nil (t : Tree) : t.extend [] = t := by
  cases t
  simp [Tree.extend, Tree.kind, Tree.span, Tree.parts]

/-- Where a tree ends that parts were added to: at its old end or that of an
added part, and behind all of them. -/
theorem foldl_max_stop (ts : List Tree) (n : Nat) :
    (ts.foldl (fun stop part => max stop part.span.stop) n = n ∨
        ∃ t ∈ ts, ts.foldl (fun stop part => max stop part.span.stop) n = t.span.stop) ∧
      n ≤ ts.foldl (fun stop part => max stop part.span.stop) n ∧
      ∀ t ∈ ts, t.span.stop ≤ ts.foldl (fun stop part => max stop part.span.stop) n := by
  induction ts generalizing n with
  | nil => exact ⟨.inl rfl, Nat.le_refl n, nofun⟩
  | cons t ts ih =>
      obtain ⟨hone, hle, hall⟩ := ih (max n t.span.stop)
      rw [List.foldl_cons]
      refine ⟨?_, by omega, ?_⟩
      · rcases hone with hone | ⟨u, hu, hstop⟩
        · rw [hone]
          rcases Nat.le_total n t.span.stop with hn | hn
          · exact .inr ⟨t, List.mem_cons_self .., Nat.max_eq_right hn⟩
          · exact .inl (Nat.max_eq_left hn)
        · exact .inr ⟨u, List.mem_cons_of_mem _ hu, hstop⟩
      · intro u hu
        rcases List.mem_cons.mp hu with rfl | hu
        · omega
        · exact hall u hu

/-- A tree with parts that were read behind it. -/
theorem Tree.Nested.extend {t : Tree} {lo hi : Nat} {more : List Tree} (h : t.Nested text)
    (hbinding : t.kind.isBinding = true) (hmore : Row text lo hi more) (hlo : t.span.stop ≤ lo) :
    (t.extend more).Nested text := by
  obtain ⟨hone, hle, hall⟩ := foldl_max_stop more t.span.stop
  have hstop : IsBoundary text (more.foldl (fun stop part => max stop part.span.stop) t.span.stop) := by
    rcases hone with hone | ⟨u, hu, hstop⟩
    · rw [hone]
      exact h.isSlice.stop
    · rw [hstop]
      exact (hmore.nested u hu).isSlice.stop
  cases h with
  | @node k s ps slice parts inside apart _ _ _ =>
      have hps : Row text s.start s.stop ps := ⟨parts, inside, apart⟩
      have hinside : Row text lo (more.foldl (fun stop part => max stop part.span.stop) s.stop) more :=
        ⟨hmore.nested, fun u hu => ⟨(hmore.inside u hu).1, hall u hu⟩, hmore.apart⟩
      have hrow := hps.append hinside hlo (Nat.le_trans slice.ordered hlo) hle
      exact hrow.node (.of_boundaries (Nat.le_trans slice.ordered hle) slice.start hstop)
        (Kind.closes_of_isBinding hbinding _)

theorem Passage.extend {b : Bool} {c₀ c₁ c : Cursor} {t : Tree} {more : List Tree}
    (h : Passage text b c₀ [t] c₁) (hbinding : t.kind.isBinding = true)
    (h' : Passage text false c₁ more c) : Passage text true c₀ [t.extend more] c := by
  have hin := h.row.inside t (List.mem_singleton_self t)
  have hnested := h.only.extend hbinding h'.row (Nat.le_trans hin.2 h.sound.prev_le)
  obtain ⟨hone, -, -⟩ := foldl_max_stop more t.span.stop
  have hspan : (t.extend more).span.stop
      = more.foldl (fun stop part => max stop part.span.stop) t.span.stop := rfl
  refine ((h.moved (List.mem_singleton_self t)).trans h').replace hnested hin.1 ?_
  rcases hone with hone | ⟨u, hu, hstop⟩
  · rw [hspan, hone]
    exact Nat.le_trans hin.2 h'.prev_le
  · rw [hspan, hstop]
    exact (h'.row.inside u hu).2

/-- A type behind a pattern becomes a part of it. -/
theorem Leads.extend {β : Type} {b : Bool} {c₀ : Cursor} {t : Tree} {p : Parser (List Tree)}
    {f : List Tree → Parser β} {E : Failure → Prop} {Q : β → Cursor → Prop}
    (hbinding : t.kind.isBinding = true) (hp : ReadsMany text p) [Covers text c₀ E]
    (hf : ∀ more, Leads E (Passage text true c₀ [t.extend more]) (f more) Q) :
    Leads E (Passage text b c₀ [t]) (p >>= f) Q := by
  refine .fix fun c hc => ?_
  have : Covers text c E := hc.covers
  refine .enter hc.sound (hp.bind fun more => ?_)
  exact (hf more).mono fun _ h => hc.extend hbinding h.weaken

/-- A missing element takes no room in front of its comma. -/
theorem Passage.hole {c : Cursor} (h : c.Sound text) :
    Passage text true c [.leaf .hole ⟨c.token.span.start, c.token.span.start⟩] c.next := by
  have hslice : Span.IsSlice ⟨c.token.span.start, c.token.span.start⟩ text :=
    Span.isSlice_point ⟨_, h.here⟩
  exact (Passage.advance h).replace (Row.nil.node hslice rfl) (Nat.le_refl _) h.start_le

namespace Rules.Sound

variable {r : Rules}

/-! ## Binding patterns -/

theorem propertyKey (hr : r.Sound text) (ctx : Context) : ReadsOne text (r.propertyKey ctx) := by
  intro c hc
  refine .get (.kind ?_)
  split
  · exact leads_leaf hc rfl
  · exact leads_leaf hc rfl
  · exact leads_leaf hc rfl
  · exact leads_leaf hc rfl
  · refine .enter hc (.pass skips_advance fun _ => (hr.assignment _).bind fun key => ?_)
    exact .pass (skips_expect _) fun _ => .node rfl .rfl
  · exact hc.unexpected

/-- A default turns a pattern into another tree; without one, it stays. -/
theorem withDefault (hr : r.Sound text) (ctx : Context) {c₀ : Cursor} {E : Failure → Prop}
    [Covers text c₀ E] {t : Tree} :
    Leads E (Passage text true c₀ [t]) (r.withDefault ctx c₀.token.span.start t) fun u c =>
      Passage text true c₀ [u] c ∧ (u = t ∨ u.kind = .defaultPattern) := by
  refine .skip (skips_eat _) fun _ => .ite ?_ (.pure fun _ h => ⟨h, .inl rfl⟩)
  refine (hr.assignment _).bind fun value => ?_
  exact fun c hc => ⟨hc.close rfl .rfl, .inr rfl⟩

theorem patternElement (hr : r.Sound text) (ctx : Context) :
    ReadsOne text (r.patternElement ctx) := by
  intro c hc
  refine .position (.enter hc ((hr.pattern ctx).bind fun t => ?_))
  exact (hr.withDefault ctx).post fun _ _ h => h.1

theorem patternRest (hr : r.Sound text) (ctx : Context) : ReadsOne text (r.patternRest ctx) := by
  intro c hc
  refine .position (.enter hc (.pass (skips_expect _) fun _ => ?_))
  exact (hr.pattern ctx).bind fun t => .node rfl .rfl

theorem patternProperty (hr : r.Sound text) (ctx : Context) :
    ReadsOne text (r.patternProperty ctx) := by
  intro c hc
  refine .peek fun _ => .ite (hr.patternRest ctx c hc) ?_
  refine .position (.enter hc ((hr.propertyKey ctx).bind fun key => ?_))
  refine .skip (skips_eat _) fun _ => .ite ?_ ?_
  · exact (hr.patternElement ctx).bind fun value => .node rfl .rfl
  split
  · refine .skip (skips_eat _) fun _ => .ite ?_ (.node rfl .rfl)
    exact (hr.assignment _).bind fun value => .node rfl .rfl
  · exact .unexpected

theorem patternItem (hr : r.Sound text) (ctx : Context) : ReadsOne text (r.patternItem ctx) :=
  .of_leads fun _ => .peek fun _ => .ite (hr.patternRest ctx).leads (hr.patternElement ctx).leads

theorem bindingPattern (hr : r.Sound text) (ctx : Context) :
    ReadsOne text (r.bindingPattern ctx) := by
  intro c hc
  refine .position (.peek fun k => .enter hc ?_)
  split
  · refine .pass skips_advance fun _ => ?_
    refine .bind (R := fun ts => Passage text true c ts) ?_ fun ts => .node rfl .rfl
    refine .loop (fun items : List Tree => Passage text true c items.reverse) (fun _ h => h) ?_
    intro items
    refine .skip (skips_eat _) fun _ => .ite (.pure fun _ h => h) ?_
    refine .peek fun _ => .ite ?_ ?_
    · refine .fix fun c₁ h₁ => .position (.afterAdvance (.pure ?_))
      rintro _ rfl
      exact (h₁.trans (.hole h₁.sound)).push
    refine (hr.patternItem ctx).bind fun item => ?_
    refine .skip (skips_eat _) fun _ => .ite (.pure fun _ h => h.push) ?_
    exact .pass (skips_expect _) fun _ => .pure fun _ h => h.push
  · refine .pass skips_advance fun _ => ?_
    exact (readsMany_commaSeparated (hr.patternProperty ctx) _ _).bind fun ts => .node rfl .rfl
  · exact readsOne_bindingName.leads

theorem binding_bindingPattern (r : Rules) (ctx : Context) :
    Yields (r.bindingPattern ctx) (·.kind.isBinding = true) := by
  refine .whatever fun start => .whatever fun k => ?_
  split
  · exact .whatever fun _ => .whatever fun ts => yields_node fun _ => rfl
  · exact .whatever fun _ => .whatever fun ts => yields_node fun _ => rfl
  · exact yields_bindingName

/-! ## Parameters -/

theorem skipFieldModifiers (r : Rules) : Skips text false r.skipFieldModifiers := by
  refine skips_loop (fun _ => .of_leads fun c => ?_) _ _
  refine .peek fun next => .peek fun _ => .ite ?_ (.pure fun _ h => h)
  exact .pass skips_advance fun _ => .pure fun _ h => h.weaken

theorem parameterWords (r : Rules) (ofArrow : Bool) : Skips text false (r.parameterWords ofArrow) :=
  .of_leads fun _ => .ite (.pure fun _ h => h) (skipFieldModifiers r).leads

/-- The span of the rest parameter is that of its pattern or all that was read. -/
theorem restParameter (hr : r.Sound text) (ctx : Context) (ofArrow : Bool) {c₀ : Cursor}
    {E : Failure → Prop} [Covers text c₀ E] :
    Leads E (Passage text true c₀ []) (r.restParameter ctx c₀.token.span.start ofArrow)
      fun t => Passage text true c₀ [t] := by
  refine (hr.pattern ctx).bind fun pattern => (hr.typeAscription ctx).bind fun ascription => ?_
  refine .fix fun c hc => ?_
  have : MayFail (· = c) E := hc.mayFail
  refine .spanFrom (.peek fun _ => .ite (.pure ?_) .unexpected_bind)
  rintro _ rfl
  cases hif : (ofArrow && ascription.isEmpty) with
  | false =>
      have hrest := hc.close (k := .restPattern) rfl .rfl
      exact hrest.wrapOne rfl
  | true =>
      have hempty : ascription = [] := List.isEmpty_iff.mp (Bool.and_eq_true_iff.mp hif).2
      subst hempty
      have hpattern : Passage text true c₀ [pattern] _ := hc
      exact (hpattern.wrapOne rfl).wrapOne rfl

theorem parameter (hr : r.Sound text) (ctx : Context) (ofArrow : Bool) :
    ReadsOne text (r.parameter ctx ofArrow) := by
  intro c hc
  refine .position (.enter hc (.eats (.ifTrue (hr.restParameter _ ofArrow)) (.ifFalse ?_)))
  refine .skip (parameterWords r ofArrow) fun _ => ?_
  refine (hr.parameterBinding _ _).given (hr.binding_parameterBinding _ _) fun pattern hbinding => ?_
  refine .skip (eatMark r _) fun optional => ?_
  refine .extend hbinding (hr.typeAscription _) fun ascription => ?_
  refine .bind (hr.withDefault _) fun full => ?_
  refine .fix fun c₁ ⟨hfull, hkind⟩ => .spanFrom (.pure ?_)
  rintro _ rfl
  split
  · rename_i hif
    simp only [Bool.and_eq_true, List.isEmpty_iff, bne_iff_ne] at hif
    obtain ⟨⟨-, rfl⟩, hne⟩ := hif
    rcases hkind with rfl | hdefault
    · rw [Tree.extend_nil] at hfull ⊢
      exact hfull.wrapOne rfl
    · exact absurd hdefault hne
  · exact hfull.close rfl .rfl

theorem parameters (hr : r.Sound text) (ctx : Context) (ofArrow : Bool) :
    Reads text true id (r.parameters ctx ofArrow) :=
  .of_leads fun _ => .pass (skips_expect _) fun _ =>
    (readsMany_commaSeparated (hr.parameter ctx ofArrow) _ _).leads

/-! ## Bodies -/

theorem statementsInBraces (hr : r.Sound text) (ctx : Context) {c : Cursor} (hc : c.Sound text) :
    Leads (Failure.Within text c) (· = c) (r.statementsInBraces ctx) fun ts c' =>
      c.token.kind = .punct "\x7b" ∧ Passage text false c.next ts c' ∧ Successive ts := by
  have : MayFail (· = c) (Failure.Within text c) := hc.mayFail
  refine .bind (.expect _) fun _ => ?_
  refine .fix fun c₁ ⟨hbrace, hc₁⟩ => ?_
  subst hc₁
  have : Covers text c.next (Failure.Within text c) := (Passage.advance hc).covers
  refine .enter hc.next ?_
  refine .loop (fun (items : List Tree) c' => Passage text false c.next items.reverse c' ∧
    Successive items.reverse) (fun _ h => ⟨h, .nil⟩) ?_
  intro items
  refine .fix fun c₁ ⟨hpass, hordered⟩ => ?_
  have : Covers text c₁ (Failure.Within text c) := hpass.covers
  refine .enter hpass.sound (.skip (skips_eat _) fun _ => .ite ?_ ?_)
  · exact .pure fun _ h => ⟨hbrace, hpass.trans h |>.sublist (by simp), hordered⟩
  · refine (hr.statement ctx).bind fun t => .pure fun _ h => ⟨(hpass.trans h).weaken.push, ?_⟩
    rw [List.reverse_cons]
    exact hpass.successive hordered h

/-- A block begins with its brace. -/
theorem blockStatement (hr : r.Sound text) (ctx : Context) :
    ReadsOne text (r.blockStatement ctx) := by
  intro c hc
  refine .position (.bind (hr.statementsInBraces ctx hc) fun ts => ?_)
  rintro c₁ ⟨hbrace, hpass, hordered⟩
  exact .closeBraced hc hbrace hpass (fun _ => hordered) rfl

/-- The parts of a function stand in another order than in the text. -/
theorem perm_functionParts (params generics result : List Tree) (body : Tree) :
    (params ++ [body] ++ generics ++ result).Perm (generics ++ params ++ result ++ [body]) := by
  have hfront : (params ++ [body] ++ generics ++ result).Perm
      (generics ++ (params ++ [body]) ++ result) :=
    List.perm_append_comm.append_right result
  have hback : (generics ++ params ++ ([body] ++ result)).Perm
      (generics ++ params ++ (result ++ [body])) :=
    List.perm_append_comm.append_left (generics ++ params)
  simp only [List.append_assoc] at hfront hback ⊢
  exact hfront.trans hback

theorem functionRest (hr : r.Sound text) (isGenerator bodyNeeded : Bool) :
    Reads text true id (r.functionRest isGenerator bodyNeeded) := by
  refine .of_leads fun c => (hr.optionalTypeParameters _).bind fun generics => ?_
  refine (hr.parameters _ false).bind fun params => (hr.returnType _).bind fun result => ?_
  refine .peek fun _ => .ite ?_ ?_
  · refine (hr.blockStatement _).bind fun body => .pure fun _ h => h.perm ?_
    exact perm_functionParts params generics result body
  · refine .skip skips_endStatement fun _ => .pure fun _ h => h.perm ?_
    exact List.perm_append_comm.append_right result

end Rules.Sound

end Recompose.Script
