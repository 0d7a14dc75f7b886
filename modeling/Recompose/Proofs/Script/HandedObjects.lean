import Recompose.Proofs.Script.LiteralTrees

/-!
# Exported literals

A module may hand its data over in parentheses, with a type, or to a function that gives
it back (`Cursor.Hands`). Such an expression is read as a tree with the literal inside of
it (`Tree.HandsOver`), and so is a module that exports it (`read_of_hands`).

A cast belongs to the list of operands that its expression begins, so what is known of an
expression in front of a cast is how its list goes on (`Rules.IsHanded`).
-/

namespace Recompose.Script

open Recompose.Script.Parser (Step)

/-! ## Handing over -/

/-- From one cursor to another, the script is read as a type where there is room for as
many constructs and rounds as there are characters. -/
structure Cursor.ReadsType (dialect : Dialect) (c c' : Cursor) : Prop where
  passes : c.Passes 0 c'
  reads : ∀ limit depth, c.after.length < limit → c.after.length < depth →
    ∃ t, Gives ((rules dialect limit depth).anyType {}) c t c'

/-- From one cursor to another, a script hands over a literal: itself, or in parentheses,
with a type, or as the argument of a call. -/
inductive Cursor.Hands (dialect : Dialect) (v : Json.Value) : Cursor → Cursor → Prop where
  | literal {c c' : Cursor} (h : c.Spells (.value v) c') : Cursor.Hands dialect v c c'
  | paren {c c' : Cursor} (hopen : c.token.kind = .punct "(") (h : Cursor.Hands dialect v c.next c')
      (hclose : c'.token.kind = .punct ")") : Cursor.Hands dialect v c c'.next
  | cast {c c' c'' : Cursor} {word : String} (htypes : dialect.typescript = true)
      (h : Cursor.Hands dialect v c c') (hkind : c'.token.kind = .word word false)
      (hword : word ∈ ["as", "satisfies"]) (hline : c'.token.afterNewline = false)
      (hconst : (c'.next.token.kind == .word "const" false) = false)
      (htype : c'.next.ReadsType dialect c'') : Cursor.Hands dialect v c c''
  | call {c c' : Cursor} {name : String} (hkind : c.token.kind = .word name false)
      (hname : IsOperand name) (hne : name ≠ "async") (hopen : c.next.token.kind = .punct "(")
      (h : Cursor.Hands dialect v c.next.next c') (hclose : c'.token.kind = .punct ")") :
      Cursor.Hands dialect v c c'.next

/-- Trees of such expressions. -/
inductive Tree.HandsOver (v : Json.Value) : Tree → Prop where
  | literal {t : Tree} (h : Tree.Spells (.value v) [t]) : t.HandsOver v
  | paren {t : Tree} (span : Span) (h : t.HandsOver v) : (node .paren span [t]).HandsOver v
  | cast {t : Tree} (span : Span) (types : List Tree) (h : t.HandsOver v) :
      (node .cast span (t :: types)).HandsOver v
  | call {t callee : Tree} {types : List Tree} (span : Span)
      (hcallee : ∀ name, callee.kind ≠ .keyword name) (htypes : ∀ u ∈ types, u.kind = .type)
      (h : t.HandsOver v) : (node .call span (callee :: t :: types)).HandsOver v

namespace Cursor.Hands

variable {dialect : Dialect} {v : Json.Value} {c c' : Cursor}

theorem passes (h : c.Hands dialect v c') : c.Passes 0 c' := by
  induction h with
  | literal h => exact h.passes
  | paren _ _ _ ih => exact ih.of_next.then_next
  | cast _ _ _ _ _ _ htype ih => exact ih.trans htype.passes.of_next
  | call _ _ _ _ _ _ ih => exact ih.of_next.of_next.then_next

/-- What an expression begins with that hands over a literal. -/
theorem first (h : c.Hands dialect v c') :
    (∃ c', c.Spells (.value v) c') ∨ c.token.kind = .punct "(" ∨
      ∃ name, c.token.kind = .word name false ∧ IsOperand name ∧ name ≠ "async" ∧
        c.next.token.kind = .punct "(" := by
  induction h with
  | literal h => exact .inl ⟨_, h⟩
  | paren hopen => exact .inr (.inl hopen)
  | cast _ _ _ _ _ _ _ ih => exact ih
  | call hkind hname hne hopen => exact .inr (.inr ⟨_, hkind, hname, hne, hopen⟩)

theorem isPlain (h : c.Hands dialect v c') : c.token.kind.isPlain = true := by
  obtain ⟨c', h⟩ | hopen | ⟨name, hkind, -⟩ := h.first
  · exact h.isPlain
  · rw [hopen]
    rfl
  · rw [hkind]
    rfl

theorem beq_punct (h : c.Hands dialect v c') {text : String} (htext : text ∉ ["(", "[", "\x7b"]) :
    (c.token.kind == .punct text) = false := by
  obtain ⟨c', h⟩ | hopen | ⟨name, hkind, -⟩ := h.first
  · exact h.beq_punct htext
  · rw [hopen, beq_eq_false_iff_ne]
    rintro ⟨⟩
    exact htext (by simp)
  · rw [hkind]
    rfl

/-- No word begins such an expression that is no operand, but for those of literals. -/
theorem beq_word (h : c.Hands dialect v c') {word : String}
    (hword : word ∈ reservedWords ∨ word ∈ strictWords ∨ word = "async")
    (hliteral : word ∉ ["null", "true", "false"]) : (c.token.kind == .word word false) = false := by
  obtain ⟨c', h⟩ | hopen | ⟨name, hkind, hname, hne, -⟩ := h.first
  · exact h.beq_word hliteral
  · rw [hopen]
    rfl
  · refine Rules.beq_word_of_ne hkind ?_
    rintro rfl
    rcases hword with h | h | h
    · exact hname.notReserved h
    · exact hname.notStrict h
    · exact hne h

end Cursor.Hands

namespace Rules

open Gives

/-! ## Types -/

/-- Words that stand in front of a type. -/
def typePrefixes : List String := ["abstract", "keyof", "unique", "readonly", "infer"]

/-- A cursor on a name that is a type as a whole. -/
structure AtTypeName (name : String) (c : Cursor) : Prop where
  kind : c.token.kind = .word name false
  notReserved : name ∉ reservedWords
  noPrefix : name ∉ typePrefixes
  ends : c.next.token.kind.isAnyPunct [".", "<", "[", "&", "|"] = false
  noBound : (c.next.token.kind == .word "extends" false) = false

namespace AtTypeName

variable {r : Rules} {ctx : Context} {c : Cursor} {name : String}

theorem beq_punct (h : AtTypeName name c) (text : String) :
    (c.token.kind == .punct text) = false := by
  rw [h.kind]
  rfl

theorem isAnyWord (h : AtTypeName name c) {words : List String} (hwords : words ⊆ typePrefixes) :
    c.token.kind.isAnyWord words = false := by
  rw [h.kind, Bool.eq_false_iff]
  exact fun hany => h.noPrefix (hwords (List.contains_iff_mem.mp hany))

theorem typeReference (h : AtTypeName name c) (hlimit : 0 < r.limit) :
    Gives (r.typeReference ctx) c (.leaf .type c.token.span) c.next := by
  have hpunct := TokenKind.beq_punct_of_isAnyPunct h.ends
  have hdots : Gives (Parser.dottedNames r.limit) c.next () c.next :=
    .loop hlimit ((eat_of_ne (hpunct "." (by simp))).bind (.pure _))
  refine position_bind.mpr ((propertyName_word h.kind).bind (hdots.bind (atPunct_bind.mpr ?_)))
  refine afterNewline_bind.mpr ?_
  rw [hpunct "<" (by simp), Bool.false_and]
  exact .pure _

theorem primaryType (h : AtTypeName name c) (hlimit : 0 < r.limit) :
    Gives (r.primaryType ctx) c (.leaf .type c.token.span) c.next := by
  have hname := h.notReserved
  have hne := ne_of_mem_of_not_mem hname
  refine position_bind.mpr (kind_bind.mpr ?_)
  rw [h.kind]
  split
  case h_11 heq =>
    obtain ⟨rfl, -⟩ := TokenKind.word.inj heq
    have hplain : ["void", "null", "this", "true", "false"].contains name = false := by
      simp [hne "void" (by decide), hne "null" (by decide), hne "this" (by decide),
        hne "true" (by decide), hne "false" (by decide)]
    have hreserved : reservedWords.contains name = false := by simp [hname]
    rw [hplain, if_neg Bool.false_ne_true, hreserved, if_neg Bool.false_ne_true]
    exact h.typeReference hlimit
  case h_13 hnot _ => exact absurd rfl (hnot name)
  all_goals
    rename_i heq
    first
      | (obtain ⟨rfl, -⟩ := TokenKind.word.inj heq
         exact absurd (by decide) hname)
      | cases heq

theorem arrayType (h : AtTypeName name c) (hlimit : 0 < r.limit) :
    Gives (r.arrayType ctx) c (.leaf .type c.token.span) c.next := by
  have hindex := TokenKind.beq_punct_of_isAnyPunct h.ends "[" (by simp)
  refine position_bind.mpr ((h.primaryType hlimit).bind (.loop hlimit (atPunct_bind.mpr ?_)))
  refine afterNewline_bind.mpr ?_
  rw [hindex, Bool.false_and]
  exact .pure _

theorem typeOperand (h : AtTypeName name c) (hlimit : 0 < r.limit) :
    Gives (r.typeOperand ctx) c (.node .type c.token.span [.leaf .type c.token.span]) c.next := by
  refine position_bind.mpr (.loop hlimit (following_bind.mpr ((atAnyWord _).bind ?_)))
  rw [h.isAnyWord (by simp [typePrefixes]), Bool.false_and, if_neg Bool.false_ne_true]
  have hinfer : (c.token.kind == .word "infer" false) = false :=
    beq_word_of_ne h.kind (ne_of_mem_of_not_mem h.noPrefix _ (by decide))
  refine atWord_bind.mpr ?_
  rw [hinfer, Bool.false_and, if_neg Bool.false_ne_true]
  exact (h.arrayType hlimit).bind (.bind rfl (.pure _))

theorem unionType (h : AtTypeName name c) (hlimit : 0 < r.limit) :
    Gives (r.unionType ctx) c
      (.node .type c.token.span [.node .type c.token.span [.leaf .type c.token.span]]) c.next := by
  refine position_bind.mpr ((atAnyPunct _).bind ?_)
  rw [h.kind]
  refine Gives.bind (a := ()) (.pure _) ((h.typeOperand hlimit).bind ?_)
  have hall : Gives (Parser.loop r.limit (fun items => do
      if ← Parser.atAnyPunct ["|", "&"] then
        Parser.advance
        return .more ((← r.typeOperand ctx) :: items)
      else return .done items.reverse) [.node .type c.token.span [.leaf .type c.token.span]]) c.next
      [.node .type c.token.span [.leaf .type c.token.span]] c.next := by
    refine .loop hlimit ((atAnyPunct _).bind ?_)
    rw [TokenKind.isAnyPunct_of_subset h.ends (by simp)]
    exact .pure _
  exact hall.bind (.pure _)

theorem functionType? (h : AtTypeName name c) : Gives (r.functionType? ctx) c none c := by
  have hne := ne_of_mem_of_not_mem h.notReserved
  have habstract := ne_of_mem_of_not_mem h.noPrefix
  have hconstructor : Gives constructorWords c false c := by
    refine atWord_bind.mpr ?_
    rw [beq_word_of_ne h.kind (hne "new" (by decide)), if_neg Bool.false_ne_true]
    refine atWord_bind.mpr (following_bind.mpr ?_)
    rw [beq_word_of_ne h.kind (habstract "abstract" (by decide)), Bool.false_and]
    exact .pure _
  refine position_bind.mpr (hconstructor.bind (atPunct_bind.mpr ?_))
  rw [h.beq_punct, Bool.or_false, if_neg Bool.false_ne_true]
  refine atPunct_bind.mpr ?_
  rw [h.beq_punct]
  exact .pure _

theorem anyType (h : AtTypeName name c) (hlimit : 0 < r.limit) :
    Gives (r.anyType ctx) c
      (.node .type c.token.span [.node .type c.token.span [.leaf .type c.token.span]]) c.next := by
  refine position_bind.mpr (h.functionType?.bind ((h.unionType hlimit).bind (atWord_bind.mpr ?_)))
  refine afterNewline_bind.mpr ?_
  rw [h.noBound, Bool.and_false, Bool.false_and]
  exact .pure _

/-- A name in front of what no type goes on with is a type. -/
theorem readsType (h : AtTypeName name c) (dialect : Dialect) : c.ReadsType dialect c.next where
  passes := .next c
  reads limit depth hlimit _ := ⟨_, h.anyType (by rw [limit_rules]; omega)⟩

end AtTypeName

/-! ## Expressions -/

section Expressions

variable {dialect : Dialect} {v : Json.Value} {limit : Nat} {r : Rules} {ctx : Context}
  {c c' c'' : Cursor}

/-- Read as a pattern, an expression that hands over a literal is one up to its end at
most. -/
theorem lands_of_hands (h : c.Hands dialect v c') (d : Nat) (ctx : Context) :
    Leads Anyhow (· = c) ((rules dialect limit d).pattern ctx) fun _ m => m = c' ∨ Blocks m := by
  induction h with
  | literal h => exact (lands_of_spells h d ctx).post fun _ _ hm => .inl hm
  | paren hopen =>
      refine pattern_of_bindingPattern (fun d => .position (.kind ?_)) d
      rw [hopen]
      refine .kind ?_
      rw [hopen]
      exact .unexpected
  | cast _ _ hkind hword _ _ _ ih =>
      refine ih.post fun _ m hm => .inr ?_
      rcases hm with rfl | hm
      · simp only [List.mem_cons, List.not_mem_nil, or_false] at hword
        rcases hword with rfl | rfl
        · exact .inr (.inl hkind)
        · exact .inr (.inr hkind)
      · exact hm
  | call hkind _ _ hopen =>
      refine pattern_of_bindingPattern (fun d => .position (.kind ?_)) d
      rw [hkind]
      refine .kind ?_
      rw [hkind]
      refine .ite .unexpected_bind (.get (.afterAdvance (.pure ?_)))
      rintro _ rfl
      exact .inr (.inl hopen)

theorem inParens_of_hands (h : c.Hands dialect v c') (hclose : c'.token.kind = .punct ")") (d : Nat) :
    InParens (rules dialect limit d) c c' where
  notClosed := h.beq_punct (by decide)
  notRest := h.beq_punct (by decide)
  notThis := h.beq_word (.inl (by decide)) (by decide)
  pattern := lands_of_hands h d
  closed := hclose

/-- A piece of a script is read as the first operand of an expression, and as the casts
behind it, of which each takes a round. -/
structure IsHanded (r : Rules) (ctx : Context) (v : Json.Value) (c c' : Cursor) : Prop where
  arrow : (c'.token.kind == .punct "=>") = false → (c'.token.kind == .punct ":") = false →
    Gives (r.arrow? ctx) c none c
  operand : c'.EndsOperand → ∃ n first m t, c.Passes n c' ∧ t.HandsOver v ∧
    Gives (r.prefixed ctx) c first m ∧
    ∀ k b d, Gives (Parser.loop k (r.operandStep ctx c.token.span.start) [t]) c' b d →
      Gives (Parser.loop (k + n) (r.operandStep ctx c.token.span.start) [first]) m b d

theorem IsHanded.assignmentExpression (h : IsHanded r ctx v c c') (hlimit : c.after.length < r.limit)
    (hyield : (c.token.kind == .word "yield" false) = false) (hends : c'.EndsValue)
    (harrow : (c'.token.kind == .punct "=>") = false)
    (hcolon : (c'.token.kind == .punct ":") = false) :
    ∃ t, t.HandsOver v ∧ Gives (r.assignmentExpression ctx) c t c' := by
  obtain ⟨n, first, m, t, hpasses, ht, hfirst, hloop⟩ := h.operand hends.endsOperand
  have hle := hpasses.le
  have hrounds : Gives (Parser.loop (r.limit - n + n) (r.operandStep ctx c.token.span.start) [first])
      m t c' := hloop _ _ _ (.loop (by omega) (operandStep_of_ends hends (.pure _)))
  rw [Nat.sub_add_cancel (by omega)] at hrounds
  have hoperation : Gives (r.operation ctx) c t c' := position_bind.mpr (hfirst.bind hrounds)
  refine ⟨t, ht, assignmentExpression_of_conditional hends ?_ (h.arrow harrow hcolon)
    (conditional_of_operation hends hoperation)⟩
  rw [hyield, Bool.and_false]

/-- A cast takes one more round. -/
theorem operandStep_cast {t type : Tree} {word : String} (htypes : r.dialect.typescript = true)
    (hkind : c.token.kind = .word word false) (hword : word ∈ ["as", "satisfies"])
    (hline : c.token.afterNewline = false)
    (hconst : (c.next.token.kind == .word "const" false) = false)
    (htype : Gives (r.typeExpr {}) c.next type c') (start : Nat) :
    Gives (r.operandStep ctx start [t]) c (.more [.node .cast ⟨start, c'.prevStop⟩ [t, type]])
      c' := by
  have hno : Gives operatorHere c none c := by
    refine get_bind.mpr ?_
    rw [hkind]
    exact .pure _
  have hne : ∀ other ∈ ["instanceof", "in"], (c.token.kind == .word other false) = false := by
    intro other hother
    refine beq_word_of_ne hkind ?_
    rintro rfl
    simp only [List.mem_cons, List.not_mem_nil, or_false] at hword hother
    rcases hother with rfl | rfl <;> rcases hword with h | h <;> exact absurd h (by decide)
  have hany : c.token.kind.isAnyWord ["as", "satisfies"] = true := by
    rw [hkind]
    exact List.contains_iff_mem.mpr hword
  refine hno.bind (atWord_bind.mpr (atWord_bind.mpr ?_))
  rw [hne _ (by simp), hne _ (by simp), Bool.and_false, Bool.or_false, if_neg Bool.false_ne_true]
  refine (atAnyWord _).bind (afterNewline_bind.mpr ?_)
  rw [hany, hline, htypes, Bool.not_false, Bool.and_true, Bool.and_true, if_pos rfl]
  have hinner : Gives (joined start [t]) c t c := .pure _
  refine hinner.bind (advance_bind.mpr ((eatWord_of_ne hconst).bind (htype.bind ?_)))
  exact .bind rfl (.pure _)

theorem isHanded_of_hands (h : c.Hands dialect v c') (hlimit : c.after.length < limit) (d : Nat)
    (ctx : Context) (hd : c.after.length < d) : IsHanded (rules dialect limit d) ctx v c c' := by
  induction h generalizing d ctx with
  | @literal c c' h =>
      obtain ⟨t, hhead, ht⟩ := readsPart_of_spells h hlimit d ctx hd
      refine ⟨hhead.arrow, fun hends => ?_⟩
      have hchain := chain_of_chainHead (by rw [limit_rules]; omega) hends hhead.head
      exact ⟨0, t, c', t, h.passes, .literal ht, prefixed_of_chain hends hhead.head hchain,
        fun _ _ _ hloop => hloop⟩
  | @paren c c' hopen h hclose ih =>
      have hnext := Cursor.length_after_next h.isPlain
      obtain ⟨d, rfl⟩ := Nat.exists_eq_add_of_le' (show 1 ≤ d by omega)
      obtain ⟨t, ht, hvalue⟩ := (ih (by omega) d ctx.bracketed (by omega)).assignmentExpression
        (by rw [limit_rules]; omega) (h.beq_word (.inr (.inl (by decide))) (by decide))
        (Cursor.ends_of_kind (.inr hclose)).endsValue (by rw [hclose]; rfl) (by rw [hclose]; rfl)
      refine ⟨fun harrow hcolon => ?_, fun hends => ?_⟩
      · exact arrow?_of_plainArrow? (by rw [hopen]; rfl) fun start =>
          plainArrow?_of_parens hopen (inParens_of_hands h hclose _) harrow hcolon start false
      · have hhead : Gives ((rules dialect limit (d + 1)).chainHead ctx) c _ c'.next :=
          chainHead_paren hopen hvalue hclose
        have hchain := chain_of_chainHead (by rw [limit_rules]; omega) hends hhead
        exact ⟨0, _, _, _, h.passes.of_next.then_next, .paren _ ht,
          prefixed_of_chain hends hhead hchain, fun _ _ _ hloop => hloop⟩
  | @cast c c' c'' word htypes h hkind hword hline hconst htype ih =>
      have hinner := ih hlimit d ctx hd
      refine ⟨fun _ _ => hinner.arrow (by rw [hkind]; rfl) (by rw [hkind]; rfl), fun _ => ?_⟩
      have hends : c'.EndsOperand := ⟨by rw [hkind]; rfl, .inr (by rw [hkind]; rfl)⟩
      obtain ⟨n, first, m, t, hpasses, ht, hfirst, hloop⟩ := hinner.operand hends
      have hlt := hpasses.lt (by rw [hkind]; rfl)
      have hnext := Cursor.length_after_next_le c'
      obtain ⟨d, rfl⟩ := Nat.exists_eq_add_of_le' (show 1 ≤ d by omega)
      obtain ⟨type, hread⟩ := htype.reads limit d (by omega) (by omega)
      refine ⟨n + 1, first, m, .node .cast ⟨c.token.span.start, c''.prevStop⟩ [t, type], ?_,
        .cast _ [type] ht, hfirst, fun k b e hrest => ?_⟩
      · obtain ⟨pos, rest, rfl, hle⟩ := htype.passes
        exact ⟨pos, rest, rfl, by omega⟩
      · have hstep : Gives ((rules dialect limit (d + 1)).operandStep ctx c.token.span.start [t]) c'
            _ c'' := operandStep_cast htypes hkind hword hline hconst hread _
        rw [Nat.add_comm n 1, ← Nat.add_assoc]
        exact hloop (k + 1) b e (loop_more hstep hrest)
  | @call c c' name hkind hname hne hopen h hclose ih =>
      have hnext := Cursor.length_after_next h.isPlain
      have hle := Cursor.length_after_next_le c
      obtain ⟨d, rfl⟩ := Nat.exists_eq_add_of_le' (show 1 ≤ d by omega)
      obtain ⟨t, ht, hvalue⟩ := (ih (by omega) d ctx.bracketed (by omega)).assignmentExpression
        (by rw [limit_rules]; omega) (h.beq_word (.inr (.inl (by decide))) (by decide))
        (Cursor.ends_of_kind (.inr hclose)).endsValue (by rw [hclose]; rfl) (by rw [hclose]; rfl)
      have halone : StandsAlone name c.next.token.kind := .inr (.inr ⟨hne, .inr hopen⟩)
      refine ⟨fun _ _ => arrow?_name hkind halone, fun hends => ?_⟩
      have harguments : Gives ((rules dialect limit (d + 1)).arguments ctx) c.next [t] c'.next :=
        arguments_singleton (by rw [limit_rules]; omega) hopen (h.beq_punct (by decide))
          (h.beq_punct (by decide)) hvalue hclose
      have hhead : Gives ((rules dialect limit (d + 1)).chainHead ctx) c _ c.next :=
        chainHead_name hkind hname halone
      have hchain := chain_call (by rw [limit_rules]; omega) hkind hname hne hopen harguments hends
      have hcallee : ∀ other, (Tree.leaf (.ident name) c.token.span).kind ≠ .keyword other := by
        rintro other ⟨⟩
      exact ⟨0, _, _, _, h.passes.of_next.of_next.then_next,
        .call _ hcallee (List.forall_mem_nil _) ht, prefixed_of_chain hends hhead hchain,
        fun _ _ _ hloop => hloop⟩

end Expressions

/-! ## Default exports -/

section Exports

variable {dialect : Dialect} {v : Json.Value} {limit : Nat} {r : Rules} {c c' c'' : Cursor}

/-- No declaration begins at an expression. -/
theorem defaultDeclaration?_of_hands (h : c.Hands dialect v c') :
    Gives r.defaultDeclaration? c none c := by
  have hclass : (c.token.kind == .word "abstract" false &&
      c.next.token.kind == .word "class" false) = false := by
    obtain ⟨c', h⟩ | hopen | ⟨name, -, -, -, hopen⟩ := h.first
    · rw [h.beq_word (by decide), Bool.false_and]
    · rw [hopen]
      rfl
    · rw [hopen, show (TokenKind.punct "(" == .word "class" false) = false from rfl, Bool.and_false]
  have hasync : Gives startsAsyncFunction c false c := by
    refine following_bind.mpr (atWord_bind.mpr ?_)
    rw [h.beq_word (.inr (.inr rfl)) (by decide), Bool.false_and, Bool.false_and]
    exact .pure _
  obtain ⟨named, hnamed⟩ := exists_followedByName c
  refine position_bind.mpr (atWord_bind.mpr ?_)
  rw [h.beq_word (.inl (by decide)) (by decide), if_neg Bool.false_ne_true]
  refine atWord_bind.mpr ?_
  rw [h.beq_word (.inl (by decide)) (by decide), if_neg Bool.false_ne_true]
  refine hasync.bind (atWord_bind.mpr (following_bind.mpr ?_))
  rw [Bool.and_assoc, hclass, Bool.and_false, if_neg Bool.false_ne_true]
  refine atWord_bind.mpr (hnamed.bind ?_)
  rw [h.beq_word (.inr (.inl (by decide))) (by decide), Bool.and_false, Bool.false_and]
  exact .pure _

/-- The end of a script, of which a semicolon may be left. -/
def EndsScript (c c' : Cursor) : Prop :=
  c'.token.kind = .done ∧ (c' = c ∨ c.token.kind = .punct ";" ∧ c' = c.next)

namespace EndsScript

theorem endStatement (h : EndsScript c c') : Gives Parser.endStatement c () c' := by
  obtain ⟨hdone, rfl | ⟨hsemicolon, rfl⟩⟩ := h
  · exact endStatement_of_done hdone
  · exact (eat hsemicolon).bind (.pure _)

theorem endsValue (h : EndsScript c c') : c.EndsValue := by
  obtain ⟨hdone, rfl | ⟨hsemicolon, rfl⟩⟩ := h
  · exact (Cursor.ends_of_kind (.inl hdone)).endsValue
  · exact ⟨fun _ => .inr hsemicolon, .inr (by rw [hsemicolon]; rfl)⟩

theorem beq_punct (h : EndsScript c c') {text : String} (htext : text ≠ ";") :
    (c.token.kind == .punct text) = false := by
  rw [beq_eq_false_iff_ne]
  intro heq
  obtain ⟨hdone, rfl | ⟨hsemicolon, rfl⟩⟩ := h
  · rw [hdone] at heq
    cases heq
  · rw [hsemicolon] at heq
    exact htext (TokenKind.punct.inj heq).symm

end EndsScript

theorem moduleItem_of_hands (hexport : c.token.kind = .word "export" false)
    (hdefault : c.next.token.kind = .word "default" false) (h : c.next.next.Hands dialect v c')
    (hend : EndsScript c' c'') (hlimit : c.after.length < limit) {d : Nat}
    (hd : c.after.length < d) :
    ∃ t, t.HandsOver v ∧ Gives (rules dialect limit (d + 1)).moduleItem c
      (.node .exportDefault ⟨c.token.span.start, c''.prevStop⟩ [t]) c'' := by
  have hle := Nat.le_trans (Cursor.length_after_next_le c.next) (Cursor.length_after_next_le c)
  have hhanded := isHanded_of_hands h (show _ < limit by omega) d {} (by omega)
  obtain ⟨t, ht, hvalue⟩ := hhanded.assignmentExpression (by rw [limit_rules]; omega)
    (h.beq_word (.inr (.inl (by decide))) (by decide)) hend.endsValue
    (hend.beq_punct (by decide)) (hend.beq_punct (by decide))
  refine ⟨t, ht, atWord_bind.mpr ?_⟩
  rw [hexport, beq_self_eq_true, if_pos rfl]
  refine position_bind.mpr ((expectWord hexport).bind ((eatWord hdefault).bind ?_))
  rw [if_pos rfl]
  refine (defaultDeclaration?_of_hands h).bind ?_
  exact Gives.bind hvalue (hend.endStatement.bind (.bind rfl (.pure _)))

end Exports

end Rules

/-- A text that exports an expression is read as a script of that. -/
theorem read_of_hands {dialect : Dialect} {source : String} {v : Json.Value} {c₀ c c' : Cursor}
    (hstart : c₀ = Cursor.start 0 source.toList) (hexport : c₀.token.kind = .word "export" false)
    (hdefault : c₀.next.token.kind = .word "default" false) (h : c₀.next.next.Hands dialect v c)
    (hend : Rules.EndsScript c c') :
    ∃ t, t.HandsOver v ∧ Script.read dialect source
      = .ok ⟨source, dialect, .node .program ⟨0, byteSize source.toList⟩
          [.node .exportDefault ⟨c₀.token.span.start, c'.prevStop⟩ [t]]⟩ := by
  have hle : c₀.after.length ≤ source.toList.length := hstart ▸ Cursor.length_after_start_le ..
  obtain ⟨t, ht, hitem⟩ := Rules.moduleItem_of_hands hexport hdefault
    h hend (show _ < source.toList.length + 8 by omega) (d := source.toList.length + 7) (by omega)
  exact ⟨t, ht, read_of_moduleItem hstart hexport hend.1 hitem⟩

end Recompose.Script
