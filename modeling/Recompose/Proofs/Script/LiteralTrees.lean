import Recompose.Proofs.Script.Arrows

/-!
# Reading literal data

Where the tokens of a script spell a value, the rules of the grammar read a tree that
spells it (`Rules.readsPart_of_spells`), with any literal in any number of parentheses.
-/

namespace Recompose.Script

open Recompose.Script.Parser (Step)

namespace Rules

open Gives

/-! ## Reading literals -/

section Values

variable {r : Rules} {ctx : Context} {c c' : Cursor} {t : Tree}

/-- A piece of a script is read as an operand. What stands behind it must not make an arrow
function of it. -/
structure IsHead (r : Rules) (ctx : Context) (c c' : Cursor) (t : Tree) : Prop where
  head : Gives (r.chainHead ctx) c t c'
  arrow : (c'.token.kind == .punct "=>") = false → (c'.token.kind == .punct ":") = false →
    Gives (r.arrow? ctx) c none c

theorem chainHead_of_primary (hwords : c.token.kind.isAnyWord ["new", "import", "super"] = false)
    (ht : Gives (r.primary ctx) c t c') : Gives (r.chainHead ctx) c t c' := by
  have hword := TokenKind.beq_word_of_isAnyWord hwords
  refine atWord_bind.mpr ?_
  rw [hword "new" (by simp), if_neg Bool.false_ne_true]
  refine atWord_bind.mpr ?_
  rw [hword "import" (by simp), if_neg Bool.false_ne_true]
  refine atWord_bind.mpr ?_
  rw [hword "super" (by simp), if_neg Bool.false_ne_true]
  exact ht

/-- Punctuation behind a value. -/
def EndsLiteral (kind : TokenKind) : Prop :=
  ∃ text, kind = .punct text ∧ text ∈ [",", "]", "\x7d", ")"]

theorem EndsLiteral.endsValue (h : EndsLiteral c.token.kind) : c.EndsValue := by
  obtain ⟨text, hkind, htext⟩ := h
  simp only [List.mem_cons, List.not_mem_nil, or_false] at htext
  refine ⟨?_, .inr ?_⟩
  · rw [hkind]
    rcases htext with rfl | rfl | rfl | rfl
    · exact fun _ => .inl rfl
    all_goals exact nofun
  · rw [hkind]
    rcases htext with rfl | rfl | rfl | rfl <;> rfl

theorem EndsLiteral.beq_punct {kind : TokenKind} (h : EndsLiteral kind) {text : String}
    (htext : text ∉ [",", "]", "\x7d", ")"]) : (kind == .punct text) = false := by
  obtain ⟨text', rfl, htext'⟩ := h
  rw [beq_eq_false_iff_ne]
  rintro ⟨⟩
  exact htext htext'

theorem IsHead.assignmentExpression (h : IsHead r ctx c c' t) (hlimit : 0 < r.limit)
    (hends : EndsLiteral c'.token.kind) : Gives (r.assignmentExpression ctx) c t c' :=
  assignmentExpression_of_chainHead hlimit hends.endsValue
    (h.arrow (hends.beq_punct (by decide)) (hends.beq_punct (by decide))) h.head

variable {dialect : Dialect} {limit : Nat}

/-- What the rules make of a literal, or of what an array or object goes on with, if there
is room for as many constructs and rounds as there are characters. -/
def ReadsPart (dialect : Dialect) (limit : Nat) (c c' : Cursor) : Json.Part → Prop
  | .value v => ∀ d ctx, c.after.length < d → ∃ t,
      IsHead (rules dialect limit d) ctx c c' t ∧ Tree.Spells (.value v) [t]
  | .items vs => ∀ d ctx n items, c.after.length < d → c.after.length < n → ∃ ts,
      Gives (Parser.loop n (elementStep ((rules dialect limit (d + 1)).item ctx)) items) c
        (items.reverse ++ ts) c' ∧ Tree.Spells (.items vs) ts
  | .fields fs => ∀ d ctx n items, c.after.length < d → c.after.length < n → ∃ ts,
      Gives (Parser.loop n (commaStep "\x7d" ((rules dialect limit (d + 1)).property ctx)) items) c
        (items.reverse ++ ts) c' ∧ Tree.Spells (.fields fs) ts

/-- A literal of one token. -/
theorem readsPart_token {v : Json.Value} {kind : Kind}
    (hprimary : ∀ r ctx, Gives (primary r ctx) c (.leaf kind c.token.span) c.next)
    (hwords : c.token.kind.isAnyWord ["new", "import", "super"] = false)
    (hbefore : Gives nameBeforeArrow c false c)
    (hpunct : ∀ text, (c.token.kind == .punct text) = false)
    (hasync : (c.token.kind == .word "async" false) = false)
    (hspells : ∀ span, Tree.Spells (.value v) [.leaf kind span]) :
    ReadsPart dialect limit c c.next (.value v) := by
  intro d ctx _
  refine ⟨_, ⟨chainHead_of_primary hwords (hprimary _ _), fun _ _ => ?_⟩, hspells _⟩
  exact arrow?_of_plainArrow? hasync fun start =>
    plainArrow?_of_first hbefore (hpunct _) (hpunct _) start false

theorem readsPart_word {name : String} {v : Json.Value} {kind : Kind}
    (hkind : c.token.kind = .word name false) (hname : name ∈ ["null", "true", "false"])
    (hprimary : ∀ r ctx, Gives (primary r ctx) c (.leaf kind c.token.span) c.next)
    (hspells : ∀ span, Tree.Spells (.value v) [.leaf kind span]) :
    ReadsPart dialect limit c c.next (.value v) := by
  have hreserved : name ∈ reservedWords := by
    simp only [List.mem_cons, List.not_mem_nil, or_false] at hname
    rcases hname with rfl | rfl | rfl <;> decide
  refine readsPart_token hprimary ?_ (nameBeforeArrow_of_reserved hkind hreserved) ?_ ?_ hspells
  · rw [hkind]
    simp only [List.mem_cons, List.not_mem_nil, or_false] at hname
    rcases hname with rfl | rfl | rfl <;> rfl
  · intro text
    rw [hkind]
    rfl
  · rw [hkind]
    simp only [List.mem_cons, List.not_mem_nil, or_false] at hname
    rcases hname with rfl | rfl | rfl <;> rfl

/-- No arrow function begins at a bracket or brace. -/
theorem arrow?_of_bracket {text : String} (hopen : c.token.kind = .punct text)
    (htext : text ∈ ["[", "\x7b"]) : Gives (r.arrow? ctx) c none c := by
  have hpunct : ∀ other, other ∉ ["[", "\x7b"] → (c.token.kind == .punct other) = false := by
    intro other hother
    rw [hopen, beq_eq_false_iff_ne]
    rintro ⟨⟩
    exact hother htext
  have hbefore : Gives nameBeforeArrow c false c := by
    refine kind_bind.mpr ?_
    rw [hopen]
    exact .pure _
  refine arrow?_of_plainArrow? (by rw [hopen]; rfl) fun start => ?_
  exact plainArrow?_of_first hbefore (hpunct _ (by decide)) (hpunct _ (by decide)) start false

theorem item_of_assignment (hfirst : (c.token.kind == .punct "...") = false)
    (h : Gives (r.assignment ctx.bracketed) c t c') : Gives (r.item ctx) c t c' :=
  position_bind.mpr ((eat_of_ne hfirst).bind h)

/-- A property whose key is a string. -/
theorem property_of_assignment {name : String} (hname : c.token.kind = .string (some name))
    (hcolon : c.next.token.kind = .punct ":")
    (h : Gives (r.assignment ctx.bracketed) c.next.next t c') :
    Gives (r.property ctx) c (.node .keyValue ⟨c.token.span.start, c'.prevStop⟩
      [.leaf (.string (some name)) c.token.span, t]) c' := by
  have hpunct : ∀ text, (c.token.kind == .punct text) = false := fun text => by rw [hname]; rfl
  have hmodifies : ∀ words, Gives (modifiesProperty words) c false c := by
    intro words
    refine following_bind.mpr ((atAnyWord words).bind ?_)
    rw [hname]
    exact .pure _
  have hkey : Gives (r.propertyKey ctx.bracketed) c (.leaf (.string (some name)) c.token.span)
      c.next := by
    refine get_bind.mpr (kind_bind.mpr ?_)
    rw [hname]
    exact advance_bind.mpr (.pure _)
  refine position_bind.mpr ((eat_of_ne (hpunct _)).bind ((eat_of_ne (hpunct _)).bind ?_))
  refine (hmodifies _).bind (following_bind.mpr ?_)
  rw [Bool.false_and, if_neg Bool.false_ne_true]
  refine (hmodifies _).bind ((Gives.followedByPunct _).bind ?_)
  rw [Bool.false_and, if_neg Bool.false_ne_true]
  refine hkey.bind (atPunct_bind.mpr (atPunct_bind.mpr ?_))
  rw [hcolon, show (TokenKind.punct ":" == .punct "(") = false from rfl,
    show (TokenKind.punct ":" == .punct "<") = false from rfl, Bool.and_false, Bool.or_false,
    if_neg Bool.false_ne_true]
  exact (expect hcolon).bind (h.bind (.pure _))

theorem endsLiteral_of_kind {text : String} (h : c.token.kind = .punct text)
    (htext : text ∈ [",", "]", "\x7d", ")"]) : EndsLiteral c.token.kind := ⟨text, h, htext⟩

/-- An expression in parentheses. -/
theorem chainHead_paren (hopen : c.token.kind = .punct "(")
    (h : Gives (r.assignment ctx.bracketed) c.next t c') (hclose : c'.token.kind = .punct ")") :
    Gives (r.chainHead ctx) c (.node .paren ⟨c.token.span.start, c'.next.prevStop⟩ [t]) c'.next := by
  refine chainHead_of_primary (by rw [hopen]; rfl) (get_bind.mpr (kind_bind.mpr ?_))
  rw [hopen]
  refine advance_bind.mpr ((expression_of_assignment ?_ h).bind ((expect hclose).bind (.pure _)))
  rw [hclose]
  rfl

theorem readsPart_paren {v : Json.Value} (hopen : c.token.kind = .punct "(")
    (h : c.next.Spells (.value v) c') (hclose : c'.token.kind = .punct ")") (hlimit : 0 < limit)
    (hinner : ReadsPart dialect limit c.next c' (.value v)) :
    ReadsPart dialect limit c c'.next (.value v) := by
  intro d ctx hd
  have hnext := Cursor.length_after_next h.isPlain
  obtain ⟨k, rfl⟩ := Nat.exists_eq_add_of_le' (show 1 ≤ d by omega)
  obtain ⟨t, hhead, hspells⟩ := hinner k ctx.bracketed (by omega)
  have hends := endsLiteral_of_kind hclose (by decide)
  have hvalue := hhead.assignmentExpression (by rwa [limit_rules]) hends
  have hparens : InParens (rules dialect limit (k + 1)) c.next c' :=
    ⟨h.beq_punct (by decide), h.beq_punct (by decide), h.beq_word (by decide), fun ctx =>
      (lands_of_spells h (k + 1) ctx).post fun _ _ hm => .inl hm, hclose⟩
  refine ⟨.node .paren ⟨c.token.span.start, c'.next.prevStop⟩ [t], ⟨?_, fun harrow hcolon => ?_⟩,
    .paren _ hspells⟩
  · exact chainHead_paren hopen hvalue hclose
  · exact arrow?_of_plainArrow? (by rw [hopen]; rfl) fun start =>
      plainArrow?_of_parens hopen hparens harrow hcolon start false

theorem readsPart_of_spells {part : Json.Part} (h : c.Spells part c')
    (hlimit : c.after.length < limit) : ReadsPart dialect limit c c' part := by
  induction h with
  | @text s c h =>
      refine readsPart_token ?_ ?_ ?_ ?_ ?_ fun span => .text s span []
      · intro r ctx
        refine get_bind.mpr (kind_bind.mpr ?_)
        rw [h]
        exact advance_bind.mpr (.pure _)
      · rw [h]; rfl
      · refine kind_bind.mpr ?_
        rw [h]
        exact .pure _
      · intro text
        rw [h]
        rfl
      · rw [h]; rfl
  | @null c h =>
      refine readsPart_word h (by decide) (fun r ctx => ?_) fun span => .null span []
      refine get_bind.mpr (kind_bind.mpr ?_)
      rw [h]
      exact advance_bind.mpr (.pure _)
  | @yes c h =>
      refine readsPart_word h (by decide) (fun r ctx => ?_) fun span => .bool true span []
      refine get_bind.mpr (kind_bind.mpr ?_)
      rw [h]
      exact advance_bind.mpr (.pure _)
  | @no c h =>
      refine readsPart_word h (by decide) (fun r ctx => ?_) fun span => .bool false span []
      refine get_bind.mpr (kind_bind.mpr ?_)
      rw [h]
      exact advance_bind.mpr (.pure _)
  | @paren v c c' hopen h hclose ih =>
      have hnext := Cursor.length_after_next h.isPlain
      exact readsPart_paren hopen h hclose (by omega) (ih (by omega))
  | @list vs c c' hopen h ih =>
      intro d ctx hd
      have hnext := Cursor.length_after_next h.isPlain
      obtain ⟨k, rfl⟩ := Nat.exists_eq_add_of_le' (show 1 ≤ d by omega)
      obtain ⟨ts, hts, hspells⟩ := ih (by omega) k ctx limit [] (by omega) (by omega)
      refine ⟨.node .array ⟨c.token.span.start, c'.prevStop⟩ ts, ⟨?_, fun _ _ => ?_⟩,
        .list _ hspells⟩
      · refine chainHead_of_primary (by rw [hopen]; rfl) (get_bind.mpr (kind_bind.mpr ?_))
        rw [hopen]
        exact position_bind.mpr ((expect hopen).bind (Gives.bind hts (.pure _)))
      · exact arrow?_of_bracket hopen (by decide)
  | @object fs c c' hopen h ih =>
      intro d ctx hd
      have hnext := Cursor.length_after_next h.isPlain
      obtain ⟨k, rfl⟩ := Nat.exists_eq_add_of_le' (show 1 ≤ d by omega)
      obtain ⟨ts, hts, hspells⟩ := ih (by omega) k ctx limit [] (by omega) (by omega)
      refine ⟨.node .object ⟨c.token.span.start, c'.prevStop⟩ ts, ⟨?_, fun _ _ => ?_⟩,
        .object _ hspells⟩
      · refine chainHead_of_primary (by rw [hopen]; rfl) (get_bind.mpr (kind_bind.mpr ?_))
        rw [hopen]
        exact position_bind.mpr ((expect hopen).bind (Gives.bind hts (.pure _)))
      · exact arrow?_of_bracket hopen (by decide)
  | @closeList c h =>
      intro d ctx n items _ hn
      refine ⟨[], ?_, .noItem⟩
      rw [List.append_nil]
      exact .loop (by omega) ((eat h).bind (.pure _))
  | @lastItem v c c' h hclose ih =>
      intro d ctx n items hd hn
      obtain ⟨t, hhead, hspells⟩ := ih hlimit d ctx.bracketed hd
      have hvalue := hhead.assignmentExpression (by rw [limit_rules]; omega)
        (endsLiteral_of_kind hclose (by decide))
      have hitem : Gives ((rules dialect limit (d + 1)).item ctx) c t c' :=
        item_of_assignment (h.beq_punct (by decide)) hvalue
      refine ⟨[t], .loop (by omega) ?_, .item hspells .noItem⟩
      rw [← List.reverse_cons]
      exact (elementStep_eq (h.beq_punct (by decide)) _ items).trans
        (commaStep_done (h.beq_punct (by decide)) hitem hclose items)
  | @item v vs c c' c'' h hcomma hs ih ihs =>
      intro d ctx n items hd hn
      have hnext := Cursor.length_after_next hs.isPlain
      have hle := h.length_after_le
      obtain ⟨t, hhead, hspells⟩ := ih hlimit d ctx.bracketed hd
      have hvalue := hhead.assignmentExpression (by rw [limit_rules]; omega)
        (endsLiteral_of_kind hcomma (by decide))
      have hitem : Gives ((rules dialect limit (d + 1)).item ctx) c t c' :=
        item_of_assignment (h.beq_punct (by decide)) hvalue
      obtain ⟨n, rfl⟩ := Nat.exists_eq_add_of_le' (show 1 ≤ n by omega)
      obtain ⟨ts, hts, hrest⟩ := ihs (by omega) d ctx n (t :: items) (by omega) (by omega)
      have hmore : Gives (elementStep ((rules dialect limit (d + 1)).item ctx) items) c
          (.more (t :: items)) c'.next :=
        (elementStep_eq (h.beq_punct (by decide)) _ items).trans
          (commaStep_more (h.beq_punct (by decide)) hitem (by rw [hcomma]; rfl) hcomma items)
      rw [List.reverse_cons, List.append_assoc] at hts
      exact ⟨t :: ts, loop_more hmore hts, .item hspells hrest⟩
  | @closeObject c h =>
      intro d ctx n items _ hn
      refine ⟨[], ?_, .noField⟩
      rw [List.append_nil]
      exact .loop (by omega) ((eat h).bind (.pure _))
  | @lastField name v c c' hname hcolon h hclose ih =>
      intro d ctx n items hd hn
      have hbrace : (c.token.kind == .punct "\x7d") = false := by rw [hname]; rfl
      have hle := Nat.le_trans (Cursor.length_after_next_le c.next) (Cursor.length_after_next_le c)
      obtain ⟨t, hhead, hspells⟩ := ih (by omega) d ctx.bracketed (by omega)
      have hvalue := hhead.assignmentExpression (by rw [limit_rules]; omega)
        (endsLiteral_of_kind hclose (by decide))
      have hitem := property_of_assignment (r := rules dialect limit (d + 1)) hname hcolon hvalue
      have hdone := commaStep_done hbrace hitem hclose items
      rw [List.reverse_cons] at hdone
      exact ⟨[_], .loop (by omega) hdone, .field name _ _ _ hspells .noField⟩
  | @field name v fs c c' c'' hname hcolon h hcomma hs ih ihs =>
      intro d ctx n items hd hn
      have hbrace : (c.token.kind == .punct "\x7d") = false := by rw [hname]; rfl
      have hle := Nat.le_trans (Cursor.length_after_next_le c.next) (Cursor.length_after_next_le c)
      have hnext := Cursor.length_after_next hs.isPlain
      have hvalue := h.length_after_le
      obtain ⟨t, hhead, hspells⟩ := ih (by omega) d ctx.bracketed (by omega)
      have hitem := property_of_assignment (r := rules dialect limit (d + 1)) hname hcolon
        (hhead.assignmentExpression (by rw [limit_rules]; omega)
          (endsLiteral_of_kind hcomma (by decide)))
      obtain ⟨n, rfl⟩ := Nat.exists_eq_add_of_le' (show 1 ≤ n by omega)
      obtain ⟨ts, hts, hrest⟩ := ihs (by omega) d ctx n (_ :: items) (by omega) (by omega)
      have hmore := commaStep_more hbrace hitem (by rw [hcomma]; rfl) hcomma items
      rw [List.reverse_cons, List.append_assoc] at hts
      exact ⟨_ :: ts, loop_more hmore hts, .field name _ _ _ hspells hrest⟩

end Values

end Rules

end Recompose.Script
