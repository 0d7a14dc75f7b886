import Recompose.Proofs.Script.Endings
import Recompose.Proofs.Script.Parser
import Recompose.Proofs.Script.Spelling

/-!
# Reading code that was written out

Generated code is made of few forms: names, accesses by a dot, calls of a name with at
most one argument. Each has a lemma that tells how it is read, stated over the kinds of
its tokens (`assignmentExpression_name`, `chain_member`, `chain_call`); what begins with
a word of no special meaning passes all rules of a statement in front of the one for
expressions or declarations (`anyStatement_word`). `read_of_statement` reads a script of
one such statement.
-/

namespace Recompose.Script

open Recompose.Script.Parser (Step)

/-! ## Succeeding -/

namespace Gives

variable {α β σ : Type} {c c' c'' : Cursor} {b : β}

theorem advance_bind {f : Unit → Parser β} :
    Gives (Parser.advance >>= f) c b c' ↔ Gives (f ()) c.next b c' := .rfl

theorem following_bind {f : Token → Parser β} :
    Gives (Parser.following >>= f) c b c' ↔ Gives (f c.next.token) c b c' := .rfl

theorem loop_more {n : Nat} {step : σ → Parser (Step σ β)} {s s' : σ}
    (hstep : Gives (step s) c (.more s') c') (hrest : Gives (Parser.loop n step s') c' b c'') :
    Gives (Parser.loop (n + 1) step s) c b c'' := hstep.bind hrest

theorem eat {text : String} (h : c.token.kind = .punct text) :
    Gives (Parser.eat text) c true c.next := by
  refine atPunct_bind.mpr ?_
  rw [h, beq_self_eq_true]
  exact advance_bind.mpr (.pure _)

theorem expect {text : String} (h : c.token.kind = .punct text) :
    Gives (Parser.expect text) c () c.next := (eat h).bind (.pure _)

theorem eatWord {name : String} (h : c.token.kind = .word name false) :
    Gives (Parser.eatWord name) c true c.next := by
  refine atWord_bind.mpr ?_
  rw [h, beq_self_eq_true]
  exact advance_bind.mpr (.pure _)

theorem eatWord_of_ne {name : String} (h : (c.token.kind == .word name false) = false) :
    Gives (Parser.eatWord name) c false c := by
  refine atWord_bind.mpr ?_
  rw [h]
  exact .pure _

theorem expectWord {name : String} (h : c.token.kind = .word name false) :
    Gives (Parser.expectWord name) c () c.next := (eatWord h).bind (.pure _)

theorem followedByPunct (texts : List String) :
    Gives (Parser.followedByPunct texts) c (c.next.token.kind.isAnyPunct texts) c := by
  refine following_bind.mpr ?_
  cases c.next.token.kind <;> exact .pure _

end Gives

/-! ## Operands -/

/-- A name that can be an operand. -/
structure IsOperand (name : String) : Prop where
  isName : IsName name
  notReserved : name ∉ reservedWords
  notStrict : name ∉ strictWords

instance (name : String) : Decidable (IsOperand name) :=
  decidable_of_iff (IsName name ∧ name ∉ reservedWords ∧ name ∉ strictWords)
    ⟨fun h => ⟨h.1, h.2.1, h.2.2⟩, fun h => ⟨h.isName, h.notReserved, h.notStrict⟩⟩

namespace Rules

open Gives

variable {r : Rules} {c : Context} {c₀ : Cursor} {name : String}

/-- The token behind a name makes no function of it. -/
def StandsAlone (name : String) (next : TokenKind) : Prop :=
  next = .done ∨ next = .punct ")" ∨ name ≠ "async" ∧ (next = .punct "." ∨ next = .punct "(")

theorem primary_name (hkind : c₀.token.kind = .word name false) (hname : IsOperand name)
    (hnext : StandsAlone name c₀.next.token.kind) :
    Gives (r.primary c) c₀ (.leaf (.ident name) c₀.token.span) c₀.next := by
  have hreserved := hname.notReserved
  have hother : (reservedWords.contains name || strictWords.contains name) = false := by
    simp [hname.notReserved, hname.notStrict]
  refine get_bind.mpr (kind_bind.mpr ?_)
  rw [hkind]
  split
  -- Only a word that is not told apart from others, and `async`, can be an operand.
  case h_18 heq =>
    obtain ⟨rfl, -⟩ := TokenKind.word.inj heq
    refine following_bind.mpr (advance_bind.mpr ?_)
    rcases hnext with hnext | hnext | ⟨hne, -⟩
    · rw [hnext]
      exact .pure _
    · rw [hnext]
      exact .pure _
    · exact absurd rfl hne
  case h_19 heq =>
    obtain ⟨rfl, rfl⟩ := TokenKind.word.inj heq
    dsimp only
    rw [hother, if_neg Bool.false_ne_true]
    exact advance_bind.mpr (.pure _)
  case h_20 hne => exact absurd rfl (hne name false)
  all_goals
    rename_i heq
    first
      | (obtain ⟨rfl, -⟩ := TokenKind.word.inj heq
         exact absurd (by decide) hreserved)
      | cases heq

theorem beq_word_of_ne (hkind : c₀.token.kind = .word name false) {word : String}
    (h : name ≠ word) : (c₀.token.kind == .word word false) = false := by
  rw [hkind, beq_eq_false_iff_ne]
  intro heq
  exact h (TokenKind.word.inj heq).1

theorem ne_of_mem_of_not_mem {words : List String} (h : name ∉ words) (word : String)
    (hword : word ∈ words) : name ≠ word := by
  rintro rfl
  exact h hword

theorem chainHead_name (hkind : c₀.token.kind = .word name false) (hname : IsOperand name)
    (hnext : StandsAlone name c₀.next.token.kind) :
    Gives (r.chainHead c) c₀ (.leaf (.ident name) c₀.token.span) c₀.next := by
  have hne := ne_of_mem_of_not_mem hname.notReserved
  refine atWord_bind.mpr ?_
  rw [beq_word_of_ne hkind (hne "new" (by decide)), if_neg Bool.false_ne_true]
  refine atWord_bind.mpr ?_
  rw [beq_word_of_ne hkind (hne "import" (by decide)), if_neg Bool.false_ne_true]
  refine atWord_bind.mpr ?_
  rw [beq_word_of_ne hkind (hne "super" (by decide)), if_neg Bool.false_ne_true]
  exact primary_name hkind hname hnext

/-- No arrow function begins at a token that is no word, parenthesis or angle bracket. -/
theorem plainArrow?_punct (hkind : c₀.token.kind = .done ∨ c₀.token.kind = .punct ")") (start : Nat)
    (isAsync : Bool) : Gives (r.plainArrow? c start isAsync) c₀ none c₀ := by
  have hbefore : Gives nameBeforeArrow c₀ false c₀ := by
    refine kind_bind.mpr ?_
    rcases hkind with hkind | hkind <;> rw [hkind] <;> exact .pure _
  refine hbefore.bind (atPunct_bind.mpr (atPunct_bind.mpr ?_))
  rcases hkind with hkind | hkind <;> rw [hkind] <;> cases r.dialect.typescript <;> exact .pure _

theorem plainArrow?_name (hkind : c₀.token.kind = .word name false)
    (hnext : StandsAlone name c₀.next.token.kind) (start : Nat) (isAsync : Bool) :
    Gives (r.plainArrow? c start isAsync) c₀ none c₀ := by
  have hbefore : Gives nameBeforeArrow c₀ false c₀ := by
    refine kind_bind.mpr ?_
    rw [hkind]
    refine following_bind.mpr ?_
    have harrow : (c₀.next.token.kind == .punct "=>") = false := by
      rcases hnext with hnext | hnext | ⟨-, hnext | hnext⟩ <;> rw [hnext] <;> rfl
    rw [harrow, Bool.and_false, Bool.false_and]
    exact .pure _
  refine hbefore.bind (atPunct_bind.mpr (atPunct_bind.mpr ?_))
  rw [hkind]
  cases r.dialect.typescript <;> exact .pure _

theorem arrow?_name (hkind : c₀.token.kind = .word name false)
    (hnext : StandsAlone name c₀.next.token.kind) : Gives (r.arrow? c) c₀ none c₀ := by
  refine get_bind.mpr ((plainArrow?_name hkind hnext _ _).bind (atWord_bind.mpr ?_))
  refine following_bind.mpr ?_
  by_cases hname : name = "async"
  · have hends : c₀.next.token.kind = .done ∨ c₀.next.token.kind = .punct ")" := by
      rcases hnext with hnext | hnext | ⟨hne, -⟩
      · exact .inl hnext
      · exact .inr hnext
      · exact absurd hname hne
    split
    · refine advance_bind.mpr ((plainArrow?_punct hends _ _).bind ?_)
      exact .bind rfl (.pure _)
    · exact .pure _
  · rw [beq_word_of_ne hkind hname, Bool.false_and]
    exact .pure _

/-- A name in front of what ends it is a whole expression. -/
theorem assignmentExpression_name (hlimit : 0 < r.limit) (hkind : c₀.token.kind = .word name false)
    (hname : IsOperand name)
    (hnext : c₀.next.token.kind = .done ∨ c₀.next.token.kind = .punct ")") :
    Gives (r.assignmentExpression c) c₀ (.leaf (.ident name) c₀.token.span) c₀.next := by
  have halone : StandsAlone name c₀.next.token.kind := hnext.imp_right .inl
  exact assignmentExpression_of_chainHead hlimit (Cursor.ends_of_kind hnext).endsValue
    (arrow?_name hkind halone) (chainHead_name hkind hname halone)

/-! ## Accesses and calls -/

theorem propertyName_word (hkind : c₀.token.kind = .word name false) :
    Gives Parser.propertyName c₀ (.leaf (.ident name) c₀.token.span) c₀.next := by
  refine kind_bind.mpr ?_
  rw [hkind]
  exact get_bind.mpr (advance_bind.mpr (.pure _))

theorem accessedName_word (hkind : c₀.token.kind = .word name false) :
    Gives accessedName c₀ (.leaf (.ident name) c₀.token.span) c₀.next := by
  refine get_bind.mpr (kind_bind.mpr ?_)
  rw [hkind]
  exact propertyName_word hkind

/-- One access or call behind a head, if nothing goes on with it. -/
theorem chain_of_chainStep {head t : Tree} {c₁ j : Cursor} (hlimit : 1 < r.limit)
    (hhead : Gives (r.chainHead c) c₀ head c₁)
    (hstep : Gives (r.chainStep c c₀.token.span.start true (head, false)) c₁ (.more (t, false)) j)
    (hends : j.EndsOperand) : Gives (r.chain c) c₀ t j := by
  obtain ⟨n, hn⟩ := Nat.exists_eq_add_of_le' (Nat.le_of_lt hlimit)
  refine position_bind.mpr (hhead.bind ?_)
  rw [hn]
  exact loop_more hstep (.loop (by omega) (chainStep_of_ends hends ..))

theorem chain_member {key : String} (hlimit : 1 < r.limit)
    (hkind : c₀.token.kind = .word name false) (hname : IsOperand name) (hne : name ≠ "async")
    (hdot : c₀.next.token.kind = .punct ".") (hkey : c₀.next.next.token.kind = .word key false)
    (hends : c₀.next.next.next.EndsOperand) :
    Gives (r.chain c) c₀
      (.node .member ⟨c₀.token.span.start, c₀.next.next.token.span.stop⟩
        [.leaf (.ident name) c₀.token.span, .leaf (.ident key) c₀.next.next.token.span])
      c₀.next.next.next := by
  have halone : StandsAlone name c₀.next.token.kind := .inr (.inr ⟨hne, .inl hdot⟩)
  refine chain_of_chainStep hlimit (chainHead_name hkind hname halone) (kind_bind.mpr ?_) hends
  rw [hdot]
  exact advance_bind.mpr ((accessedName_word hkey).bind (.pure _))

theorem chain_call {args : List Tree} {c₁ : Cursor} (hlimit : 1 < r.limit)
    (hkind : c₀.token.kind = .word name false) (hname : IsOperand name) (hne : name ≠ "async")
    (hopen : c₀.next.token.kind = .punct "(") (hargs : Gives (r.arguments c) c₀.next args c₁)
    (hends : c₁.EndsOperand) :
    Gives (r.chain c) c₀ (.node .call ⟨c₀.token.span.start, c₁.prevStop⟩
      (.leaf (.ident name) c₀.token.span :: args)) c₁ := by
  have halone : StandsAlone name c₀.next.token.kind := .inr (.inr ⟨hne, .inr hopen⟩)
  refine chain_of_chainStep hlimit (chainHead_name hkind hname halone) (kind_bind.mpr ?_) hends
  rw [hopen]
  exact hargs.bind (.pure _)

/-! ## Lists -/

/-- One round of reading items with commas between them. -/
def commaStep {α : Type} (close : String) (item : Parser α) (items : List α) :
    Parser (Step (List α) (List α)) := do
  if ← Parser.eat close then return .done items.reverse
  let a ← item
  if ← Parser.eat close then return .done (a :: items).reverse
  Parser.expect ","
  return .more (a :: items)

theorem commaStep_done {α : Type} {close : String} {item : Parser α} {a : α} {c₀ c₁ : Cursor}
    (hfirst : (c₀.token.kind == .punct close) = false) (hitem : Gives item c₀ a c₁)
    (hclose : c₁.token.kind = .punct close) (items : List α) :
    Gives (commaStep close item items) c₀ (.done (a :: items).reverse) c₁.next :=
  (eat_of_ne hfirst).bind (hitem.bind ((eat hclose).bind (.pure _)))

theorem commaStep_more {α : Type} {close : String} {item : Parser α} {a : α} {c₀ c₁ : Cursor}
    (hfirst : (c₀.token.kind == .punct close) = false) (hitem : Gives item c₀ a c₁)
    (hclose : (c₁.token.kind == .punct close) = false) (hcomma : c₁.token.kind = .punct ",")
    (items : List α) : Gives (commaStep close item items) c₀ (.more (a :: items)) c₁.next :=
  (eat_of_ne hfirst).bind (hitem.bind ((eat_of_ne hclose).bind ((expect hcomma).bind (.pure _))))

/-- Empty parentheses. -/
theorem arguments_nil (hlimit : 0 < r.limit) (hopen : c₀.token.kind = .punct "(")
    (hclose : c₀.next.token.kind = .punct ")") : Gives (r.arguments c) c₀ [] c₀.next.next :=
  (expect hopen).bind (.loop hlimit ((eat hclose).bind (.pure _)))

/-- One argument in parentheses. -/
theorem arguments_singleton {arg : Tree} {c₁ : Cursor} (hlimit : 0 < r.limit)
    (hopen : c₀.token.kind = .punct "(") (hfirst : (c₀.next.token.kind == .punct ")") = false)
    (hspread : (c₀.next.token.kind == .punct "...") = false)
    (harg : Gives (r.assignment c.bracketed) c₀.next arg c₁)
    (hclose : c₁.token.kind = .punct ")") : Gives (r.arguments c) c₀ [arg] c₁.next := by
  have hitem : Gives (r.item c) c₀.next arg c₁ :=
    position_bind.mpr ((eat_of_ne hspread).bind harg)
  refine (expect hopen).bind (.loop hlimit ((eat_of_ne hfirst).bind (hitem.bind ?_)))
  exact (eat hclose).bind (.pure _)

/-! ## Statements -/

/-- Words that begin statements and declarations, and those that can. -/
def statementWords : List String :=
  ["if", "for", "while", "with", "do", "return", "throw", "break", "continue", "debugger", "switch",
   "try", "interface", "type", "enum", "abstract", "namespace", "module", "global", "declare",
   "catch", "finally", "function", "class", "async", "export", "import", "var"]

theorem keywordStatement?_word (hkind : c₀.token.kind = .word name false)
    (hname : name ∉ statementWords) : Gives (r.keywordStatement? c) c₀ none c₀ := by
  refine kind_bind.mpr ?_
  rw [hkind]
  split
  all_goals
    rename_i heq
    first
      | (obtain ⟨rfl, -⟩ := TokenKind.word.inj heq
         exact absurd (by decide) hname)
      | exact .pure _

theorem exists_followedByName (c₀ : Cursor) : ∃ named, Gives followedByName c₀ named c₀ := by
  unfold followedByName
  simp only [following_bind]
  split <;> exact ⟨_, .pure _⟩

theorem exists_followedByString (c₀ : Cursor) : ∃ named, Gives followedByString c₀ named c₀ := by
  unfold followedByString
  simp only [following_bind]
  split <;> exact ⟨_, .pure _⟩

theorem typeDeclaration?_word (hkind : c₀.token.kind = .word name false)
    (hname : name ∉ statementWords)
    (hconst : name = "const" → (c₀.next.token.kind == .word "enum" false) = false) :
    Gives (r.typeDeclaration? c) c₀ none c₀ := by
  have hne := ne_of_mem_of_not_mem hname
  obtain ⟨named, hnamed⟩ := exists_followedByName c₀
  obtain ⟨_, hstring⟩ := exists_followedByString c₀
  have henum : (c₀.token.kind == .word "const" false &&
      c₀.next.token.kind == .word "enum" false) = false := by
    by_cases h : name = "const"
    · rw [hconst h, Bool.and_false]
    · rw [beq_word_of_ne hkind h, Bool.false_and]
  unfold typeDeclaration?
  split
  · exact .pure _
  refine position_bind.mpr (hnamed.bind (atWord_bind.mpr ?_))
  rw [beq_word_of_ne hkind (hne "interface" (by decide)), Bool.false_and]
  refine atWord_bind.mpr ?_
  rw [beq_word_of_ne hkind (hne "type" (by decide)), Bool.false_and]
  refine atWord_bind.mpr ?_
  rw [beq_word_of_ne hkind (hne "enum" (by decide)), Bool.false_and]
  refine atWord_bind.mpr (following_bind.mpr ?_)
  rw [henum]
  refine atWord_bind.mpr (following_bind.mpr ?_)
  rw [beq_word_of_ne hkind (hne "abstract" (by decide)), Bool.false_and]
  refine atWord_bind.mpr ?_
  rw [beq_word_of_ne hkind (hne "namespace" (by decide)), Bool.false_and]
  refine atWord_bind.mpr (hstring.bind ?_)
  rw [beq_word_of_ne hkind (hne "module" (by decide)), Bool.false_and]
  refine atWord_bind.mpr ((Gives.followedByPunct _).bind ?_)
  rw [beq_word_of_ne hkind (hne "global" (by decide)), Bool.false_and]
  refine atWord_bind.mpr ?_
  rw [beq_word_of_ne hkind (hne "declare" (by decide)), Bool.false_and]
  exact .pure _

theorem declaration?_word (hkind : c₀.token.kind = .word name false)
    (hname : name ∉ statementWords) : Gives (r.declaration? c) c₀ none c₀ := by
  have hne := ne_of_mem_of_not_mem hname
  have hasync : Gives startsAsyncFunction c₀ false c₀ := by
    refine following_bind.mpr (atWord_bind.mpr ?_)
    rw [beq_word_of_ne hkind (hne "async" (by decide)), Bool.false_and, Bool.false_and]
    exact .pure _
  refine position_bind.mpr (atWord_bind.mpr ?_)
  rw [beq_word_of_ne hkind (hne "function" (by decide)), if_neg Bool.false_ne_true]
  refine atWord_bind.mpr ?_
  rw [beq_word_of_ne hkind (hne "class" (by decide)), if_neg Bool.false_ne_true]
  exact hasync.bind (.pure _)

theorem strayHandlers?_word (hkind : c₀.token.kind = .word name false)
    (hname : name ∉ statementWords) : Gives (r.strayHandlers? c) c₀ none c₀ := by
  have hne := ne_of_mem_of_not_mem hname
  refine get_bind.mpr ((eatWord_of_ne (beq_word_of_ne hkind (hne "catch" (by decide)))).bind ?_)
  exact (eatWord_of_ne (beq_word_of_ne hkind (hne "finally" (by decide)))).bind (.pure _)

/-- A statement that begins with a word of no special meaning, up to where it may
declare variables. -/
theorem anyStatement_word {t : Tree} {c₁ : Cursor} (hkind : c₀.token.kind = .word name false)
    (hname : name ∉ statementWords)
    (hconst : name = "const" → (c₀.next.token.kind == .word "enum" false) = false)
    {mode? : Option BindingMode} (hmode : Gives bindingMode? c₀ mode? c₀)
    (ht : Gives (match mode? with
      | some mode => do
        Parser.advance
        let items ← r.declarators c.bracketed
        r.endDeclaration c.bracketed
        Parser.node (.declaration mode) c₀.token.span.start items
      | none => r.expressionStatement c.bracketed) c₀ t c₁) :
    Gives (r.anyStatement c) c₀ t c₁ := by
  have hpunct : ∀ text, (c₀.token.kind == .punct text) = false := by
    intro text
    rw [hkind]
    rfl
  refine position_bind.mpr (atPunct_bind.mpr ?_)
  rw [hpunct, if_neg Bool.false_ne_true]
  refine (eat_of_ne (hpunct _)).bind ?_
  refine (keywordStatement?_word hkind hname).bind ?_
  refine (typeDeclaration?_word hkind hname hconst).bind ?_
  have hplain : Gives (r.plainStatement c.bracketed c₀.token.span.start) c₀ t c₁ := by
    refine hmode.bind ?_
    cases mode? with
    | none => exact ht
    | some mode => exact ht
  refine (declaration?_word hkind hname).bind ?_
  dsimp only
  split
  · exact (strayHandlers?_word hkind hname).bind hplain
  · exact hplain

theorem bindingMode?_const (hkind : c₀.token.kind = .word "const" false) :
    Gives bindingMode? c₀ (some .viaConst) c₀ := by
  refine atWord_bind.mpr ?_
  rw [hkind]
  exact .pure _

theorem bindingMode?_let (hkind : c₀.token.kind = .word "let" false)
    (hbrace : c₀.next.token.kind = .punct "\x7b") : Gives bindingMode? c₀ (some .viaLet) c₀ := by
  refine atWord_bind.mpr ?_
  rw [hkind]
  refine atWord_bind.mpr ?_
  rw [hkind]
  refine atWord_bind.mpr ?_
  rw [hkind]
  refine following_bind.mpr ?_
  rw [hbrace]
  exact .pure _

theorem bindingMode?_word (hkind : c₀.token.kind = .word name false)
    (hname : name ∉ ["const", "var", "let"]) : Gives bindingMode? c₀ none c₀ := by
  have hne := ne_of_mem_of_not_mem hname
  refine atWord_bind.mpr ?_
  rw [beq_word_of_ne hkind (hne "const" (by decide)), if_neg Bool.false_ne_true]
  refine atWord_bind.mpr ?_
  rw [beq_word_of_ne hkind (hne "var" (by decide)), if_neg Bool.false_ne_true]
  refine atWord_bind.mpr ?_
  rw [beq_word_of_ne hkind (hne "let" (by decide)), if_neg Bool.false_ne_true]
  exact .pure _

theorem labels_word (hkind : c₀.token.kind = .word name false)
    (hnext : c₀.next.token.kind.isAnyPunct [":"] = false) : Gives labels c₀ false c₀ := by
  refine kind_bind.mpr ?_
  rw [hkind]
  refine (Gives.followedByPunct _).bind ?_
  rw [hnext, Bool.and_false]
  exact .pure _

theorem moduleItem_word {t : Tree} {c₁ : Cursor} (hkind : c₀.token.kind = .word name false)
    (hname : name ∉ statementWords) (ht : Gives (r.anyStatement {}) c₀ t c₁) :
    Gives r.moduleItem c₀ t c₁ := by
  have hne := ne_of_mem_of_not_mem hname
  refine atWord_bind.mpr ?_
  rw [beq_word_of_ne hkind (hne "export" (by decide)), if_neg Bool.false_ne_true]
  refine atWord_bind.mpr ((Gives.followedByPunct _).bind ?_)
  rw [beq_word_of_ne hkind (hne "import" (by decide)), Bool.false_and, if_neg Bool.false_ne_true]
  exact ht

/-- An item of a module that ends at the end of the script. -/
theorem moduleItems_of_moduleItem {t : Tree} {c₁ : Cursor} (hlimit : 1 < r.limit)
    (hkind : c₀.token.kind = .word name false) (hitem : Gives r.moduleItem c₀ t c₁)
    (hdone : c₁.token.kind = .done) : Gives r.moduleItems c₀ [t] c₁ := by
  obtain ⟨n, hn⟩ := Nat.exists_eq_add_of_le' (Nat.le_of_lt hlimit)
  unfold moduleItems
  rw [hn]
  refine @loop_more _ _ _ c₁ _ _ _ _ _ [t] (atDone_bind.mpr ?_) ?_
  · rw [hkind]
    exact hitem.bind (.pure _)
  · refine .loop (by omega) (atDone_bind.mpr ?_)
    rw [hdone]
    exact .pure _

end Rules

/-! ## Scripts -/

@[simp] theorem limit_rules (dialect : Dialect) (limit depth : Nat) :
    (rules dialect limit depth).limit = limit := by
  cases depth <;> rfl

@[simp] theorem dialect_rules (dialect : Dialect) (limit depth : Nat) :
    (rules dialect limit depth).dialect = dialect := by
  cases depth <;> rfl

section Source

variable {dialect : Dialect} {source : String} {name : String} {t : Tree} {c₀ c : Cursor}

/-- A text is a script of one item, if the item that begins it ends with it. -/
theorem read_of_moduleItem (hstart : c₀ = Cursor.start 0 source.toList)
    (hkind : c₀.token.kind = .word name false) (hdone : c.token.kind = .done)
    (ht : Gives (rules dialect (source.toList.length + 8) (source.toList.length + 8)).moduleItem
      c₀ t c) :
    Script.read dialect source
      = .ok ⟨source, dialect, .node .program ⟨0, byteSize source.toList⟩ [t]⟩ := by
  subst hstart
  have hbody : skipHashbang source.toList = source.toList := by
    unfold skipHashbang
    split
    · rename_i heq
      rw [heq] at hkind
      cases hkind
    · rfl
  have hitems : Gives (rules dialect (source.toList.length + 8)
      (source.toList.length + 8)).moduleItems (Cursor.start 0 source.toList) [t] c :=
    Rules.moduleItems_of_moduleItem (by simp) hkind ht hdone
  have hrun : (rules dialect (source.toList.length + 8)
      (source.toList.length + 8)).moduleItems.run (Cursor.start 0 source.toList) = .ok ([t], c) :=
    hitems
  refine read_of_parseAs ?_
  unfold parseAs
  dsimp only
  rw [hbody, Nat.sub_self, hrun]

/-- A text is a script of one statement, if the statement that begins it ends with it. -/
theorem read_of_statement (hstart : c₀ = Cursor.start 0 source.toList)
    (hkind : c₀.token.kind = .word name false) (hname : name ∉ Rules.statementWords)
    (hdone : c.token.kind = .done)
    (ht : Gives ((rules dialect (source.toList.length + 8) (source.toList.length + 8)).anyStatement
      {}) c₀ t c) :
    Script.read dialect source
      = .ok ⟨source, dialect, .node .program ⟨0, byteSize source.toList⟩ [t]⟩ :=
  read_of_moduleItem hstart hkind hdone (Rules.moduleItem_word hkind hname ht)

/-- A text is a script of one expression, if the expression that begins it ends with it. -/
theorem read_of_expression (hstart : c₀ = Cursor.start 0 source.toList)
    (hkind : c₀.token.kind = .word name false) (hname : name ∉ Rules.statementWords)
    (hmode : name ∉ ["const", "var", "let"]) (hlabel : c₀.next.token.kind.isAnyPunct [":"] = false)
    (hdone : c.token.kind = .done)
    (ht : Gives ((rules dialect (source.toList.length + 8)
      (source.toList.length + 7)).assignmentExpression {}) c₀ t c) :
    Script.read dialect source = .ok ⟨source, dialect,
      .node .program ⟨0, byteSize source.toList⟩
        [.node .exprStmt ⟨c₀.token.span.start, c.prevStop⟩ [t]]⟩ := by
  refine read_of_statement hstart hkind hname hdone (Rules.anyStatement_word hkind hname
    (fun h => ?_) (Rules.bindingMode?_word hkind hmode) ?_)
  · exact absurd (by simp [h]) hmode
  · exact Rules.expressionStatement_of_assignment (Cursor.ends_of_kind (.inl hdone))
      (Rules.endStatement_of_done hdone) (Rules.labels_word hkind hlabel) ht

end Source

/-- The tree of a script that is one access by a dot. -/
def memberTree (base key : String) : Tree :=
  let size := byteSize (base ++ "." ++ key).toList
  .node .program ⟨0, size⟩ [.node .exprStmt ⟨0, size⟩ [.node .member ⟨0, size⟩
    [.leaf (.ident base) ⟨0, byteSize base.toList⟩,
      .leaf (.ident key) ⟨byteSize base.toList + 1, size⟩]]]

/-- An access by a dot is read as one member expression, also where the key is a reserved
word. -/
theorem read_member (dialect : Dialect) {base key : String} (hbase : IsOperand base)
    (hwords : base ∉ Rules.statementWords) (hkey : IsName key) :
    Script.read dialect (base ++ "." ++ key)
      = .ok ⟨base ++ "." ++ key, dialect, memberTree base key⟩ := by
  obtain ⟨size, hbytes⟩ : ∃ size, size = byteSize (base ++ "." ++ key).toList := ⟨_, rfl⟩
  have hsplit : (base ++ "." ++ key).toList = base.toList ++ '.' :: (key.toList ++ []) := by simp
  have hsize : byteSize base.toList + 1 + byteSize key.toList = size := by
    have hdot : ('.' : Char).utf8Size = 1 := by decide
    simp only [hbytes, hsplit, byteSize_append, byteSize_cons, hdot, byteSize_nil]
    omega
  -- The four cursors: on the base, the dot, the key and the end.
  have hfirst : Begins (base.toList ++ '.' :: (key.toList ++ [])) _ _ _ _ :=
    .name hbase.isName (headNot_cons.mpr (by decide))
  have hdot := Begins.dot hkey []
  have hlast := Begins.name hkey endsName_nil
  obtain ⟨c₀, hc₀⟩ : ∃ c₀, c₀ = Cursor.start 0 (base ++ "." ++ key).toList := ⟨_, rfl⟩
  have hnext₁ : c₀.next = Cursor.start (byteSize base.toList) ('.' :: (key.toList ++ [])) := by
    rw [hc₀, hsplit, hfirst.next, Nat.add_zero, Nat.zero_add]
  have hnext₂ : c₀.next.next = Cursor.start (byteSize base.toList + 1) (key.toList ++ []) := by
    rw [hnext₁, hdot.next, Nat.add_zero]
  have hnext₃ : c₀.next.next.next = Cursor.start size [] := by
    rw [hnext₂, hlast.next, Nat.add_zero, hsize]
  have htoken₀ : c₀.token = ⟨.word base false, ⟨0, byteSize base.toList⟩, false⟩ := by
    rw [hc₀, hsplit, hfirst.token, Nat.add_zero, Nat.zero_add]
  have htoken₁ : c₀.next.token.kind = .punct "." := by rw [hnext₁, hdot.token]
  have htoken₂ : c₀.next.next.token
      = ⟨.word key false, ⟨byteSize base.toList + 1, size⟩, false⟩ := by
    rw [hnext₂, hlast.token, Nat.add_zero, hsize]
  have hdone : c₀.next.next.next.token.kind = .done := by rw [hnext₃, Begins.done.token]
  have hkind : c₀.token.kind = .word base false := by rw [htoken₀]
  have hends := (Cursor.ends_of_kind (.inl hdone)).endsValue
  have hasync : base ≠ "async" := Rules.ne_of_mem_of_not_mem hwords _ (by decide)
  have halone : Rules.StandsAlone base c₀.next.token.kind := .inr (.inr ⟨hasync, .inl htoken₁⟩)
  have hmode : base ∉ ["const", "var", "let"] := by
    have hreserved := Rules.ne_of_mem_of_not_mem hbase.notReserved
    have hstrict := Rules.ne_of_mem_of_not_mem hbase.notStrict
    simp [hreserved "const" (by decide), hreserved "var" (by decide), hstrict "let" (by decide)]
  have htoken₃ : c₀.next.next.token.kind = .word key false := by rw [htoken₂]
  have hmember := Rules.chain_member (r := rules dialect
    ((base ++ "." ++ key).toList.length + 8) ((base ++ "." ++ key).toList.length + 7)) (c := {})
    (by simp) hkind hbase hasync htoken₁ htoken₃ hends.endsOperand
  have hexpression := Rules.assignmentExpression_of_chain (by simp) hends
    (Rules.arrow?_name hkind halone) (Rules.chainHead_name hkind hbase halone) hmember
  have hread := read_of_expression hc₀ hkind hwords hmode (by rw [htoken₁]; rfl) hdone hexpression
  have hstop : c₀.next.next.next.prevStop = size := by rw [hnext₃]; rfl
  rw [hstop, htoken₀, htoken₂, hbytes] at hread
  exact hread

end Recompose.Script
