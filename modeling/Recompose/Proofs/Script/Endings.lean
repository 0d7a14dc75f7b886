import Recompose.Script.Grammar.Modules

/-!
# Where expressions and statements end

A line end alone ends neither an expression nor a statement: what decides is the token
behind it. `TokenKind.goesOn` tells the tokens that a rule behind an operand would take
on any line, and `TokenKind.goesOnInLine` those that it takes on the same line only. Any
other token ends what stands in front of it (`Cursor.Ends`): an operand that was read up
to it is the whole expression. So it is in front of a comma or semicolon, though a list or
statement goes on there (`Cursor.EndsValue`). On a new line, a token that ends all is
`Fresh`, and a statement may end, too; so it may at the end of the script.
-/

namespace Recompose.Script

open Recompose.Script.Parser (Step)

/-! ## Tokens that go on -/

/-- Whether a token can be part of an expression or a declaration in front of it, when a
line ends between them, or can end it. -/
def TokenKind.goesOn : TokenKind → Bool
  | .punct text => [".", "?.", "[", "(", "`", "<", "?", ",", ";"].contains text ||
      Rules.infixOperators.contains text || Rules.assignOperators.contains text
  | .word name false => name == "in" || name == "instanceof"
  | _ => false

/-- Whether a token can be part of an expression in front of it on its line. -/
def TokenKind.goesOnInLine : TokenKind → Bool
  | .punct text => ["!", "++", "--"].contains text
  | .word name false => ["as", "satisfies"].contains name
  | _ => false

namespace TokenKind

def isAnyPunct (texts : List String) : TokenKind → Bool
  | .punct text => texts.contains text
  | _ => false

def isAnyWord (names : List String) : TokenKind → Bool
  | .word name false => names.contains name
  | _ => false

theorem isAnyPunct_iff {kind : TokenKind} {texts : List String} :
    kind.isAnyPunct texts = true ↔ ∃ text ∈ texts, kind = .punct text := by
  cases kind <;> simp [isAnyPunct]

theorem isAnyPunct_mono {kind : TokenKind} {texts texts' : List String}
    (h : kind.isAnyPunct texts = true) (htexts : texts ⊆ texts') : kind.isAnyPunct texts' = true := by
  unfold isAnyPunct at h ⊢
  split at h
  · exact List.contains_iff_mem.mpr (htexts (List.contains_iff_mem.mp h))
  · cases h

theorem isAnyPunct_of_subset {kind : TokenKind} {texts texts' : List String}
    (h : kind.isAnyPunct texts = false) (htexts : texts' ⊆ texts) :
    kind.isAnyPunct texts' = false := by
  rw [Bool.eq_false_iff] at h ⊢
  exact fun hany => h (isAnyPunct_mono hany htexts)

theorem isAnyPunct_of_goesOnInLine {kind : TokenKind} (h : kind.goesOnInLine = false) :
    kind.isAnyPunct ["!", "++", "--"] = false := by
  unfold isAnyPunct
  split
  · exact h
  · rfl

theorem isAnyWord_of_goesOnInLine {kind : TokenKind} (h : kind.goesOnInLine = false) :
    kind.isAnyWord ["as", "satisfies"] = false := by
  unfold isAnyWord
  split
  · exact h
  · rfl

theorem beq_word_of_isAnyWord {kind : TokenKind} {names : List String}
    (h : kind.isAnyWord names = false) (name : String) (hname : name ∈ names) :
    (kind == .word name false) = false := by
  rw [beq_eq_false_iff_ne]
  rintro rfl
  exact absurd (h.symm.trans (List.contains_iff_mem.mpr hname)) nofun

theorem beq_punct_of_isAnyPunct {kind : TokenKind} {texts : List String}
    (h : kind.isAnyPunct texts = false) (text : String) (htext : text ∈ texts) :
    (kind == .punct text) = false := by
  rw [beq_eq_false_iff_ne]
  rintro rfl
  exact absurd (h.symm.trans (List.contains_iff_mem.mpr htext)) nofun

end TokenKind

/-- A cursor on a token of a new line that goes on with nothing. -/
structure Cursor.Fresh (c : Cursor) : Prop where
  newLine : c.token.afterNewline = true
  goesOn : c.token.kind.goesOn = false

/-- A cursor on a token that goes on with nothing where it stands. -/
structure Cursor.Ends (c : Cursor) : Prop where
  goesOn : c.token.kind.goesOn = false
  inLine : c.token.afterNewline = true ∨ c.token.kind.goesOnInLine = false

/-- A cursor on a token that no access, call or operator of one operand goes on with. -/
structure Cursor.EndsOperand (c : Cursor) : Prop where
  goesOn : c.token.kind.isAnyPunct [".", "?.", "[", "(", "`", "<"] = false
  inLine : c.token.afterNewline = true ∨ c.token.kind.isAnyPunct ["!", "++", "--"] = false

/-- A cursor on a token that no expression goes on with. A list or a statement may. -/
structure Cursor.EndsValue (c : Cursor) : Prop where
  goesOn : c.token.kind.goesOn = true → c.token.kind = .punct "," ∨ c.token.kind = .punct ";"
  inLine : c.token.afterNewline = true ∨ c.token.kind.goesOnInLine = false

theorem Cursor.EndsValue.endsOperand {c : Cursor} (h : c.EndsValue) : c.EndsOperand where
  goesOn := by
    have hgoes := h.goesOn
    unfold TokenKind.isAnyPunct
    split
    · rename_i text hkind
      rw [hkind] at hgoes
      rw [Bool.eq_false_iff]
      intro htext
      have hmem := List.contains_iff_mem.mp htext
      simp only [List.mem_cons, List.not_mem_nil, or_false] at hmem
      rcases hmem with rfl | rfl | rfl | rfl | rfl | rfl <;>
        exact (hgoes rfl).elim (absurd · (by decide)) (absurd · (by decide))
    · rfl
  inLine := h.inLine.imp_right TokenKind.isAnyPunct_of_goesOnInLine

theorem Cursor.EndsValue.beq_eq_false {c : Cursor} (h : c.EndsValue) (kind : TokenKind)
    (hkind : kind.goesOn = true) (hcomma : kind ≠ .punct ",") (hsemicolon : kind ≠ .punct ";") :
    (c.token.kind == kind) = false := by
  rw [beq_eq_false_iff_ne]
  rintro rfl
  exact (h.goesOn hkind).elim hcomma hsemicolon

theorem Cursor.Ends.endsValue {c : Cursor} (h : c.Ends) : c.EndsValue :=
  ⟨fun hgoes => absurd (h.goesOn.symm.trans hgoes) nofun, h.inLine⟩

theorem Cursor.Fresh.ends {c : Cursor} (h : c.Fresh) : c.Ends := ⟨h.goesOn, .inl h.newLine⟩

/-- The end of a script and a closing parenthesis end what is in front of them. -/
theorem Cursor.ends_of_kind {c : Cursor} (h : c.token.kind = .done ∨ c.token.kind = .punct ")") :
    c.Ends := by
  rcases h with h | h <;> exact ⟨by rw [h]; rfl, .inr (by rw [h]; rfl)⟩

theorem Cursor.Ends.beq_eq_false {c : Cursor} (h : c.Ends) (kind : TokenKind)
    (hkind : kind.goesOn = true) : (c.token.kind == kind) = false := by
  rw [beq_eq_false_iff_ne]
  rintro rfl
  exact absurd (h.goesOn.symm.trans hkind) nofun

/-! ## Succeeding -/

/-- From one cursor to another, a parser succeeds with a result. -/
def Gives {α : Type} (p : Parser α) (c : Cursor) (a : α) (c' : Cursor) : Prop :=
  p c = .ok (a, c')

namespace Gives

variable {α β σ : Type} {c c' c'' : Cursor} {b : β}

theorem bind {p : Parser α} {f : α → Parser β} {a : α} (hp : Gives p c a c')
    (hf : Gives (f a) c' b c'') : Gives (p >>= f) c b c'' := by
  show (p c >>= fun r => f r.1 r.2) = .ok (b, c'')
  rw [show p c = .ok (a, c') from hp]
  exact hf

theorem pure (b : β) : Gives (pure b) c b c := rfl

theorem get_bind {f : Cursor → Parser β} :
    Gives (MonadState.get >>= f) c b c' ↔ Gives (f c) c b c' := .rfl

theorem kind_bind {f : TokenKind → Parser β} :
    Gives (Parser.kind >>= f) c b c' ↔ Gives (f c.token.kind) c b c' := .rfl

theorem afterNewline_bind {f : Bool → Parser β} :
    Gives (Parser.afterNewline >>= f) c b c' ↔ Gives (f c.token.afterNewline) c b c' := .rfl

theorem position_bind {f : Nat → Parser β} :
    Gives (Parser.position >>= f) c b c' ↔ Gives (f c.token.span.start) c b c' := .rfl

theorem spanFrom_bind {start : Nat} {f : Span → Parser β} :
    Gives (Parser.spanFrom start >>= f) c b c' ↔ Gives (f ⟨start, c.prevStop⟩) c b c' := .rfl

theorem atPunct_bind {text : String} {f : Bool → Parser β} :
    Gives (Parser.atPunct text >>= f) c b c' ↔ Gives (f (c.token.kind == .punct text)) c b c' :=
  .rfl

theorem atWord_bind {name : String} {f : Bool → Parser β} :
    Gives (Parser.atWord name >>= f) c b c'
      ↔ Gives (f (c.token.kind == .word name false)) c b c' := .rfl

theorem atDone_bind {f : Bool → Parser β} :
    Gives (Parser.atDone >>= f) c b c' ↔ Gives (f (c.token.kind == .done)) c b c' := .rfl

theorem atAnyPunct (texts : List String) :
    Gives (Parser.atAnyPunct texts) c (c.token.kind.isAnyPunct texts) c := by
  refine kind_bind.mpr ?_
  cases c.token.kind <;> exact pure _

theorem atAnyWord (names : List String) :
    Gives (Parser.atAnyWord names) c (c.token.kind.isAnyWord names) c := by
  refine kind_bind.mpr ?_
  cases c.token.kind with
  | word name escaped => cases escaped <;> exact pure _
  | punct _ | privateName | number _ | bigint | string _ | done | invalid _ => exact pure _

theorem loop {limit : Nat} (hlimit : 0 < limit) {step : σ → Parser (Step σ β)} {s : σ}
    (h : Gives (step s) c (.done b) c') : Gives (Parser.loop limit step s) c b c' := by
  obtain ⟨n, rfl⟩ := Nat.exists_eq_succ_of_ne_zero (Nat.pos_iff_ne_zero.mp hlimit)
  exact h.bind (.pure b)

theorem atPunct_of_ne {text : String} (h : (c.token.kind == .punct text) = false) :
    Gives (Parser.atPunct text) c false c := by
  rw [← h]
  exact .pure _

theorem eat_of_ne {text : String} (h : (c.token.kind == .punct text) = false) :
    Gives (Parser.eat text) c false c := by
  refine atPunct_bind.mpr ?_
  rw [h]
  exact .pure _

theorem eat_of_ends (h : c.Ends) {text : String} (htext : (TokenKind.punct text).goesOn = true) :
    Gives (Parser.eat text) c false c := eat_of_ne (h.beq_eq_false _ htext)

end Gives

/-! ## Behind an operand -/

namespace Rules

open Gives

variable {r : Rules} {j : Cursor} {c : Context} {c₀ : Cursor} {t : Tree}

theorem eatMark_of_ne {text : String} (h : (j.token.kind == .punct text) = false) :
    Gives (r.eatMark text) j false j := by
  unfold eatMark
  split
  · exact eat_of_ne h
  · exact .pure _

theorem typeAscription?_of_ne (h : (j.token.kind == .punct ":") = false) :
    Gives (r.typeAscription? c) j [] j := (eatMark_of_ne h).bind (.pure _)

theorem chainStep_of_ends (h : j.EndsOperand) (c : Context) (start : Nat) (calls : Bool)
    (tree : Tree) (chained : Bool) :
    Gives (r.chainStep c start calls (tree, chained)) j (.done tree) j := by
  have hgoes := h.goesOn
  refine kind_bind.mpr ?_
  split
  case h_8 => exact .pure _
  -- An exclamation mark behind an operand stands on its line.
  case h_6 =>
    rename_i hkind
    have hnew : j.token.afterNewline = true := by
      rcases h.inLine with hnew | hline
      · exact hnew
      · rw [hkind] at hline
        cases hline
    refine afterNewline_bind.mpr ?_
    rw [hnew, Bool.not_true, Bool.and_false]
    exact .pure _
  all_goals
    rename_i hkind
    rw [hkind] at hgoes
    cases hgoes

theorem operatorHere_of_ends (h : j.EndsValue) :
    ∃ op?, Gives operatorHere j op? j ∧
      ∀ op ∈ op?, infixOperators.contains op = false ∧ assignOperators.contains op = false := by
  have hgoes := h.goesOn
  unfold operatorHere
  simp only [get_bind]
  split
  · rename_i hkind
    rw [hkind] at hgoes
    exact (hgoes rfl).elim (absurd · (by decide)) (absurd · (by decide))
  · rename_i text _ hkind
    rw [hkind] at hgoes
    refine ⟨_, .pure _, ?_⟩
    rintro _ ⟨⟩
    by_cases hgoing : (TokenKind.punct text).goesOn = true
    · rcases hgoes hgoing with h | h <;> cases h <;> decide
    · rw [Bool.not_eq_true, TokenKind.goesOn, Bool.or_eq_false_iff, Bool.or_eq_false_iff] at hgoing
      exact ⟨hgoing.1.2, hgoing.2⟩
  · exact ⟨_, .pure _, nofun⟩

theorem primary_of_chainHead (hwords : c₀.token.kind.isAnyWord ["new", "import", "super"] = false)
    (ht : Gives (r.chainHead c) c₀ t j) : Gives (r.primary c) c₀ t j := by
  have hword := TokenKind.beq_word_of_isAnyWord hwords
  simp only [chainHead, atWord_bind, hword "new" (by simp)] at ht
  rw [if_neg Bool.false_ne_true, atWord_bind, hword "import" (by simp),
    if_neg Bool.false_ne_true, atWord_bind, hword "super" (by simp)] at ht
  exact ht

/-- An operator in front of an operand begins no operand. -/
theorem isAnyPunct_of_chainHead (ht : Gives (r.chainHead c) c₀ t j) {texts : List String}
    (htexts : texts ⊆ ["!", "~", "+", "-", "++", "--"]) :
    c₀.token.kind.isAnyPunct texts = false := by
  rw [Bool.eq_false_iff]
  intro hprefix
  unfold TokenKind.isAnyPunct at hprefix
  split at hprefix
  · rename_i text hkind
    have htext := htexts (List.contains_iff_mem.mp hprefix)
    have hprimary := primary_of_chainHead (by rw [hkind]; rfl) ht
    simp only [primary, get_bind, kind_bind, hkind] at hprimary
    simp only [List.mem_cons, List.not_mem_nil, or_false] at htext
    rcases htext with rfl | rfl | rfl | rfl | rfl | rfl <;> cases hprimary
  · cases hprefix

theorem isAnyWord_of_chainHead (ht : Gives (r.chainHead c) c₀ t j) {names : List String}
    (hnames : names ⊆ ["typeof", "void", "delete", "await", "yield"]) :
    c₀.token.kind.isAnyWord names = false := by
  rw [Bool.eq_false_iff]
  intro hprefix
  unfold TokenKind.isAnyWord at hprefix
  split at hprefix
  · rename_i name hkind
    have hname := hnames (List.contains_iff_mem.mp hprefix)
    simp only [List.mem_cons, List.not_mem_nil, or_false] at hname
    have hprimary : Gives (r.primary c) c₀ t j := by
      refine primary_of_chainHead ?_ ht
      rw [hkind]
      rcases hname with rfl | rfl | rfl | rfl | rfl <;> rfl
    simp only [primary, get_bind, kind_bind, hkind] at hprimary
    rcases hname with rfl | rfl | rfl | rfl | rfl <;> cases hprimary
  · cases hprefix

/-- An angle bracket begins an operand only as markup. -/
theorem beq_angle_of_chainHead (ht : Gives (r.chainHead c) c₀ t j)
    (hmarkup : r.dialect.markup = false) : (c₀.token.kind == .punct "<") = false := by
  rw [beq_eq_false_iff_ne]
  intro hkind
  have hprimary := primary_of_chainHead (by rw [hkind]; rfl) ht
  simp only [primary, get_bind, kind_bind, hkind] at hprimary
  rw [hmarkup] at hprimary
  cases hprimary

theorem chain_of_chainHead (hlimit : 0 < r.limit) (h : j.EndsOperand)
    (ht : Gives (r.chainHead c) c₀ t j) : Gives (r.chain c) c₀ t j :=
  position_bind.mpr (ht.bind (.loop hlimit (chainStep_of_ends h ..)))

/-- An operand with what follows its head has no operator in front of it. -/
theorem prefixed_of_chain (h : j.EndsOperand) {head : Tree} {c₁ : Cursor}
    (hhead : Gives (r.chainHead c) c₀ head c₁) (hchain : Gives (r.chain c) c₀ t j) :
    Gives (r.prefixed c) c₀ t j := by
  refine position_bind.mpr ((atAnyPunct _).bind ?_)
  rw [isAnyPunct_of_chainHead hhead (by simp)]
  refine (atAnyWord _).bind ?_
  rw [isAnyWord_of_chainHead hhead (by simp)]
  refine (atAnyPunct _).bind ?_
  rw [isAnyPunct_of_chainHead hhead (by simp)]
  refine atPunct_bind.mpr ?_
  have hcast : (r.dialect.typescript && !r.dialect.markup && c₀.token.kind == .punct "<")
      = false := by
    cases hmarkup : r.dialect.markup with
    | true => simp
    | false => rw [beq_angle_of_chainHead hhead hmarkup, Bool.and_false]
  rw [hcast]
  refine hchain.bind ((atAnyPunct _).bind (afterNewline_bind.mpr ?_))
  have hstep : (j.token.kind.isAnyPunct ["++", "--"] && !j.token.afterNewline) = false := by
    rcases h.inLine with hnew | hline
    · rw [hnew, Bool.not_true, Bool.and_false]
    · rw [TokenKind.isAnyPunct_of_subset hline (by simp), Bool.false_and]
  rw [hstep]
  exact .pure _

/-- One round of reading operands with operators between them. -/
def operandStep (r : Rules) (c : Context) (start : Nat) (operands : List Tree) :
    Parser (Step (List Tree) Tree) := do
  match ← operatorHere with
  | some op =>
    if infixOperators.contains op then
      skipOperator op
      return .more ((← r.prefixed c) :: operands)
    else return .done (← joined start operands)
  | none =>
    if (← Parser.atWord "instanceof") || (c.allowIn && (← Parser.atWord "in")) then
      Parser.advance
      return .more ((← r.prefixed c) :: operands)
    else if r.dialect.typescript && (← Parser.atAnyWord ["as", "satisfies"]) &&
        !(← Parser.afterNewline) then
      let inner ← joined start operands
      Parser.advance
      if ← Parser.eatWord "const" then return .more [← Parser.node .constCast start [inner]]
      return .more [← Parser.node .cast start [inner, ← r.typeExpr {}]]
    else return .done (← joined start operands)

theorem operandStep_of_ends (h : j.EndsValue) {start : Nat} {operands : List Tree}
    (ht : Gives (joined start operands) j t j) :
    Gives (r.operandStep c start operands) j (.done t) j := by
  obtain ⟨op?, hop, hnone⟩ := operatorHere_of_ends h
  refine hop.bind ?_
  cases op? with
  | some op =>
      dsimp only
      rw [(hnone op rfl).1]
      exact ht.bind (.pure _)
  | none =>
      refine atWord_bind.mpr (atWord_bind.mpr ?_)
      rw [h.beq_eq_false (.word "instanceof" false) rfl nofun nofun,
        h.beq_eq_false (.word "in" false) rfl nofun nofun, Bool.and_false, Bool.or_false]
      refine (atAnyWord _).bind (afterNewline_bind.mpr ?_)
      have hcast : (r.dialect.typescript && j.token.kind.isAnyWord ["as", "satisfies"] &&
          !j.token.afterNewline) = false := by
        rcases h.inLine with hnew | hline
        · rw [hnew, Bool.not_true, Bool.and_false]
        · rw [TokenKind.isAnyWord_of_goesOnInLine hline, Bool.and_false, Bool.false_and]
      rw [hcast]
      exact ht.bind (.pure _)

theorem operation_of_prefixed (hlimit : 0 < r.limit) (h : j.EndsValue)
    (ht : Gives (r.prefixed c) c₀ t j) : Gives (r.operation c) c₀ t j :=
  position_bind.mpr (ht.bind (.loop hlimit (operandStep_of_ends h (.pure _))))

theorem conditional_of_operation (h : j.EndsValue) (ht : Gives (r.operation c) c₀ t j) :
    Gives (r.conditional c) c₀ t j := by
  have hmark := h.beq_eq_false (.punct "?") rfl (by decide) (by decide)
  exact position_bind.mpr (ht.bind ((eat_of_ne hmark).bind (.pure _)))

/-- What no arrow function begins, and was read up to the cursor, stays as it is. -/
theorem assignmentExpression_of_conditional (h : j.EndsValue)
    (hyield : (c.inGenerator && c₀.token.kind == .word "yield" false) = false)
    (harrow : Gives (r.arrow? c) c₀ none c₀) (ht : Gives (r.conditional c) c₀ t j) :
    Gives (r.assignmentExpression c) c₀ t j := by
  obtain ⟨op?, hop, hnone⟩ := operatorHere_of_ends h
  refine position_bind.mpr (atWord_bind.mpr ?_)
  rw [hyield]
  refine harrow.bind (ht.bind (hop.bind ?_))
  cases op? with
  | some op =>
      dsimp only
      rw [(hnone op rfl).2]
      exact .pure _
  | none => exact .pure _

theorem assignmentExpression_of_chain (hlimit : 0 < r.limit) (h : j.EndsValue)
    (harrow : Gives (r.arrow? c) c₀ none c₀) {head : Tree} {c₁ : Cursor}
    (hhead : Gives (r.chainHead c) c₀ head c₁) (ht : Gives (r.chain c) c₀ t j) :
    Gives (r.assignmentExpression c) c₀ t j := by
  have hwords : c₀.token.kind.isAnyWord ["yield"] = false := isAnyWord_of_chainHead hhead (by simp)
  have hyield := TokenKind.beq_word_of_isAnyWord hwords "yield" (by simp)
  refine assignmentExpression_of_conditional h ?_ harrow (conditional_of_operation h ?_)
  · rw [hyield, Bool.and_false]
  · exact operation_of_prefixed hlimit h (prefixed_of_chain h.endsOperand hhead ht)

theorem assignmentExpression_of_chainHead (hlimit : 0 < r.limit) (h : j.EndsValue)
    (harrow : Gives (r.arrow? c) c₀ none c₀) (ht : Gives (r.chainHead c) c₀ t j) :
    Gives (r.assignmentExpression c) c₀ t j :=
  assignmentExpression_of_chain hlimit h harrow ht (chain_of_chainHead hlimit h.endsOperand ht)

theorem expression_of_assignment (h : (j.token.kind == .punct ",") = false)
    (ht : Gives (r.assignment c) c₀ t j) : Gives (r.expression c) c₀ t j := by
  refine position_bind.mpr (ht.bind (atPunct_bind.mpr ?_))
  rw [h]
  exact .pure _

theorem endStatement_of_fresh (h : j.Fresh) : Gives Parser.endStatement j () j := by
  refine (eat_of_ends h.ends rfl).bind (atPunct_bind.mpr (atDone_bind.mpr (afterNewline_bind.mpr ?_)))
  rw [h.newLine, Bool.or_true]
  exact .pure _

theorem endStatement_of_done (h : j.token.kind = .done) : Gives Parser.endStatement j () j := by
  refine (eat_of_ends (Cursor.ends_of_kind (.inl h)) rfl).bind
    (atPunct_bind.mpr (atDone_bind.mpr (afterNewline_bind.mpr ?_)))
  rw [h]
  exact .pure _

theorem strayOperator?_of_ends (h : j.EndsValue) : Gives strayOperator? j none j := by
  obtain ⟨op?, hop, hnone⟩ := operatorHere_of_ends h
  have hfilter : op?.filter (infixOperators.contains ·) = none :=
    Option.filter_eq_none_iff.mpr fun op heq => by rw [(hnone op heq).1]; exact Bool.false_ne_true
  refine hop.bind (afterNewline_bind.mpr ?_)
  rw [hfilter]
  split <;> exact .pure _

theorem endExpression_of_ends (h : j.EndsValue) (hend : Gives Parser.endStatement j () j)
    (start : Nat) :
    Gives (r.endExpression c start t) j (.node .exprStmt ⟨start, j.prevStop⟩ [t]) j := by
  have hnode : Gives (do Parser.endStatement; Parser.node .exprStmt start [t]) j
      (.node .exprStmt ⟨start, j.prevStop⟩ [t]) j := hend.bind (.pure _)
  unfold endExpression
  split
  · exact (strayOperator?_of_ends h).bind hnode
  · exact hnode

theorem endDeclaration_of_end (hend : Gives Parser.endStatement j () j) :
    Gives (r.endDeclaration c) j () j := by
  unfold endDeclaration
  split
  · have hattempt : Gives (Parser.attempt Parser.endStatement) j (some ()) j := by
      unfold Gives Parser.attempt
      rw [hend]
    exact hattempt.bind (.pure _)
  · exact hend

/-- An expression that was read up to the cursor is a statement of its own. -/
theorem expressionStatement_of_assignment (h : j.Ends)
    (hend : Gives Parser.endStatement j () j) (hlabel : Gives labels c₀ false c₀)
    (ht : Gives (r.assignment { c with allowIn := true }) c₀ t j) :
    Gives (r.expressionStatement c) c₀
      (.node .exprStmt ⟨c₀.token.span.start, j.prevStop⟩ [t]) j := by
  refine position_bind.mpr (hlabel.bind ?_)
  exact (expression_of_assignment (h.beq_eq_false (.punct ",") rfl) ht).bind
    (endExpression_of_ends h.endsValue hend _)

/-- A lenient parser takes no semicolon for a variable. -/
theorem declarators_of_declarator (hlimit : 0 < r.limit) (h : j.Ends)
    (hstart : r.dialect.lenient = true → (c₀.token.kind == .punct ";") = false)
    (ht : Gives (r.declarator c) c₀ t j) : Gives (r.declarators c) c₀ [t] j := by
  have hstep : Gives (r.declaratorStep c []) c₀ (.done [t]) j :=
    ht.bind ((eat_of_ends h rfl).bind (.pure _))
  refine .loop hlimit ?_
  dsimp only
  split
  · rename_i hlenient
    refine atPunct_bind.mpr ?_
    rw [hstart hlenient]
    exact hstep
  · exact hstep

end Rules

end Recompose.Script
