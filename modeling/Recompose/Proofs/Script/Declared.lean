import Recompose.Code.Snippet
import Recompose.Proofs.Boundary
import Recompose.Proofs.Script.Written

/-!
# Reading declarations that were written out

A declaration that is put together from names, punctuation and single blanks is read
token by token: `Cursor.At` says what is left of a text at a cursor, and `Chunk` that a
piece of it is one token. On these stand the readings of values (`Rules.ReadsValue`:
names, and calls of functions by their names) and of object patterns, whose properties
are read each with its text (`Rules.bindingPattern_object`).

A snippet of one such declaration requests what it says: the name that it binds
(`ofText_name`), or the properties that it takes out of its value (`ofText_properties`).
-/

namespace Recompose.Script

open Recompose.Script.Parser (Step)

/-! ## Places in a text -/

/-- A cursor in front of what is left of a text. -/
def Cursor.At (source : List Char) (c : Cursor) (cs : List Char) : Prop :=
  ∃ n, Rest source n cs ∧ c = Cursor.start n cs

/-- A piece of a text that is one token, behind a gap. -/
def Chunk (gap text : List Char) (kind : TokenKind) (rest : List Char) : Prop :=
  Begins (gap ++ (text ++ rest)) (byteSize gap) (byteSize text) kind rest

namespace Chunk

variable {gap text rest : List Char} {kind : TokenKind}

theorem name {name : String} (hname : IsName name) (hrest : EndsName rest) :
    Chunk [] name.toList (.word name false) rest := Begins.name hname hrest

theorem blank (h : Chunk [] text kind rest) : Chunk [' '] text kind rest := Begins.blank h

theorem opening (rest : List Char) : Chunk [] ['('] (.punct "(") rest :=
  ⟨fun _ => rfl, fun _ => rfl⟩

theorem closing (rest : List Char) : Chunk [] [')'] (.punct ")") rest :=
  ⟨fun _ => rfl, fun _ => rfl⟩

theorem openingBrace (rest : List Char) : Chunk [] ['\x7b'] (.punct "\x7b") rest :=
  ⟨fun _ => rfl, fun _ => rfl⟩

theorem closingBrace (rest : List Char) : Chunk [] ['\x7d'] (.punct "\x7d") rest :=
  ⟨fun _ => rfl, fun _ => rfl⟩

theorem comma (rest : List Char) : Chunk [] [','] (.punct ",") rest :=
  ⟨fun _ => rfl, fun _ => rfl⟩

theorem colon (rest : List Char) : Chunk [] [':'] (.punct ":") rest :=
  ⟨fun _ => rfl, fun _ => rfl⟩

theorem equals (rest : List Char) : Chunk [] ['='] (.punct "=") (' ' :: rest) :=
  ⟨fun _ => rfl, fun _ => rfl⟩

end Chunk

namespace Cursor.At

variable {source gap text mid rest : List Char} {c c' : Cursor}

theorem start (source : List Char) : (Cursor.start 0 source).At source source :=
  ⟨0, Rest.zero source, rfl⟩

theorem kind {k : TokenKind} (h : c.At source (gap ++ (text ++ rest)))
    (hchunk : Chunk gap text k rest) : c.token.kind = k := by
  obtain ⟨n, -, rfl⟩ := h
  rw [hchunk.token]

theorem next {k : TokenKind} (h : c.At source (gap ++ (text ++ rest)))
    (hchunk : Chunk gap text k rest) : c.next.At source rest := by
  obtain ⟨n, hrest, rfl⟩ := h
  exact ⟨_, hrest.append.append, hchunk.next n⟩

/-- What is read from one cursor up to another is the text between them. -/
theorem chars? {k : TokenKind} (h : c.At source (gap ++ (text ++ mid)))
    (hchunk : Chunk gap text k mid) {whole : List Char} (hwhole : text ++ mid = whole ++ rest)
    (h' : c'.At source rest) :
    (⟨c.token.span.start, c'.prevStop⟩ : Span).chars? source = some whole := by
  obtain ⟨n, hrest, rfl⟩ := h
  obtain ⟨n', hrest', rfl⟩ := h'
  have hwhole' : Rest source (n + byteSize gap) (whole ++ rest) := hwhole ▸ hrest.append
  have hstop : n' = n + byteSize gap + byteSize whole := by
    have hsize := hwhole'.append.byteSize_eq
    rw [hrest'.byteSize_eq] at hsize
    exact Nat.add_right_cancel hsize
  have hslice := hwhole'.chars?
  rw [← hstop] at hslice
  rw [hchunk.token]
  exact hslice

/-- The text of a token. -/
theorem chars?_token {k : TokenKind} (h : c.At source (gap ++ (text ++ rest)))
    (hchunk : Chunk gap text k rest) : c.token.span.chars? source = some text :=
  h.chars? hchunk rfl (h.next hchunk)

end Cursor.At

/-! ## Names -/

/-- A name that can be bound. -/
structure IsBindable (name : String) : Prop where
  isName : IsName name
  notReserved : name ∉ reservedWords
  notAwait : name ≠ "await"

instance (name : String) : Decidable (IsBindable name) :=
  decidable_of_iff (IsName name ∧ name ∉ reservedWords ∧ name ≠ "await")
    ⟨fun h => ⟨h.1, h.2.1, h.2.2⟩, fun h => ⟨h.isName, h.notReserved, h.notAwait⟩⟩

theorem IsOperand.isBindable {name : String} (h : IsOperand name) : IsBindable name :=
  ⟨h.isName, h.notReserved, Rules.ne_of_mem_of_not_mem h.notStrict "await" (by decide)⟩

/-- A key and the name that it is bound to, as they are written in a pattern. -/
def propertyText (pair : String × String) : String :=
  if pair.1 = pair.2 then pair.1 else pair.1 ++ ": " ++ pair.2

/-- Keys are names, and are bound to names that can be bound. -/
structure IsProperty (pair : String × String) : Prop where
  key : IsName pair.1
  bindable : IsBindable pair.2

instance (pair : String × String) : Decidable (IsProperty pair) :=
  decidable_of_iff (IsName pair.1 ∧ IsBindable pair.2)
    ⟨fun h => ⟨h.1, h.2⟩, fun h => ⟨h.key, h.bindable⟩⟩

/-! ## Values -/

namespace Rules

open Gives

variable {source gap text rest : List Char} {r inner : Rules} {c : Context} {name : String}

/-- What is left of a text behind a value: nothing, or a closing parenthesis. -/
def ClosesValue (rest : List Char) : Prop := rest = [] ∨ ∃ rest', rest = ')' :: rest'

theorem ClosesValue.endsName (h : ClosesValue rest) : EndsName rest := by
  rcases h with rfl | ⟨rest', rfl⟩
  · exact endsName_nil
  · exact headNot_cons.mpr (by decide)

theorem ClosesValue.kind (h : ClosesValue rest) {c₀ : Cursor} (hc₀ : c₀.At source rest) :
    c₀.token.kind = .done ∨ c₀.token.kind = .punct ")" := by
  rcases h with rfl | ⟨rest', rfl⟩
  · obtain ⟨n, -, rfl⟩ := hc₀
    exact .inl (by rw [Begins.done.token])
  · exact .inr (hc₀.kind (.closing rest'))

/-- A piece of a text is read as a value. -/
def ReadsValue (r : Rules) (c : Context) (source gap text rest : List Char) : Prop :=
  ∀ c₀ : Cursor, c₀.At source (gap ++ (text ++ rest)) →
    ∃ t c₁, Gives (r.assignmentExpression c) c₀ t c₁ ∧ c₁.At source rest ∧
      t.span.chars? source = some text

theorem readsValue_name (hlimit : 0 < r.limit) (hname : IsOperand name)
    (hchunk : Chunk gap name.toList (.word name false) rest) (hrest : ClosesValue rest) :
    r.ReadsValue c source gap name.toList rest := by
  intro c₀ hc₀
  have hvalue := assignmentExpression_name (c := c) hlimit (hc₀.kind hchunk) hname
    (hrest.kind (hc₀.next hchunk))
  exact ⟨_, _, hvalue, hc₀.next hchunk, hc₀.chars?_token hchunk⟩

/-- A call of a function by its name is read as a value, if its arguments are read. -/
theorem readsValue_call (hlimit : 1 < r.limit) (hname : IsOperand name) (hasync : name ≠ "async")
    {args : List Char}
    (hchunk : Chunk gap name.toList (.word name false) ('(' :: (args ++ ')' :: rest)))
    (hrest : ClosesValue rest)
    (hargs : ∀ c₀ : Cursor, c₀.At source ('(' :: (args ++ ')' :: rest)) →
      ∃ ts c₁, Gives (r.arguments c) c₀ ts c₁ ∧ c₁.At source rest) :
    r.ReadsValue c source gap (name.toList ++ '(' :: (args ++ [')'])) rest := by
  intro c₀ hc₀
  have hwhole : name.toList ++ '(' :: (args ++ ')' :: rest)
      = name.toList ++ '(' :: (args ++ [')']) ++ rest := by simp
  rw [← hwhole] at hc₀
  have hkind := hc₀.kind hchunk
  have hopen : c₀.next.token.kind = .punct "(" :=
    (hc₀.next hchunk).kind (.opening _)
  obtain ⟨ts, c₁, hts, hc₁⟩ := hargs c₀.next (hc₀.next hchunk)
  have hends := (Cursor.ends_of_kind (hrest.kind hc₁)).endsValue
  have halone : StandsAlone name c₀.next.token.kind := .inr (.inr ⟨hasync, .inr hopen⟩)
  have hcall := chain_call hlimit hkind hname hasync hopen hts hends.endsOperand
  have hvalue := assignmentExpression_of_chain (Nat.lt_of_succ_lt hlimit) hends
    (arrow?_name hkind halone) (chainHead_name hkind hname halone) hcall
  exact ⟨_, _, hvalue, hc₁, hc₀.chars? hchunk hwhole hc₁⟩

theorem readsValue_call_nil (hlimit : 1 < r.limit) (hname : IsOperand name)
    (hasync : name ≠ "async")
    (hchunk : Chunk gap name.toList (.word name false) ('(' :: ')' :: rest))
    (hrest : ClosesValue rest) :
    r.ReadsValue c source gap (name.toList ++ ['(', ')']) rest := by
  have hargs : ∀ c₀ : Cursor, c₀.At source ('(' :: ([] ++ ')' :: rest)) →
      ∃ ts c₁, Gives (r.arguments c) c₀ ts c₁ ∧ c₁.At source rest := by
    intro c₀ hc₀
    have hc₁ : c₀.next.At source (')' :: rest) := hc₀.next (.opening _)
    exact ⟨[], _, arguments_nil (Nat.lt_of_succ_lt hlimit) (hc₀.kind (.opening _))
      (hc₁.kind (.closing _)), hc₁.next (.closing _)⟩
  exact @readsValue_call _ _ _ _ _ _ hlimit hname hasync [] hchunk hrest hargs

/-- A piece of a text begins with a word. -/
def BeginsWord (source cs : List Char) : Prop :=
  ∀ c₀ : Cursor, c₀.At source cs → ∃ word, c₀.token.kind = .word word false

theorem readsValue_call_singleton (hlimit : 1 < r.limit)
    (hinner : r.assignment = inner.assignmentExpression) (hname : IsOperand name)
    (hasync : name ≠ "async") {arg : List Char}
    (hchunk : Chunk gap name.toList (.word name false) ('(' :: (arg ++ ')' :: rest)))
    (hrest : ClosesValue rest) (hword : BeginsWord source (arg ++ ')' :: rest))
    (harg : inner.ReadsValue c.bracketed source [] arg (')' :: rest)) :
    r.ReadsValue c source gap (name.toList ++ '(' :: (arg ++ [')'])) rest := by
  refine readsValue_call hlimit hname hasync hchunk hrest ?_
  intro c₀ hc₀
  have hnext : c₀.next.At source (arg ++ ')' :: rest) := hc₀.next (.opening _)
  obtain ⟨t, c₁, ht, hc₁, -⟩ := harg c₀.next hnext
  obtain ⟨word, hkind⟩ := hword c₀.next hnext
  rw [← hinner] at ht
  have hargs := arguments_singleton (Nat.lt_of_succ_lt hlimit) (hc₀.kind (.opening _))
    (by rw [hkind]; rfl) (by rw [hkind]; rfl) ht (hc₁.kind (.closing _))
  exact ⟨[t], _, hargs, hc₁.next (.closing _)⟩

/-! ## Patterns -/

theorem bindingPattern_name {c₀ : Cursor} (hkind : c₀.token.kind = .word name false)
    (hname : IsBindable name) :
    Gives (r.bindingPattern c) c₀ (.leaf (.ident name) c₀.token.span) c₀.next := by
  have hother : (reservedWords.contains name || name == "await") = false := by
    simp [hname.notReserved, hname.notAwait]
  refine position_bind.mpr (kind_bind.mpr ?_)
  rw [hkind]
  refine kind_bind.mpr ?_
  rw [hkind]
  dsimp only
  rw [hother, if_neg Bool.false_ne_true]
  exact get_bind.mpr (advance_bind.mpr (.pure _))

theorem propertyKey_word {c₀ : Cursor} (hkind : c₀.token.kind = .word name false) :
    Gives (r.propertyKey c) c₀ (.leaf (.ident name) c₀.token.span) c₀.next := by
  refine get_bind.mpr (kind_bind.mpr ?_)
  rw [hkind]
  exact advance_bind.mpr (.pure _)

/-- A token behind a property of a pattern. -/
def EndsProperty (kind : TokenKind) : Prop := kind = .punct "," ∨ kind = .punct "\x7d"

theorem EndsProperty.beq_eq_false {kind : TokenKind} (h : EndsProperty kind) {text : String}
    (htext : text ∉ [",", "\x7d"]) : (kind == .punct text) = false := by
  rw [beq_eq_false_iff_ne]
  rintro rfl
  rcases h with h | h <;> exact htext (by simp [TokenKind.punct.inj h])

theorem patternProperty_shorthand {c₀ : Cursor} (hkind : c₀.token.kind = .word name false)
    (hnext : EndsProperty c₀.next.token.kind) :
    Gives (r.patternProperty c) c₀ (.node .patternShorthand
      ⟨c₀.token.span.start, c₀.next.prevStop⟩ [.leaf (.ident name) c₀.token.span]) c₀.next := by
  have hspread : (c₀.token.kind == .punct "...") = false := by
    rw [hkind]
    rfl
  refine atPunct_bind.mpr ?_
  rw [hspread, if_neg Bool.false_ne_true]
  refine position_bind.mpr ((propertyKey_word hkind).bind ?_)
  refine (eat_of_ne (hnext.beq_eq_false (by decide))).bind ?_
  exact (eat_of_ne (hnext.beq_eq_false (by decide))).bind (.pure _)

theorem patternProperty_renamed (hinner : r.pattern = inner.bindingPattern) {c₀ : Cursor}
    (hkind : c₀.token.kind = .word name false) (hcolon : c₀.next.token.kind = .punct ":")
    {localName : String} (hlocal : c₀.next.next.token.kind = .word localName false)
    (hbindable : IsBindable localName) (hnext : EndsProperty c₀.next.next.next.token.kind) :
    Gives (r.patternProperty c) c₀ (.node .patternProperty
      ⟨c₀.token.span.start, c₀.next.next.next.prevStop⟩ [.leaf (.ident name) c₀.token.span,
        .leaf (.ident localName) c₀.next.next.token.span]) c₀.next.next.next := by
  have hspread : (c₀.token.kind == .punct "...") = false := by
    rw [hkind]
    rfl
  have hpattern : Gives (r.pattern c) c₀.next.next
      (.leaf (.ident localName) c₀.next.next.token.span) c₀.next.next.next := by
    rw [hinner]
    exact bindingPattern_name hlocal hbindable
  refine atPunct_bind.mpr ?_
  rw [hspread, if_neg Bool.false_ne_true]
  refine position_bind.mpr ((propertyKey_word hkind).bind ((eat hcolon).bind ?_))
  refine (position_bind.mpr (hpattern.bind ?_)).bind (.pure _)
  exact (eat_of_ne (hnext.beq_eq_false (by decide))).bind (.pure _)

/-- What is left of a text behind a property of a pattern. -/
def ClosesProperty (rest : List Char) : Prop :=
  (∃ rest', rest = ',' :: rest') ∨ ∃ rest', rest = ' ' :: '\x7d' :: rest'

theorem ClosesProperty.endsName (h : ClosesProperty rest) : EndsName rest := by
  rcases h with ⟨rest', rfl⟩ | ⟨rest', rfl⟩ <;> exact headNot_cons.mpr (by decide)

theorem ClosesProperty.kind (h : ClosesProperty rest) {c₀ : Cursor} (hc₀ : c₀.At source rest) :
    EndsProperty c₀.token.kind := by
  rcases h with ⟨rest', rfl⟩ | ⟨rest', rfl⟩
  · exact .inl (hc₀.kind (.comma rest'))
  · exact .inr (hc₀.kind (.blank (.closingBrace rest')))

theorem patternProperty_pair (hinner : r.pattern = inner.bindingPattern) {pair : String × String}
    (hpair : IsProperty pair) (hrest : ClosesProperty rest) {c₀ : Cursor}
    (hc₀ : c₀.At source (' ' :: ((propertyText pair).toList ++ rest))) :
    c₀.token.kind = .word pair.1 false ∧
      ∃ t c₁, Gives (r.patternProperty c) c₀ t c₁ ∧ c₁.At source rest ∧ t.kind ≠ .type ∧
        t.span.chars? source = some (propertyText pair).toList := by
  obtain ⟨key, bound⟩ := pair
  by_cases hsame : key = bound
  · have htext : (propertyText (key, bound)).toList = key.toList := by
      rw [propertyText, if_pos hsame]
    rw [htext] at hc₀ ⊢
    have hchunk : Chunk [' '] key.toList (.word key false) rest :=
      .blank (.name hpair.key hrest.endsName)
    have hnext := hc₀.next hchunk
    exact ⟨hc₀.kind hchunk, _, _, patternProperty_shorthand (hc₀.kind hchunk) (hrest.kind hnext),
      hnext, nofun, hc₀.chars? hchunk rfl hnext⟩
  · have htext : (propertyText (key, bound)).toList = key.toList ++ ':' :: ' ' :: bound.toList := by
      simp [propertyText, hsame]
    have hwhole : key.toList ++ ':' :: ' ' :: bound.toList ++ rest
        = key.toList ++ ':' :: ' ' :: (bound.toList ++ rest) := by simp
    rw [htext, hwhole] at hc₀
    rw [htext]
    have hkey : Chunk [' '] key.toList (.word key false) (':' :: ' ' :: (bound.toList ++ rest)) :=
      .blank (.name hpair.key (headNot_cons.mpr (by decide)))
    have hbound : Chunk [' '] bound.toList (.word bound false) rest :=
      .blank (.name hpair.bindable.isName hrest.endsName)
    have hc₁ : c₀.next.At source (':' :: ' ' :: (bound.toList ++ rest)) := hc₀.next hkey
    have hc₂ : c₀.next.next.At source (' ' :: (bound.toList ++ rest)) := hc₁.next (.colon _)
    have hc₃ := hc₂.next hbound
    exact ⟨hc₀.kind hkey, _, _, patternProperty_renamed hinner (hc₀.kind hkey)
      (hc₁.kind (.colon _)) (hc₂.kind hbound) hpair.bindable (hrest.kind hc₃), hc₃, nofun,
      hc₀.chars? hkey hwhole.symm hc₃⟩

/-- Properties behind the first one of a pattern, up to the end of the pattern. -/
def propertiesTail (pairs : List (String × String)) (rest : List Char) : List Char :=
  pairs.flatMap (fun pair => ',' :: ' ' :: (propertyText pair).toList) ++ ' ' :: '\x7d' :: rest

theorem length_le_propertiesTail (pairs : List (String × String)) (rest : List Char) :
    pairs.length ≤ (propertiesTail pairs rest).length := by
  induction pairs with
  | nil => exact Nat.zero_le _
  | cons pair pairs ih =>
      simp only [propertiesTail, List.flatMap_cons, List.cons_append, List.length_cons,
        List.length_append] at ih ⊢
      omega

/-- The properties of a pattern are read one after the other, each with its text. -/
theorem properties_loop (hinner : r.pattern = inner.bindingPattern)
    {pairs : List (String × String)} {pair : String × String}
    (hpairs : ∀ p ∈ pair :: pairs, IsProperty p) {n : Nat} (hn : pairs.length < n)
    (items : List Tree) {c₀ : Cursor}
    (hc₀ : c₀.At source (' ' :: ((propertyText pair).toList ++ propertiesTail pairs rest))) :
    ∃ ts c₁, Gives (Parser.loop n (commaStep "\x7d" (r.patternProperty c)) items) c₀
        (items.reverse ++ ts) c₁ ∧ c₁.At source rest ∧ (∀ t ∈ ts, t.kind ≠ .type) ∧
      ts.map (·.span.chars? source)
        = (pair :: pairs).map fun p => some (propertyText p).toList := by
  have hbrace : ∀ {c₀ : Cursor} {name : String}, c₀.token.kind = .word name false →
      (c₀.token.kind == .punct "\x7d") = false := by
    intro c₀ name hkind
    rw [hkind]
    rfl
  induction pairs generalizing pair n items c₀ with
  | nil =>
      have htail : ClosesProperty (propertiesTail [] rest) := .inr ⟨rest, rfl⟩
      obtain ⟨hkind, t, c₁, ht, hc₁, htype, htext⟩ := patternProperty_pair (c := c) hinner
        (hpairs pair (List.mem_singleton_self _)) htail hc₀
      have hclose : c₁.token.kind = .punct "\x7d" := hc₁.kind (.blank (.closingBrace rest))
      refine ⟨[t], c₁.next, ?_, hc₁.next (.blank (.closingBrace rest)), by simpa using htype,
        by simp [htext]⟩
      rw [← List.reverse_cons]
      exact .loop hn (commaStep_done (hbrace hkind) ht hclose items)
  | cons second pairs ih =>
      obtain ⟨n, rfl⟩ := Nat.exists_eq_add_of_le' (Nat.lt_of_le_of_lt (Nat.zero_le _) hn)
      obtain ⟨hpair, hpairs⟩ := List.forall_mem_cons.mp hpairs
      have htail : ClosesProperty (propertiesTail (second :: pairs) rest) := .inl ⟨_, rfl⟩
      obtain ⟨hkind, t, c₁, ht, hc₁, htype, htext⟩ := patternProperty_pair (c := c) hinner hpair
        htail hc₀
      have hsplit : propertiesTail (second :: pairs) rest
          = ',' :: ' ' :: ((propertyText second).toList ++ propertiesTail pairs rest) := by
        simp [propertiesTail]
      rw [hsplit] at hc₁
      have hcomma : c₁.token.kind = .punct "," := hc₁.kind (.comma _)
      have hnext : c₁.next.At source
          (' ' :: ((propertyText second).toList ++ propertiesTail pairs rest)) :=
        hc₁.next (.comma _)
      obtain ⟨ts, c₂, hts, hc₂, htypes, htexts⟩ := ih hpairs (Nat.lt_of_succ_lt_succ hn)
        (t :: items) hnext
      refine ⟨t :: ts, c₂, ?_, hc₂, List.forall_mem_cons.mpr ⟨htype, htypes⟩, by
        simp [htext, htexts]⟩
      have hmore := commaStep_more (hbrace hkind) ht (by rw [hcomma]; rfl) hcomma items
      rw [List.reverse_cons, List.append_assoc] at hts
      exact loop_more hmore hts

/-- A tree is an object pattern, with the texts of its properties. -/
structure IsPatternOf (source : List Char) (pairs : List (String × String)) (t : Tree) : Prop where
  kind : t.kind = .objectPattern
  properties : ∀ p ∈ t.parts, p.kind ≠ .type
  texts : t.parts.map (·.span.chars? source) = pairs.map fun p => some (propertyText p).toList

theorem bindingPattern_object (hinner : r.pattern = inner.bindingPattern)
    {pairs : List (String × String)} {pair : String × String} (hlimit : pairs.length < r.limit)
    (hpairs : ∀ p ∈ pair :: pairs, IsProperty p) {c₀ : Cursor}
    (hc₀ : c₀.At source
      (' ' :: '\x7b' :: ' ' :: ((propertyText pair).toList ++ propertiesTail pairs rest))) :
    ∃ t c₁, Gives (r.bindingPattern c) c₀ t c₁ ∧ c₁.At source rest ∧
      IsPatternOf source (pair :: pairs) t := by
  have hkind : c₀.token.kind = .punct "\x7b" := hc₀.kind (.blank (.openingBrace _))
  obtain ⟨ts, c₁, hts, hc₁, htypes, htexts⟩ := properties_loop (c := c) hinner hpairs hlimit []
    (hc₀.next (.blank (.openingBrace _)))
  refine ⟨.node .objectPattern ⟨c₀.token.span.start, c₁.prevStop⟩ ts, c₁, ?_, hc₁, rfl, htypes,
    htexts⟩
  refine position_bind.mpr (kind_bind.mpr ?_)
  rw [hkind]
  exact advance_bind.mpr (Gives.bind hts (.pure _))

/-! ## Declarations -/

theorem declarator_of_value {c₀ c₁ j : Cursor} {pattern value : Tree}
    (hpattern : Gives (r.pattern c) c₀ pattern c₁) (heq : c₁.token.kind = .punct "=")
    (hvalue : Gives (r.assignment c) c₁.next value j) :
    Gives (r.declarator c) c₀
      (.node .declarator ⟨c₀.token.span.start, j.prevStop⟩ [pattern.extend [], value]) j := by
  have hmark : Gives r.skipAssignedMark c₁ () c₁ := by
    refine atPunct_bind.mpr ((Gives.followedByPunct _).bind ?_)
    rw [heq]
    cases r.dialect.typescript <;> exact .pure _
  have htype : Gives (r.typeAscription? c) c₁ [] c₁ := typeAscription?_of_ne (by rw [heq]; rfl)
  refine position_bind.mpr (hpattern.bind (hmark.bind (htype.bind ((eat heq).bind ?_))))
  exact .bind (a := [value]) (hvalue.bind (.pure _)) (.pure _)

theorem beq_semicolon_of_bindingPattern {r : Rules} {c : Context} {t : Tree} {c₀ j : Cursor}
    (h : Gives (r.bindingPattern c) c₀ t j) : (c₀.token.kind == .punct ";") = false := by
  refine beq_eq_false_iff_ne.mpr fun hkind => ?_
  have hmatch := kind_bind.mp (position_bind.mp h)
  rw [hkind] at hmatch
  have hname := kind_bind.mp hmatch
  rw [hkind] at hname
  cases hname

end Rules

/-- A text is a script of one declaration, if what follows its first word is read as one
pattern and its value. -/
theorem read_of_declarator {dialect : Dialect} {source : String} {keyword : String}
    {mode : BindingMode} {pattern value : Tree} {c₀ c₁ j : Cursor}
    (hstart : c₀ = Cursor.start 0 source.toList) (hkind : c₀.token.kind = .word keyword false)
    (hkeyword : keyword ∉ Rules.statementWords)
    (hconst : keyword = "const" → (c₀.next.token.kind == .word "enum" false) = false)
    (hmode : Gives Rules.bindingMode? c₀ (some mode) c₀)
    (hpattern : Gives ((rules dialect (source.toList.length + 8)
      (source.toList.length + 7)).bindingPattern {}) c₀.next pattern c₁)
    (heq : c₁.token.kind = .punct "=")
    (hvalue : Gives ((rules dialect (source.toList.length + 8)
      (source.toList.length + 7)).assignmentExpression {}) c₁.next value j)
    (hdone : j.token.kind = .done) :
    ∃ span inner, Script.read dialect source = .ok ⟨source, dialect,
      .node .program ⟨0, byteSize source.toList⟩ [.node (.declaration mode) span
        [.node .declarator inner [pattern.extend [], value]]]⟩ := by
  have hdeclarator := Rules.declarator_of_value (r := rules dialect (source.toList.length + 8)
    (source.toList.length + 8)) (c := {}) hpattern heq hvalue
  have hdeclarators := Rules.declarators_of_declarator (by simp)
    (Cursor.ends_of_kind (.inl hdone)) (fun _ => Rules.beq_semicolon_of_bindingPattern hpattern)
    hdeclarator
  refine ⟨⟨c₀.token.span.start, j.prevStop⟩, ⟨c₀.next.token.span.start, j.prevStop⟩, ?_⟩
  refine read_of_statement hstart hkind hkeyword hdone ?_
  refine Rules.anyStatement_word hkind hkeyword hconst hmode ?_
  refine Gives.advance_bind.mpr (hdeclarators.bind ?_)
  exact (Rules.endDeclaration_of_end (Rules.endStatement_of_done hdone)).bind (.pure _)

end Recompose.Script

namespace Recompose

open Script

/-! ## Snippets -/

theorem Script.text_eq {source : String} {dialect : Dialect} {tree t : Tree} {text : String}
    (h : t.span.chars? source.toList = some text.toList) :
    Script.text ⟨source, dialect, tree⟩ t = text := by
  simp [Script.text, Script.textAt, Span.slice?, h]

/-- The rules by which the parts of a snippet are read. -/
def snippetRules (source : String) : Rules :=
  rules { typescript := true } (source.toList.length + 8) (source.toList.length + 7)

/-- A snippet of one declaration is the request that its declarator makes. -/
theorem ofText_of_read {source : String} {mode : BindingMode} {span inner : Span}
    {pattern value : Tree} {size : Span} {request : DeclarationRequest}
    (hread : Script.read { typescript := true } source = .ok ⟨source, { typescript := true },
      .node .program size [.node (.declaration mode) span
        [.node .declarator inner [pattern, value]]]⟩)
    (hrequest : declarationRequest? ⟨source, { typescript := true },
      .node .program size [.node (.declaration mode) span
        [.node .declarator inner [pattern, value]]]⟩ mode (.node .declarator inner [pattern, value])
      = some request) : Snippet.ofText source = .declares [request] := by
  unfold Snippet.ofText
  rw [show Reader.read { typescript := true } source = _ from hread]
  simp only [Script.items, Tree.parts, List.mapM_cons, List.mapM_nil, hrequest]
  rfl

/-- A snippet is a request for a name, if its value is read. -/
theorem ofText_name {name value source : String} (hname : IsOperand name)
    (hsource : source = "const " ++ name ++ " = " ++ value)
    (hvalue : (snippetRules source).ReadsValue {} source.toList [' '] value.toList []) :
    Snippet.ofText source = .declares [⟨.viaConst, value, .name name⟩] := by
  have hconst : Chunk [] "const".toList (.word "const" false)
      (' ' :: (name.toList ++ ' ' :: '=' :: ' ' :: (value.toList ++ []))) :=
    .name (by decide) (headNot_cons.mpr (by decide))
  have hbound : Chunk [' '] name.toList (.word name false)
      (' ' :: '=' :: ' ' :: (value.toList ++ [])) :=
    .blank (.name hname.isName (headNot_cons.mpr (by decide)))
  obtain ⟨c₀, hc₀⟩ : ∃ c₀, c₀ = Cursor.start 0 source.toList := ⟨_, rfl⟩
  have hchars : source.toList
      = "const".toList ++ ' ' :: (name.toList ++ ' ' :: '=' :: ' ' :: (value.toList ++ [])) := by
    simp [hsource]
  have h₀ : c₀.At source.toList
      ("const".toList ++ ' ' :: (name.toList ++ ' ' :: '=' :: ' ' :: (value.toList ++ []))) :=
    hchars ▸ hc₀ ▸ Cursor.At.start source.toList
  have h₁ := h₀.next hconst
  have h₂ := h₁.next hbound
  have h₃ : c₀.next.next.next.At source.toList (' ' :: (value.toList ++ [])) :=
    h₂.next (.blank (.equals _))
  obtain ⟨t, j, ht, hj, htext⟩ := hvalue _ h₃
  have hkind := h₁.kind hbound
  have henum : (c₀.next.token.kind == .word "enum" false) = false :=
    Rules.beq_word_of_ne hkind (Rules.ne_of_mem_of_not_mem hname.notStrict _ (by decide))
  have hdone : j.token.kind = .done := by
    obtain ⟨n, -, rfl⟩ := hj
    rw [Begins.done.token]
  have hpattern := Rules.bindingPattern_name (r := snippetRules source) (c := {}) hkind
    hname.isBindable
  obtain ⟨span, inner, hread⟩ := read_of_declarator hc₀
    (h₀.kind hconst) (by decide) (fun _ => henum) (Rules.bindingMode?_const (h₀.kind hconst))
    hpattern (h₂.kind (.blank (.equals _))) ht hdone
  refine ofText_of_read hread ?_
  rw [← Script.text_eq htext]
  rfl

/-- A pattern that takes properties out of a value. -/
def patternText (pairs : List (String × String)) : String :=
  "\x7b " ++ ", ".intercalate (pairs.map propertyText) ++ " \x7d"

theorem toList_patternText (pair : String × String) (pairs : List (String × String))
    (rest : List Char) :
    (patternText (pair :: pairs)).toList ++ rest
      = '\x7b' :: ' ' :: ((propertyText pair).toList ++ Rules.propertiesTail pairs rest) := by
  have htail : (", ".intercalate ((pair :: pairs).map propertyText)).toList ++ ' ' :: '\x7d' :: rest
      = (propertyText pair).toList ++ Rules.propertiesTail pairs rest := by
    induction pairs generalizing pair with
    | nil => rfl
    | cons second pairs ih =>
        rw [List.map_cons, List.map_cons, String.intercalate_cons_cons, ← List.map_cons,
          String.toList_append, List.append_assoc, ih]
        simp [Rules.propertiesTail]
  rw [← htail]
  simp [patternText]

/-- A declarator of an object pattern requests its properties. -/
theorem Script.Rules.IsPatternOf.declarationRequest? {script : Script}
    {pairs : List (String × String)} {pattern value : Tree}
    (h : IsPatternOf script.source.toList pairs pattern) {text : String}
    (htext : script.text value = text) {mode : BindingMode} {span : Span} :
    Recompose.declarationRequest? script mode (.node .declarator span [pattern.extend [], value])
      = some ⟨mode, text, .properties (pairs.map propertyText)⟩ := by
  obtain ⟨kind, inner, parts⟩ := pattern
  obtain rfl : kind = .objectPattern := h.kind
  have hparts : parts.filter (·.kind != .type) = parts :=
    List.filter_eq_self.mpr fun p hp => by simpa using h.properties p hp
  have htexts := congrArg (List.map fun chars? => (chars?.map String.ofList).getD "") h.texts
  simp only [List.map_map, Function.comp_def, Option.map_some, Option.getD_some,
    String.ofList_toList] at htexts
  have hproperties : (patternProperties (.node .objectPattern inner (parts ++ []))).map script.text
      = pairs.map propertyText := by
    rw [List.append_nil, patternProperties]
    show (parts.filter (·.kind != .type)).map script.text = _
    rw [hparts]
    exact htexts
  rw [← htext, ← hproperties]
  rfl

/-- How a snippet that takes properties out of a value begins. -/
def IsDestructuring (keyword : String) (mode : BindingMode) : Prop :=
  keyword = "const" ∧ mode = .viaConst ∨ keyword = "let" ∧ mode = .viaLet

/-- A snippet is a request for properties, if its value is read. -/
theorem ofText_properties {keyword value source : String} {mode : BindingMode}
    (hkeyword : IsDestructuring keyword mode) {pairs : List (String × String)} (hne : pairs ≠ [])
    (hpairs : ∀ p ∈ pairs, IsProperty p)
    (hsource : source = keyword ++ " " ++ patternText pairs ++ " = " ++ value)
    (hvalue : (snippetRules source).ReadsValue {} source.toList [' '] value.toList []) :
    Snippet.ofText source = .declares [⟨mode, value, .properties (pairs.map propertyText)⟩] := by
  obtain ⟨pair, pairs, rfl⟩ := List.exists_cons_of_ne_nil hne
  obtain ⟨behind, hbehind⟩ : ∃ behind, behind = ' ' :: '=' :: ' ' :: (value.toList ++ []) :=
    ⟨_, rfl⟩
  have hword : Chunk [] keyword.toList (.word keyword false)
      (' ' :: ((patternText (pair :: pairs)).toList ++ behind)) := by
    rcases hkeyword with ⟨rfl, -⟩ | ⟨rfl, -⟩ <;>
      exact .name (by decide) (headNot_cons.mpr (by decide))
  have hequals : Chunk [' '] ['='] (.punct "=") (' ' :: (value.toList ++ [])) :=
    .blank (.equals _)
  obtain ⟨c₀, hc₀⟩ : ∃ c₀, c₀ = Cursor.start 0 source.toList := ⟨_, rfl⟩
  have hchars : source.toList
      = keyword.toList ++ ' ' :: ((patternText (pair :: pairs)).toList ++ behind) := by
    simp [hsource, hbehind]
  have h₀ : c₀.At source.toList
      (keyword.toList ++ ' ' :: ((patternText (pair :: pairs)).toList ++ behind)) :=
    hchars ▸ hc₀ ▸ Cursor.At.start source.toList
  have hkind := h₀.kind hword
  have h₁ : c₀.next.At source.toList (' ' :: '\x7b' :: ' ' ::
      ((propertyText pair).toList ++ Rules.propertiesTail pairs behind)) := by
    have hnext := h₀.next hword
    rwa [toList_patternText] at hnext
  have hbrace : c₀.next.token.kind = .punct "\x7b" := h₁.kind (.blank (.openingBrace _))
  have hlimit : pairs.length < (snippetRules source).limit := by
    have hlength := congrArg List.length hchars
    have htail := Rules.length_le_propertiesTail pairs behind
    rw [toList_patternText] at hlength
    simp only [List.length_append, List.length_cons] at hlength
    rw [snippetRules, limit_rules]
    omega
  obtain ⟨pattern, c₁, hpattern, h₂, hshape⟩ := Rules.bindingPattern_object
    (r := snippetRules source) (c := {}) rfl hlimit hpairs h₁
  rw [hbehind] at h₂
  obtain ⟨t, j, ht, hj, htext⟩ := hvalue _ (h₂.next hequals)
  have hdone : j.token.kind = .done := by
    obtain ⟨n, -, rfl⟩ := hj
    rw [Begins.done.token]
  have hmode : Gives Rules.bindingMode? c₀ (some mode) c₀ := by
    rcases hkeyword with ⟨rfl, rfl⟩ | ⟨rfl, rfl⟩
    · exact Rules.bindingMode?_const hkind
    · exact Rules.bindingMode?_let hkind hbrace
  have hstatement : keyword ∉ Rules.statementWords := by
    rcases hkeyword with ⟨rfl, -⟩ | ⟨rfl, -⟩ <;> decide
  obtain ⟨span, inner, hread⟩ := read_of_declarator hc₀
    hkind hstatement (fun _ => by rw [hbrace]; rfl) hmode hpattern (h₂.kind hequals) ht hdone
  refine ofText_of_read hread ?_
  exact hshape.declarationRequest? (Script.text_eq htext)

end Recompose
