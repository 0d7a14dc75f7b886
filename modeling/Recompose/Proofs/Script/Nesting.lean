import Recompose.Proofs.Script.Tokens

/-!
# Nested trees

A tree is `Nested` in a text when every span in it cuts the text between
characters, parts lie inside of what they are parts of, and no two parts
overlap. Blocks and object literals moreover begin with their brace, and all
their parts stand behind it; the statements of a block stand one behind the other.
What a walk looks through has one part, and the key of a member is a name or stands
in brackets.

A parser builds a tree out of what it read between two cursors. `Passage` is
what is known about the way from one cursor to the other: which trees were read
on it, and whether the cursor moved. Passages compose, and a passage closes to
one tree.
-/

namespace Recompose

/-- Two spans have no byte in common, nor does one lie inside of the other. -/
def Span.Apart (a b : Span) : Prop := a.stop ≤ b.start ∨ b.stop ≤ a.start

theorem Span.Apart.symm {a b : Span} (h : a.Apart b) : b.Apart a := Or.symm h

namespace Script

/-! ## Trees -/

/-- Constructs that begin with a brace. -/
def Kind.isBraced : Kind → Bool
  | .block | .object => true
  | _ => false

/-- A name without further parts, or anything in brackets: the keys of members. -/
def Tree.isKey : Tree → Bool
  | .node (.ident _) _ ps | .node .privateName _ ps => ps.isEmpty
  | .node .computedKey _ _ => true
  | _ => false

/-- Whether a construct has the parts that its kind tells of. This matters for what
a walk looks through or leaves out; other constructs take any parts. -/
def Kind.fits : Kind → List Tree → Bool
  | .string _, ps | .thisExpr, ps => ps.isEmpty
  | .paren, ps | .nonNull, ps | .constCast, ps | .update, ps | .target, ps | .computedKey, ps =>
    ps.length == 1
  | .cast, ps | .assign, ps => ps.length == 2
  | .member, [_, key] => key.isKey
  | .member, _ => false
  | _, _ => true

/-- What stands where a name is bound. -/
def Kind.isBinding : Kind → Bool
  | .ident _ | .arrayPattern | .objectPattern => true
  | _ => false

/-- Whether a construct can be made up of parts that no brace stands in front of. -/
def Kind.closes (k : Kind) (ps : List Tree) : Bool := !k.isBraced && k.fits ps

theorem Kind.isBraced_of_closes {k : Kind} {ps : List Tree} (h : k.closes ps = true) :
    k.isBraced = false :=
  (Bool.not_eq_true' _).mp (Bool.and_eq_true_iff.mp h).1

theorem Kind.ne_block_of_closes {k : Kind} {ps : List Tree} (h : k.closes ps = true) :
    k ≠ .block := by
  rintro rfl
  cases h

theorem Kind.fits_of_closes {k : Kind} {ps : List Tree} (h : k.closes ps = true) :
    k.fits ps = true :=
  (Bool.and_eq_true_iff.mp h).2

theorem Kind.closes_of_isBinding {k : Kind} (h : k.isBinding = true) (ps : List Tree) :
    k.closes ps = true := by
  unfold Kind.isBinding at h
  split at h
  · rfl
  · rfl
  · rfl
  · cases h

/-- A brace opens the span, and all trees stand behind it. -/
structure Braced (text : List Char) (s : Span) (ts : List Tree) : Prop where
  brace : ∃ cs, Rest text s.start ('\x7b' :: cs)
  lt_stop : s.start < s.stop
  behind : ∀ t ∈ ts, s.start < t.span.start

/-- Trees that stand one behind the other. -/
def Successive (ts : List Tree) : Prop := ts.Pairwise fun a b => a.span.stop ≤ b.span.start

inductive Tree.Nested (text : List Char) : Tree → Prop where
  | node {k : Kind} {s : Span} {ps : List Tree} (slice : s.IsSlice text)
      (parts : ∀ t ∈ ps, t.Nested text)
      (inside : ∀ t ∈ ps, s.start ≤ t.span.start ∧ t.span.stop ≤ s.stop)
      (apart : ps.Pairwise fun a b => a.span.Apart b.span)
      (braced : k.isBraced = true → Braced text s ps) (ordered : k = .block → Successive ps)
      (fits : k.fits ps = true) : (Tree.node k s ps).Nested text

namespace Tree.Nested

variable {text : List Char} {t : Tree}

theorem isSlice (h : t.Nested text) : t.span.IsSlice text := by
  cases h
  assumption

theorem le (h : t.Nested text) : t.span.start ≤ t.span.stop := h.isSlice.ordered

end Tree.Nested

/-! ## Rows -/

/-- Nested trees between two offsets, apart from each other. -/
structure Row (text : List Char) (lo hi : Nat) (ts : List Tree) : Prop where
  nested : ∀ t ∈ ts, t.Nested text
  inside : ∀ t ∈ ts, lo ≤ t.span.start ∧ t.span.stop ≤ hi
  apart : ts.Pairwise fun a b => a.span.Apart b.span

namespace Row

variable {text : List Char} {lo hi lo' hi' : Nat} {ts us : List Tree} {t : Tree}

theorem nil : Row text lo hi [] := ⟨nofun, nofun, .nil⟩

theorem single (h : t.Nested text) (hlo : lo ≤ t.span.start) (hhi : t.span.stop ≤ hi) :
    Row text lo hi [t] := by
  refine ⟨?_, ?_, List.pairwise_singleton ..⟩
  · rintro _ (_ | _)
    · exact h
    · contradiction
  · rintro _ (_ | _)
    · exact ⟨hlo, hhi⟩
    · contradiction

theorem mono (h : Row text lo hi ts) (hlo : lo' ≤ lo) (hhi : hi ≤ hi') : Row text lo' hi' ts := by
  refine ⟨h.nested, ?_, h.apart⟩
  intro t ht
  exact ⟨Nat.le_trans hlo (h.inside t ht).1, Nat.le_trans (h.inside t ht).2 hhi⟩

/-- One row in front of another. -/
theorem append {mid mid' : Nat} (hts : Row text lo mid ts) (hus : Row text mid' hi us)
    (hmid : mid ≤ mid') (hlo : lo ≤ mid') (hhi : mid ≤ hi) : Row text lo hi (ts ++ us) := by
  refine ⟨?_, ?_, ?_⟩
  · intro t ht
    rcases List.mem_append.mp ht with ht | ht
    · exact hts.nested t ht
    · exact hus.nested t ht
  · intro t ht
    rcases List.mem_append.mp ht with ht | ht
    · exact ⟨(hts.inside t ht).1, Nat.le_trans (hts.inside t ht).2 hhi⟩
    · exact ⟨Nat.le_trans hlo (hus.inside t ht).1, (hus.inside t ht).2⟩
  · refine List.pairwise_append.mpr ⟨hts.apart, hus.apart, ?_⟩
    intro a ha b hb
    have hle : a.span.stop ≤ b.span.start :=
      Nat.le_trans (hts.inside a ha).2 (Nat.le_trans hmid (hus.inside b hb).1)
    exact .inl hle

theorem perm (h : Row text lo hi ts) (hperm : us.Perm ts) : Row text lo hi us where
  nested t ht := h.nested t (hperm.mem_iff.mp ht)
  inside t ht := h.inside t (hperm.mem_iff.mp ht)
  apart := (hperm.pairwise_iff Span.Apart.symm).mpr h.apart

theorem sublist (h : Row text lo hi ts) (hsub : us.Sublist ts) : Row text lo hi us where
  nested t ht := h.nested t (hsub.subset ht)
  inside t ht := h.inside t (hsub.subset ht)
  apart := h.apart.sublist hsub

theorem apart_of_ne {u : Tree} (h : Row text lo hi ts) (ht : t ∈ ts) (hu : u ∈ ts) (hne : t ≠ u) :
    t.span.Apart u.span := by
  have hpair : ts.Pairwise fun a b => a ≠ b → a.span.Apart b.span := by
    refine h.apart.imp ?_
    exact fun hab _ => hab
  have hflip : ts.Pairwise fun a b => b ≠ a → b.span.Apart a.span := by
    refine h.apart.imp ?_
    exact fun hab _ => hab.symm
  exact hpair.forall_of_forall_of_flip (fun _ _ hself => absurd rfl hself) hflip ht hu hne

/-- Other nested trees with the same spans. -/
theorem respan (h : Row text lo hi ts) (hus : ∀ u ∈ us, u.Nested text)
    (hspans : us.map Tree.span = ts.map Tree.span) : Row text lo hi us := by
  refine ⟨hus, ?_, ?_⟩
  · intro u hu
    have hmem : u.span ∈ ts.map Tree.span := hspans ▸ List.mem_map_of_mem hu
    obtain ⟨t, ht, hspan⟩ := List.mem_map.mp hmem
    rw [← hspan]
    exact h.inside t ht
  · have hts : (ts.map Tree.span).Pairwise Span.Apart := List.pairwise_map.mpr h.apart
    rw [← hspans] at hts
    exact List.pairwise_map.mp hts

/-- A row inside of a span makes up a tree. -/
theorem node {k : Kind} {s : Span} (h : Row text s.start s.stop ts) (hslice : s.IsSlice text)
    (hk : k.closes ts = true) : (Tree.node k s ts).Nested text :=
  .node hslice h.nested h.inside h.apart (by simp [Kind.isBraced_of_closes hk])
    (fun hblock => absurd hblock (Kind.ne_block_of_closes hk)) (Kind.fits_of_closes hk)

end Row

/-- A tree in a wrapping that takes no room. -/
theorem Tree.Nested.wrap {text : List Char} {t : Tree} (h : t.Nested text) {k : Kind}
    (hk : k.closes [t] = true) : (Tree.node k t.span [t]).Nested text :=
  (Row.single h (Nat.le_refl _) (Nat.le_refl _)).node h.isSlice hk

theorem Tree.Nested.row {text : List Char} {k : Kind} {s : Span} {ps : List Tree}
    (h : (Tree.node k s ps).Nested text) : Row text s.start s.stop ps := by
  cases h with
  | node _ parts inside apart _ _ _ => exact ⟨parts, inside, apart⟩

/-- The statements of a block. -/
theorem Tree.Nested.successive {text : List Char} {t : Tree} (h : t.Nested text)
    (hk : t.kind = .block) : Successive t.parts := by
  cases h with
  | node _ _ _ _ _ ordered _ => exact ordered hk

theorem Tree.Nested.fits {text : List Char} {t : Tree} (h : t.Nested text) :
    t.kind.fits t.parts = true := by
  cases h
  assumption

/-! ## Passages -/

/-- The way from one cursor to another one: the trees that were read on it, and
whether a token was passed. -/
structure Passage (text : List Char) (moved : Bool) (c₀ : Cursor) (ts : List Tree) (c : Cursor) :
    Prop where
  base : c₀.Sound text
  sound : c.Sound text
  start_le : c₀.token.span.start ≤ c.token.span.start
  prev_le : c₀.prevStop ≤ c.prevStop
  row : Row text c₀.token.span.start c.prevStop ts
  passed : moved = true → c₀.token.span.start ≤ c.prevStop

namespace Passage

variable {text : List Char} {b b' : Bool} {c₀ c₁ c : Cursor} {ts us : List Tree} {k : Kind}

theorem refl (h : c.Sound text) : Passage text false c [] c :=
  ⟨h, h, Nat.le_refl _, Nat.le_refl _, .nil, nofun⟩

theorem trans (h : Passage text b c₀ ts c₁) (h' : Passage text b' c₁ us c) :
    Passage text (b || b') c₀ (ts ++ us) c where
  base := h.base
  sound := h'.sound
  start_le := Nat.le_trans h.start_le h'.start_le
  prev_le := Nat.le_trans h.prev_le h'.prev_le
  row := h.row.append h'.row h.sound.prev_le h.start_le h'.prev_le
  passed := by
    intro hb
    rcases Bool.or_eq_true_iff.mp hb with hb | hb
    · exact Nat.le_trans (h.passed hb) h'.prev_le
    · exact Nat.le_trans h.start_le (h'.passed hb)

/-- Forgets that a token was passed. -/
theorem weaken (h : Passage text b c₀ ts c) : Passage text false c₀ ts c :=
  { h with passed := nofun }

theorem perm (h : Passage text b c₀ ts c) (hperm : us.Perm ts) : Passage text b c₀ us c :=
  { h with row := h.row.perm hperm }

/-- A list that is collected from its end. -/
theorem push {t : Tree} (h : Passage text b c₀ (ts.reverse ++ [t]) c) :
    Passage text b c₀ (t :: ts).reverse c := by
  rwa [List.reverse_cons]

/-- Forgets about some of the trees. -/
theorem sublist (h : Passage text b c₀ ts c) (hsub : us.Sublist ts) : Passage text b c₀ us c :=
  { h with row := h.row.sublist hsub }

theorem drop (h : Passage text b c₀ ts c) : Passage text b c₀ [] c := h.sublist (List.nil_sublist ts)

/-- Past the current token to any place behind it. -/
theorem jump (h : c₀.Sound text) {n : Nat} {cs : List Char} (hcs : Rest text n cs)
    (hn : c₀.token.span.start ≤ n) : Passage text true c₀ [] (Cursor.start n cs) where
  base := h
  sound := .start hcs
  start_le := Nat.le_trans hn (Cursor.Sound.start hcs).prev_le
  prev_le := Nat.le_trans h.prev_le hn
  row := .nil
  passed _ := hn

theorem advance (h : c₀.Sound text) : Passage text true c₀ [] c₀.next := jump h h.after h.start_le

theorem next (h : Passage text b c₀ ts c) : Passage text true c₀ ts c.next := by
  have hnext := h.trans (advance h.sound)
  rwa [Bool.or_true, List.append_nil] at hnext

/-- Goes on at a place behind the one at which the way ended. -/
theorem restart {n m : Nat} {cs ds : List Char} (h : Passage text true c₀ ts (Cursor.start n cs))
    (hcs : Rest text n cs) (hadv : Advances n cs m ds) :
    Passage text true c₀ ts (Cursor.start m ds) := by
  have hm : Rest text m ds := rest_of_advances hcs hadv
  have hpassed : c₀.token.span.start ≤ n := h.passed rfl
  exact
    { base := h.base
      sound := .start hm
      start_le := Nat.le_trans (Nat.le_trans hpassed hadv.le) (Cursor.Sound.start hm).prev_le
      prev_le := Nat.le_trans h.prev_le hadv.le
      row := h.row.mono (Nat.le_refl _) hadv.le
      passed := fun _ => Nat.le_trans hpassed hadv.le }

/-- Where a tree was read, a token was passed. -/
theorem moved {t : Tree} (h : Passage text b c₀ ts c) (ht : t ∈ ts) : Passage text true c₀ ts c := by
  have hle := (h.row.nested t ht).le
  have hin := h.row.inside t ht
  exact { h with passed := fun _ => Nat.le_trans hin.1 (Nat.le_trans hle hin.2) }

/-- The span that a tree has that was read on the way. -/
theorem isSlice (h : Passage text true c₀ ts c) :
    Span.IsSlice ⟨c₀.token.span.start, c.prevStop⟩ text :=
  .of_boundaries (h.passed rfl) ⟨_, h.base.here⟩ h.sound.prev

/-- A nested tree in the place of the trees that were read. -/
theorem replace (h : Passage text true c₀ ts c) {t : Tree} (ht : t.Nested text)
    (hlo : c₀.token.span.start ≤ t.span.start) (hhi : t.span.stop ≤ c.prevStop) :
    Passage text true c₀ [t] c :=
  { h with row := .single ht hlo hhi }

/-- Another nested tree in the place of the last one. -/
theorem respan {t u : Tree} (h : Passage text b c₀ (ts ++ [t]) c) (hu : u.Nested text)
    (hspan : u.span = t.span) : Passage text b c₀ (ts ++ [u]) c := by
  refine { h with row := h.row.respan ?_ (by simp [hspan]) }
  intro v hv
  rcases List.mem_append.mp hv with hv | hv
  · exact h.row.nested v (List.mem_append_left _ hv)
  · rw [List.mem_singleton.mp hv]
    exact hu

/-- The last tree that was read. -/
theorem last {t : Tree} (h : Passage text b c₀ (ts ++ [t]) c) : t.Nested text :=
  h.row.nested t (List.mem_append_right _ (List.mem_singleton_self t))

theorem wrap {t : Tree} (h : Passage text b c₀ (ts ++ [t]) c) (hk : k.closes [t] = true) :
    Passage text b c₀ (ts ++ [.node k t.span [t]]) c :=
  h.respan (h.last.wrap hk) rfl

theorem only {t : Tree} (h : Passage text b c₀ [t] c) : t.Nested text :=
  h.row.nested t (List.mem_singleton_self t)

theorem respanOne {t u : Tree} (h : Passage text b c₀ [t] c) (hu : u.Nested text)
    (hspan : u.span = t.span) : Passage text b c₀ [u] c :=
  (show Passage text b c₀ ([] ++ [t]) c from h).respan hu hspan

theorem wrapOne {t : Tree} (h : Passage text b c₀ [t] c) (hk : k.closes [t] = true) :
    Passage text b c₀ [.node k t.span [t]] c :=
  h.respanOne (h.only.wrap hk) rfl

/-- One tree of all that was read. -/
theorem close (h : Passage text true c₀ ts c) (hk : k.closes us = true) (hperm : us.Perm ts) :
    Passage text true c₀ [.node k ⟨c₀.token.span.start, c.prevStop⟩ us] c :=
  h.replace ((h.row.perm hperm).node h.isSlice hk) (Nat.le_refl _) (Nat.le_refl _)

/-- The tree of a token. -/
theorem leaf (h : c₀.Sound text) (hk : k.closes [] = true) :
    Passage text true c₀ [.leaf k c₀.token.span] c₀.next :=
  (advance h).replace (Row.nil.node h.isSlice hk) (Nat.le_refl _) (Nat.le_refl _)

/-- A tree that was read stands behind all that were read before it. -/
theorem successive {t : Tree} (h : Passage text b c₀ ts c₁) (hts : Successive ts)
    (h' : Passage text b' c₁ [t] c) : Successive (ts ++ [t]) := by
  refine List.pairwise_append.mpr ⟨hts, List.pairwise_singleton .., ?_⟩
  intro a ha u hu
  rw [List.mem_singleton.mp hu]
  exact Nat.le_trans (h.row.inside a ha).2
    (Nat.le_trans h'.base.prev_le (h'.row.inside t (List.mem_singleton_self t)).1)

/-- What was read behind a brace makes up a block or an object. -/
theorem closeBraced (hbase : c₀.Sound text) (hbrace : c₀.token.kind = .punct "\x7b")
    (h : Passage text b c₀.next ts c) (hordered : k = .block → Successive ts)
    (hk : k.fits ts = true) :
    Passage text true c₀ [.node k ⟨c₀.token.span.start, c.prevStop⟩ ts] c := by
  obtain ⟨⟨⟨rest, hrest⟩, -⟩, hstop⟩ := hbase.token.stands _ hbrace
  have hstop : c₀.token.span.stop = c₀.token.span.start + 1 := hstop
  have hall : Passage text true c₀ ts c := (advance hbase).trans h
  have hlt : c₀.token.span.start < c.prevStop := by
    have hprev := h.prev_le
    rw [Cursor.prevStop_next] at hprev
    omega
  have hbehind : ∀ t ∈ ts, c₀.token.span.start < t.span.start := by
    intro t ht
    have hnext := h.base.prev_le
    have hinside := (h.row.inside t ht).1
    rw [Cursor.prevStop_next] at hnext
    omega
  have hhere : Rest text c₀.token.span.start ('\x7b' :: rest) := by
    have heq : '\x7b' :: rest = c₀.here := hrest
    rw [heq]
    exact hbase.here
  have hbraced : Braced text ⟨c₀.token.span.start, c.prevStop⟩ ts := ⟨⟨rest, hhere⟩, hlt, hbehind⟩
  have hnode : (Tree.node k ⟨c₀.token.span.start, c.prevStop⟩ ts).Nested text :=
    .node hall.isSlice hall.row.nested hall.row.inside hall.row.apart (fun _ => hbraced) hordered hk
  exact hall.replace hnode (Nat.le_refl _) (Nat.le_refl _)

end Passage

end Script

end Recompose
