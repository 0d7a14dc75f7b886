import Recompose.Access
import Recompose.Proofs.Script.Nesting

/-!
# Accesses stand apart

What is replaced for two accesses of a nested tree never overlaps. A member of
`this` with a known name is replaced as a whole, and then nothing inside of it
is an access; with a key that is computed only `this` is replaced, and the
accesses of the key stand behind it. Everything else has the accesses of its
parts.
-/

namespace Recompose

open Script (Tree Kind)

/-! ## Where accesses come from -/

/-- Accesses of trees one after the other, each tree in some use or left out. -/
inductive Gathers : List Tree → List Access → Prop where
  | nil : Gathers [] []
  | skip {t : Tree} {ts : List Tree} {as : List Access} (h : Gathers ts as) : Gathers (t :: ts) as
  | cons {t : Tree} {ts : List Tree} {as : List Access} (use : AccessUse) (h : Gathers ts as) :
      Gathers (t :: ts) (accesses use t ++ as)

theorem Gathers.none (ts : List Tree) : Gathers ts [] := by
  induction ts with
  | nil => exact .nil
  | cons t ts ih => exact .skip ih

theorem Gathers.single (use : AccessUse) (t : Tree) : Gathers [t] (accesses use t) := by
  have h : Gathers [t] (accesses use t ++ []) := .cons use .nil
  rwa [List.append_nil] at h

theorem gathers_accessesOfAll (ts : List Tree) : Gathers ts (accessesOfAll ts) := by
  induction ts with
  | nil => exact .nil
  | cons t ts ih =>
      rw [accessesOfAll]
      exact .cons .other ih

/-- A string has no accesses, in parentheses or not. -/
theorem accesses_of_stringValue? (use : AccessUse) (t : Tree) (h : t.stringValue?.isSome = true) :
    accesses use t = [] := by
  unfold Tree.stringValue? at h
  fun_induction Tree.unparen t with
  | case1 s inner ih =>
      rw [accesses]
      exact ih h
  | case2 t =>
      obtain ⟨k, s, ps⟩ := t
      cases k with
      | string v => rw [accesses]
      | _ => cases h

theorem accesses_of_staticName? {key : Tree} (hname : key.staticName?.isSome = true)
    (hkind : key.kind = .computedKey) (use : AccessUse) : accesses use key = [] := by
  obtain ⟨k, s, ps⟩ := key
  cases hkind
  match ps, hname with
  | [inner], hname =>
      have hinner : accesses .other inner = [] := accesses_of_stringValue? .other inner hname
      simp only [accesses, accessesOfAll, hinner, List.append_nil]

/-- The two ways in which a tree comes by its accesses. -/
theorem accesses_node (use : AccessUse) (k : Kind) (s : Span) (ps : List Tree) :
    (∃ receiver key rest, k = .member ∧ ps = [receiver, key] ∧ Gathers [key] rest ∧
        (key.staticName?.isSome = true → rest = []) ∧
        accesses use (.node k s ps) = Access.ofMember s receiver.span key use ++ rest) ∨
      Gathers ps (accesses use (.node k s ps)) := by
  unfold accesses
  split <;> rename_i heq <;> cases heq
  · exact .inr (.none ps)
  · rename_i receiver key
    split
    · refine .inl ⟨receiver, key, _, rfl, rfl, ?_, ?_, rfl⟩
      · split
        · exact .single .other key
        · exact .none _
      · intro hname
        split
        · rename_i hkind
          exact accesses_of_staticName? hname (eq_of_beq hkind) .other
        · rfl
    · exact .inr (.cons .other (.single .other key))
  · exact .inr (.single use _)
  · exact .inr (.cons _ (gathers_accessesOfAll _))
  · exact .inr (.single .assigned _)
  · exact .inr (.single .updated _)
  · exact .inr (.cons _ (gathers_accessesOfAll _))
  · exact .inr (gathers_accessesOfAll ps)

/-! ## Inside of trees -/

theorem Span.Apart.of_inside {a b a' b' : Span} (h : a'.Apart b') (ha : a'.start ≤ a.start)
    (ha' : a.stop ≤ a'.stop) (hb : b'.start ≤ b.start) (hb' : b.stop ≤ b'.stop) : a.Apart b := by
  rcases h with h | h
  · exact .inl (by omega)
  · exact .inr (by omega)

/-- What is replaced for the accesses of a span: pieces of the text inside of the
span and apart from each other. -/
structure Spread (text : List Char) (s : Span) (as : List Access) : Prop where
  slices : ∀ a ∈ as, a.replaced.IsSlice text
  inside : ∀ a ∈ as, s.start ≤ a.replaced.start ∧ a.replaced.stop ≤ s.stop
  apart : as.Pairwise fun a b => a.replaced.Apart b.replaced

variable {text : List Char}

theorem Spread.nil (s : Span) : Spread text s [] := ⟨nofun, nofun, .nil⟩

theorem Spread.single {s : Span} {a : Access} (hslice : a.replaced.IsSlice text)
    (hinside : s.start ≤ a.replaced.start ∧ a.replaced.stop ≤ s.stop) : Spread text s [a] := by
  refine ⟨?_, ?_, List.pairwise_singleton ..⟩
  · rintro _ (_ | _)
    · exact hslice
    · contradiction
  · rintro _ (_ | _)
    · exact hinside
    · contradiction

theorem Spread.mono {s s' : Span} {as : List Access} (h : Spread text s as)
    (hlo : s'.start ≤ s.start) (hhi : s.stop ≤ s'.stop) : Spread text s' as where
  slices := h.slices
  inside a ha := ⟨Nat.le_trans hlo (h.inside a ha).1, Nat.le_trans (h.inside a ha).2 hhi⟩
  apart := h.apart

theorem Spread.append {s : Span} {as bs : List Access} (has : Spread text s as)
    (hbs : Spread text s bs) (hapart : ∀ a ∈ as, ∀ b ∈ bs, a.replaced.Apart b.replaced) :
    Spread text s (as ++ bs) := by
  refine ⟨?_, ?_, List.pairwise_append.mpr ⟨has.apart, hbs.apart, hapart⟩⟩
  · intro a ha
    rcases List.mem_append.mp ha with ha | ha
    · exact has.slices a ha
    · exact hbs.slices a ha
  · intro a ha
    rcases List.mem_append.mp ha with ha | ha
    · exact has.inside a ha
    · exact hbs.inside a ha

theorem Gathers.mem {ts : List Tree} {as : List Access} (h : Gathers ts as) {a : Access}
    (ha : a ∈ as) : ∃ t ∈ ts, ∃ use, a ∈ accesses use t := by
  induction h with
  | nil => cases ha
  | skip _ ih =>
      obtain ⟨t, ht, hmem⟩ := ih ha
      exact ⟨t, List.mem_cons_of_mem _ ht, hmem⟩
  | cons use _ ih =>
      rcases List.mem_append.mp ha with ha | ha
      · exact ⟨_, List.mem_cons_self .., use, ha⟩
      · obtain ⟨t, ht, hmem⟩ := ih ha
        exact ⟨t, List.mem_cons_of_mem _ ht, hmem⟩

/-- Trees that stand apart have accesses that stand apart. -/
theorem Gathers.spread {ts : List Tree} {as : List Access} {s : Span} (h : Gathers ts as)
    (hrow : Script.Row text s.start s.stop ts)
    (hparts : ∀ t ∈ ts, ∀ use, Spread text t.span (accesses use t)) : Spread text s as := by
  induction h with
  | nil => exact .nil s
  | @skip t ts as _ ih =>
      exact ih (hrow.sublist (List.sublist_cons_self t ts))
        fun u hu => hparts u (List.mem_cons_of_mem t hu)
  | @cons t ts as use hrest ih =>
      have hthis := hparts t (List.mem_cons_self ..) use
      obtain ⟨hlo, hhi⟩ := hrow.inside t (List.mem_cons_self ..)
      have hothers := ih (hrow.sublist (List.sublist_cons_self t ts))
        fun u hu => hparts u (List.mem_cons_of_mem t hu)
      refine (hthis.mono hlo hhi).append hothers ?_
      intro a ha b hb
      obtain ⟨u, hu, use', hb⟩ := hrest.mem hb
      have hother := hparts u (List.mem_cons_of_mem t hu) use'
      have hapart := (List.pairwise_cons.mp hrow.apart).1 u hu
      exact hapart.of_inside (hthis.inside a ha).1 (hthis.inside a ha).2 (hother.inside b hb).1
        (hother.inside b hb).2

/-- A member of `this` and the accesses of its key. -/
theorem spread_member {s : Span} {receiver key : Tree} {rest : List Access} {use : AccessUse}
    (hslice : s.IsSlice text) (hrow : Script.Row text s.start s.stop [receiver, key])
    (hrest : Spread text s rest)
    (hinside : ∀ a ∈ rest, key.span.start ≤ a.replaced.start ∧ a.replaced.stop ≤ key.span.stop)
    (hname : key.staticName?.isSome = true → rest = []) :
    Spread text s (Access.ofMember s receiver.span key use ++ rest) := by
  have hreceiver : receiver ∈ [receiver, key] := List.mem_cons_self ..
  unfold Access.ofMember
  split
  · exact hrest
  by_cases hstatic : key.staticName?.isSome = true
  · have hreplaced : Access.replaced ⟨s, receiver.span, key.staticName?, use⟩ = s := if_pos hstatic
    rw [hname hstatic]
    exact .single (hreplaced.symm ▸ hslice) (by rw [hreplaced]; exact ⟨Nat.le_refl _, Nat.le_refl _⟩)
  · have hreplaced : Access.replaced ⟨s, receiver.span, key.staticName?, use⟩ = receiver.span :=
      if_neg hstatic
    have hisSlice := (hrow.nested receiver hreceiver).isSlice
    refine Spread.append (.single (hreplaced.symm ▸ hisSlice) ?_) hrest ?_
    · rw [hreplaced]
      exact hrow.inside receiver hreceiver
    · intro a ha b hb
      rw [List.mem_singleton.mp ha, hreplaced]
      have hapart := (List.pairwise_cons.mp hrow.apart).1 key (List.mem_singleton_self key)
      exact hapart.of_inside (Nat.le_refl _) (Nat.le_refl _) (hinside b hb).1 (hinside b hb).2

/-- The accesses of a nested tree, in any use. -/
theorem spread_accesses {t : Tree} (h : t.Nested text) (use : AccessUse) :
    Spread text t.span (accesses use t) := by
  induction h generalizing use with
  | @node k s ps slice parts inside apart _ _ _ ih =>
      have hrow : Script.Row text s.start s.stop ps := ⟨parts, inside, apart⟩
      rcases accesses_node use k s ps with ⟨receiver, key, rest, -, rfl, hrest, hname, heq⟩ | hgathers
      · rw [heq]
        have hkey := hrow.sublist (List.sublist_cons_self receiver [key])
        have hspread : Spread text key.span rest := by
          refine hrest.spread (.single (hkey.nested key ?_) (Nat.le_refl _) (Nat.le_refl _)) ?_
          · exact List.mem_singleton_self key
          · exact fun t ht => ih t (List.mem_cons_of_mem receiver ht)
        obtain ⟨hlo, hhi⟩ := hkey.inside key (List.mem_singleton_self key)
        exact spread_member slice hrow (hspread.mono hlo hhi) hspread.inside hname
      · exact hgathers.spread hrow ih

/-! ## Offsets beside accesses -/

/-- No replacement for an access of the tree goes across the offset. -/
def Script.Tree.Clear (n : Nat) (t : Tree) : Prop :=
  ∀ use, ∀ a ∈ accesses use t, (Span.point n).Apart a.replaced

namespace Script.Tree

theorem clear_of_outside {t : Tree} {n : Nat} (h : t.Nested text)
    (hn : n ≤ t.span.start ∨ t.span.stop ≤ n) : t.Clear n := by
  intro use a ha
  obtain ⟨hlo, hhi⟩ := (spread_accesses h use).inside a ha
  rcases hn with hn | hn
  · exact .inl (Nat.le_trans hn hlo)
  · exact .inr (Nat.le_trans hhi hn)

theorem clear_node {k : Kind} {s : Span} {ps : List Tree} {n : Nat} (hk : k ≠ .member)
    (hparts : ∀ t ∈ ps, t.Clear n) : (node k s ps).Clear n := by
  intro use a ha
  rcases accesses_node use k s ps with ⟨_, _, _, hmember, _⟩ | hgathers
  · exact absurd hmember hk
  · obtain ⟨t, ht, use', ha⟩ := hgathers.mem ha
    exact hparts t ht use' a ha

/-- An offset in one part stands outside of all others. -/
theorem clear_of_part {k : Kind} {s : Span} {ps : List Tree} {t : Tree} {n : Nat}
    (h : (node k s ps).Nested text) (hk : k ≠ .member) (ht : t ∈ ps) (hclear : t.Clear n)
    (hlo : t.span.start ≤ n) (hhi : n ≤ t.span.stop) : (node k s ps).Clear n := by
  have hrow := h.row
  refine clear_node hk fun u hu => ?_
  by_cases heq : u = t
  · rw [heq]
    exact hclear
  · refine clear_of_outside (hrow.nested u hu) ?_
    rcases hrow.apart_of_ne hu ht heq with hapart | hapart
    · exact .inr (Nat.le_trans hapart hlo)
    · exact .inl (Nat.le_trans hhi hapart)

end Script.Tree

end Recompose
