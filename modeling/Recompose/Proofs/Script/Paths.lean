import Recompose.Proofs.Accesses
import Recompose.Proofs.Entries
import Recompose.Script.Component

/-!
# The way to a part of a script

The objects and functions into which code is put are found by walking down from
an item of the script. No tree on the way is a member access, so an offset that
no access goes across down there is one that no access goes across at the top.
-/

namespace Recompose.Script

variable {text : List Char}

/-! ## Ways down -/

/-- A tree is, or is somewhere inside of, another one, without a member access on
the way. -/
inductive Tree.Holds : Tree → Tree → Prop where
  | here (t : Tree) : t.Holds t
  | part {k : Kind} {s : Span} {ps : List Tree} {t u : Tree} (hk : k ≠ .member) (ht : t ∈ ps)
      (h : t.Holds u) : (node k s ps).Holds u

namespace Tree.Holds

variable {t u v : Tree}

theorem trans (h : t.Holds u) (h' : u.Holds v) : t.Holds v := by
  induction h with
  | here => exact h'
  | part hk ht _ ih => exact .part hk ht (ih h')

theorem nested (h : t.Holds u) (ht : t.Nested text) : u.Nested text := by
  induction h with
  | here => exact ht
  | part _ hmem _ ih => exact ih (ht.row.nested _ hmem)

theorem inside (h : t.Holds u) (ht : t.Nested text) :
    t.span.start ≤ u.span.start ∧ u.span.stop ≤ t.span.stop := by
  induction h with
  | here => exact ⟨Nat.le_refl _, Nat.le_refl _⟩
  | part _ hmem _ ih =>
      obtain ⟨hlo, hhi⟩ := ht.row.inside _ hmem
      obtain ⟨hlo', hhi'⟩ := ih (ht.row.nested _ hmem)
      exact ⟨Nat.le_trans hlo hlo', Nat.le_trans hhi' hhi⟩

/-- What stands clear down there stands clear at the top. -/
theorem clear {n : Nat} (h : t.Holds u) (ht : t.Nested text) (hclear : u.Clear n)
    (hlo : u.span.start ≤ n) (hhi : n ≤ u.span.stop) : t.Clear n := by
  induction h with
  | here => exact hclear
  | part hk hmem hway ih =>
      have hpart := ht.row.nested _ hmem
      obtain ⟨hlo', hhi'⟩ := hway.inside hpart
      exact clear_of_part ht hk hmem (ih hpart hclear hlo hhi) (Nat.le_trans hlo' hlo)
        (Nat.le_trans hhi hhi')

end Tree.Holds

theorem Tree.holds_unparen (t : Tree) : t.Holds t.unparen := by
  fun_induction Tree.unparen t with
  | case1 s inner ih => exact .part (by simp) (List.mem_singleton_self inner) ih
  | case2 t => exact .here t

/-! ## Behind a brace -/

theorem Tree.Nested.braced {t : Tree} (h : t.Nested text) (hk : t.kind.isBraced = true) :
    Braced text t.span t.parts := by
  cases h with
  | node _ _ _ _ braced _ _ => exact braced hk

/-- Right behind the brace of a block or an object is a place for code. -/
theorem Braced.isBoundary {s : Span} {ts : List Tree} (h : Braced text s ts) :
    IsBoundary text (s.start + 1) := by
  obtain ⟨cs, hbrace⟩ := h.brace
  exact ⟨cs, hbrace.tail⟩

theorem Tree.clear_behind_brace {t : Tree} (h : t.Nested text) (hk : t.kind.isBraced = true) :
    t.Clear (t.span.start + 1) := by
  obtain ⟨k, s, ps⟩ := t
  have hmember : k ≠ .member := by
    rintro rfl
    cases hk
  refine clear_node hmember fun u hu => ?_
  exact clear_of_outside (h.row.nested u hu) (.inl ((h.braced hk).behind u hu))

/-! ## Options objects -/

theorem optionsObject?_holds {value object : Tree} (h : optionsObject? value = some object) :
    value.Holds object ∧ object.kind = .object := by
  have hway := value.holds_unparen
  unfold optionsObject? at h
  dsimp only at h
  split at h
  · rename_i s ps heq
    cases h
    rw [heq] at hway ⊢
    exact ⟨hway, rfl⟩
  · rename_i s callee rest heq
    rw [heq] at hway
    split at h
    · rename_i arg hfilter
      have harg : arg ∈ rest := (List.mem_filter.mp (hfilter ▸ List.mem_singleton_self arg)).1
      split at h
      · cases h
      · split at h
        · rename_i hkind
          cases h
          refine ⟨hway.trans (.part nofun (List.mem_cons_of_mem callee harg) arg.holds_unparen), ?_⟩
          exact eq_of_beq hkind
        · cases h
    · cases h
  · cases h

/-- The object of a component stands in its default export. -/
theorem componentIn_holds {items : List Tree} {c : Component}
    (h : componentIn items = .ok (some c)) :
    ∃ item ∈ items, item.kind = .exportDefault ∧ item.span = c.exportSpan ∧
      item.Holds c.object ∧ c.object.kind = .object := by
  induction items with
  | nil => cases h
  | cons item items ih =>
      unfold componentIn at h
      split at h
      · rename_i s value rest
        split at h
        · rename_i object hobject
          cases h
          obtain ⟨hway, hkind⟩ := optionsObject?_holds hobject
          refine ⟨_, List.mem_cons_self .., rfl, rfl, ?_, hkind⟩
          exact .part nofun (List.mem_cons_self ..) hway
        · cases h
      · cases h
      · obtain ⟨item', hmem, hfound⟩ := ih h
        exact ⟨item', List.mem_cons_of_mem _ hmem, hfound⟩

theorem Tree.holds_argument (t : Tree) : t.Holds t.argument := by
  unfold Tree.argument
  split
  · rename_i s e
    exact .part nofun (List.mem_singleton_self e) e.holds_unparen
  · exact t.holds_unparen

theorem definedOptions?_holds {item object : Tree} (h : definedOptions? item = some object) :
    item.Holds object ∧ object.kind = .object := by
  unfold definedOptions? at h
  split at h
  · rename_i s s' name ps rest
    split at h
    · rename_i arg others hfilter
      have harg : arg ∈ rest := (List.mem_filter.mp (hfilter ▸ List.mem_cons_self ..)).1
      split at h
      · rename_i hkind
        cases h
        refine ⟨.part nofun (List.mem_singleton_self _) ?_, eq_of_beq hkind⟩
        exact .part nofun (List.mem_cons_of_mem _ harg) arg.holds_argument
      · cases h
    · cases h
  · cases h

/-! ## Properties and functions -/

theorem option?_holds {property value : Tree} {name : String}
    (h : property.option? = some (name, value)) : property.Holds value := by
  -- What a key names is the option; the tree beside it is the value.
  have hvalue : ∀ {key? : Option String} {t : Tree},
      key?.map (fun key => (key, t)) = some (name, value) → t = value := by
    intro key? t hmap
    obtain ⟨_, -, hpair⟩ := Option.map_eq_some_iff.mp hmap
    exact congrArg Prod.snd hpair
  unfold Tree.option? at h
  split at h
  · rw [← hvalue h]
    exact .part nofun (List.mem_cons_of_mem _ (List.mem_singleton_self _)) (.here _)
  · rw [← hvalue h]
    exact .here _
  · rw [← hvalue h]
    exact .here _
  · rw [← hvalue h]
    exact .here _
  · cases h

theorem properties_holds {object value : Tree} {name : String} (hkind : object.kind ≠ .member)
    (h : object.properties.get? name = some value) : object.Holds value := by
  obtain ⟨k, s, ps⟩ := object
  obtain ⟨property, hmem, hoption⟩ := List.mem_filterMap.mp (Entries.mem_of_mem_ofPairs (Entries.mem_of_get? h))
  exact .part hkind hmem (option?_holds hoption)

theorem callable_holds {t block : Tree} {form : Form} {isAsync isGenerator : Bool}
    (hkind : t.kind ≠ .member) (h : (t.callable form isAsync isGenerator).body = .block block) :
    t.Holds block ∧ block.kind = .block := by
  obtain ⟨k, s, ps⟩ := t
  have hbody : (ps.findSome? Tree.body?).getD .missing = .block block := h
  cases hfound : ps.findSome? Tree.body? with
  | none =>
      rw [hfound] at hbody
      cases hbody
  | some body =>
      rw [hfound] at hbody
      cases hbody
      obtain ⟨part, hmem, hpart⟩ := List.exists_of_findSome?_eq_some hfound
      unfold Tree.body? at hpart
      split at hpart <;> cases hpart
      exact ⟨.part hkind hmem (.here _), rfl⟩

/-- The body of a function that a value is. -/
theorem asFunction?_holds {value block : Tree} {f : Callable} (h : value.asFunction? = some f)
    (hbody : f.body = .block block) : value.Holds block ∧ block.kind = .block := by
  unfold Tree.asFunction? at h
  split at h
  · rename_i hkind
    cases h
    exact callable_holds (hkind ▸ nofun) hbody
  · rename_i hkind
    cases h
    exact callable_holds (hkind ▸ nofun) hbody
  · obtain ⟨inner, hinner, hf⟩ := Option.bind_eq_some_iff.mp h
    have hway : value.Holds inner := by
      unfold Tree.expression? at hinner
      split at hinner <;> cases hinner
      exact value.holds_unparen
    split at hf
    · rename_i hkind
      cases hf
      obtain ⟨hblock, hbraced⟩ := callable_holds (hkind ▸ nofun) hbody
      exact ⟨hway.trans hblock, hbraced⟩
    · rename_i hkind
      cases hf
      obtain ⟨hblock, hbraced⟩ := callable_holds (hkind ▸ nofun) hbody
      exact ⟨hway.trans hblock, hbraced⟩
    · cases hf

end Recompose.Script
