import Mathlib.Data.List.Induction
import Recompose.Entries

/-!
# Where entries come from

What is found under a name was put there under it. Values that are taken in one
after the other, each under its name, end up in groups: one for each name, in the
order in which the names first appear (`group_eq_map`).
-/

namespace Recompose.Entries

variable {α : Type} {entries : Entries α}

theorem mem_of_mem_put {name : String} {value : α} {x : String × α}
    (h : x ∈ entries.put name value) : x ∈ entries ∨ x = (name, value) := by
  induction entries with
  | nil => exact .inr (List.mem_singleton.mp h)
  | cons e entries ih =>
      unfold Entries.put at h
      split at h
      · rename_i hname
        rcases List.mem_cons.mp h with rfl | h
        · exact .inr (by rw [hname])
        · exact .inl (List.mem_cons_of_mem _ h)
      · rcases List.mem_cons.mp h with rfl | h
        · exact .inl (List.mem_cons_self ..)
        · exact (ih h).imp_left (List.mem_cons_of_mem _)

theorem mem_of_mem_ofPairs {pairs : List (String × α)} {x : String × α}
    (h : x ∈ Entries.ofPairs pairs) : x ∈ pairs := by
  suffices hfold : ∀ entries : Entries α,
      x ∈ pairs.foldl (fun entries p => entries.put p.1 p.2) entries → x ∈ entries ∨ x ∈ pairs by
    rcases hfold [] h with hnil | hmem
    · cases hnil
    · exact hmem
  clear h
  induction pairs with
  | nil => exact fun _ h => .inl h
  | cons p pairs ih =>
      intro entries h
      rcases ih (entries.put p.1 p.2) h with h | h
      · rcases mem_of_mem_put h with h | rfl
        · exact .inl h
        · exact .inr (List.mem_cons_self ..)
      · exact .inr (List.mem_cons_of_mem _ h)

/-- Putting a value under a new name adds it at the end. -/
theorem put_of_not_mem {name : String} {value : α} (h : name ∉ entries.names) :
    entries.put name value = entries ++ [(name, value)] := by
  induction entries with
  | nil => rfl
  | cons e rest ih =>
      obtain ⟨n, v⟩ := e
      have hn : n ≠ name := fun hn => h (hn ▸ List.mem_cons_self ..)
      have hrest : name ∉ names rest := fun hmem => h (List.mem_cons_of_mem _ hmem)
      rw [put, if_neg hn, ih hrest]
      rfl

/-- Writing to a name keeps its place, and adds it at the end when it is new. -/
theorem names_put (name : String) (value : α) :
    (entries.put name value).names
      = if name ∈ entries.names then entries.names else entries.names ++ [name] := by
  induction entries with
  | nil => rfl
  | cons e entries ih =>
      obtain ⟨n, v⟩ := e
      unfold Entries.put
      by_cases hname : n = name
      · simp [names, hname]
      · rw [if_neg hname]
        unfold names at ih ⊢
        rw [List.map_cons, ih]
        by_cases hmem : name ∈ entries.map (·.1)
        · simp [hmem]
        · simp [hmem, Ne.symm hname]

theorem nodup_names_put (h : entries.names.Nodup) (name : String) (value : α) :
    (entries.put name value).names.Nodup := by
  rw [names_put]
  split
  · exact h
  · rename_i hmem
    exact List.nodup_append.mpr ⟨h, List.pairwise_singleton _ _, by
      rintro a ha b hb rfl
      exact hmem (List.mem_singleton.mp hb ▸ ha)⟩

theorem mem_of_get? {name : String} {value : α}
    (h : entries.get? name = some value) : (name, value) ∈ entries := by
  obtain ⟨front, back, rfl, -⟩ := List.lookup_eq_some_iff.mp h
  exact List.mem_append_right _ (List.mem_cons_self ..)

/-- What holds of every value still holds after one of them has changed. -/
theorem forall_mem_update {P : α → Prop} {name : String} {fresh : α} {f : α → α}
    (h : ∀ x ∈ entries, P x.2) (hfresh : P fresh) (hf : ∀ a, P a → P (f a)) :
    ∀ x ∈ entries.update name fresh f, P x.2 := by
  intro x hx
  rcases mem_of_mem_put hx with hx | rfl
  · exact h x hx
  · refine hf _ ?_
    cases hget : entries.get? name with
    | none => exact hfresh
    | some a => exact h _ (mem_of_get? hget)

/-! ## First occurrences -/

section FirstOccurrences

variable {β : Type} [BEq β] [LawfulBEq β]

theorem eraseDups_concat (xs : List β) (x : β) :
    (xs ++ [x]).eraseDups = if xs.contains x then xs.eraseDups else xs.eraseDups ++ [x] := by
  rw [List.eraseDups_append, List.removeAll]
  cases h : xs.contains x
  · rw [List.filter_cons_of_pos (by rw [List.elem_eq_contains, h]; rfl)]
    rfl
  · rw [List.filter_cons_of_neg (by rw [List.elem_eq_contains, h]; decide)]
    exact List.append_nil _

theorem nodup_eraseDups (xs : List β) : xs.eraseDups.Nodup := by
  induction xs using List.reverseRecOn with
  | nil => exact .nil
  | append_singleton xs x ih =>
      rw [eraseDups_concat]
      split
      · exact ih
      · rename_i hx
        refine List.nodup_append.mpr ⟨ih, List.pairwise_singleton _ _, ?_⟩
        rintro a ha b hb rfl
        rw [List.mem_singleton.mp hb, List.mem_eraseDups] at ha
        exact hx (List.contains_iff_mem.mpr ha)

theorem eraseDups_of_nodup {xs : List β} (h : xs.Nodup) : xs.eraseDups = xs := by
  induction xs using List.reverseRecOn with
  | nil => rfl
  | append_singleton xs x ih =>
      obtain ⟨hxs, -, hdisjoint⟩ := List.nodup_append.mp h
      have hnew : xs.contains x = false := by
        rw [Bool.eq_false_iff, Ne, List.contains_iff_mem]
        exact fun hx => hdisjoint x hx x (List.mem_singleton_self _) rfl
      rw [eraseDups_concat, hnew, ih hxs]
      rfl

/-- First occurrences stay first occurrences under a function that tells the elements of
the list apart. -/
theorem eraseDups_map {γ : Type} [BEq γ] [LawfulBEq γ] {f : β → γ} {xs : List β}
    (hf : ∀ a ∈ xs, ∀ b ∈ xs, f a = f b → a = b) :
    (xs.map f).eraseDups = xs.eraseDups.map f := by
  induction xs using List.reverseRecOn with
  | nil => rfl
  | append_singleton xs x ih =>
      have hcontains : (xs.map f).contains (f x) = xs.contains x := by
        rw [Bool.eq_iff_iff, List.contains_iff_mem, List.contains_iff_mem, List.mem_map]
        constructor
        · rintro ⟨a, ha, heq⟩
          rwa [← hf a (List.mem_append_left _ ha) x
            (List.mem_append_right _ (List.mem_singleton_self _)) heq]
        · exact fun hx => ⟨x, hx, rfl⟩
      rw [List.map_append, List.map_singleton, eraseDups_concat, eraseDups_concat, hcontains,
        ih fun a ha b hb => hf a (List.mem_append_left _ ha) b (List.mem_append_left _ hb)]
      split
      · rfl
      · rw [List.map_append, List.map_singleton]

/-- Adding what is not there yet, one after the other, leaves first occurrences. -/
theorem foldl_add_eq_eraseDups (xs ys : List β) :
    ys.foldl (fun known y => if known.contains y then known else known ++ [y]) xs.eraseDups
      = (xs ++ ys).eraseDups := by
  induction ys generalizing xs with
  | nil => rw [List.foldl_nil, List.append_nil]
  | cons y ys ih =>
      have hcontains : xs.eraseDups.contains y = xs.contains y := by
        rw [Bool.eq_iff_iff, List.contains_iff_mem, List.contains_iff_mem, List.mem_eraseDups]
      rw [List.foldl_cons, hcontains, ← eraseDups_concat, ih, List.append_assoc,
        List.singleton_append]

end FirstOccurrences

/-! ## Groups -/

section Groups

variable {β : Type} {key : β → String} {fresh : String → α} {add : α → β → α}

/-- Takes in values one after the other, each under its name. -/
def group (key : β → String) (fresh : String → α) (add : α → β → α) (values : List β) :
    Entries α :=
  values.foldl (fun entries x => entries.update (key x) (fresh (key x)) (add · x)) []

theorem put_map_of_mem {names : List String} (hnodup : names.Nodup) {f : String → α}
    {name : String} (h : name ∈ names) (value : α) :
    put (names.map fun n => (n, f n)) name value
      = names.map fun n => (n, if n = name then value else f n) := by
  induction names with
  | nil => cases h
  | cons n names ih =>
      obtain ⟨hn, hrest⟩ := List.nodup_cons.mp hnodup
      rw [List.map_cons, put]
      by_cases hname : n = name
      · subst hname
        have hother : ∀ m ∈ names, m ≠ n := fun m hm hmn => hn (hmn ▸ hm)
        simp +contextual [hother]
      · have hmem : name ∈ names := (List.mem_cons.mp h).resolve_left (Ne.symm hname)
        simp [hname, ih hrest hmem]

theorem put_map_of_not_mem {names : List String} {f : String → α} {name : String}
    (h : name ∉ names) (value : α) :
    put (names.map fun n => (n, f n)) name value
      = names.map (fun n => (n, f n)) ++ [(name, value)] := by
  induction names with
  | nil => rfl
  | cons n names ih =>
      have hname : n ≠ name := fun hname => h (hname ▸ List.mem_cons_self ..)
      have hrest : name ∉ names := fun hmem => h (List.mem_cons_of_mem _ hmem)
      simp [put, hname, ih hrest]

theorem get?_map {names : List String} {f : String → α} {name : String} :
    get? (names.map fun n => (n, f n)) name = if name ∈ names then some (f name) else none := by
  unfold get?
  induction names with
  | nil => rfl
  | cons n names ih =>
      by_cases hname : name = n
      · simp [hname]
      · have hbeq : (name == n) = false := beq_false_of_ne hname
        simp [List.lookup_cons, hname, hbeq, ih]

/-- What is taken in under one name, in its order. -/
def gathered (key : β → String) (fresh : String → α) (add : α → β → α) (values : List β)
    (name : String) : α :=
  (values.filter (key · = name)).foldl add (fresh name)

/-- One more value changes what was taken in under its name, and nothing else. -/
theorem gathered_concat (values : List β) (x : β) (name : String) :
    gathered key fresh add (values ++ [x]) name
      = if name = key x then add (gathered key fresh add values (key x)) x
        else gathered key fresh add values name := by
  unfold gathered
  rw [List.filter_append, List.foldl_append]
  by_cases hname : name = key x
  · simp [hname]
  · simp [hname, Ne.symm hname]

theorem gathered_of_not_mem {values : List β} {name : String} (h : name ∉ values.map key) :
    gathered key fresh add values name = fresh name := by
  have hnone : values.filter (key · = name) = [] := by
    rw [List.filter_eq_nil_iff]
    intro x hx hkey
    exact h (List.mem_map.mpr ⟨x, hx, of_decide_eq_true hkey⟩)
  rw [gathered, hnone, List.foldl_nil]

theorem group_eq_map (values : List β) :
    group key fresh add values
      = (values.map key).eraseDups.map fun name => (name, gathered key fresh add values name) := by
  induction values using List.reverseRecOn with
  | nil => rfl
  | append_singleton values x ih =>
      have hstep : group key fresh add (values ++ [x])
          = (group key fresh add values).update (key x) (fresh (key x)) (add · x) := by
        rw [group, List.foldl_append]
        rfl
      rw [hstep, ih, update, get?_map, List.map_append, List.map_singleton, eraseDups_concat]
      by_cases hmem : key x ∈ values.map key
      · have hmem' : key x ∈ (values.map key).eraseDups := List.mem_eraseDups.mpr hmem
        rw [if_pos hmem', if_pos (List.contains_iff_mem.mpr hmem),
          put_map_of_mem (nodup_eraseDups _) hmem', Option.getD_some]
        simp only [gathered_concat]
      · have hmem' : key x ∉ (values.map key).eraseDups := fun h => hmem (List.mem_eraseDups.mp h)
        have hold : ∀ name ∈ (values.map key).eraseDups,
            gathered key fresh add (values ++ [x]) name = gathered key fresh add values name := by
          intro name hname
          have hother : name ≠ key x := fun h => hmem' (h ▸ hname)
          rw [gathered_concat, if_neg hother]
        rw [if_neg hmem', if_neg (fun h => hmem (List.contains_iff_mem.mp h)),
          put_map_of_not_mem hmem', Option.getD_none, List.map_append, List.map_singleton,
          gathered_concat, if_pos rfl, gathered_of_not_mem hmem]
        congr 1
        exact List.map_congr_left fun name hname => by rw [hold name hname]

theorem get?_group (values : List β) (name : String) :
    (group key fresh add values).get? name
      = if name ∈ values.map key then some (gathered key fresh add values name) else none := by
  simp [group_eq_map, get?_map]

/-- A name that is not found has nothing gathered under it. -/
theorem get?_group_or (values : List β) (name : String) :
    (group key fresh add values).get? name = some (gathered key fresh add values name) ∨
      (group key fresh add values).get? name = none ∧
        gathered key fresh add values name = fresh name := by
  rw [get?_group]
  by_cases h : name ∈ values.map key
  · exact .inl (if_pos h)
  · exact .inr ⟨if_neg h, gathered_of_not_mem h⟩

/-- Where lists are made per name, a name has the list that was made for it. -/
theorem filter_flatMap_names {γ : Type} {names : List String} (hnodup : names.Nodup)
    {nameOf : γ → String} {f : String → List γ} (hname : ∀ n, ∀ x ∈ f n, nameOf x = n)
    {name : String} (hnone : name ∉ names → f name = []) :
    (names.flatMap f).filter (nameOf · = name) = f name := by
  have hall : ∀ n, (f n).filter (nameOf · = name) = if n = name then f n else [] := by
    intro n
    split
    · rename_i h
      exact List.filter_eq_self.mpr fun x hx => decide_eq_true ((hname n x hx).trans h)
    · rename_i h
      exact List.filter_eq_nil_iff.mpr fun x hx hx' =>
        h ((hname n x hx).symm.trans (of_decide_eq_true hx'))
  rw [List.filter_flatMap]
  simp only [hall]
  induction names with
  | nil => exact (hnone List.not_mem_nil).symm
  | cons n names ih =>
      obtain ⟨hn, hrest⟩ := List.nodup_cons.mp hnodup
      rw [List.flatMap_cons]
      by_cases h : n = name
      · subst h
        have hothers : (names.flatMap fun m => if m = n then f m else []) = [] :=
          List.flatMap_eq_nil_iff.mpr fun m hm => if_neg (ne_of_mem_of_not_mem hm hn)
        rw [if_pos rfl, hothers, List.append_nil]
      · have hmem : name ∉ names → f name = [] :=
          fun hnot => hnone (List.not_mem_cons_of_ne_of_not_mem (Ne.symm h) hnot)
        rw [if_neg h, List.nil_append, ih hrest hmem]

end Groups

end Recompose.Entries
