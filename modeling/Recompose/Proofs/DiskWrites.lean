import Recompose.Disk

/-!
# What a write changes

Writing a text to a file changes what is at one location. Where a file was there
before, every path leads where it led: paths depend only on which locations are
folders and which hold something.
-/

namespace Recompose.Disk

/-! ## Contents -/

/-- One location holds the text, all others hold what they held. -/
theorem content?_put (d : Disk) (loc l : Location) (text : String) :
    (d.put loc text).content? l = if l = loc then some (.text text) else d.content? l := by
  have hothers : ∀ files : List (Location × Content), l ≠ loc →
      (files.filter (·.1 ≠ loc)).lookup l = files.lookup l := by
    intro files hne
    induction files with
    | nil => rfl
    | cons f files ih =>
        obtain ⟨l', c⟩ := f
        by_cases hloc : l' = loc
        · have hl : (l == l') = false := beq_false_of_ne (hloc ▸ hne)
          rw [List.filter_cons_of_neg (by simp [hloc]), ih, List.lookup_cons, hl]
        · rw [List.filter_cons_of_pos (by simp [hloc]), List.lookup_cons, List.lookup_cons, ih]
  unfold put content?
  rw [List.lookup_cons]
  by_cases hl : l = loc
  · simp [hl]
  · rw [beq_false_of_ne hl, hothers d.files hl, if_neg hl]

/-- What is looked up stands among the files. -/
theorem mem_files_of_content? {d : Disk} {loc : Location} {c : Content}
    (h : d.content? loc = some c) : (loc, c) ∈ d.files := by
  obtain ⟨front, back, heq, -⟩ := List.lookup_eq_some_iff.mp h
  rw [heq]
  exact List.mem_append_right _ (List.mem_cons_self ..)

theorem content?_of_read {d : Disk} {p : Path} {loc : Location} {text : String}
    (h : d.read p = .ok text) (hloc : d.locate p = .ok loc) :
    d.content? loc = some (.text text) := by
  unfold read at h
  rw [hloc] at h
  dsimp only [bind, Except.bind] at h
  split at h
  · rename_i hcontent
    rw [hcontent, Except.ok.inj h]
  · cases h
  · cases h

/-! ## Disks with the same names -/

/-- Two disks with the same folders, the same files, whatever these hold, and the
same locks. -/
structure Alike (d d' : Disk) : Prop where
  isFolder : ∀ loc, d'.isFolder loc = d.isFolder loc
  isSome_content? : ∀ loc, (d'.content? loc).isSome = (d.content? loc).isSome
  locked : d'.locked = d.locked

namespace Alike

variable {d d' d'' : Disk}

theorem refl (d : Disk) : Alike d d := ⟨fun _ => rfl, fun _ => rfl, rfl⟩

theorem trans (h : Alike d d') (h' : Alike d' d'') : Alike d d'' where
  isFolder loc := (h'.isFolder loc).trans (h.isFolder loc)
  isSome_content? loc := (h'.isSome_content? loc).trans (h.isSome_content? loc)
  locked := h'.locked.trans h.locked

theorem symm (h : Alike d d') : Alike d' d where
  isFolder loc := (h.isFolder loc).symm
  isSome_content? loc := (h.isSome_content? loc).symm
  locked := h.locked.symm

theorem walk (h : Alike d d') (loc : Location) (pieces : List String) :
    d'.walk loc pieces = d.walk loc pieces := by
  induction pieces generalizing loc with
  | nil => rfl
  | cons piece rest ih => simp only [Disk.walk, h.isFolder, h.isSome_content?, ih]

theorem locate (h : Alike d d') (p : Path) : d'.locate p = d.locate p := by
  simp only [Disk.locate, h.walk]

theorem target (h : Alike d d') (p : Path) : d'.target p = d.target p := by
  simp only [Disk.target, h.walk, h.isFolder, h.locked]

/-- A path is read alike where the file it leads to holds the same. -/
theorem read (h : Alike d d') {p : Path}
    (hcontent : ∀ loc, d.locate p = .ok loc → d'.content? loc = d.content? loc) :
    d'.read p = d.read p := by
  unfold Disk.read
  rw [h.locate]
  cases hloc : d.locate p with
  | error fault => rfl
  | ok loc =>
      dsimp only [bind, Except.bind]
      rw [hcontent loc hloc, h.isFolder]

end Alike

/-- Two disks that hold the same. -/
structure Same (d d' : Disk) : Prop where
  alike : d.Alike d'
  content : ∀ loc, d'.content? loc = d.content? loc

/-- A text that replaces a file leaves all folders and names as they are. -/
theorem alike_put {d : Disk} {loc : Location} (h : (d.content? loc).isSome = true)
    (text : String) : Alike d (d.put loc text) := by
  obtain ⟨c, hc⟩ := Option.isSome_iff_exists.mp h
  refine ⟨fun l => ?_, fun l => ?_, rfl⟩
  · have hmem := mem_files_of_content? hc
    unfold isFolder put
    rw [Bool.eq_iff_iff]
    simp only [Bool.or_eq_true, List.any_cons, List.any_eq_true, List.mem_filter]
    refine or_congr Iff.rfl ⟨?_, ?_⟩
    · rintro (hhere | ⟨f, ⟨hf, -⟩, hbelow⟩)
      · exact ⟨_, hmem, hhere⟩
      · exact ⟨f, hf, hbelow⟩
    · rintro ⟨f, hf, hbelow⟩
      by_cases hloc : f.1 = loc
      · exact .inl (hloc ▸ hbelow)
      · exact .inr ⟨f, ⟨hf, by simpa using hloc⟩, hbelow⟩
  · rw [content?_put]
    split
    · rename_i heq
      rw [heq, hc]
      rfl
    · rfl

/-! ## Places to write to -/

/-- Two paths do not lead to the same place. -/
def Apart (d : Disk) (p q : Path) : Prop := ∀ loc, d.locate p = .ok loc → d.locate q ≠ .ok loc

theorem Apart.symm {d : Disk} {p q : Path} (h : d.Apart p q) : d.Apart q p :=
  fun loc hq hp => h loc hp hq

theorem walk_append {d : Disk} {loc : Location} {front back : List String} :
    d.walk loc (front ++ back) = (d.walk loc front).bind fun l => d.walk l back := by
  induction front generalizing loc with
  | nil => rfl
  | cons piece front ih =>
      simp only [List.cons_append, walk]
      split
      · rfl
      · split
        · exact ih
        · split
          · exact ih
          · exact ih

/-- Only a folder can be stepped into. -/
theorem walk_dot {d : Disk} {l folder : Location} (h : d.walk l ["."] = .ok folder) :
    d.isFolder l = true ∧ l = folder := by
  unfold walk at h
  split at h
  · cases h
  · rename_i hl
    cases h
    exact ⟨by simpa using hl, rfl⟩

/-- The pieces of a path that does not end with a slash, read from the end. -/
theorem reverse_pieces_dropWhile {pieces : List String} (h : pieces.getLast? ≠ some "") :
    pieces.reverse.dropWhile (· = "") = pieces.reverse := by
  rw [← List.head?_reverse] at h
  cases hpieces : pieces.reverse with
  | nil => rfl
  | cons last above =>
      rw [hpieces] at h
      have hlast : last ≠ "" := fun heq => h (congrArg some heq)
      exact List.dropWhile_cons_of_neg (by simpa using hlast)

/-- A text goes to where its path leads, which is no folder and has no lock. -/
theorem locate_of_target {d : Disk} {p : Path} {loc : Location} (h : d.target p = .ok loc) :
    d.locate p = .ok loc ∧ d.isFolder loc = false ∧ loc ∉ d.locked := by
  unfold target at h
  split at h
  · split at h <;> cases h
  rename_i last above hpieces
  rw [walk_append] at h
  cases hwalk : d.walk [] above.reverse with
  | error fault =>
      rw [hwalk] at h
      cases h
  | ok l =>
      cases hdot : d.walk l ["."] with
      | error fault =>
          rw [hwalk, Except.bind, hdot] at h
          cases h
      | ok folder =>
          obtain ⟨hl, rfl⟩ := walk_dot hdot
          rw [hwalk, Except.bind, hdot] at h
          change (if _ then _ else if _ then _ else _) = _ at h
          split at h
          · cases h
          rename_i hlast
          split at h
          · cases h
          rename_i hlocked
          cases h
          simp only [Bool.or_eq_true, decide_eq_true_eq, not_or, Bool.not_eq_true] at hlast
          obtain ⟨⟨⟨hslash, hhere⟩, hup⟩, hfolder⟩ := hlast
          refine ⟨?_, hfolder, by simpa using hlocked⟩
          have hall : p.pieces = above.reverse ++ [last] := by
            rw [reverse_pieces_dropWhile hslash] at hpieces
            rw [← List.reverse_reverse p.pieces, hpieces, List.reverse_cons]
          have hempty : p.isEmpty = false := by
            refine decide_eq_false fun heq => hslash ?_
            rw [heq]
            rfl
          have hne : last ≠ "" := by
            rintro rfl
            simp [hall] at hslash
          unfold locate
          rw [hempty, if_neg Bool.false_ne_true, hall, walk_append, hwalk]
          show d.walk l [last] = _
          simp [walk, hl, Path.isIdle, hne, hhere, hup]

end Recompose.Disk
