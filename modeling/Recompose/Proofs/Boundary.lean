import Recompose.Span

/-!
# Character boundaries

Cutting a text by bytes, described by how the text falls apart rather than by
the functions that cut it. `Rest text n cs` says that `cs` is what follows the
first `n` bytes, `IsBoundary text n` that the first `n` bytes end between two
characters, and `Span.IsSlice` that a span denotes a piece of the text. The
cutting functions succeed exactly there (`dropBytes?_eq_some_iff`,
`takeBytes?_eq_some_iff`, `Span.chars?_isSome_iff`).
-/

namespace Recompose

/-! ## What follows a number of bytes -/

/-- `cs` is what follows the first `n` bytes of the text. -/
def Rest (text : List Char) (n : Nat) (cs : List Char) : Prop :=
  ∃ pre, text = pre ++ cs ∧ byteSize pre = n

/-- The first `n` bytes of the text end between two characters, or at one of
its ends. -/
def IsBoundary (text : List Char) (n : Nat) : Prop := ∃ cs, Rest text n cs

theorem byteSize_eq_zero {cs : List Char} : byteSize cs = 0 ↔ cs = [] := by
  cases cs with
  | nil => simp
  | cons c cs =>
      have := c.utf8Size_pos
      simp only [byteSize_cons, reduceCtorEq, iff_false]
      omega

namespace Rest

theorem zero (text : List Char) : Rest text 0 text := ⟨[], rfl, rfl⟩

theorem size (text : List Char) : Rest text (byteSize text) [] := ⟨text, by simp, rfl⟩

theorem byteSize_eq {text cs : List Char} {n : Nat} (h : Rest text n cs) :
    byteSize text = n + byteSize cs := by
  obtain ⟨pre, rfl, rfl⟩ := h
  exact byteSize_append ..

theorem le_size {text cs : List Char} {n : Nat} (h : Rest text n cs) : n ≤ byteSize text := by
  obtain ⟨pre, rfl, rfl⟩ := h
  rw [byteSize_append]
  exact Nat.le_add_right ..

/-- Going on by the bytes of what is read next. -/
theorem append {text mid cs : List Char} {n : Nat} (h : Rest text n (mid ++ cs)) :
    Rest text (n + byteSize mid) cs := by
  obtain ⟨pre, rfl, rfl⟩ := h
  exact ⟨pre ++ mid, by simp, byteSize_append ..⟩

/-- Past all that is left. -/
theorem toEnd {text cs : List Char} {n : Nat} (h : Rest text n cs) :
    Rest text (n + byteSize cs) [] := by
  rw [← List.append_nil cs] at h
  exact h.append

theorem tail {text cs : List Char} {c : Char} {n : Nat} (h : Rest text n (c :: cs)) :
    Rest text (n + c.utf8Size) cs := by
  simpa using append (show Rest text n ([c] ++ cs) from h)

/-- What is left at an earlier boundary runs up to any later one. -/
theorem between {text cs ds : List Char} {m n : Nat} (hc : Rest text m cs) (hd : Rest text n ds)
    (hmn : m ≤ n) : ∃ mid, cs = mid ++ ds ∧ byteSize mid = n - m := by
  obtain ⟨pre, htext, hpre⟩ := hc
  obtain ⟨pre', htext', hpre'⟩ := hd
  have hsplit : pre ++ cs = pre' ++ ds := htext ▸ htext'
  rcases List.append_eq_append_iff.mp hsplit with ⟨mid, hmid, hcs⟩ | ⟨mid, hmid, hds⟩
  · refine ⟨mid, hcs, ?_⟩
    rw [hmid, byteSize_append] at hpre'
    omega
  · rw [hmid, byteSize_append] at hpre
    obtain rfl : mid = [] := byteSize_eq_zero.mp (by omega)
    exact ⟨[], by simpa using hds.symm, by simp only [byteSize_nil] at hpre ⊢; omega⟩

end Rest

theorem IsBoundary.zero (text : List Char) : IsBoundary text 0 := ⟨text, Rest.zero text⟩

theorem IsBoundary.le_size {text : List Char} {n : Nat} (h : IsBoundary text n) :
    n ≤ byteSize text :=
  h.elim fun _ => Rest.le_size

/-! ## The cutting functions -/

/-- The form in which the cutting functions meet the size of a text that has a
first character. -/
theorem byteSize_cons_eq_succ (c : Char) (cs : List Char) :
    ∃ k, byteSize (c :: cs) = k + 1 ∧ c.utf8Size ≤ k + 1 ∧ k + 1 - c.utf8Size = byteSize cs := by
  have hpos := c.utf8Size_pos
  refine ⟨byteSize (c :: cs) - 1, ?_, ?_, ?_⟩ <;> simp only [byteSize_cons] <;> omega

theorem dropBytes?_append (pre cs : List Char) : dropBytes? (byteSize pre) (pre ++ cs) = some cs := by
  induction pre with
  | nil => simp [dropBytes?]
  | cons c pre ih =>
      obtain ⟨k, hk, hle, hsub⟩ := byteSize_cons_eq_succ c pre
      rw [hk, List.cons_append, dropBytes?, if_pos hle, hsub, ih]

theorem rest_of_dropBytes? {n : Nat} {text cs : List Char} (h : dropBytes? n text = some cs) :
    Rest text n cs := by
  fun_induction dropBytes? n text with
  | case1 text =>
      obtain rfl := Option.some.inj h
      exact Rest.zero _
  | case2 => cases h
  | case3 n c text hle ih =>
      obtain ⟨pre, rfl, hpre⟩ := ih h
      exact ⟨c :: pre, rfl, by rw [byteSize_cons, hpre]; omega⟩
  | case4 => cases h

theorem dropBytes?_eq_some_iff {n : Nat} {text cs : List Char} :
    dropBytes? n text = some cs ↔ Rest text n cs := by
  refine ⟨rest_of_dropBytes?, ?_⟩
  rintro ⟨pre, rfl, rfl⟩
  exact dropBytes?_append pre cs

theorem takeBytes?_append (pre cs : List Char) : takeBytes? (byteSize pre) (pre ++ cs) = some pre := by
  induction pre with
  | nil => simp [takeBytes?]
  | cons c pre ih =>
      obtain ⟨k, hk, hle, hsub⟩ := byteSize_cons_eq_succ c pre
      rw [hk, List.cons_append, takeBytes?, if_pos hle, hsub, ih, Option.map_some]

theorem append_of_takeBytes? {n : Nat} {text pre : List Char} (h : takeBytes? n text = some pre) :
    ∃ cs, text = pre ++ cs ∧ byteSize pre = n := by
  fun_induction takeBytes? n text generalizing pre with
  | case1 text =>
      obtain rfl := Option.some.inj h
      exact ⟨text, rfl, rfl⟩
  | case2 => cases h
  | case3 n c text hle ih =>
      obtain ⟨pre', htake, rfl⟩ := Option.map_eq_some_iff.mp h
      obtain ⟨cs, rfl, hpre⟩ := ih htake
      exact ⟨cs, rfl, by rw [byteSize_cons, hpre]; omega⟩
  | case4 => cases h

theorem takeBytes?_eq_some_iff {n : Nat} {text pre : List Char} :
    takeBytes? n text = some pre ↔ ∃ cs, text = pre ++ cs ∧ byteSize pre = n := by
  refine ⟨append_of_takeBytes?, ?_⟩
  rintro ⟨cs, rfl, rfl⟩
  exact takeBytes?_append pre cs

/-! ## Slices -/

/-- A span that denotes a piece of the text: not reversed, in range, and
cutting no character in two. -/
structure Span.IsSlice (s : Span) (text : List Char) : Prop where
  ordered : s.start ≤ s.stop
  inRange : s.stop ≤ byteSize text
  start : IsBoundary text s.start
  stop : IsBoundary text s.stop

theorem Span.IsSlice.of_boundaries {s : Span} {text : List Char} (hle : s.start ≤ s.stop)
    (hstart : IsBoundary text s.start) (hstop : IsBoundary text s.stop) : s.IsSlice text :=
  ⟨hle, hstop.le_size, hstart, hstop⟩

theorem Span.covers_iff {outer inner : Span} :
    outer.covers inner = true ↔ outer.start ≤ inner.start ∧ inner.stop ≤ outer.stop := by
  simp [Span.covers]

theorem Span.isSlice_point {text : List Char} {n : Nat} (h : IsBoundary text n) :
    (Span.point n).IsSlice text :=
  .of_boundaries (Nat.le_refl n) h h

theorem Span.chars?_eq_some_iff {s : Span} {text mid : List Char} :
    s.chars? text = some mid ↔ s.start ≤ s.stop ∧
      ∃ cs, Rest text s.start (mid ++ cs) ∧ byteSize mid = s.stop - s.start := by
  unfold Span.chars?
  split
  · rename_i hle
    rw [Option.bind_eq_some_iff]
    constructor
    · rintro ⟨rest, hdrop, htake⟩
      obtain ⟨cs, rfl, hmid⟩ := takeBytes?_eq_some_iff.mp htake
      exact ⟨hle, cs, dropBytes?_eq_some_iff.mp hdrop, hmid⟩
    · rintro ⟨-, cs, hrest, hmid⟩
      exact ⟨mid ++ cs, dropBytes?_eq_some_iff.mpr hrest,
        takeBytes?_eq_some_iff.mpr ⟨cs, rfl, hmid⟩⟩
  · rename_i hlt
    exact ⟨(nomatch ·), fun h => absurd h.1 hlt⟩

/-- The text between two places. -/
theorem Rest.chars? {text mid cs : List Char} {n : Nat} (h : Rest text n (mid ++ cs)) :
    (⟨n, n + byteSize mid⟩ : Span).chars? text = some mid := by
  rw [Span.chars?_eq_some_iff]
  exact ⟨Nat.le_add_right .., cs, h, (Nat.add_sub_cancel_left ..).symm⟩

/-- The text under a span is there exactly when the span is a slice. -/
theorem Span.chars?_isSome_iff {s : Span} {text : List Char} :
    (s.chars? text).isSome ↔ s.IsSlice text := by
  rw [Option.isSome_iff_exists]
  constructor
  · rintro ⟨mid, hmid⟩
    obtain ⟨hle, cs, hrest, hsize⟩ := Span.chars?_eq_some_iff.mp hmid
    have hstop : Rest text s.stop cs := by
      have := hrest.append
      rwa [hsize, Nat.add_sub_cancel' hle] at this
    exact .of_boundaries hle ⟨_, hrest⟩ ⟨cs, hstop⟩
  · rintro ⟨hle, -, ⟨cs, hcs⟩, ⟨ds, hds⟩⟩
    obtain ⟨mid, rfl, hmid⟩ := hcs.between hds hle
    exact ⟨mid, Span.chars?_eq_some_iff.mpr ⟨hle, ds, hcs, hmid⟩⟩

end Recompose
