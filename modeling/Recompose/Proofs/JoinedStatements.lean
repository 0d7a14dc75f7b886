import Recompose.Proofs.Excerpts.Sequences
import Recompose.Proofs.JoinedCode

/-!
# Statements of joined code

Contents that are lists of statements are joined to a script. Its items are the statements
of the contents, one content behind the other, if each content ends with its last line and
the next one begins with a token that goes on with nothing.
-/

namespace Recompose

namespace Script

/-! ## Contents -/

/-- The statements of a text that is a list of them. -/
def ownStatements? (source : String) : Option (List Tree) :=
  let limit := source.toList.length + 8
  match (rules {} limit limit).statements.run (Cursor.start 0 source.toList) with
  | .ok (statements, _) => some statements
  | .error _ => none

theorem statements_of_own {source : String} {ts : List Tree} (h : ownStatements? source = some ts) :
    let limit := source.toList.length + 8
    ∃ d, (rules {} limit limit).Statements (Cursor.start 0 source.toList) ts d := by
  unfold ownStatements? at h
  dsimp only at h ⊢
  split at h
  case h_2 => cases h
  rename_i statements d hrun
  cases h
  exact ⟨d, Rules.statements_cases hrun⟩

theorem Place.rest {content : List Char} {n : Nat} {ahead : List Char} (h : Place content n ahead) :
    Rest content n ahead := by
  induction h with
  | start => exact .zero content
  | next _ ih => exact (Cursor.Sound.start ih).after
  | operator _ hkind htext ih =>
      have hstands := stands_of_firstMatch? isAscii_greaterOperators htext
      exact rest_of_advances (Cursor.Sound.start ih).here (hstands.advances _)
  | @regex n stop ahead rest _ hkind hread ih =>
      have hsound := Cursor.Sound.start ih
      obtain ⟨more, hmore⟩ : ∃ more, (Cursor.start n ahead).here = '/' :: more := by
        obtain ⟨text, hmem, htext⟩ := TokenKind.isAnyPunct_iff.mp hkind
        obtain ⟨⟨⟨more, hmore⟩, -⟩, -⟩ := hsound.token.stands text htext
        simp only [List.mem_cons, List.not_mem_nil, or_false] at hmem
        rcases hmem with rfl | rfl <;> exact ⟨_, hmore.symm⟩
      rw [hmore] at hread
      exact rest_of_advances (hmore ▸ hsound.here) (.step (advances_readRegex? hread))
  | template _ _ hread ih =>
      exact rest_of_advances (Cursor.Sound.start ih).after (advances_readTemplateText? hread)

/-- The places of a content without slashes, templates, braces and angle brackets can be
listed. -/
theorem contained_of_places {content : List Char} (places : List (Nat × List Char))
    (hstart : (0, content) ∈ places)
    (hnext : ∀ p ∈ places, ((Cursor.start p.1 p.2).token.span.stop, (Cursor.start p.1 p.2).after) ∈ places)
    (hplain : ∀ p ∈ places,
      (Cursor.start p.1 p.2).token.kind.isAnyPunct [">", "/", "/=", "`", "\x7d"] = false)
    (hends : ∀ p ∈ places, Cursor.EndsLine p.1 p.2)
    (hyield : ∀ p ∈ places, (Cursor.start p.1 p.2).token.kind ≠ .word "yield" false) :
    Contained content := by
  have hplace : ∀ n ahead, Place content n ahead → (n, ahead) ∈ places := by
    intro n ahead h
    induction h with
    | start => exact hstart
    | next _ ih => exact hnext _ ih
    | operator _ hkind _ ih =>
        have hfalse := hplain _ ih
        rw [hkind] at hfalse
        cases hfalse
    | regex _ hkind _ ih | template _ hkind _ ih =>
        exact absurd ((hplain _ ih).symm.trans (TokenKind.isAnyPunct_mono hkind (by simp))) nofun
  exact ⟨fun n ahead h => hends _ (hplace n ahead h), fun n ahead h => hyield _ (hplace n ahead h)⟩

/-- Whether a content begins with a token that goes on with nothing in front of it. -/
def beginsAnew (content : List Char) : Bool := (Cursor.start 0 content).token.kind.beginsAnew

theorem beginsAnew_lineEnd (rest : List Char) : beginsAnew ('\n' :: rest) = beginsAnew rest := by
  unfold beginsAnew
  rw [Cursor.start_lineEnd, Cursor.start_add]
  exact TokenKind.beginsAnew_shift _ _

theorem beginsAnew_gap {gap : List Char} (h : IsGap gap) (rest : List Char) :
    beginsAnew (gap ++ rest) = beginsAnew rest := by
  rcases h with rfl | rfl
  · exact beginsAnew_lineEnd rest
  · exact (beginsAnew_lineEnd _).trans (beginsAnew_lineEnd rest)

/-- What a text begins with is what one of its contents begins with. -/
theorem KeptApart.beginsAnew {contents : List String} {text : List Char} (h : KeptApart contents text)
    (hcontained : ∀ content ∈ contents, Contained content.toList)
    (hbegins : ∀ content ∈ contents, Script.beginsAnew content.toList = true) :
    Script.beginsAnew text = true := by
  induction h with
  | nil => rfl
  | last content => exact hbegins content (List.mem_cons_self ..)
  | @cons content next contents gap text hgap happart _ ih =>
      rw [List.forall_mem_cons] at hcontained hbegins
      have hends := hcontained.1.endsLine 0 _ .start
      by_cases hhere : (Cursor.start 0 content.toList).here = []
      · have hboundary := happart.boundary 0 _ (List.suffix_refl _) hends hhere
        unfold Script.beginsAnew
        rw [hboundary, Cursor.start_add]
        exact (TokenKind.beginsAnew_shift _ _).trans (ih hcontained.2 hbegins.2)
      · have htoken := happart.token 0 _ (List.suffix_refl _) hends hhere
        unfold Script.beginsAnew
        rw [htoken]
        exact hbegins.1

theorem IsGap.newLine {gap : List Char} (h : IsGap gap) (text : List Char) :
    gap ++ text = [] ∨ ∃ rest, gap ++ text = '\n' :: rest := by
  rcases h with rfl | rfl <;> exact .inr ⟨_, rfl⟩

namespace Excerpt.At

variable {e : Excerpt} {c c' : Cursor}

/-- Behind an excerpt that ends the text. -/
theorem done (h : e.At c c') (hbehind : e.behind = []) (hkind : c.token.kind = .done) :
    c'.token.kind = .done := by
  obtain ⟨n, ahead, -, rfl, rfl⟩ := h
  rw [hbehind, List.append_nil, Cursor.start_add]
  show TokenKind.shift _ _ = _
  rw [hkind]
  rfl

/-- Behind an excerpt, what follows it in the text begins. -/
theorem behind {gap text : List Char} (h : e.At c c') (hgap : IsGap gap)
    (hbehind : e.behind = gap ++ text) (hkind : c.token.kind = .done) :
    ∃ stop, c' = (Cursor.start (e.offset + byteSize (e.content ++ gap)) text).behind stop true := by
  obtain ⟨n, ahead, hplace, rfl, rfl⟩ := h
  have hhere := Cursor.here_start_eq_nil_iff.mpr hkind
  have hboundary := hgap.start_append (e.contained.endsLine n ahead hplace) hhere text
  have hoffset : e.offset + byteSize (e.content ++ gap) = n + byteSize (ahead ++ gap) + e.offset := by
    have hsize := hplace.rest.byteSize_eq
    rw [byteSize_append, byteSize_append]
    omega
  refine ⟨n + e.offset, ?_⟩
  rw [hbehind, ← List.append_assoc, Cursor.start_add n, hboundary, hoffset,
    Cursor.start_add (n + byteSize (ahead ++ gap))]
  rfl

end Excerpt.At

/-! ## Joined contents -/

/-- The statements of contents that stand in a text one behind the other, from an offset
on: each content has its own ones, at the offset at which it stands. -/
inductive JoinedStatements : Nat → List String → List Char → List Tree → Prop where
  | nil {offset : Nat} : JoinedStatements offset [] [] []
  | last {offset : Nat} {content : String} {ts : List Tree} (hown : ownStatements? content = some ts) :
      JoinedStatements offset [content] content.toList (ts.map (Tree.shift offset))
  | cons {offset : Nat} {content next : String} {contents : List String} {gap text : List Char}
      {ts us : List Tree} (hown : ownStatements? content = some ts) (hgap : IsGap gap)
      (h : JoinedStatements (offset + byteSize (content.toList ++ gap)) (next :: contents) text us) :
      JoinedStatements offset (content :: next :: contents) (content.toList ++ gap ++ text)
        (ts.map (Tree.shift offset) ++ us)

section

variable {limit : Nat}

/-- The statements of a content take no more room than the content. -/
theorem length_own_le {content : String} (hcontained : Contained content.toList) {ts : List Tree}
    (hown : ownStatements? content = some ts) : ts.length ≤ content.toList.length := by
  let e : Excerpt := ⟨content.toList, 0, [], hcontained, .inl rfl, rfl⟩
  obtain ⟨d, hstatements⟩ := statements_of_own hown
  have hsound := Cursor.Sound.start (.zero content.toList)
  have hrepeated := repeatedBy_rules (Nat.succ_pos _) (Nat.le_refl (content.toList.length + 8))
    (Nat.le_refl (content.toList.length + 8)) e.alone
  have hlength := e.length_statements_le hrepeated
    (Rules.forgets_anyStatement (dialect_rules ..) (forgets_assignment_rules _ _))
    (sound_rules content.toList ..) hstatements (Excerpt.At.place .start).alone hsound
  obtain ⟨before, hcontent, -⟩ := hsound.here
  refine Nat.le_trans hlength ?_
  conv => rhs; rw [hcontent]
  rw [List.length_append]
  exact Nat.le_add_left ..

/-- The statements of a content, in front of those that follow on new lines. -/
theorem statements_excerpt (e : Excerpt) {content : String} (hcontent : e.content = content.toList)
    (hroom : content.toList.length + 8 ≤ limit) {ts us : List Tree}
    (hown : ownStatements? content = some ts)
    (hus : ∀ d d', d.token.kind = .done → e.At d d' →
      ∃ f, (rules {} limit limit).Statements d' us f) :
    ∃ f, (rules {} limit limit).Statements (Cursor.start e.offset (content.toList ++ e.behind))
      (ts.map (Tree.shift e.offset) ++ us) f := by
  obtain ⟨d, hstatements⟩ := statements_of_own hown
  have hat : e.At (Cursor.start 0 content.toList)
      (Cursor.start e.offset (content.toList ++ e.behind)) := by
    have hplace := Excerpt.At.place (e := e) .start
    rwa [Nat.zero_add, hcontent] at hplace
  exact e.statements_append (repeatedBy_rules (Nat.succ_pos _) hroom hroom e) hstatements hat (hus d)

/-- Joined contents are read as their statements. -/
theorem KeptApart.statements {contents : List String} {text : List Char} (h : KeptApart contents text)
    (hcontained : ∀ content ∈ contents, Contained content.toList)
    (hbegins : ∀ content ∈ contents.tail, Script.beginsAnew content.toList = true)
    (hown : ∀ content ∈ contents, (ownStatements? content).isSome = true)
    (hroom : ∀ content ∈ contents, content.toList.length + 8 ≤ limit) (offset : Nat) :
    ∃ items, JoinedStatements offset contents text items ∧ items.length ≤ text.length ∧
      ∃ f, (rules {} limit limit).Statements (Cursor.start offset text) items f := by
  induction h generalizing offset with
  | nil => exact ⟨[], .nil, Nat.le_refl _, _, .done rfl⟩
  | last content =>
      obtain ⟨ts, hts⟩ := Option.isSome_iff_exists.mp (hown content (List.mem_cons_self ..))
      have hcontent := hcontained content (List.mem_cons_self ..)
      let e : Excerpt := ⟨content.toList, offset, [], hcontent, .inl rfl, rfl⟩
      have hbehind : ∀ d d', d.token.kind = .done → e.At d d' →
          ∃ f, (rules {} limit limit).Statements d' [] f :=
        fun d d' hkind hd => ⟨d', .done (hd.done rfl hkind)⟩
      obtain ⟨f, hf⟩ := statements_excerpt e rfl (hroom content (List.mem_cons_self ..)) hts hbehind
      rw [List.append_nil, List.append_nil] at hf
      refine ⟨_, .last hts, ?_, f, hf⟩
      rw [List.length_map]
      exact length_own_le hcontent hts
  | @cons content next contents gap text hgap happart h ih =>
      rw [List.forall_mem_cons] at hcontained hown hroom
      obtain ⟨ts, hts⟩ := Option.isSome_iff_exists.mp hown.1
      rw [List.tail_cons] at hbegins
      have hanew := h.beginsAnew hcontained.2 hbegins
      obtain ⟨us, hjoined, hlength, f, hus⟩ := ih hcontained.2
        (fun content hmem => hbegins content (List.mem_of_mem_tail hmem)) hown.2 hroom.2
        (offset + byteSize (content.toList ++ gap))
      let e : Excerpt := ⟨content.toList, offset, gap ++ text, hcontained.1, hgap.newLine text,
        (beginsAnew_gap hgap text).trans hanew⟩
      have hforgets : Forgets ((rules {} limit limit).anyStatement {}) :=
        Rules.forgets_anyStatement (dialect_rules ..) (forgets_assignment_rules limit limit)
      -- Behind the content, the text goes on as it does at the next one.
      have hbehind : ∀ d d', d.token.kind = .done → e.At d d' →
          ∃ f, (rules {} limit limit).Statements d' us f := by
        intro d d' hkind hd
        obtain ⟨stop, rfl⟩ := hd.behind hgap rfl hkind
        exact hus.behind hforgets stop true
      obtain ⟨f, hf⟩ := statements_excerpt e rfl hroom.1 hts hbehind
      refine ⟨_, .cons hts hgap hjoined, ?_, f, ?_⟩
      · have hown := length_own_le hcontained.1 hts
        rw [List.length_append, List.length_map, List.length_append, List.length_append]
        omega
      · rwa [List.append_assoc]

end

theorem KeptApart.length_le {contents : List String} {text : List Char} (h : KeptApart contents text) :
    ∀ content ∈ contents, content.toList.length ≤ text.length := by
  induction h with
  | nil => exact nofun
  | last content => simp
  | cons _ _ _ ih =>
      rw [List.forall_mem_cons]
      refine ⟨?_, fun content hmem => ?_⟩
      · rw [List.length_append, List.length_append, Nat.add_assoc]
        exact Nat.le_add_right ..
      · rw [List.length_append]
        exact Nat.le_add_left_of_le (ih content hmem)

theorem skipHashbang_eq_self {cs : List Char} (h : ¬ "#!".toList <+: cs) : skipHashbang cs = cs := by
  unfold skipHashbang
  split
  · rename_i rest
    exact absurd ⟨rest, rfl⟩ h
  · rfl

/-- Statements that take up a whole text are the items of a script. -/
theorem read_of_statements {source : String} (hfirst : ¬ "#!".toList <+: source.toList) {items : List Tree}
    {f : Cursor} (hlength : items.length ≤ source.toList.length)
    (h : (rules {} (source.toList.length + 8) (source.toList.length + 8)).Statements
      (Cursor.start 0 source.toList) items f) :
    ∃ script, Script.read {} source = .ok script ∧ script.items = items := by
  have hrun : StateT.run (rules {} (source.toList.length + 8) (source.toList.length + 8)).moduleItems
      (Cursor.start 0 source.toList) = .ok (items, f) := h.moduleItems (by omega)
  have htree : parseAs {} source = .ok (.node .program ⟨0, byteSize source.toList⟩ items) := by
    unfold parseAs
    dsimp only
    rw [skipHashbang_eq_self hfirst, Nat.sub_self, hrun]
  exact ⟨_, read_of_parseAs htree, rfl⟩

end Script

namespace Collected

open Script

variable [Script.Reader]

/-- Code of fragments is joined in the order of bands, plugins and fragments, and read apart
in the joined code. It is a script of the statements of its contents, one content behind the
other, if these are lists of statements that end with their last lines, and none but the
first begins with a token that goes on with what is in front of it. -/
theorem localCode_keepsStatements (fragments : List (Nat × Fragment)) :
    InOrder (ofFragments fragments).sections ∧
      (∀ priority plugin, (ofFragments fragments).lines priority plugin
        = fragments.flatMap fun f => if f.1 = plugin then (f.2.line? priority).toList else []) ∧
      KeptApart (ofFragments fragments).contents (ofFragments fragments).localCode.toList ∧
      ((∀ content ∈ (ofFragments fragments).contents, (ownStatements? content).isSome = true) →
        (∀ content ∈ (ofFragments fragments).contents, Contained content.toList) →
        (∀ content ∈ (ofFragments fragments).contents.tail, beginsAnew content.toList = true) →
        ¬ "#!".toList <+: (ofFragments fragments).localCode.toList →
          ∃ script, Script.read {} (ofFragments fragments).localCode = .ok script ∧
            JoinedStatements 0 (ofFragments fragments).contents
              (ofFragments fragments).localCode.toList script.items) := by
  obtain ⟨horder, hlines, hkept⟩ := localCode_keepsApart fragments
  refine ⟨horder, hlines, hkept, fun hown hcontained hbegins hfirst => ?_⟩
  have hroom : ∀ content ∈ (ofFragments fragments).contents,
      content.toList.length + 8 ≤ (ofFragments fragments).localCode.toList.length + 8 :=
    fun content hmem => Nat.add_le_add_right (hkept.length_le content hmem) 8
  obtain ⟨items, hjoined, hlength, f, hstatements⟩ := hkept.statements hcontained hbegins hown hroom 0
  obtain ⟨script, hread, rfl⟩ := read_of_statements hfirst hlength hstatements
  exact ⟨script, hread, hjoined⟩

end Collected

/-- An assignment follows the constant in front of it. -/
theorem localCode_keepsStatements_assignment :
    let fragments := [(0, .code "const p = props" .state), (1, .code "p.seen = true" .state)]
    ∃ script, Script.read {} (Collected.ofFragments fragments).localCode = .ok script ∧
      Script.JoinedStatements 0 ["const p = props", "p.seen = true"]
        (Collected.ofFragments fragments).localCode.toList script.items := by
  intro fragments
  have hcontents : (Collected.ofFragments fragments).contents = ["const p = props", "p.seen = true"] := by
    decide +kernel
  have hstatements := (Collected.localCode_keepsStatements fragments).2.2.2
  rw [hcontents] at hstatements
  refine hstatements ?_ ?_ ?_ ?_
  · decide +kernel
  · intro content hmem
    simp only [List.mem_cons, List.not_mem_nil, or_false] at hmem
    rcases hmem with rfl | rfl
    · exact Script.contained_of_places [(0, "const p = props".toList), (5, " p = props".toList),
        (7, " = props".toList), (9, " props".toList), (15, [])]
        (by decide) (by decide) (by decide) (by decide) (by decide)
    · exact Script.contained_of_places [(0, "p.seen = true".toList), (1, ".seen = true".toList),
        (2, "seen = true".toList), (6, " = true".toList), (8, " true".toList), (13, [])]
        (by decide) (by decide) (by decide) (by decide) (by decide)
  · decide +kernel
  · decide +kernel

end Recompose
