import Recompose.Proofs.Excerpts.Members

/-!
# Targets of an excerpt

A parenthesis may open the parameters of an arrow function, so the parser tries that first
and then reads an expression. The attempt fails within the excerpt, but it might succeed in
the whole text. So it is shown of every expression of the excerpt that is a target in the
whole text, or a list of parameters, that it is one in the excerpt, too.
-/

namespace Recompose.Script

namespace Excerpt

/-- What one parser reads of the excerpt, and another one of the whole text up to where an
item ends, is the same and read of the excerpt by a third one, too. -/
def Transfers (e : Excerpt) (q p p' : Parser Tree) (c c' : Cursor) : Prop :=
  ∀ d d', Reaches q c d → Reaches p' c' d' → d'.token.kind.isAnyPunct itemEnds = true →
    Reaches p c d ∧ e.At d d'

end Excerpt

namespace Rules.RepeatedBy

open Excerpt
open Recompose.Script.Parser (Step)

variable {e : Excerpt} {r r' : Rules} (hr : r.RepeatedBy e r') {ctx ctx' : Context}
  {c c' d d' m m' : Cursor}

/-! ## Targets -/

theorem withDefault_of_readsTarget (h : r.ReadsTarget c m d) (ctx : Context) (start : Nat) (t : Tree) :
    Reaches (r.withDefault ctx start t) m d := by
  by_cases hkind : m.token.kind = .punct "="
  · exact .of_gives (.eat hkind) ((h.default hkind rfl).bind fun _ => .node ..)
  · rw [h.whole hkind]
    exact .of_gives (.eat_of_ne (beq_eq_false_iff_ne.mpr hkind)) (.pure _)

include hr

/-- An expression that is a target with its default in the whole text is one in the excerpt. -/
theorem target_withDefault (hallow : ctx.allowIn = true) (h : e.At c c')
    (hrun : Reaches (r.assignment ctx) c d) (hpattern : Reaches (r'.pattern ctx') c' m')
    {start : Nat} {t : Tree} {ctx₁ : Context}
    (hdefault : Reaches (r'.withDefault ctx₁ start t) m' d')
    (hends : d'.token.kind.isAnyPunct itemEnds = true) :
    ∃ m, r.ReadsTarget c m d ∧ e.At d d' := by
  obtain ⟨_, hdefault⟩ := hdefault
  rcases hdefault.of_eat with ⟨hequals', hvalue⟩ | ⟨hequals', hpure⟩
  · obtain ⟨m, hm, htarget⟩ := hr.target hallow h hrun hpattern (by rw [hequals']; rfl)
    refine ⟨m, htarget, ?_⟩
    have hequals := (hm.punct_iff (.inl rfl)).mp hequals'
    obtain ⟨_, _, hvalue', hnode⟩ := hvalue.of_bind
    cases hnode
    obtain ⟨value, hvalue⟩ := htarget.default hequals hallow
    have hnext := hm.next (TokenKind.ne_done_of_punct hequals)
    have hassignment : e.RepeatsOne (r.assignment ctx) (r'.assignment ctx₁.bracketed) m.next _ :=
      hr.assignment hallow.symm hnext
    obtain ⟨d'', hagain, hd⟩ := hassignment value _ hvalue
    obtain ⟨-, rfl⟩ := hagain.unique hvalue'
    exact hd
  · cases hpure
    obtain ⟨m, hm, htarget⟩ := hr.target hallow h hrun hpattern
      (TokenKind.isAnyPunct_mono hends (List.subset_cons_self ..))
    refine ⟨m, htarget, ?_⟩
    rwa [htarget.whole fun hequals => hequals' ((hm.punct_iff (.inl rfl)).mpr hequals)]

/-- A target behind the dots of a rest, which has no default. -/
theorem target_of_rest (hallow : ctx.allowIn = true) (h : e.At c c')
    (hrun : Reaches (r.assignment ctx) c d) (hpattern : Reaches (r'.pattern ctx') c' d')
    (hends : d'.token.kind.isAnyPunct itemEnds = true) :
    (∀ ctx, Reaches (r.pattern ctx) c d) ∧ e.At d d' := by
  obtain ⟨m, hm, htarget⟩ := hr.target hallow h hrun hpattern
    (TokenKind.isAnyPunct_mono hends (List.subset_cons_self ..))
  have hne : m.token.kind ≠ .punct "=" := by
    intro hequals
    rw [(hm.punct_iff (.inl rfl)).mpr hequals] at hends
    cases hends
  cases htarget.whole hne
  exact ⟨htarget.pattern, hm⟩

/-! ## Items -/

omit hr in
theorem item_cases (hrun : Reaches (r.item ctx) c d) :
    (c.token.kind = .punct "..." ∧ Reaches (r.assignment ctx.bracketed) c.next d) ∨
      (c.token.kind ≠ .punct "..." ∧ Reaches (r.assignment ctx.bracketed) c d) := by
  obtain ⟨t, hrun⟩ := hrun
  rcases (Gives.position_bind.mp hrun).of_eat with ⟨hdots, hrun⟩ | ⟨hdots, hrun⟩
  · obtain ⟨inner, _, hinner, hnode⟩ := hrun.of_bind
    cases hnode
    exact .inl ⟨hdots, inner, hinner⟩
  · exact .inr ⟨hdots, t, hrun⟩

theorem transfers_patternElement (hallow : ctx.allowIn = true) (ctx₁ ctx₁' : Context) (h : e.At c c') :
    e.Transfers (r.assignment ctx) (r.patternElement ctx₁) (r'.patternElement ctx₁') c c' := by
  rintro d d' hrun ⟨_, hrun'⟩ hends
  obtain ⟨_, m', hpattern', hdefault'⟩ := (Gives.position_bind.mp hrun').of_bind
  obtain ⟨m, htarget, hd⟩ := hr.target_withDefault hallow h hrun hpattern'.reaches hdefault'.reaches hends
  refine ⟨.position ((htarget.pattern ctx₁).bind fun t => ?_), hd⟩
  exact withDefault_of_readsTarget htarget ..

/-- A rest in a pattern, from its dots on. -/
theorem patternRest_of_assignment (hallow : ctx.allowIn = true) (ctx₁ ctx₁' : Context) (h : e.At c c')
    (hdots : c.token.kind = .punct "...") (hrun : Reaches (r.assignment ctx) c.next d)
    (hrun' : Reaches (r'.patternRest ctx₁') c' d')
    (hends : d'.token.kind.isAnyPunct itemEnds = true) :
    Reaches (r.patternRest ctx₁) c d ∧ e.At d d' := by
  obtain ⟨_, hrun'⟩ := hrun'
  obtain ⟨-, hrun'⟩ := (Gives.position_bind.mp hrun').of_expect
  obtain ⟨_, _, hpattern', hnode⟩ := hrun'.of_bind
  cases hnode
  obtain ⟨hpattern, hd⟩ := hr.target_of_rest hallow (h.next (TokenKind.ne_done_of_punct hdots)) hrun
    hpattern'.reaches hends
  refine ⟨.position (.of_gives (.expect hdots) ?_), hd⟩
  exact (hpattern ctx₁).bind fun _ => .node ..

theorem transfers_patternItem (ctx₁ ctx₁' : Context) (h : e.At c c') :
    e.Transfers (r.item ctx) (r.patternItem ctx₁) (r'.patternItem ctx₁') c c' := by
  rintro d d' hrun ⟨_, hrun'⟩ hends
  replace hrun' := Gives.atPunct_bind.mp hrun'
  rw [h.beq_punct "..." (.inl rfl)] at hrun'
  rcases item_cases hrun with ⟨hdots, hrun⟩ | ⟨hdots, hrun⟩
  · rw [hdots, beq_self_eq_true, if_pos rfl] at hrun'
    obtain ⟨hrest, hd⟩ := hr.patternRest_of_assignment rfl ctx₁ ctx₁' h hdots hrun hrun'.reaches hends
    refine ⟨.atPunct ?_, hd⟩
    rw [hdots, beq_self_eq_true, if_pos rfl]
    exact hrest
  · have hne := beq_eq_false_iff_ne.mpr hdots
    rw [hne, if_neg Bool.false_ne_true] at hrun'
    obtain ⟨helement, hd⟩ := hr.transfers_patternElement rfl ctx₁ ctx₁' h d d' hrun hrun'.reaches hends
    exact ⟨.of_gives (Gives.atPunct_of_ne hne) helement, hd⟩

theorem transfers_parameter (ctx₁ ctx₁' : Context) (h : e.At c c') :
    e.Transfers (r.item ctx) (r.parameter ctx₁ true) (r'.parameter ctx₁' true) c c' := by
  rintro d d' hrun ⟨_, hrun'⟩ hends
  rcases (Gives.position_bind.mp hrun').of_eat with ⟨hdots', hrun'⟩ | ⟨hdots', hrun'⟩
  · have hdots := (h.punct_iff (.inl rfl)).mp hdots'
    replace hrun := (item_cases hrun).resolve_right fun hne => hne.1 hdots
    obtain ⟨_, m', hpattern', hrun'⟩ := hrun'.of_bind
    replace hrun' := (typeAscription?_of_plain hr.plain').of_gives_bind hrun'
    replace hrun' := Gives.atPunct_bind.mp (Gives.spanFrom_bind.mp hrun')
    dsimp only at hrun'
    split at hrun'
    case isFalse => cases hrun'
    rename_i hclose'
    cases hrun'
    obtain ⟨hpattern, hd⟩ := hr.target_of_rest rfl (h.next (TokenKind.ne_done_of_punct hdots)) hrun.2
      hpattern'.reaches hends
    have hclose := (hd.punct_iff (.inl rfl)).mp (eq_of_beq hclose')
    refine ⟨.position (.of_gives (.eat hdots) ?_), hd⟩
    refine (hpattern _).bind fun _ => .of_gives (typeAscription?_of_plain hr.plain) ?_
    refine .spanFrom (.atPunct ?_)
    rw [hclose, beq_self_eq_true]
    exact .pure _
  · have hdots := mt (h.punct_iff (.inl rfl)).mpr hdots'
    replace hrun := (item_cases hrun).resolve_left fun hdots' => hdots hdots'.1
    replace hrun' := (Gives.pure ()).of_gives_bind hrun'
    obtain ⟨_, m', hpattern', hrun'⟩ := hrun'.of_bind
    replace hpattern' := Gives.atWord_bind.mp hpattern'
    rw [hr.plain', Bool.false_and, if_neg Bool.false_ne_true] at hpattern'
    replace hrun' := (typeAscription?_of_plain hr.plain').of_gives_bind
      ((eatMark_of_plain hr.plain').of_gives_bind hrun')
    obtain ⟨_, _, hdefault', hpure⟩ := hrun'.of_bind
    cases hpure
    obtain ⟨m, htarget, hd⟩ := hr.target_withDefault rfl h hrun.2 hpattern'.reaches hdefault'.reaches hends
    refine ⟨.position ?_, hd⟩
    refine .of_gives (.eat_of_ne (beq_eq_false_iff_ne.mpr hdots)) (.of_gives (.pure ()) ?_)
    refine .bind (m := m) (.atWord ?_) fun t => ?_
    · rw [hr.plain, Bool.false_and, if_neg Bool.false_ne_true]
      exact htarget.pattern _
    refine .of_gives (eatMark_of_plain hr.plain) (.of_gives (typeAscription?_of_plain hr.plain) ?_)
    exact (withDefault_of_readsTarget htarget ..).bind fun _ => .spanFrom (.pure _)

/-! ## Properties -/

omit hr in
/-- How a property goes on behind its key that is no method. -/
theorem propertyRest_cases (hplain : r.dialect = {}) {start : Nat} {key : Tree}
    (hrun : Reaches (r.propertyRest ctx start key) c d) (hopen : c.token.kind ≠ .punct "(") :
    (c.token.kind = .punct ":" ∧ Reaches (r.assignment ctx) c.next d) ∨
      (c.token.kind = .punct "=" ∧ Reaches (r.assignment ctx) c.next d) ∨
      (c.token.kind ≠ .punct ":" ∧ c.token.kind ≠ .punct "=" ∧ d = c) := by
  obtain ⟨t, hrun⟩ := hrun
  replace hrun := Gives.atPunct_bind.mp ((Gives.atPunct_of_ne (beq_eq_false_iff_ne.mpr hopen)).of_gives_bind hrun)
  rw [hplain, Bool.false_and, Bool.or_false, if_neg Bool.false_ne_true] at hrun
  have hvalue : ∀ {k : Kind}, Gives (do Parser.node k start [key, ← r.assignment ctx]) c.next t d →
      Reaches (r.assignment ctx) c.next d := by
    intro k hrun
    obtain ⟨value, _, hvalue, hnode⟩ := hrun.of_bind
    cases hnode
    exact hvalue.reaches
  split at hrun
  · rcases hrun.of_eat with ⟨hkind, hrun⟩ | ⟨hcolon, hrun⟩
    · exact .inl ⟨hkind, hvalue hrun⟩
    rcases hrun.of_eat with ⟨hkind, hrun⟩ | ⟨hequals, hrun⟩
    · exact .inr (.inl ⟨hkind, hvalue hrun⟩)
    replace hrun := (Gives.atAnyPunct _).of_gives_bind hrun
    split at hrun
    · cases hrun
      exact .inr (.inr ⟨hcolon, hequals, rfl⟩)
    · cases hrun
  · exact .inl ⟨hrun.of_expect.1, hvalue hrun.of_expect.2⟩

/-- Punctuation behind the key of a property in a pattern. -/
def keyEnds : List String := ":" :: targetEnds

omit hr in
theorem modifiesProperty_of_keyEnds (h : c.next.token.kind.isAnyPunct keyEnds = true)
    (words : List String) : Gives (Rules.modifiesProperty words) c false c := by
  refine Gives.following_bind.mpr ((Gives.atAnyWord _).bind ?_)
  unfold TokenKind.isAnyPunct at h
  split at h
  · rename_i text hkind
    have hmem := List.contains_iff_mem.mp h
    rw [hkind]
    simp only [keyEnds, targetEnds, itemEnds, List.mem_cons, List.not_mem_nil, or_false] at hmem
    rcases hmem with rfl | rfl | rfl | rfl | rfl | rfl <;>
      exact (Bool.and_false (c.token.kind.isAnyWord words)) ▸ Gives.pure _
  · cases h

omit hr in
/-- A property whose key no word modifies. -/
theorem property_keyed (hdots : c.token.kind ≠ .punct "...") (hstar : c.token.kind ≠ .punct "*")
    (hmodifies : ∀ words, Gives (Rules.modifiesProperty words) c false c)
    (hrun : Reaches (r.property ctx) c d) :
    ∃ key k, Gives (r.propertyKey ctx.bracketed) c key k ∧
      Reaches (r.propertyRest ctx.bracketed c.token.span.start key) k d := by
  obtain ⟨t, hrun⟩ := hrun
  replace hrun := (Gives.eat_of_ne (beq_eq_false_iff_ne.mpr hdots)).of_gives_bind
    (Gives.position_bind.mp hrun)
  replace hrun := (hmodifies _).of_gives_bind
    ((Gives.eat_of_ne (beq_eq_false_iff_ne.mpr hstar)).of_gives_bind hrun)
  replace hrun := Gives.following_bind.mp hrun
  rw [Bool.false_and, if_neg Bool.false_ne_true] at hrun
  replace hrun := (Gives.followedByPunct _).of_gives_bind ((hmodifies _).of_gives_bind hrun)
  rw [Bool.false_and, if_neg Bool.false_ne_true] at hrun
  obtain ⟨key, k, hkey, hrest⟩ := hrun.of_bind
  exact ⟨key, k, hkey, hrest.reaches⟩

omit hr in
/-- What stands behind the key of a property in a pattern. -/
theorem patternPropertyRest_cases {key : Tree} {start : Nat}
    (hrun : Reaches (r.patternPropertyRest ctx start key) c d) :
    (c.token.kind = .punct ":" ∧ Reaches (r.patternElement ctx) c.next d) ∨
      (∃ name, key.kind = .ident name) ∧
        ((c.token.kind = .punct "=" ∧ Reaches (r.assignment ctx.bracketed) c.next d) ∨
          c.token.kind ≠ .punct "=" ∧ d = c) := by
  obtain ⟨t, hrun⟩ := hrun
  rcases hrun.of_eat with ⟨hkind, hrun⟩ | ⟨-, hrun⟩
  · obtain ⟨_, _, hvalue, hnode⟩ := hrun.of_bind
    cases hnode
    exact .inl ⟨hkind, hvalue.reaches⟩
  refine .inr ?_
  rw [if_neg Bool.false_ne_true] at hrun
  split at hrun
  · rename_i name hname
    refine ⟨⟨name, hname⟩, ?_⟩
    rcases hrun.of_eat with ⟨hkind, hrun⟩ | ⟨hkind, hrun⟩
    · obtain ⟨_, _, hvalue, hnode⟩ := hrun.of_bind
      cases hnode
      exact .inl ⟨hkind, hvalue.reaches⟩
    · cases hrun
      exact .inr ⟨hkind, rfl⟩
  · cases hrun

omit hr in
/-- A shorthand, which may have a default. -/
theorem reaches_patternPropertyRest {key : Tree} {start : Nat} (hname : ∃ name, key.kind = .ident name)
    (hcolon : c.token.kind ≠ .punct ":")
    (h : (c.token.kind = .punct "=" ∧ Reaches (r.assignment ctx.bracketed) c.next d) ∨
      (c.token.kind ≠ .punct "=" ∧ d = c)) :
    Reaches (r.patternPropertyRest ctx start key) c d := by
  obtain ⟨name, hname⟩ := hname
  refine .of_gives (.eat_of_ne (beq_eq_false_iff_ne.mpr hcolon)) ?_
  rw [if_neg Bool.false_ne_true, hname]
  rcases h with ⟨hequals, hvalue⟩ | ⟨hequals, rfl⟩
  · exact .of_gives (.eat hequals) (hvalue.bind fun _ => .node ..)
  · exact .of_gives (.eat_of_ne (beq_eq_false_iff_ne.mpr hequals)) (.node ..)

omit hr in
/-- The token behind a key that is no computed one. -/
theorem propertyKey_word {key : Tree} {k : Cursor} {name : String} {escaped : Bool}
    (hname : c.token.kind = .word name escaped) (hrun : Gives (r.propertyKey ctx) c key k) :
    k = c.next := by
  replace hrun := Gives.kind_bind.mp (Gives.get_bind.mp hrun)
  rw [hname] at hrun
  cases hrun
  rfl

/-- A key is read in any context. -/
theorem propertyKey_anyContext (h : e.At c c') {key : Tree} {k : Cursor}
    (hrun : Gives (r.propertyKey ctx) c key k) (ctx₁ : Context) :
    ∃ key₁, Gives (r.propertyKey ctx₁) c key₁ k ∧ key₁.kind = key.kind := by
  have hkind := needsToken_propertyKey _ _ _ _ hrun
  unfold Rules.propertyKey at hrun ⊢
  simp only [Gives.get_bind, Gives.kind_bind] at hrun ⊢
  split at hrun
  case h_5 =>
    obtain ⟨_, _, hvalue, hrest⟩ := (Gives.advance_bind.mp hrun).of_bind
    obtain ⟨value, hvalue⟩ : Reaches (r.assignment ctx₁.bracketed) c.next _ :=
      hr.anyContext (by rfl) (h.next hkind) hvalue.reaches
    obtain ⟨hclose, hnode⟩ := hrest.of_expect
    cases hnode
    exact ⟨_, Gives.advance_bind.mpr (hvalue.bind ((Gives.expect hclose).bind (.pure _))), rfl⟩
  case h_6 => cases hrun
  all_goals exact ⟨_, hrun, rfl⟩

/-- The key of a property, and what is left of a property in a pattern behind it. -/
theorem patternProperty_of_key (h : e.At c c') (hdots : c.token.kind ≠ .punct "...") {key : Tree}
    {k : Cursor} (hkey : Gives (r.propertyKey ctx) c key k) (ctx₁ : Context)
    (hrest : ∀ start key₁, key₁.kind = key.kind → Reaches (r.patternPropertyRest ctx₁ start key₁) k d) :
    Reaches (r.patternProperty ctx₁) c d := by
  obtain ⟨key₁, hkey₁, hsame⟩ := hr.propertyKey_anyContext h hkey ctx₁
  exact .of_gives (Gives.atPunct_of_ne (beq_eq_false_iff_ne.mpr hdots))
    (.position (.of_gives hkey₁ (hrest _ key₁ hsame)))

theorem transfers_patternProperty (ctx₁ ctx₁' : Context) (h : e.At c c') :
    e.Transfers (r.property ctx) (r.patternProperty ctx₁) (r'.patternProperty ctx₁') c c' := by
  rintro d d' hrun ⟨_, hrun'⟩ hends
  replace hrun' := Gives.atPunct_bind.mp hrun'
  rw [h.beq_punct "..." (.inl rfl)] at hrun'
  by_cases hdots : c.token.kind = .punct "..."
  · rw [hdots, beq_self_eq_true, if_pos rfl] at hrun'
    obtain ⟨_, hrun⟩ := hrun
    obtain ⟨_, _, hinner, hnode⟩ :=
      ((Gives.eat hdots).of_gives_bind (Gives.position_bind.mp hrun)).of_bind
    cases hnode
    obtain ⟨hrest, hd⟩ := hr.patternRest_of_assignment rfl ctx₁ ctx₁' h hdots hinner.reaches hrun'.reaches hends
    refine ⟨.atPunct ?_, hd⟩
    rw [hdots, beq_self_eq_true, if_pos rfl]
    exact hrest
  have hne := beq_eq_false_iff_ne.mpr hdots
  rw [hne, if_neg Bool.false_ne_true] at hrun'
  obtain ⟨key', k', hkey', hrest'⟩ := (Gives.position_bind.mp hrun').of_bind
  have hcases' := patternPropertyRest_cases hrest'.reaches
  -- Behind the key stands what no word would modify.
  have hk' : k'.token.kind.isAnyPunct keyEnds = true := by
    rcases hcases' with ⟨hkind, -⟩ | ⟨-, ⟨hkind, -⟩ | ⟨-, rfl⟩⟩
    · rw [hkind]; rfl
    · rw [hkind]; rfl
    · exact TokenKind.isAnyPunct_mono hends (by simp [keyEnds, targetEnds])
  have hstar : c.token.kind ≠ .punct "*" := by
    intro hstar
    replace hkey' := Gives.kind_bind.mp (Gives.get_bind.mp hkey')
    rw [(h.punct_iff (.inl rfl)).mpr hstar] at hkey'
    cases hkey'
  have hmodifies : ∀ words, Gives (Rules.modifiesProperty words) c false c := by
    intro words
    cases hword : c.token.kind.isAnyWord words with
    | false =>
        refine Gives.following_bind.mpr ((Gives.atAnyWord _).bind ?_)
        rw [hword, Bool.false_and]
        exact .pure _
    | true =>
        refine modifiesProperty_of_keyEnds ?_ words
        unfold TokenKind.isAnyWord at hword
        split at hword
        case h_2 => cases hword
        rename_i name hname
        have hkind : c.token.kind ≠ .done := TokenKind.ne_done_of_word hname
        have hname' : c'.token.kind = .word name false := by rw [h.kind hkind, hname]; rfl
        rw [propertyKey_word hname' hkey'] at hk'
        rwa [(h.next hkind).isAnyPunct (.inl (by decide))] at hk'
  obtain ⟨key, k, hkey, hrest⟩ := property_keyed hdots hstar hmodifies hrun
  have hkeys : e.RepeatsOne (r.propertyKey ctx.bracketed) (r'.propertyKey ctx₁') c c' := hr.propertyKey h
  obtain ⟨_, hkey'', hk⟩ := hkeys key k hkey
  obtain ⟨rfl, rfl⟩ := hkey''.unique hkey'
  simp only [Tree.kind_shift] at hcases'
  have hopen : k.token.kind ≠ .punct "(" := by
    intro hopen
    rw [(hk.punct_iff (.inl rfl)).mpr hopen] at hk'
    cases hk'
  have hkeyed := fun hrest => hr.patternProperty_of_key h hdots hkey ctx₁ (d := d) hrest
  have hrests := propertyRest_cases hr.plain hrest hopen
  rcases hcases' with ⟨hcolon', hvalue'⟩ | ⟨⟨name, hname⟩, ⟨hequals', hvalue'⟩ | ⟨hequals', rfl⟩⟩
  · have hcolon := (hk.punct_iff (.inl rfl)).mp hcolon'
    rcases hrests with ⟨-, hvalue⟩ | ⟨hequals, -⟩ | ⟨hne, -, -⟩
    · obtain ⟨helement, hd⟩ := hr.transfers_patternElement rfl ctx₁ ctx₁' (hk.next (TokenKind.ne_done_of_punct hcolon)) d d'
        hvalue hvalue' hends
      refine ⟨hkeyed fun start key₁ hsame => ?_, hd⟩
      exact .of_gives (.eat hcolon) (helement.bind fun _ => .node ..)
    · exact absurd (hcolon.symm.trans hequals) (by decide)
    · exact absurd hcolon hne
  · have hequals := (hk.punct_iff (.inl rfl)).mp hequals'
    rcases hrests with ⟨hcolon, -⟩ | ⟨-, hvalue⟩ | ⟨-, hne, -⟩
    · exact absurd (hcolon.symm.trans hequals) (by decide)
    · obtain ⟨value, hvalue⟩ := hvalue
      have hassignment : e.RepeatsOne (r.assignment ctx.bracketed) (r'.assignment ctx₁'.bracketed) k.next _ :=
        hr.assignment (by rfl) (hk.next (TokenKind.ne_done_of_punct hequals))
      obtain ⟨_, hvalue'', hd⟩ := hassignment value d hvalue
      obtain ⟨_, hvalue'⟩ := hvalue'
      obtain ⟨-, rfl⟩ := hvalue''.unique hvalue'
      refine ⟨hkeyed fun start key₁ hsame => ?_, hd⟩
      refine reaches_patternPropertyRest ⟨name, hsame.trans hname⟩ ?_ (.inl ⟨hequals, ?_⟩)
      · rw [hequals]
        decide
      · exact hr.anyContext (by rfl) (hk.next (TokenKind.ne_done_of_punct hequals)) ⟨value, hvalue⟩
    · exact absurd hequals hne
  · rw [hk.isAnyPunct (.inl (by decide))] at hends
    rcases hrests with ⟨hcolon, -⟩ | ⟨hequals, -⟩ | ⟨hcolon, hequals, rfl⟩
    · rw [hcolon] at hends
      cases hends
    · rw [hequals] at hends
      cases hends
    · refine ⟨hkeyed fun start key₁ hsame => ?_, hk⟩
      exact reaches_patternPropertyRest ⟨name, hsame.trans hname⟩ hcolon (.inr ⟨hequals, rfl⟩)

end Rules.RepeatedBy

/-! ## Lists -/

/-- Items up to closing punctuation, with commas between them, where items may be left out
or not. -/
inductive Listed (holes : Bool) (close : String) (item : Cursor → Cursor → Prop) :
    Nat → Cursor → Cursor → Prop where
  | closed {n : Nat} {c : Cursor} (hclose : c.token.kind = .punct close) :
      Listed holes close item (n + 1) c c.next
  | hole {n : Nat} {c d : Cursor} (hholes : holes = true) (hopen : c.token.kind ≠ .punct close)
      (hcomma : c.token.kind = .punct ",") (h : Listed holes close item n c.next d) :
      Listed holes close item (n + 1) c d
  | last {n : Nat} {c j : Cursor} (hopen : c.token.kind ≠ .punct close)
      (hhole : holes = true → c.token.kind ≠ .punct ",") (hitem : item c j)
      (hclose : j.token.kind = .punct close) : Listed holes close item (n + 1) c j.next
  | more {n : Nat} {c j d : Cursor} (hopen : c.token.kind ≠ .punct close)
      (hhole : holes = true → c.token.kind ≠ .punct ",") (hitem : item c j)
      (hmore : j.token.kind ≠ .punct close) (hcomma : j.token.kind = .punct ",")
      (h : Listed holes close item n j.next d) : Listed holes close item (n + 1) c d

namespace Rules

open Recompose.Script.Parser (Step)

variable {item : Parser Tree} {close : String} {n : Nat} {ts : List Tree} {c d : Cursor}

theorem reaches_commaSteps_iff :
    Reaches (Parser.loop n (commaStep close item) ts) c d ↔ Listed false close (Reaches item) n c d := by
  constructor
  · intro hrun
    induction n generalizing ts c with
    | zero =>
        obtain ⟨_, hrun⟩ := hrun
        cases hrun
    | succ n ih =>
        obtain ⟨_, hrun⟩ := hrun
        obtain ⟨next, m, hstep, hrest⟩ := Gives.of_bind hrun
        rcases hstep.of_eat with ⟨hclose, hpure⟩ | ⟨hopen, hstep⟩
        · cases hpure
          cases hrest
          exact .closed hclose
        obtain ⟨a, j, hitem, hstep⟩ := hstep.of_bind
        rcases hstep.of_eat with ⟨hclose, hpure⟩ | ⟨hmore, hstep⟩
        · cases hpure
          cases hrest
          exact .last hopen nofun hitem.reaches hclose
        · obtain ⟨hcomma, hpure⟩ := hstep.of_expect
          cases hpure
          exact .more hopen nofun hitem.reaches hmore hcomma (ih hrest.reaches)
  · intro h
    induction h generalizing ts with
    | closed hclose => exact .of_gives ((Gives.eat hclose).bind (.pure _)) (.pure _)
    | hole hholes => cases hholes
    | last hopen _ hitem hclose =>
        obtain ⟨a, hitem⟩ := hitem
        exact .of_gives (commaStep_done (beq_eq_false_iff_ne.mpr hopen) hitem hclose ts) (.pure _)
    | more hopen _ hitem hmore hcomma _ ih =>
        obtain ⟨a, hitem⟩ := hitem
        exact .of_gives (commaStep_more (beq_eq_false_iff_ne.mpr hopen) hitem
          (beq_eq_false_iff_ne.mpr hmore) hcomma ts) ih

theorem reaches_elementSteps_iff :
    Reaches (Parser.loop n (elementStep item) ts) c d ↔ Listed true "]" (Reaches item) n c d := by
  constructor
  · intro hrun
    induction n generalizing ts c with
    | zero =>
        obtain ⟨_, hrun⟩ := hrun
        cases hrun
    | succ n ih =>
        obtain ⟨_, hrun⟩ := hrun
        obtain ⟨next, m, hstep, hrest⟩ := Gives.of_bind hrun
        rcases hstep.of_eat with ⟨hclose, hpure⟩ | ⟨hopen, hstep⟩
        · cases hpure
          cases hrest
          exact .closed hclose
        replace hstep := Gives.atPunct_bind.mp hstep
        by_cases hhole : c.token.kind = .punct ","
        · rw [hhole, beq_self_eq_true, if_pos rfl] at hstep
          cases hstep
          exact .hole rfl hopen hhole (ih hrest.reaches)
        rw [beq_eq_false_iff_ne.mpr hhole, if_neg Bool.false_ne_true] at hstep
        obtain ⟨a, j, hitem, hstep⟩ := hstep.of_bind
        rcases hstep.of_eat with ⟨hclose, hpure⟩ | ⟨hmore, hstep⟩
        · cases hpure
          cases hrest
          exact .last hopen (fun _ => hhole) hitem.reaches hclose
        · obtain ⟨hcomma, hpure⟩ := hstep.of_expect
          cases hpure
          exact .more hopen (fun _ => hhole) hitem.reaches hmore hcomma (ih hrest.reaches)
  · intro h
    induction h generalizing ts with
    | closed hclose => exact .of_gives ((Gives.eat hclose).bind (.pure _)) (.pure _)
    | @hole n c d _ hopen hcomma _ ih =>
        obtain ⟨_, ih⟩ := @ih (.leaf .hole ⟨c.token.span.start, c.token.span.start⟩ :: ts)
        refine ⟨_, Gives.loop_more ((Gives.eat_of_ne (beq_eq_false_iff_ne.mpr hopen)).bind ?_) ih⟩
        refine Gives.atPunct_bind.mpr ?_
        rw [hcomma, beq_self_eq_true]
        exact .pure _
    | last hopen hhole hitem hclose =>
        obtain ⟨a, hitem⟩ := hitem
        have hstep := commaStep_done (beq_eq_false_iff_ne.mpr hopen) hitem hclose ts
        rw [Gives, ← elementStep_eq (beq_eq_false_iff_ne.mpr (hhole rfl))] at hstep
        exact .of_gives hstep (.pure _)
    | more hopen hhole hitem hmore hcomma _ ih =>
        obtain ⟨a, hitem⟩ := hitem
        have hstep := commaStep_more (beq_eq_false_iff_ne.mpr hopen) hitem
          (beq_eq_false_iff_ne.mpr hmore) hcomma ts
        rw [Gives, ← elementStep_eq (beq_eq_false_iff_ne.mpr (hhole rfl))] at hstep
        exact .of_gives hstep ih

end Rules

namespace Excerpt.Transfers

variable {e : Excerpt} {q p p' : Parser Tree} {c c' d d' : Cursor} {close : String} {holes : Bool}

theorem listed (hclose : close ∈ itemEnds) (hbegins : (TokenKind.punct close).beginsAnew = false)
    (hitem : ∀ {c c'}, e.At c c' → e.Transfers q p p' c c') {n n' : Nat}
    (h : e.At c c') (hrun : Listed holes close (Reaches q) n c d)
    (hrun' : Listed holes close (Reaches p') n' c' d') :
    Listed holes close (Reaches p) n c d ∧ e.At d d' := by
  have hclosed : ∀ {c c'}, e.At c c' → (c'.token.kind = .punct close ↔ c.token.kind = .punct close) :=
    fun h => h.punct_iff (.inl hbegins)
  have hcommas : ∀ {c c'}, e.At c c' → (c'.token.kind = .punct "," ↔ c.token.kind = .punct ",") :=
    fun h => h.punct_iff (.inl rfl)
  induction hrun generalizing n' c' with
  | closed hclose =>
      cases hrun' with
      | closed => exact ⟨.closed hclose, h.next (TokenKind.ne_done_of_punct hclose)⟩
      | hole _ hopen' | last hopen' | more hopen' => exact absurd ((hclosed h).mpr hclose) hopen'
  | hole hholes hopen hcomma _ ih =>
      cases hrun' with
      | closed hclose' => exact absurd ((hclosed h).mp hclose') hopen
      | hole _ _ _ hrest' =>
          obtain ⟨hrest, hd⟩ := ih (h.next (TokenKind.ne_done_of_punct hcomma)) hrest'
          exact ⟨.hole hholes hopen hcomma hrest, hd⟩
      | last _ hhole' | more _ hhole' => exact absurd ((hcommas h).mpr hcomma) (hhole' hholes)
  | last hopen hhole hitem₁ hclosed₁ =>
      cases hrun' with
      | closed hclose' => exact absurd ((hclosed h).mp hclose') hopen
      | hole hholes _ hcomma' => exact absurd ((hcommas h).mp hcomma') (hhole hholes)
      | last _ _ hitem' hclose' =>
          obtain ⟨hp, hj⟩ := hitem h _ _ hitem₁ hitem' (by
            rw [hclose']
            exact List.contains_iff_mem.mpr hclose)
          exact ⟨.last hopen hhole hp hclosed₁, hj.next (TokenKind.ne_done_of_punct hclosed₁)⟩
      | more _ _ hitem' hmore' hcomma' =>
          obtain ⟨-, hj⟩ := hitem h _ _ hitem₁ hitem' (by rw [hcomma']; rfl)
          exact absurd ((hclosed hj).mpr hclosed₁) hmore'
  | more hopen hhole hitem₁ hmore hcomma _ ih =>
      cases hrun' with
      | closed hclose' => exact absurd ((hclosed h).mp hclose') hopen
      | hole hholes _ hcomma' => exact absurd ((hcommas h).mp hcomma') (hhole hholes)
      | last _ _ hitem' hclose' =>
          obtain ⟨-, hj⟩ := hitem h _ _ hitem₁ hitem' (by
            rw [hclose']
            exact List.contains_iff_mem.mpr hclose)
          exact absurd ((hclosed hj).mp hclose') hmore
      | more _ _ hitem' hmore' hcomma' hrest' =>
          obtain ⟨hp, hj⟩ := hitem h _ _ hitem₁ hitem' (by rw [hcomma']; rfl)
          obtain ⟨hrest, hd⟩ := ih (hj.next (TokenKind.ne_done_of_punct hcomma)) hrest'
          exact ⟨.more hopen hhole hp hmore hcomma hrest, hd⟩

end Excerpt.Transfers

namespace Rules.RepeatedBy

open Excerpt

variable {e : Excerpt} {r r' : Rules} (hr : r.RepeatedBy e r') {ctx ctx' : Context}
  {c c' d m m' : Cursor}
include hr

/-! ## Patterns -/

/-- An expression that begins with what a pattern is, too: either it is no more than that,
or it assigns to it. -/
theorem readsTarget_of_chainHead (harrow : Gives (r.arrow? ctx) c none c) {t : Tree}
    (hhead : Gives (r.chainHead ctx) c t m) (h : e.At c c') (hm : e.At m m')
    (hends : m'.token.kind.isAnyPunct targetEnds = true)
    (hrun : Reaches (r.assignmentExpression ctx) c d) :
    (m.token.kind ≠ .punct "=" → d = m) ∧
      (m.token.kind = .punct "=" → Reaches (r.assignment ctx) m.next d) := by
  obtain ⟨_, hrun⟩ := hrun
  rw [hm.isAnyPunct (.inl (by decide))] at hends
  constructor
  · intro hne
    refine whole_of_itemEnds hr.positive harrow hhead ?_ hrun
    unfold TokenKind.isAnyPunct at hends ⊢
    split at hends
    case h_2 => cases hends
    rename_i text hkind
    refine List.contains_iff_mem.mpr ((List.mem_cons.mp (List.contains_iff_mem.mp hends)).resolve_left ?_)
    rintro rfl
    exact hne hkind
  · intro hequals
    obtain ⟨j, hskip, hvalue⟩ := assignment_of_equals hr.positive harrow hhead h.notYield hequals hrun
    obtain ⟨-, rfl⟩ := hskip.unique (hm.skipOperator hequals)
    exact hvalue

/-- An array that is a pattern in the whole text. -/
theorem arrayPattern_of_expression (h : e.At c c') (hopen : c.token.kind = .punct "[")
    (hrun : Reaches (r.assignmentExpression ctx) c d)
    (hrun' : Reaches (r'.bindingPattern ctx') c' m') :
    ∃ t m, Gives (r.chainHead ctx) c t m ∧ e.At m m' ∧ ∀ ctx, Reaches (r.bindingPattern ctx) c m := by
  have hkind : c.token.kind ≠ .done := TokenKind.ne_done_of_punct hopen
  have hopen' : c'.token.kind = .punct "[" := (h.punct_iff (.inl rfl)).mpr hopen
  obtain ⟨t, m, hhead⟩ := chainHead_of_assignmentExpression hr.plain h.notYield
    (arrow?_of_punct hopen (by decide) (by decide)) (by rw [hopen]; rfl) (by rw [hopen]; rfl) hrun
  have hprimary := primary_of_chainHead (by rw [hopen]; rfl) hhead
  replace hprimary := Gives.kind_bind.mp (Gives.get_bind.mp hprimary)
  rw [hopen] at hprimary
  obtain ⟨_, _, helements, hnode⟩ := (Gives.position_bind.mp hprimary).of_expect.2.of_bind
  cases hnode
  obtain ⟨_, hrun'⟩ := hrun'
  replace hrun' := Gives.kind_bind.mp (Gives.position_bind.mp hrun')
  rw [hopen'] at hrun'
  obtain ⟨_, _, helements', hnode⟩ := (Gives.advance_bind.mp hrun').of_bind
  cases hnode
  have hlisted := reaches_elementSteps_iff.mp helements.reaches
  have hlisted' := reaches_elementSteps_iff.mp helements'.reaches
  have hlisted₁ := fun ctx₁ => Excerpt.Transfers.listed (by decide) rfl
    (fun h => hr.transfers_patternItem ctx₁ ctx' h) (h.next hkind) hlisted hlisted'
  refine ⟨_, _, hhead, (hlisted₁ {}).2, fun ctx₁ => .position (.kind ?_)⟩
  rw [hopen]
  exact .advance ((reaches_elementSteps_iff.mpr (hlisted₁ ctx₁).1).bind fun _ => .node ..)

/-- An object that is a pattern in the whole text. -/
theorem objectPattern_of_expression (h : e.At c c') (hopen : c.token.kind = .punct "\x7b")
    (hrun : Reaches (r.assignmentExpression ctx) c d)
    (hrun' : Reaches (r'.bindingPattern ctx') c' m') :
    ∃ t m, Gives (r.chainHead ctx) c t m ∧ e.At m m' ∧ ∀ ctx, Reaches (r.bindingPattern ctx) c m := by
  have hkind : c.token.kind ≠ .done := TokenKind.ne_done_of_punct hopen
  have hopen' : c'.token.kind = .punct "\x7b" := (h.punct_iff (.inr hkind)).mpr hopen
  obtain ⟨t, m, hhead⟩ := chainHead_of_assignmentExpression hr.plain h.notYield
    (arrow?_of_punct hopen (by decide) (by decide)) (by rw [hopen]; rfl) (by rw [hopen]; rfl) hrun
  have hprimary := primary_of_chainHead (by rw [hopen]; rfl) hhead
  replace hprimary := Gives.kind_bind.mp (Gives.get_bind.mp hprimary)
  rw [hopen] at hprimary
  obtain ⟨_, _, hproperties, hnode⟩ := (Gives.position_bind.mp hprimary).of_expect.2.of_bind
  cases hnode
  obtain ⟨_, hrun'⟩ := hrun'
  replace hrun' := Gives.kind_bind.mp (Gives.position_bind.mp hrun')
  rw [hopen'] at hrun'
  obtain ⟨_, _, hproperties', hnode⟩ := (Gives.advance_bind.mp hrun').of_bind
  cases hnode
  have hlisted := reaches_commaSteps_iff.mp hproperties.reaches
  have hlisted' := reaches_commaSteps_iff.mp hproperties'.reaches
  have hlisted₁ := fun ctx₁ => Excerpt.Transfers.listed (by decide) rfl
    (fun h => hr.transfers_patternProperty ctx₁ ctx' h) (h.next hkind) hlisted hlisted'
  refine ⟨_, _, hhead, (hlisted₁ {}).2, fun ctx₁ => .position (.kind ?_)⟩
  rw [hopen]
  exact .advance ((reaches_commaSteps_iff.mpr (hlisted₁ ctx₁).1).bind fun _ => .node ..)

/-- A name that is a pattern in the whole text. -/
theorem bindingName_of_expression (h : e.At c c') {t' : Tree} (hrun' : Gives Parser.bindingName c' t' m')
    (hends : m'.token.kind.isAnyPunct targetEnds = true)
    (hrun : Reaches (r.assignmentExpression ctx) c d) :
    Gives (r.arrow? ctx) c none c ∧ (∃ t, Gives (r.chainHead ctx) c t c.next) ∧ e.At c.next m' ∧
      ∀ ctx, Reaches (r.bindingPattern ctx) c c.next := by
  obtain ⟨name, escaped, hkind', hname, hawait, rfl⟩ := bindingName_cases hrun'
  obtain ⟨_, hrun₁⟩ := hrun
  have hne := needsToken_assignmentExpression _ _ _ _ hrun₁
  have hkind : c.token.kind = .word name escaped := by
    rw [h.kind hne] at hkind'
    cases hk : c.token.kind <;> rw [hk] at hkind' <;> first | exact hkind' | cases hkind'
  have hnext := h.next hne
  rw [hnext.isAnyPunct (.inl (by decide))] at hends
  obtain ⟨text, htext, hpunct⟩ := TokenKind.isAnyPunct_iff.mp hends
  have harrow : Gives (r.arrow? ctx) c none c := by
    refine arrow?_of_word hkind hpunct ?_ ?_ ?_ <;>
      · rintro rfl
        exact absurd htext (by decide)
  have hprefix : c.token.kind.isAnyWord ["typeof", "void", "delete", "await"] = false := by
    refine isAnyWord_of_not_mem hkind fun hmem => ?_
    rcases List.mem_append.mp (show name ∈ ["typeof", "void", "delete"] ++ ["await"] from hmem) with hmem | hmem
    · exact not_mem_of_unreserved hname (by decide) hmem
    · exact hawait (List.mem_singleton.mp hmem)
  obtain ⟨t, m, hhead⟩ := chainHead_of_assignmentExpression hr.plain h.notYield harrow
    (by rw [hkind]; rfl) hprefix ⟨_, hrun₁⟩
  obtain rfl := next_of_chainHead hkind hname hpunct hhead
  refine ⟨harrow, ⟨t, hhead⟩, hnext, fun ctx₁ => .position (.kind ?_)⟩
  rw [hkind]
  exact reaches_bindingName hkind hname hawait

/-- An expression that is a pattern in the whole text. -/
theorem bindingPattern_of_expression (h : e.At c c') (hrun : Reaches (r.assignmentExpression ctx) c d)
    (hrun' : Reaches (r'.bindingPattern ctx') c' m')
    (hends : m'.token.kind.isAnyPunct targetEnds = true) :
    ∃ m, e.At m m' ∧ (∀ ctx, Reaches (r.bindingPattern ctx) c m) ∧
      (m.token.kind ≠ .punct "=" → d = m) ∧
      (m.token.kind = .punct "=" → Reaches (r.assignment ctx) m.next d) := by
  have hkind : c.token.kind ≠ .done := by
    obtain ⟨_, hrun⟩ := hrun
    exact needsToken_assignmentExpression _ _ _ _ hrun
  by_cases harray : c.token.kind = .punct "["
  · obtain ⟨t, m, hhead, hm, hpattern⟩ := hr.arrayPattern_of_expression h harray hrun hrun'
    refine ⟨m, hm, hpattern, ?_⟩
    exact hr.readsTarget_of_chainHead (arrow?_of_punct harray (by decide) (by decide)) hhead h hm hends hrun
  by_cases hobject : c.token.kind = .punct "\x7b"
  · obtain ⟨t, m, hhead, hm, hpattern⟩ := hr.objectPattern_of_expression h hobject hrun hrun'
    refine ⟨m, hm, hpattern, ?_⟩
    exact hr.readsTarget_of_chainHead (arrow?_of_punct hobject (by decide) (by decide)) hhead h hm hends hrun
  obtain ⟨_, hrun'⟩ := hrun'
  replace hrun' := Gives.kind_bind.mp (Gives.position_bind.mp hrun')
  split at hrun'
  · rename_i hopen'
    exact absurd ((h.punct_iff (.inr hkind)).mp hopen') harray
  · rename_i hopen'
    exact absurd ((h.punct_iff (.inr hkind)).mp hopen') hobject
  · obtain ⟨harrow, ⟨t, hhead⟩, hm, hpattern⟩ := hr.bindingName_of_expression h hrun' hends hrun
    exact ⟨c.next, hm, hpattern, hr.readsTarget_of_chainHead harrow hhead h hm hends hrun⟩

end Rules.RepeatedBy

end Recompose.Script
