import Recompose.Proofs.Excerpts.Statements

/-!
# Statements of an excerpt in a script

The rules that are tied into a knot repeat each other, with more room for nested constructs
and longer lists in the whole text than in the excerpt.
-/

namespace Recompose.Script

namespace Excerpt

/-- The excerpt as a text of its own. -/
def alone (e : Excerpt) : Excerpt where
  content := e.content
  offset := 0
  behind := []
  contained := e.contained
  newLine := .inl rfl
  beginsAnew := rfl

variable {e : Excerpt} {c c' : Cursor}

theorem At.alone (h : e.At c c') : e.alone.At c c := by
  obtain ⟨n, ahead, hplace, rfl, -⟩ := h
  refine ⟨n, ahead, hplace, rfl, ?_⟩
  rw [show e.alone.behind = [] from rfl, List.append_nil]
  rfl

theorem At.eq_of_alone (h : e.alone.At c c') : c' = c := by
  obtain ⟨n, ahead, -, rfl, rfl⟩ := h
  rw [show e.alone.behind = [] from rfl, List.append_nil]
  rfl

theorem Repeats.reaches {α : Type} {f : α → α} {p p' : Parser α} {d : Cursor}
    (h : e.alone.Repeats f p p' c c) (hrun : Reaches p c d) : Reaches p' c d := by
  obtain ⟨a, hrun⟩ := hrun
  obtain ⟨d', hrun', hd⟩ := h a d hrun
  rw [hd.eq_of_alone] at hrun'
  exact ⟨_, hrun'⟩

end Excerpt

theorem repeatedBy_rules {limit limit' : Nat} (hpositive : 0 < limit) (hlimit : limit ≤ limit')
    {depth depth' : Nat} (hdepth : depth ≤ depth') (e : Excerpt) :
    (rules {} limit depth).RepeatedBy e (rules {} limit' depth') := by
  induction depth generalizing limit' depth' e with
  | zero =>
      have hfails : ∀ {c d : Cursor}, ¬ Reaches (Parser.unexpected : Parser Tree) c d := nofun
      exact
        { plain := rfl
          plain' := dialect_rules ..
          positive := hpositive
          limit := by rwa [limit_rules, limit_rules]
          needs := needTokens_rules rfl limit 0
          begins := fun h => absurd h hfails
          goesOn_let := fun h => absurd h hfails
          assignment := fun _ _ => .unexpected
          operand := fun _ _ => .unexpected
          constructed := fun _ _ => .unexpected
          pattern := fun _ _ => .unexpected
          statement := fun _ _ => .unexpected
          anyContext := fun _ _ h => absurd h hfails
          target := fun _ _ h => absurd h hfails }
  | succ depth ih =>
      obtain ⟨k, rfl⟩ := Nat.exists_eq_add_of_lt hdepth
      have hinner := ih hlimit (Nat.le_add_right depth k) e
      -- The excerpt repeats itself in other contexts, and with more room.
      have hcontexts := ih (Nat.le_refl limit) (Nat.le_refl depth) e.alone
      have hroom := ih (Nat.le_refl limit) (Nat.le_succ depth) e.alone
      exact
        { plain := rfl
          plain' := rfl
          positive := hpositive
          limit := hlimit
          needs := needTokens_rules rfl limit (depth + 1)
          begins := Rules.assignmentExpression_begins (dialect_rules ..)
          goesOn_let := Rules.assignmentExpression_let (dialect_rules ..)
          assignment := hinner.assignmentExpression
          operand := hinner.prefixed
          constructed := hinner.callee
          pattern := hinner.bindingPattern
          statement := fun _ h => hinner.nestedStatement h
          anyContext := fun hctx h => (hcontexts.assignmentExpression hctx h.alone).reaches
          target := fun hallow h hrun hrun' hends => by
            obtain ⟨m, hm, hpattern, hwhole, hdefault⟩ :=
              hinner.bindingPattern_of_expression h hrun hrun' hends
            refine ⟨m, hm, hpattern, hwhole, fun hequals ctx hctx => ?_⟩
            have hnext := hm.next (TokenKind.ne_done_of_punct hequals)
            exact (hroom.assignment (hctx.trans hallow.symm) hnext.alone).reaches (hdefault hequals) }

end Recompose.Script
