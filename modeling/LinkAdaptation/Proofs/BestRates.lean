import LinkAdaptation.Proofs.RateShape

/-! The last rate of a group is also its best. No legacy rate comes near the
best of any other group, so what a legacy column measures never speaks against
a column with HT or VHT rates, at whatever width that column is judged. -/

namespace LinkAdaptation

/-- The highest index that carries a rate. -/
def Mode.lastRate (m : Mode) (w : Width) : Nat :=
  match m with
  | .legacy => 11
  | .siso | .mimo => if w = .mhz20 then 13 else 14

theorem Mode.hasRate_lastRate (m : Mode) (w : Width) : m.hasRate w (m.lastRate w) = true := by
  cases m <;> cases w <;> rfl

theorem Mode.le_lastRate {m : Mode} {w : Width} {index : Nat} (h : m.hasRate w index = true) :
    index ≤ m.lastRate w := by
  cases m <;> simp only [Mode.hasRate, Mode.lastRate, decide_eq_true_eq] at h ⊢
  case legacy => omega
  all_goals split_ifs at h ⊢ <;> omega

namespace CeilingTable

theorem ceiling_le_best (t : CeilingTable) (g : RateGroup) (index : Nat) :
    t.ceiling g index ≤ t.best g := by
  have hfold (xs : List Nat) (n : Nat) : n ≤ xs.foldl max n ∧ ∀ x ∈ xs, x ≤ xs.foldl max n := by
    induction xs generalizing n with
    | nil => simp
    | cons y ys ih =>
      obtain ⟨hn, hys⟩ := ih (max n y)
      refine ⟨Nat.le_trans (Nat.le_max_left n y) hn, fun x hx => ?_⟩
      rcases List.mem_cons.mp hx with rfl | hx
      · exact Nat.le_trans (Nat.le_max_right n x) hn
      · exact hys x hx
  by_cases hi : index < ratesPerGroup
  · have hmem : (t.row g)[index] ∈ (t.row g).toList := by simp
    have hle := (hfold (t.row g).toList 0).2 _ hmem
    rw [Vector.foldl_toList] at hle
    simpa [ceiling, best, hi] using hle
  · simp [t.ceiling_of_le g (Nat.not_lt.1 hi)]

theorem expected_best (g : RateGroup) :
    expected.best g = expected.ceiling g (g.mode.lastRate g.width) := by
  obtain ⟨mode, width, guard, aggregation⟩ := g
  cases mode <;> cases width <;> cases guard <;> cases aggregation <;> decide

/-- A rate with none behind it is the best of its group. -/
theorem expected_best_of_last {g : RateGroup} {index : Nat} (hi : expected.ceiling g index ≠ 0)
    (hlast : ∀ j, index < j → expected.ceiling g j = 0) :
    expected.best g = expected.ceiling g index := by
  have hle : index ≤ g.mode.lastRate g.width :=
    Mode.le_lastRate ((expected_ceiling_ne_zero g index).mp hi)
  have hrate : expected.ceiling g (g.mode.lastRate g.width) ≠ 0 :=
    (expected_ceiling_ne_zero g _).mpr (Mode.hasRate_lastRate _ _)
  have hge : ¬ index < g.mode.lastRate g.width := fun hlt => hrate (hlast _ hlt)
  rw [expected_best, Nat.le_antisymm hle (Nat.not_lt.mp hge)]

theorem expected_legacy_lt_best {l g : RateGroup} (hl : l.mode.isLegacy = true)
    (hg : g.mode.isLegacy = false) (index : Nat) : expected.ceiling l index < expected.best g := by
  have hlegacy : expected.best l = 186 := by
    rw [expected_best]
    obtain ⟨mode, width, guard, aggregation⟩ := l
    cases mode with
    | legacy => cases width <;> cases guard <;> cases aggregation <;> decide
    | siso | mimo => cases hl
  have hother : 186 < expected.best g := by
    rw [expected_best]
    obtain ⟨mode, width, guard, aggregation⟩ := g
    cases mode with
    | legacy => cases hg
    | siso | mimo => cases width <;> cases guard <;> cases aggregation <;> decide
  calc expected.ceiling l index ≤ expected.best l := ceiling_le_best _ _ _
    _ = 186 := hlegacy
    _ < expected.best g := hother

end CeilingTable

end LinkAdaptation
