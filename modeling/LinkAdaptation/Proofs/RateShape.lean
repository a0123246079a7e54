import LinkAdaptation.Controller.Search
import Mathlib.Tactic.Common

/-! Where the expected ceilings are zero. The pattern depends on the mode and
the width of a group alone, so a rate remains a rate when the guard interval or
the aggregation setting of its group changes. -/

namespace LinkAdaptation

/-- The indices that carry a rate. Twelve are legacy rates. The others leave
out the indices of the DSSS rates and 5, and the last one at 20 MHz. -/
def Mode.hasRate (m : Mode) (w : Width) (index : Nat) : Bool :=
  match m with
  | .legacy => index < 12
  | .siso | .mimo => index = 4 ∨ 6 ≤ index ∧ index < if w = .mhz20 then 14 else 15

theorem Mode.hasRate_lt {m : Mode} {w : Width} {index : Nat} (h : m.hasRate w index = true) :
    index < ratesPerGroup := by
  cases m <;> simp only [Mode.hasRate, decide_eq_true_eq] at h
  case legacy => exact Nat.lt_trans h (by decide)
  all_goals
    change index < 15
    split at h <;> omega

namespace CeilingTable

theorem expected_ceiling_ne_zero (g : RateGroup) (index : Nat) :
    expected.ceiling g index ≠ 0 ↔ g.mode.hasRate g.width index = true := by
  obtain ⟨mode, width, guard, aggregation⟩ := g
  by_cases hi : index < ratesPerGroup
  · have hrow : ∀ i : Fin ratesPerGroup, expected.ceiling ⟨mode, width, guard, aggregation⟩ i ≠ 0 ↔
        mode.hasRate width i = true := by
      cases mode <;> cases width <;> cases guard <;> cases aggregation <;> decide
    exact hrow ⟨index, hi⟩
  · have hz := expected.ceiling_of_le ⟨mode, width, guard, aggregation⟩ (Nat.not_lt.1 hi)
    exact ⟨fun h => absurd hz h, fun h => absurd (Mode.hasRate_lt h) hi⟩

theorem lt_of_ceiling_ne_zero {t : CeilingTable} {g : RateGroup} {index : Nat}
    (h : t.ceiling g index ≠ 0) : index < ratesPerGroup := by
  by_contra hi
  exact h (t.ceiling_of_le g (Nat.not_lt.1 hi))

theorem mem_rates {t : CeilingTable} {g : RateGroup} {index : Nat} :
    index ∈ t.rates g ↔ t.ceiling g index ≠ 0 := by
  simp only [rates, List.mem_filter, List.mem_range, bne_iff_ne]
  exact ⟨fun h => h.2, fun h => ⟨lt_of_ceiling_ne_zero h, h⟩⟩

theorem expected_rates_ne_nil (g : RateGroup) : expected.rates g ≠ [] := by
  have hmem : (if g.mode.isLegacy then 0 else 4) ∈ expected.rates g := by
    rw [mem_rates, expected_ceiling_ne_zero]
    cases g.mode <;> rfl
  exact List.ne_nil_of_mem hmem

end CeilingTable

namespace Neighbours

theorem legacy_lt : ∀ i : Fin 12,
    legacy[i].lower.all (· < 12) = true ∧ legacy[i].upper.all (· < 12) = true := by
  decide

theorem mem_rates_of_legacy {g : RateGroup} {index i : Nat} (hg : g.mode.isLegacy = true)
    (h : (of g index).lower = some i ∨ (of g index).upper = some i) :
    i ∈ CeilingTable.expected.rates g := by
  have hm : g.mode = .legacy := by
    cases hc : g.mode <;> simp [hc, Mode.isLegacy] at hg ⊢
  rw [CeilingTable.mem_rates, CeilingTable.expected_ceiling_ne_zero, hm]
  simp only [of, hg, if_true] at h
  by_cases hi : index < 12
  · have hlt := legacy_lt ⟨index, hi⟩
    simp only [hi, Vector.getElem?_eq_getElem, Option.getD_some] at h
    rcases h with h | h
    · simpa [Mode.hasRate, h] using hlt.1
    · simpa [Mode.hasRate, h] using hlt.2
  · simp [hi] at h

theorem mem_rates {g : RateGroup} {index i : Nat}
    (h : (of g index).lower = some i ∨ (of g index).upper = some i) :
    i ∈ CeilingTable.expected.rates g := by
  by_cases hg : g.mode.isLegacy = true
  · exact mem_rates_of_legacy hg h
  · simp only [of, hg, Bool.false_eq_true, if_false, within] at h
    rcases h with h | h
    · exact List.mem_reverse.mp (List.mem_of_find?_eq_some h)
    · exact List.mem_of_find?_eq_some h

end Neighbours

namespace Controller

theorem step?_eq_some {c : Controller} {rate index : Nat} (h : c.step? rate = some index) :
    c.neighbours.lower = some index ∨ c.neighbours.upper = some index := by
  unfold step? at h
  dsimp only at h
  split_ifs at h
  · exact .inl h
  · exact .inr h
  · exact .inl h

theorem startIndex_mem_rates (g : RateGroup) (threshold : Nat) :
    startIndex g threshold ∈ CeilingTable.expected.rates g := by
  obtain ⟨last, hlast⟩ := Option.ne_none_iff_exists'.mp
    (mt List.getLast?_eq_none_iff.mp (CeilingTable.expected_rates_ne_nil g))
  unfold startIndex
  dsimp only
  cases hf : (CeilingTable.expected.rates g).find?
      (threshold < 100 * CeilingTable.expected.ceiling g ·) with
  | none => simpa [hlast] using List.mem_of_mem_getLast? hlast
  | some i => simpa using List.mem_of_find?_eq_some hf

end Controller

end LinkAdaptation
