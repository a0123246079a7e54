import LinkAdaptation.Controller.Step
import Mathlib.Tactic.Common

/-! The order in which the steps pass through the rates of a column. The lower
neighbour of a rate stands below it and the upper one above it, in the legacy
column as in the others, so no rate is its own neighbour or a neighbour twice. -/

namespace LinkAdaptation

namespace Neighbours

/-- The legacy rates in the order in which the steps pass through them. -/
def legacyLadder : List Nat := [0, 1, 2, 4, 5, 3, 6, 7, 8, 9, 10, 11]

def rung (g : RateGroup) (index : Nat) : Nat :=
  if g.mode.isLegacy then legacyLadder.idxOf index else index

theorem rung_lt {g : RateGroup} {index : Nat} (h : index < ratesPerGroup) :
    rung g index < ratesPerGroup := by
  unfold rung
  split_ifs
  · have hle : legacyLadder.idxOf index ≤ 12 := List.idxOf_le_length
    exact Nat.lt_of_le_of_lt hle (by decide)
  · exact h

theorem legacyLadder_climbs : ∀ i : Fin 12,
    (legacy.get i).lower.all (legacyLadder.idxOf · < legacyLadder.idxOf i.val) = true ∧
      (legacy.get i).upper.all (legacyLadder.idxOf i.val < legacyLadder.idxOf ·) = true := by
  decide

theorem rung_of_neighbour (g : RateGroup) (index : Nat) :
    (∀ i, (of g index).lower = some i → rung g i < rung g index) ∧
      ∀ i, (of g index).upper = some i → rung g index < rung g i := by
  unfold of rung
  split_ifs
  · by_cases hi : index < 12
    · have hclimbs : legacy[index].lower.all (legacyLadder.idxOf · < legacyLadder.idxOf index) ∧
          legacy[index].upper.all (legacyLadder.idxOf index < legacyLadder.idxOf ·) :=
        legacyLadder_climbs ⟨index, hi⟩
      simp only [hi, Vector.getElem?_eq_getElem, Option.getD_some]
      exact ⟨fun i h => by simpa [h] using hclimbs.1, fun i h => by simpa [h] using hclimbs.2⟩
    · simp [hi]
  · refine ⟨fun i h => ?_, fun i h => ?_⟩
    · simpa using List.find?_some h
    · simpa using List.find?_some h

theorem ne_of_neighbour {g : RateGroup} {index i : Nat}
    (h : (of g index).lower = some i ∨ (of g index).upper = some i) : i ≠ index := by
  obtain ⟨hlower, hupper⟩ := rung_of_neighbour g index
  rintro rfl
  rcases h with h | h
  · exact Nat.lt_irrefl _ (hlower _ h)
  · exact Nat.lt_irrefl _ (hupper _ h)

theorem upper_ne_of_lower {g : RateGroup} {index i : Nat} (h : (of g index).lower = some i) :
    (of g index).upper ≠ some i := by
  obtain ⟨hlower, hupper⟩ := rung_of_neighbour g index
  intro h'
  exact Nat.lt_asymm (hlower _ h) (hupper _ h')

end Neighbours

end LinkAdaptation
