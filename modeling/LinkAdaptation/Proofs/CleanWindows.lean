import LinkAdaptation.Window
import Mathlib.Tactic.Common

/-! Windows without stale bits. Whatever a window is filled with, no bit beyond
its size is set, so an empty window shows no outcome and the throughput is
known as soon as the outcomes suffice. -/

namespace LinkAdaptation

namespace Window

structure Clean (w : Window) : Prop where
  size_le : w.size ≤ windowLength
  zeros : ∀ i, w.size ≤ i → w.bits.getLsbD i = false

theorem clean_new (ceiling : Nat) : (new ceiling).Clean where
  size_le := Nat.zero_le _
  zeros i _ := by simp [new]

theorem Clean.push {w : Window} (h : w.Clean) (acked : Bool) : (w.push acked).Clean where
  size_le := Nat.min_le_right _ _
  zeros i hi := by
    simp only [Window.push, BitVec.getLsbD_shiftConcat] at hi ⊢
    by_cases hlt : i < windowLength
    · have hpos : i ≠ 0 := by simp only [windowLength] at hi; omega
      have hz := h.zeros (i - 1) (by omega)
      simp [hpos, hz]
    · simp [hlt]

theorem pushMany_induction {P : Window → Prop} (hpush : ∀ w acked, P w → P (w.push acked))
    {w : Window} (h : P w) (acked : Bool) (count : Nat) : P (w.pushMany acked count) := by
  unfold pushMany
  induction min count windowLength with
  | zero => exact h
  | succ n ih => exact hpush _ acked ih

theorem Clean.pushMany {w : Window} (h : w.Clean) (acked : Bool) (count : Nat) :
    (w.pushMany acked count).Clean :=
  pushMany_induction (fun _ b hw => hw.push b) h acked count

theorem successes_of_size_eq_zero {w : Window} (h : w.Clean) (hsize : w.size = 0) :
    w.successes = 0 := by
  have hbits : w.bits = 0 := by
    apply BitVec.eq_of_getLsbD_eq
    intro i _
    simpa using h.zeros i (by omega)
  simp [successes, hbits]

theorem isTelling_iff {w : Window} : w.isTelling = true ↔ 3 ≤ w.failures ∨ 8 ≤ w.successes := by
  rw [isTelling, Bool.or_eq_true, decide_eq_true_eq, decide_eq_true_eq]
  rfl

theorem throughput?_eq_none_iff {w : Window} (h : w.Clean) :
    w.throughput? = none ↔ ¬ (3 ≤ w.failures ∨ 8 ≤ w.successes) := by
  rw [← isTelling_iff]
  by_cases htell : w.isTelling = true
  · have hsize : w.size ≠ 0 := by
      intro hz
      have hs := successes_of_size_eq_zero h hz
      rw [isTelling_iff, failures, hs, hz] at htell
      omega
    simp [throughput?, ratio?, isEmpty, htell, hsize]
  · simp [throughput?, htell]

end Window

end LinkAdaptation
