import LinkAdaptation.Proofs.CleanWindows
import Mathlib.Data.Bool.Count
import Mathlib.Tactic.Common

/-! A window read as the list of its outcomes, newest first. A new outcome is
put in front, and the oldest falls off the end of a full window. What a window
says about a rate is then a matter of counting in a list. -/

namespace LinkAdaptation

theorem cpopNatRec_eq_count {n : Nat} (x : BitVec n) (k : Nat) :
    x.cpopNatRec k 0 = ((List.range k).map x.getLsbD).count true := by
  induction k with
  | zero => rfl
  | succ k ih =>
    rw [BitVec.cpopNatRec_succ, BitVec.cpopNatRec_eq, ih, List.range_succ, List.map_append,
      List.count_append]
    cases hb : x.getLsbD k <;> simp [hb]

theorem take_append_take (front back : List Bool) (n : Nat) :
    (front ++ back.take n).take n = (front ++ back).take n := by
  simp [List.take_append, List.take_take]

namespace Window

/-- The outcomes in a window, newest first. -/
def outcomes (w : Window) : List Bool := (List.range w.size).map w.bits.getLsbD

theorem length_outcomes (w : Window) : w.outcomes.length = w.size := by
  simp [outcomes]

theorem outcomes_new (ceiling : Nat) : (new ceiling).outcomes = [] := rfl

theorem outcomes_push {w : Window} (h : w.Clean) (acked : Bool) :
    (w.push acked).outcomes = (acked :: w.outcomes).take windowLength := by
  have hsize := h.size_le
  apply List.ext_getElem
  · simp only [length_outcomes, push, List.length_take, List.length_cons]
    omega
  · intro i hi _
    rw [length_outcomes] at hi
    change i < min (w.size + 1) windowLength at hi
    have hlt : i < windowLength := by omega
    cases i with
    | zero => simp [outcomes, push, hlt]
    | succ i => simp [outcomes, push, hlt, BitVec.getLsbD_eq_getElem (Nat.lt_of_succ_lt hlt)]

theorem outcomes_pushMany {w : Window} (h : w.Clean) (acked : Bool) (count : Nat) :
    (w.pushMany acked count).outcomes =
      (List.replicate count acked ++ w.outcomes).take windowLength := by
  have hrepeat (n : Nat) : (n.repeat (·.push acked) w).Clean ∧
      (n.repeat (·.push acked) w).outcomes =
        (List.replicate n acked ++ w.outcomes).take windowLength := by
    induction n with
    | zero =>
      have hlen : w.outcomes.length ≤ windowLength := w.length_outcomes ▸ h.size_le
      exact ⟨h, (List.take_of_length_le hlen).symm⟩
    | succ n ih =>
      refine ⟨ih.1.push acked, ?_⟩
      have hpush := outcomes_push ih.1 acked
      rw [ih.2] at hpush
      exact hpush.trans (take_append_take [acked] _ _)
  rw [pushMany, (hrepeat _).2]
  by_cases hc : count ≤ windowLength
  · rw [Nat.min_eq_left hc]
  · have hle : windowLength ≤ count := by omega
    rw [Nat.min_eq_right hle]
    simp [List.take_append, hle]

theorem successes_eq_count {w : Window} (h : w.Clean) : w.successes = w.outcomes.count true := by
  have hrec : ∀ k, w.bits.cpopNatRec (w.size + k) 0 = w.bits.cpopNatRec w.size 0 := by
    intro k
    induction k with
    | zero => rfl
    | succ k ih =>
      rw [← Nat.add_assoc, BitVec.cpopNatRec_succ, h.zeros (w.size + k) (by omega)]
      exact ih
  have hall : w.bits.cpopNatRec windowLength 0 = w.bits.cpopNatRec w.size 0 := by
    have hk := hrec (windowLength - w.size)
    rwa [Nat.add_sub_cancel' h.size_le] at hk
  have hlt : w.bits.cpopNatRec windowLength 0 < 2 ^ windowLength :=
    Nat.lt_of_le_of_lt (BitVec.cpopNatRec_zero_le _ _) Nat.lt_two_pow_self
  rw [successes, BitVec.cpop, BitVec.toNat_ofNat, Nat.mod_eq_of_lt hlt, hall, cpopNatRec_eq_count]
  rfl

theorem failures_eq_count {w : Window} (h : w.Clean) : w.failures = w.outcomes.count false := by
  have hsum := List.count_false_add_count_true w.outcomes
  rw [length_outcomes] at hsum
  rw [failures, successes_eq_count h]
  omega

theorem successes_add_failures {w : Window} (h : w.Clean) : w.successes + w.failures = w.size := by
  rw [successes_eq_count h, failures_eq_count h, ← length_outcomes, Nat.add_comm]
  exact List.count_false_add_count_true w.outcomes

theorem le_ratio_iff {w : Window} (h : w.size ≠ 0) (percent : Nat) :
    ratioOfPercent percent ≤ w.ratio?.getD 0 ↔ percent * w.size ≤ 100 * w.successes := by
  have hpos : 0 < w.size := by omega
  simp only [ratio?, isEmpty, h, beq_iff_eq, if_false, Option.getD_some, ratioOfPercent,
    Nat.le_div_iff_mul_le hpos, Nat.mul_assoc]
  omega

/-- Rounding does not take a ratio down to a percentage that it exceeds: over so few outcomes it
exceeds it by more. -/
theorem ratio_le_iff {w : Window} (hclean : w.Clean) (h : w.size ≠ 0) (percent : Nat) :
    w.ratio?.getD 0 ≤ ratioOfPercent percent ↔ 100 * w.successes ≤ percent * w.size := by
  have hpos : 0 < w.size := by omega
  have hsize : w.size ≤ 62 := hclean.size_le
  have hfloor : 12800 * w.successes / w.size ≤ 128 * percent ↔
      12800 * w.successes < 128 * (percent * w.size) + w.size := by
    rw [← Nat.lt_succ_iff, Nat.div_lt_iff_lt_mul hpos, Nat.succ_eq_add_one, Nat.add_mul,
      Nat.one_mul, Nat.mul_assoc]
  simp only [ratio?, isEmpty, h, beq_iff_eq, if_false, Option.getD_some, ratioOfPercent]
  rw [hfloor]
  omega

theorem throughput?_eq_some {w : Window} {rate : Nat} (h : w.throughput? = some rate) :
    w.size ≠ 0 ∧ rate = (12800 * w.successes / w.size * w.ceiling + 64) / 128 := by
  unfold throughput? ratio? at h
  by_cases ht : w.isTelling = true
  · by_cases hz : w.size = 0
    · simp [ht, isEmpty, hz] at h
    · simp only [ht, isEmpty, hz, if_true, beq_iff_eq, if_false, Option.map_some,
        Option.some.injEq] at h
      exact ⟨hz, h.symm⟩
  · simp [ht] at h

theorem throughput?_le {w : Window} (h : w.Clean) {rate : Nat} (hrate : w.throughput? = some rate) :
    rate ≤ 100 * w.ceiling := by
  obtain ⟨hsize, rfl⟩ := throughput?_eq_some hrate
  have hs : w.successes ≤ w.size := by
    have := successes_add_failures h
    omega
  have hratio : 12800 * w.successes / w.size ≤ 12800 :=
    Nat.div_le_of_le_mul (by rw [Nat.mul_comm w.size]; exact Nat.mul_le_mul_left _ hs)
  have hscaled := Nat.mul_le_mul_right w.ceiling hratio
  omega

theorem throughput?_of_no_failures {w : Window} (h : w.Clean) (hf : w.failures = 0) {rate : Nat}
    (hrate : w.throughput? = some rate) : rate = 100 * w.ceiling := by
  obtain ⟨hsize, rfl⟩ := throughput?_eq_some hrate
  have hs : w.successes = w.size := by
    have := successes_add_failures h
    omega
  have hratio : 12800 * w.successes / w.size = 12800 := by
    rw [hs]
    exact Nat.mul_div_cancel _ (by omega)
  rw [hratio]
  omega

theorem throughput?_of_no_successes {w : Window} (hs : w.successes = 0) {rate : Nat}
    (hrate : w.throughput? = some rate) : rate = 0 := by
  obtain ⟨-, rfl⟩ := throughput?_eq_some hrate
  simp [hs]

end Window

end LinkAdaptation
