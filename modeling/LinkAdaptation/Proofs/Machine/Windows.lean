import LinkAdaptation.Proofs.Machine.Arithmetic
import LinkAdaptation.Proofs.WindowOutcomes

/-! Windows and their statistics, computed in words: sizes in 8 bits, ceilings
in 16, everything else in 32. No window without stale bits leads out of them. -/

namespace LinkAdaptation

namespace Window

variable (a : Arithmetic)

def pushIn (w : Window) (acked : Bool) : Except Trap Window := do
  let size ← (if w.size < windowLength then a.fit 8 (w.size + 1) else .ok w.size)
  return { w with bits := w.bits.shiftConcat acked, size := size }

def pushTimesIn (w : Window) (acked : Bool) : Nat → Except Trap Window
  | 0 => return w
  | n + 1 => do (← w.pushTimesIn acked n).pushIn a acked

def pushManyIn (w : Window) (acked : Bool) (count : Nat) : Except Trap Window :=
  w.pushTimesIn a acked (min count windowLength)

def failureIn? (w : Window) : Except Trap (Option Nat) :=
  match w.success? with
  | none => return none
  | some successes => return some (← a.sub 32 w.size successes)

def ratioIn? (w : Window) : Except Trap (Option Nat) :=
  match w.success? with
  | none => return none
  | some successes => do
    let scaled ← a.fit 32 (ratioOfPercent 100 * successes)
    return some (← Memory.divide scaled w.size)

def throughputIn? (w : Window) : Except Trap (Option Nat) :=
  match w.success? with
  | none => return none
  | some successes => do
    let failures ← a.sub 32 w.size successes
    if failures < minFailures ∧ successes < minSuccesses then
      return none
    else
      match ← w.ratioIn? a with
      | none => return none
      | some ratio =>
        let scaled ← a.fit 32 (ratio * w.ceiling)
        let rounded ← a.fit 32 (scaled + 64)
        return some (rounded / 128)

/-- What the statistics of a window need to be computed in words. -/
structure Fits (w : Window) : Prop extends w.Clean where
  ceiling_lt : w.ceiling < 2 ^ 16

theorem Clean.successes_le {w : Window} (h : w.Clean) : w.successes ≤ w.size := by
  have hsum := successes_add_failures h
  omega

theorem Clean.size_lt {w : Window} (h : w.Clean) : w.size < 2 ^ 32 :=
  Nat.lt_of_le_of_lt h.size_le (by decide)

theorem Clean.ratio?_le {w : Window} (h : w.Clean) {ratio : Nat} (hratio : w.ratio? = some ratio) :
    ratio ≤ ratioOfPercent 100 := by
  unfold ratio? at hratio
  split_ifs at hratio
  obtain rfl := Option.some.inj hratio
  exact Nat.div_le_of_le_mul (by rw [Nat.mul_comm]; exact Nat.mul_le_mul_right _ h.successes_le)

theorem isTelling_eq_false_iff (w : Window) :
    w.isTelling = false ↔ w.size - w.successes < minFailures ∧ w.successes < minSuccesses := by
  rw [isTelling, Bool.or_eq_false_iff, decide_eq_false_iff_not, decide_eq_false_iff_not,
    Nat.not_le, Nat.not_le]
  rfl

namespace Clean

variable {w : Window} (h : w.Clean)

include h

theorem pushIn_eq (acked : Bool) : w.pushIn a acked = .ok (w.push acked) := by
  have hsize := h.size_le
  have hnext : (if w.size < windowLength then a.fit 8 (w.size + 1) else .ok w.size) =
      .ok (min (w.size + 1) windowLength) := by
    split_ifs with hlt
    · rw [Nat.min_eq_left hlt]
      exact a.fit_of_lt (by simp only [windowLength] at hlt; omega)
    · exact congrArg Except.ok (by omega)
  rw [pushIn, hnext]
  rfl

theorem pushManyIn_eq (acked : Bool) (count : Nat) :
    w.pushManyIn a acked count = .ok (w.pushMany acked count) := by
  have hrepeat (n : Nat) : (n.repeat (·.push acked) w).Clean ∧
      w.pushTimesIn a acked n = .ok (n.repeat (·.push acked) w) := by
    induction n with
    | zero => exact ⟨h, rfl⟩
    | succ n ih =>
      refine ⟨ih.1.push acked, ?_⟩
      rw [pushTimesIn, ih.2]
      exact ih.1.pushIn_eq a acked
  exact (hrepeat _).2

theorem failureIn?_eq : w.failureIn? a = .ok w.failure? := by
  unfold failureIn? failure?
  by_cases hsize : w.size = 0
  · simp [success?, isEmpty, hsize]
  · have hsub := a.sub_of_le h.size_lt h.successes_le
    simp [success?, isEmpty, hsize, hsub, failures]

theorem ratioIn?_eq : w.ratioIn? a = .ok w.ratio? := by
  unfold ratioIn? ratio?
  by_cases hsize : w.size = 0
  · simp [success?, isEmpty, hsize]
  · have hscaled : a.fit 32 (ratioOfPercent 100 * w.successes) = .ok _ := a.fit_of_lt (by
      have hle := h.size_le
      have hsuccesses := h.successes_le
      simp only [windowLength, ratioOfPercent] at hle ⊢
      omega)
    simp [success?, isEmpty, hsize, hscaled, Memory.divide_of_ne_zero]

end Clean

theorem Fits.throughputIn?_eq {w : Window} (h : w.Fits) :
    w.throughputIn? a = .ok w.throughput? := by
  unfold throughputIn? throughput?
  by_cases hsize : w.size = 0
  · have hratio : w.ratio? = none := by simp [ratio?, isEmpty, hsize]
    simp [success?, isEmpty, hsize, hratio]
  · have hsub := a.sub_of_le h.size_lt h.successes_le
    have hratioIn := h.ratioIn?_eq a
    obtain ⟨ratio, hratio⟩ : ∃ ratio, w.ratio? = some ratio := by simp [ratio?, isEmpty, hsize]
    have hproduct : ratio * w.ceiling ≤ ratioOfPercent 100 * w.ceiling :=
      Nat.mul_le_mul_right _ (h.ratio?_le hratio)
    have hceiling := h.ceiling_lt
    rw [ratioOfPercent] at hproduct
    have hscaled : a.fit 32 (ratio * w.ceiling) = .ok _ := a.fit_of_lt (by omega)
    have hrounded : a.fit 32 (ratio * w.ceiling + 64) = .ok _ := a.fit_of_lt (by omega)
    have hgate := w.isTelling_eq_false_iff
    cases htell : w.isTelling with
    | true =>
      rw [htell] at hgate
      have hmany := mt hgate.mpr (by decide)
      simp [success?, isEmpty, hsize, hsub, hmany, hratioIn, hratio, hscaled, hrounded]
    | false =>
      have hfew := hgate.mp htell
      simp [success?, isEmpty, hsize, hsub, hfew]

end Window

end LinkAdaptation
