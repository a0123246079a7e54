import LinkAdaptation.Proofs.Machine.Windows
import LinkAdaptation.Proofs.SlidingWindow
import Mathlib.Algebra.Order.Field.Rat
import Mathlib.Tactic.FieldSimp
import Mathlib.Tactic.Linarith
import Mathlib.Tactic.Ring

/-! What the statistics of a window are worth. A new outcome moves the ratio the
right way, also where an old one has to go for it. A throughput, once known, is
not lost again, and its two roundings leave it close to the exact value. -/

namespace LinkAdaptation

theorem div_le_div_of_cross {a b m n : Nat} (hm : 0 < m) (hn : 0 < n) (h : a * n ≤ b * m) :
    a / m ≤ b / n := by
  rw [Nat.le_div_iff_mul_le hn]
  have hfloor := Nat.mul_le_mul_right n (Nat.div_mul_le_self a m)
  refine Nat.le_of_mul_le_mul_right (c := m) ?_ hm
  calc a / m * n * m = a / m * m * n := Nat.mul_right_comm ..
    _ ≤ a * n := hfloor
    _ ≤ b * m := h

/-- A percentage is rounded down and its product with a ceiling to the nearest number. -/
theorem abs_scaled_sub_le (s m : Nat) {n : Nat} (hn : 0 < n) :
    |(((12800 * s / n * m + 64) / 128 : Nat) : ℚ) - 100 * m * s / n| ≤ m / 128 + 1 / 2 := by
  have hpos : (0 : ℚ) < n := by exact_mod_cast hn
  have hm : (0 : ℚ) ≤ m := by positivity
  generalize hr : 12800 * s / n = r
  generalize hq : (r * m + 64) / 128 = q
  have hle : (r : ℚ) ≤ 12800 * s / n := by
    rw [le_div_iff₀ hpos]
    exact_mod_cast hr ▸ Nat.div_mul_le_self (12800 * s) n
  have hlt : (12800 * s / n : ℚ) ≤ r + 1 := by
    rw [div_le_iff₀ hpos]
    have hsucc := Nat.lt_mul_div_succ (12800 * s) hn
    rw [hr, Nat.mul_comm n] at hsucc
    exact_mod_cast hsucc.le
  have hexact : (100 * m * s / n : ℚ) = 12800 * s / n * m / 128 := by
    field_simp
    ring
  have hlow := mul_le_mul_of_nonneg_right hle hm
  have hhigh := mul_le_mul_of_nonneg_right hlt hm
  have hqle : (128 * q : ℚ) ≤ r * m + 64 := by
    exact_mod_cast (by omega : 128 * q ≤ r * m + 64)
  have hqlt : (r * m : ℚ) ≤ 128 * q + 63 := by
    exact_mod_cast (by omega : r * m ≤ 128 * q + 63)
  rw [hexact, abs_le]
  constructor <;> linarith

namespace Window

variable {w : Window}

theorem ratio?_of_size_ne_zero (h : w.size ≠ 0) :
    w.ratio? = some (12800 * w.successes / w.size) := by
  simp [ratio?, isEmpty, h, ratioOfPercent]

theorem ratio?_eq_none_iff : w.ratio? = none ↔ w.size = 0 := by
  simp [ratio?, isEmpty]

section Push

theorem size_push (w : Window) (acked : Bool) :
    (w.push acked).size = min (w.size + 1) windowLength := rfl

theorem size_push_ne_zero (w : Window) (acked : Bool) : (w.push acked).size ≠ 0 := by
  simp only [size_push, windowLength]
  omega

/-- The outcome that a push drops from a full window. -/
def dropped (w : Window) (acked : Bool) : List Bool := (acked :: w.outcomes).drop windowLength

theorem count_dropped_le (w : Window) (acked b : Bool) :
    (w.dropped acked).count b ≤ w.size + 1 - windowLength := by
  have hle : (w.dropped acked).count b ≤ (w.dropped acked).length := List.count_le_length
  simpa [dropped, length_outcomes] using hle

theorem count_push (h : w.Clean) (acked b : Bool) :
    (w.push acked).outcomes.count b + (w.dropped acked).count b =
      w.outcomes.count b + if acked = b then 1 else 0 := by
  rw [outcomes_push h, dropped, ← List.count_append, List.take_append_drop, List.count_cons]
  simp

theorem successes_push (h : w.Clean) (acked : Bool) :
    (w.push acked).successes + (w.dropped acked).count true =
      w.successes + if acked = true then 1 else 0 := by
  rw [successes_eq_count (h.push acked), successes_eq_count h]
  exact count_push h acked true

theorem failures_push (h : w.Clean) (acked : Bool) :
    (w.push acked).failures + (w.dropped acked).count false =
      w.failures + if acked = false then 1 else 0 := by
  rw [failures_eq_count (h.push acked), failures_eq_count h]
  exact count_push h acked false

/-- A frame that arrives never lowers the ratio, and a loss never raises it. -/
theorem ratio_push (h : w.Clean) (hsize : w.size ≠ 0) :
    12800 * w.successes / w.size ≤ 12800 * (w.push true).successes / (w.push true).size ∧
      12800 * (w.push false).successes / (w.push false).size ≤ 12800 * w.successes / w.size := by
  have hle := h.size_le
  have hsuccesses := h.successes_le
  have hpos : 0 < w.size := Nat.pos_of_ne_zero hsize
  have htrue := successes_push h true
  have hfalse := successes_push h false
  have hdropped := w.count_dropped_le true true
  simp only [if_true, Bool.false_eq_true, if_false] at htrue hfalse
  by_cases hfull : w.size = windowLength
  · -- the size stays, and the oldest outcome counts for one at most
    have hsame (acked : Bool) : (w.push acked).size = w.size := by
      rw [size_push]
      omega
    rw [hsame, hsame]
    exact ⟨Nat.div_le_div_right (by omega), Nat.div_le_div_right (by omega)⟩
  · have hnext (acked : Bool) : (w.push acked).size = w.size + 1 := by
      rw [size_push]
      omega
    have hnone (acked : Bool) : (w.dropped acked).count true = 0 := by
      have := w.count_dropped_le acked true
      omega
    rw [hnone, Nat.add_zero] at htrue hfalse
    rw [hnext, hnext, htrue, hfalse]
    constructor
    · apply div_le_div_of_cross hpos (Nat.succ_pos _)
      linarith [Nat.mul_le_mul_left 12800 hsuccesses]
    · apply div_le_div_of_cross (Nat.succ_pos _) hpos
      exact Nat.mul_le_mul_left _ (Nat.le_succ _)

theorem isTelling_push (h : w.Clean) (htell : w.isTelling = true) (acked : Bool) :
    (w.push acked).isTelling = true := by
  rw [isTelling_iff] at htell ⊢
  have hle := h.size_le
  have hsum := successes_add_failures (h.push acked)
  have hpushed := w.size_push acked
  have hsuccesses := successes_push h acked
  have hfailures := failures_push h acked
  have hacked := w.count_dropped_le acked true
  have hlost := w.count_dropped_le acked false
  by_cases hfull : w.size = windowLength
  · -- a full window has outcomes enough, whatever they are
    simp only [windowLength] at hfull hpushed
    omega
  · split_ifs at hsuccesses hfailures <;> omega

end Push

theorem isTelling_update (h : w.Clean) (htell : w.isTelling = true) {u : Update}
    (hu : u ≠ .clear) : (w.update u).isTelling = true := by
  cases u with
  | push acked => exact isTelling_push h htell acked
  | pushMany acked count =>
    have hboth : (w.pushMany acked count).Clean ∧ (w.pushMany acked count).isTelling = true :=
      pushMany_induction (P := fun v => v.Clean ∧ v.isTelling = true)
        (fun v b hv => ⟨hv.1.push b, isTelling_push hv.1 hv.2 b⟩) ⟨h, htell⟩ acked count
    exact hboth.2
  | clear => exact absurd rfl hu

theorem isTelling_updateAll (h : w.Clean) (htell : w.isTelling = true) {updates : List Update}
    (hupdates : .clear ∉ updates) : (w.updateAll updates).isTelling = true := by
  induction updates generalizing w with
  | nil => exact htell
  | cons u us ih =>
    rw [List.mem_cons, not_or] at hupdates
    exact ih (h.update u) (isTelling_update h htell (Ne.symm hupdates.1)) hupdates.2

theorem throughput?_ne_none_iff (h : w.Clean) : w.throughput? ≠ none ↔ w.isTelling = true := by
  rw [ne_eq, throughput?_eq_none_iff h, not_not, isTelling_iff]

/-- One loss among as many outcomes as a window holds is enough to show. -/
theorem throughput?_lt_of_failures (h : w.Clean) (hceiling : 0 < w.ceiling) (hf : w.failures ≠ 0)
    {rate : Nat} (hrate : w.throughput? = some rate) : rate < 100 * w.ceiling := by
  obtain ⟨hsize, rfl⟩ := throughput?_eq_some hrate
  have hle := h.size_le
  have hsum := successes_add_failures h
  have hratio : 12800 * w.successes / w.size ≤ 12700 := by
    apply Nat.div_le_of_le_mul
    simp only [windowLength] at hle
    omega
  have hscaled := Nat.mul_le_mul_right w.ceiling hratio
  omega

theorem throughput?_full_iff (h : w.Clean) (hceiling : 0 < w.ceiling) {rate : Nat}
    (hrate : w.throughput? = some rate) : rate = 100 * w.ceiling ↔ w.failures = 0 := by
  constructor
  · intro hfull
    by_contra hlost
    exact absurd hfull (throughput?_lt_of_failures h hceiling hlost hrate).ne
  · intro hlost
    exact throughput?_of_no_failures h hlost hrate

/-- The statistics of every window, of whatever ceiling, are sound: the ratio is known as soon as
there is an outcome, the throughput as soon as there are three losses or eight successes, and
then until the window is cleared. They are computed in words without going beyond them. -/
theorem statistics_sound (ceiling : UInt16) (updates : List Update) :
    let w := (new ceiling.toNat).updateAll updates
    let held := (recorded updates).take windowLength
    let n := held.length
    let s := held.count true
    let ideal : ℚ := 100 * ceiling.toNat * s / n
    (w.ratio? = none ↔ n = 0) ∧
      (∀ ratio, w.ratio? = some ratio → ratio ≤ 12800 ∧
        ∃ more less, (w.push true).ratio? = some more ∧ (w.push false).ratio? = some less ∧
          ratio ≤ more ∧ less ≤ ratio) ∧
      (w.throughput? ≠ none ↔ 0 < n ∧ (3 ≤ n - s ∨ 8 ≤ s)) ∧
      (w.throughput? ≠ none →
        ∀ later, .clear ∉ later → (w.updateAll later).throughput? ≠ none) ∧
      (∀ rate, w.throughput? = some rate → rate ≤ 100 * ceiling.toNat ∧
        |(rate : ℚ) - ideal| ≤ ceiling.toNat / 128 + 1 / 2 ∧
        (0 < ceiling.toNat → (rate = 100 * ceiling.toNat ↔ false ∉ held))) ∧
      ∀ a : Arithmetic, w.ratioIn? a = .ok w.ratio? ∧ w.throughputIn? a = .ok w.throughput? := by
  intro w held n s ideal
  have hclean : w.Clean := (clean_new _).updateAll
  have hheld : w.outcomes = held := outcomes_new_updateAll _
  have hceiling : w.ceiling = ceiling.toNat := ceiling_updateAll
  have hn : w.size = n := by rw [← length_outcomes, hheld]
  have hs : w.successes = s := by rw [successes_eq_count hclean, hheld]
  have hf : w.failures = held.count false := by rw [failures_eq_count hclean, hheld]
  have hfits : w.Fits := ⟨hclean, hceiling ▸ ceiling.toNat_lt⟩
  refine ⟨by rw [ratio?_eq_none_iff, hn], fun ratio hratio => ?_, ?_, fun htold later hlater => ?_,
    fun rate hrate => ?_, fun a => ⟨hclean.ratioIn?_eq a, hfits.throughputIn?_eq a⟩⟩
  · have hsize : w.size ≠ 0 := fun hz => by simp [ratio?_eq_none_iff.mpr hz] at hratio
    have hmoved := ratio_push hclean hsize
    have hbound := hclean.ratio?_le hratio
    rw [ratio?_of_size_ne_zero hsize, Option.some.injEq] at hratio
    rw [hratio] at hmoved
    exact ⟨hbound, _, _, ratio?_of_size_ne_zero (w.size_push_ne_zero true),
      ratio?_of_size_ne_zero (w.size_push_ne_zero false), hmoved⟩
  · have hsum := successes_add_failures hclean
    rw [throughput?_ne_none_iff hclean, isTelling_iff]
    omega
  · rw [throughput?_ne_none_iff hclean.updateAll]
    exact isTelling_updateAll hclean ((throughput?_ne_none_iff hclean).mp htold) hlater
  · obtain ⟨hsize, hvalue⟩ := throughput?_eq_some hrate
    refine ⟨hceiling ▸ throughput?_le hclean hrate, ?_, fun hpos => ?_⟩
    · rw [hvalue, hceiling, hs, hn]
      exact abs_scaled_sub_le s ceiling.toNat (Nat.pos_of_ne_zero (hn ▸ hsize))
    · rw [← List.count_eq_zero, ← hf, ← hceiling]
      exact throughput?_full_iff hclean (hceiling ▸ hpos) hrate

end Window

end LinkAdaptation
