import LinkAdaptation.Proofs.WindowOutcomes

/-! A window slides over all that happens to it. However many outcomes come in,
singly or in bulk, it holds the newest of those since it was last cleared, each
bit in its place. What was shifted past the end leaves no trace, neither in the
window nor in the word that it is kept in. -/

namespace LinkAdaptation

namespace Window

/-- What is done to a window. -/
inductive Update where
  | push (acked : Bool)
  | pushMany (acked : Bool) (count : Nat)
  | clear
  deriving DecidableEq, Repr

def update (w : Window) : Update → Window
  | .push acked => w.push acked
  | .pushMany acked count => w.pushMany acked count
  | .clear => w.clear

def updateAll (w : Window) (updates : List Update) : Window := updates.foldl update w

/-- What becomes of a record that forgets nothing until it is cleared. -/
def Update.extend (record : List Bool) : Update → List Bool
  | .push acked => acked :: record
  | .pushMany acked count => List.replicate count acked ++ record
  | .clear => []

/-- All outcomes since the window was last cleared, newest first. -/
def recorded (updates : List Update) : List Bool := updates.foldl Update.extend []

theorem eq_of_fields {v w : Window} (hbits : v.bits = w.bits) (hsize : v.size = w.size)
    (hceiling : v.ceiling = w.ceiling) : v = w := by
  cases v
  cases w
  exact (Window.mk.injEq ..).mpr ⟨hbits, hsize, hceiling⟩

section Repeat

variable (w : Window) (acked : Bool)

theorem getLsbD_repeat_push (n : Nat) {i : Nat} (hi : i < windowLength) :
    (n.repeat (·.push acked) w).bits.getLsbD i =
      if i < n then acked else w.bits.getLsbD (i - n) := by
  induction n generalizing i with
  | zero => rfl
  | succ n ih =>
    have hpush : ((n + 1).repeat (·.push acked) w).bits.getLsbD i =
        if i = 0 then acked else (n.repeat (·.push acked) w).bits.getLsbD (i - 1) := by
      change ((n.repeat (·.push acked) w).bits.shiftConcat acked).getLsbD i = _
      rw [BitVec.getLsbD_shiftConcat, decide_eq_true hi, Bool.true_and]
    rw [hpush]
    by_cases hz : i = 0
    · simp [hz]
    · rw [if_neg hz, ih (by omega), Nat.sub_sub, Nat.add_comm 1 n]
      exact if_congr (by omega) rfl rfl

theorem size_repeat_push {n : Nat} (hn : n ≠ 0) :
    (n.repeat (·.push acked) w).size = min (w.size + n) windowLength := by
  induction n with
  | zero => exact absurd rfl hn
  | succ n ih =>
    by_cases hz : n = 0
    · subst hz
      rfl
    · change min ((n.repeat (·.push acked) w).size + 1) windowLength = _
      rw [ih hz]
      omega

theorem ceiling_repeat_push (n : Nat) : (n.repeat (·.push acked) w).ceiling = w.ceiling := by
  induction n with
  | zero => rfl
  | succ n ih => exact ih

/-- After a window's length of equal outcomes nothing else is left, so more of them change nothing. -/
theorem pushMany_eq_repeat (count : Nat) :
    w.pushMany acked count = count.repeat (·.push acked) w := by
  by_cases hc : count ≤ windowLength
  · rw [pushMany, Nat.min_eq_left hc]
  · have hbits : (windowLength.repeat (·.push acked) w).bits = (count.repeat (·.push acked) w).bits := by
      apply BitVec.eq_of_getLsbD_eq
      intro i hi
      rw [getLsbD_repeat_push w acked _ hi, getLsbD_repeat_push w acked _ hi, if_pos hi,
        if_pos (by omega)]
    have hsize : (windowLength.repeat (·.push acked) w).size = (count.repeat (·.push acked) w).size := by
      rw [size_repeat_push w acked (by decide), size_repeat_push w acked (by omega)]
      omega
    rw [pushMany, Nat.min_eq_right (by omega)]
    exact eq_of_fields hbits hsize
      ((ceiling_repeat_push w acked _).trans (ceiling_repeat_push w acked _).symm)

end Repeat

section Word

/-- The word in which the bits of a window lie. -/
def word (w : Window) : BitVec 64 := w.bits.setWidth 64

def wordMask : BitVec 64 := (BitVec.allOnes windowLength).setWidth 64

theorem getLsbD_word (w : Window) (i : Nat) : w.word.getLsbD i = w.bits.getLsbD i := by
  by_cases hi : i < 64
  · simp [word, hi]
  · have hlength : windowLength ≤ i := by
      simp only [windowLength]
      omega
    simp [word, hi, BitVec.getLsbD_of_ge _ _ hlength]

theorem getLsbD_wordMask {i : Nat} (hi : i < 64) :
    wordMask.getLsbD i = decide (i < windowLength) := by
  simp [wordMask, hi]

theorem word_push (w : Window) (acked : Bool) :
    (w.push acked).word = (w.word <<< 1 ||| (BitVec.ofBool acked).setWidth 64) &&& wordMask := by
  apply BitVec.eq_of_getLsbD_eq
  intro i hi
  rw [BitVec.getLsbD_and, BitVec.getLsbD_or, BitVec.getLsbD_shiftLeft, getLsbD_wordMask hi,
    getLsbD_word, getLsbD_word, push, BitVec.getLsbD_shiftConcat]
  by_cases hz : i = 0
  · subst hz
    simp [windowLength]
  · simp [hz, hi, Bool.and_comm]

end Word

section Updates

variable {w : Window} {updates : List Update}

theorem Clean.update (h : w.Clean) (u : Update) : (w.update u).Clean := by
  cases u with
  | push acked => exact h.push acked
  | pushMany acked count => exact h.pushMany acked count
  | clear => exact clean_new _

theorem Clean.updateAll (h : w.Clean) : (w.updateAll updates).Clean := by
  induction updates generalizing w with
  | nil => exact h
  | cons u us ih => exact ih (h.update u)

theorem ceiling_updateAll : (w.updateAll updates).ceiling = w.ceiling := by
  induction updates generalizing w with
  | nil => rfl
  | cons u us ih =>
    refine (ih (w := w.update u)).trans ?_
    cases u with
    | push | clear => rfl
    | pushMany acked count => exact pushMany_ceiling w acked count

theorem outcomes_update (h : w.Clean) {record : List Bool}
    (hw : w.outcomes = record.take windowLength) (u : Update) :
    (w.update u).outcomes = (u.extend record).take windowLength := by
  cases u with
  | push acked => rw [update, outcomes_push h, hw]; exact take_append_take [acked] _ _
  | pushMany acked count => rw [update, outcomes_pushMany h, hw]; exact take_append_take _ _ _
  | clear => rfl

theorem outcomes_updateAll (h : w.Clean) {record : List Bool}
    (hw : w.outcomes = record.take windowLength) :
    (w.updateAll updates).outcomes = (updates.foldl Update.extend record).take windowLength := by
  induction updates generalizing w record with
  | nil => exact hw
  | cons u us ih => exact ih (h.update u) (outcomes_update h hw u)

theorem outcomes_new_updateAll (ceiling : Nat) :
    ((new ceiling).updateAll updates).outcomes = (recorded updates).take windowLength :=
  outcomes_updateAll (clean_new ceiling) rfl

end Updates

theorem getLsbD_of_outcomes (w : Window) {i : Nat} (hi : i < w.outcomes.length) :
    w.bits.getLsbD i = w.outcomes[i] := by
  simp [outcomes]

theorem counts_eq {w : Window} (h : w.Clean) :
    w.success? = (if w.outcomes = [] then none else some (w.outcomes.count true)) ∧
      w.failure? = (if w.outcomes = [] then none else some (w.outcomes.count false)) := by
  have hempty : w.outcomes = [] ↔ w.isEmpty = true := by
    rw [← List.length_eq_zero_iff, length_outcomes, isEmpty, beq_iff_eq]
  rw [success?, failure?, successes_eq_count h, failures_eq_count h]
  exact ⟨if_congr hempty.symm rfl rfl, if_congr hempty.symm rfl rfl⟩

/-- Whatever is done to a window, it is the list of the newest outcomes since it was last cleared:
so many, in this order from the lowest bit up, with zeros to the end of the word, and counted
rightly. Its ceiling stays, and pushing many equal outcomes at once is pushing them one by one. A
push shifts the word, sets its lowest bit and masks what went past the end of the window. -/
theorem holds_newest_outcomes (ceiling : Nat) (updates : List Update) :
    let w := (new ceiling).updateAll updates
    let held := (recorded updates).take windowLength
    w.outcomes = held ∧ w.size = held.length ∧
      (∀ (i : Nat) (hi : i < held.length), w.word.getLsbD i = held[i]) ∧
      (∀ i, held.length ≤ i → w.word.getLsbD i = false) ∧
      w.success? = (if held = [] then none else some (held.count true)) ∧
      w.failure? = (if held = [] then none else some (held.count false)) ∧
      w.ceiling = ceiling ∧
      (∀ (v : Window) (acked : Bool) (count : Nat),
        v.pushMany acked count = count.repeat (·.push acked) v) ∧
      ∀ (v : Window) (acked : Bool), (v.push acked).word =
        (v.word <<< 1 ||| (BitVec.ofBool acked).setWidth 64) &&& wordMask := by
  intro w held
  have hclean : w.Clean := (clean_new ceiling).updateAll
  have hheld : w.outcomes = held := outcomes_new_updateAll ceiling
  have hsize : w.size = held.length := by rw [← hheld, length_outcomes]
  obtain ⟨hsuccess, hfailure⟩ := counts_eq hclean
  rw [hheld] at hsuccess hfailure
  refine ⟨hheld, hsize, fun i hi => ?_, fun i hi => ?_, hsuccess, hfailure, ceiling_updateAll,
    pushMany_eq_repeat, word_push⟩
  · rw [getLsbD_word, getLsbD_of_outcomes w (hheld ▸ hi)]
    simp only [hheld]
  · rw [getLsbD_word]
    exact hclean.zeros i (hsize ▸ hi)

/-- Ten frames that arrive push ten losses out of a full window. -/
example :
    let w := (new 7).updateAll [.pushMany false 100, .pushMany true 9, .push true]
    w.success? = some 10 ∧ w.failure? = some 52 := by
  decide +kernel

end Window

end LinkAdaptation
