import LinkAdaptation.Proofs.TrialOutcomes
import Mathlib.Algebra.Order.BigOperators.Group.Finset
import Mathlib.Data.Fintype.Prod
import Mathlib.Data.List.TakeWhile

/-! What a ledger still remembers of other times. While a link is steady every
outcome is the same, and a window that has seen enough of them shows no other.
The outcomes that are missing until then are the debt of the window. Steady
reports only ever reduce it, and clearing a group is what raises it. -/

namespace LinkAdaptation

namespace Window

/-- How many of the newest outcomes equal `b` in a row. -/
def lead (b : Bool) (w : Window) : Nat := (w.outcomes.takeWhile (· == b)).length

/-- The outcomes equal to `b` that are missing until the window shows no other. -/
def debt (b : Bool) (w : Window) : Nat := windowLength - w.lead b

theorem debt_le (b : Bool) (w : Window) : w.debt b ≤ windowLength := Nat.sub_le _ _

section Steady

variable {w : Window} {b : Bool} {r : Report}

theorem lead_absorb (h : w.Clean) (hr : ∀ x ∈ r.outcomes, x = b) :
    (w.absorb r).lead b = min windowLength (r.outcomes.length + w.lead b) := by
  have hfront : ∀ x ∈ r.outcomes.reverse, (x == b) = true := by simpa using hr
  rw [lead, outcomes_absorb h, ← List.take_takeWhile, List.takeWhile_append_of_pos hfront,
    List.length_take, List.length_append, List.length_reverse, lead]

theorem debt_absorb_le (h : w.Clean) (hr : ∀ x ∈ r.outcomes, x = b) :
    (w.absorb r).debt b ≤ w.debt b := by
  rw [debt, debt, lead_absorb h hr]
  omega

theorem debt_absorb_lt (h : w.Clean) (hr : ∀ x ∈ r.outcomes, x = b) (hsome : r.outcomes ≠ [])
    (hdebt : w.debt b ≠ 0) : (w.absorb r).debt b < w.debt b := by
  have hpos := List.length_pos_of_ne_nil hsome
  rw [debt] at hdebt
  rw [debt, debt, lead_absorb h hr]
  omega

theorem outcomes_of_debt_eq_zero (h : w.Clean) (hdebt : w.debt b = 0) :
    w.outcomes = List.replicate windowLength b := by
  have hsize : w.outcomes.length ≤ windowLength := w.length_outcomes ▸ h.size_le
  have hlead : windowLength ≤ w.lead b := Nat.sub_eq_zero_iff_le.mp hdebt
  have hall : w.outcomes.takeWhile (· == b) = w.outcomes :=
    (List.takeWhile_prefix _).eq_of_length_le (hsize.trans hlead)
  have hlen : w.lead b = w.outcomes.length := congrArg List.length hall
  refine List.eq_replicate_iff.mpr ⟨Nat.le_antisymm hsize (hlen ▸ hlead), fun x hx => ?_⟩
  simpa using List.takeWhile_eq_self_iff.mp hall x hx

/-- A window without debt tells all there is to know: every frame arrives, or none does. -/
theorem ratio?_of_debt_eq_zero (h : w.Clean) (hdebt : w.debt b = 0) :
    w.ratio? = some (if b then ratioOfPercent 100 else 0) := by
  have houtcomes := outcomes_of_debt_eq_zero h hdebt
  have hsize : w.size = windowLength := by
    rw [← length_outcomes, houtcomes, List.length_replicate]
  have hsuccesses : w.successes = if b then windowLength else 0 := by
    rw [successes_eq_count h, houtcomes, List.count_replicate]
    cases b <;> rfl
  rw [ratio?, isEmpty, hsize, hsuccesses]
  cases b <;> rfl

theorem throughput?_of_debt_eq_zero (h : w.Clean) (hdebt : w.debt b = 0) :
    w.throughput? = some (if b then 100 * w.ceiling else 0) := by
  have houtcomes := outcomes_of_debt_eq_zero h hdebt
  have htold : w.throughput? ≠ none := by
    rw [ne_eq, throughput?_eq_none_iff h, failures_eq_count h, successes_eq_count h, houtcomes,
      List.count_replicate, List.count_replicate]
    cases b <;> decide
  obtain ⟨rate, hrate⟩ := Option.ne_none_iff_exists'.mp htold
  rw [hrate]
  cases b with
  | true =>
    have hfailures : w.failures = 0 := by
      simp [failures_eq_count h, houtcomes, List.count_replicate]
    rw [throughput?_of_no_failures h hfailures hrate]
    rfl
  | false =>
    have hsuccesses : w.successes = 0 := by
      simp [successes_eq_count h, houtcomes, List.count_replicate]
    rw [throughput?_of_no_successes hsuccesses hrate]
    rfl

end Steady

end Window

namespace Ledger

/-- The window kept for one rate of one group. -/
def cell (l : Ledger) (slot : Fin groupCount) (i : Fin ratesPerGroup) : Window :=
  (l.groups.get slot).get i

theorem cell_mk (l : Ledger) {slot i : Nat} (hslot : slot < groupCount) (hi : i < ratesPerGroup) :
    l.cell ⟨slot, hslot⟩ ⟨i, hi⟩ = l.groups[slot][i] :=
  rfl

/-- The debts of all windows together. -/
def debt (b : Bool) (l : Ledger) : Nat :=
  ∑ x : Fin groupCount × Fin ratesPerGroup, (l.cell x.1 x.2).debt b

theorem debt_le (b : Bool) (l : Ledger) :
    l.debt b ≤ groupCount * ratesPerGroup * windowLength := by
  have hsum := Finset.sum_le_card_nsmul Finset.univ
    (fun x : Fin groupCount × Fin ratesPerGroup => (l.cell x.1 x.2).debt b) windowLength
    fun _ _ => Window.debt_le b _
  simpa [debt] using hsum

theorem cell_record (l : Ledger) (g : RateGroup) (index acked lost : Nat)
    (slot : Fin groupCount) (i : Fin ratesPerGroup) :
    (l.record g index acked lost).cell slot i =
      if g.slot = slot ∧ index = i then
        ((l.window g index).pushMany true acked).pushMany false lost
      else l.cell slot i := by
  obtain ⟨slot, hslot⟩ := slot
  obtain ⟨i, hi'⟩ := i
  rw [cell_mk, cell_mk]
  by_cases hs : g.slot = slot
  · subst hs
    by_cases hindex : index = i
    · subst hindex
      simp [record, setGroup]
    · simp [record, setGroup, group, hindex, Vector.getElem_setIfInBounds_ne]
  · simp [record, setGroup, hs, Vector.getElem_set_ne]

theorem window_eq_cell (l : Ledger) (g : RateGroup) {index : Nat} (hi : index < ratesPerGroup) :
    l.window g index = l.cell ⟨g.slot, g.slot_lt⟩ ⟨index, hi⟩ :=
  l.window_eq_getElem g hi

section Steady

variable {l : Ledger} {g : RateGroup} {index : Nat} {b : Bool} {r : Report}
  (hi : index < ratesPerGroup) (h : (l.window g index).Clean) (hr : ∀ x ∈ r.outcomes, x = b)

include hi h hr

theorem debt_cell_record_le (slot : Fin groupCount) (i : Fin ratesPerGroup) :
    ((l.record g index r.acked r.failures).cell slot i).debt b ≤ (l.cell slot i).debt b := by
  rw [cell_record]
  split_ifs with hsame
  · have hcell : l.window g index = l.cell slot i := by
      rw [window_eq_cell l g hi]
      congr 1
      · exact Fin.ext hsame.1
      · exact Fin.ext hsame.2
    rw [← hcell]
    exact Window.debt_absorb_le h hr
  · exact Nat.le_refl _

theorem debt_record_le : (l.record g index r.acked r.failures).debt b ≤ l.debt b :=
  Finset.sum_le_sum fun x _ => debt_cell_record_le hi h hr x.1 x.2

theorem debt_record_lt (hsome : r.outcomes ≠ []) (hdebt : (l.window g index).debt b ≠ 0) :
    (l.record g index r.acked r.failures).debt b < l.debt b := by
  let here : Fin groupCount × Fin ratesPerGroup := ⟨⟨g.slot, g.slot_lt⟩, ⟨index, hi⟩⟩
  refine Finset.sum_lt_sum (fun x _ => debt_cell_record_le hi h hr x.1 x.2)
    ⟨here, Finset.mem_univ here, ?_⟩
  rw [cell_record, if_pos ⟨rfl, rfl⟩, ← window_eq_cell l g hi]
  exact Window.debt_absorb_lt h hr hsome hdebt

end Steady

end Ledger

end LinkAdaptation
