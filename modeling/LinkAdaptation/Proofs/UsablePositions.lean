import LinkAdaptation.Proofs.RateShape
import LinkAdaptation.Proofs.ReportMoves

/-! Every position a controller takes up can be transmitted at, and every
window keeps the ceiling of its own rate. -/

namespace LinkAdaptation

/-- A position with a rate under either aggregation setting, at the width that
its column runs at, in a column that the device can use. -/
structure Position.Usable (caps : Capabilities) (p : Position) : Prop where
  rate (aggregation : Aggregation) :
    CeilingTable.expected.ceiling (p.group aggregation) p.index ≠ 0
  legacy : p.column.mode.isLegacy = true → p.width = .mhz20
  nonLegacy : p.column.mode.isLegacy = false → p.width = caps.width ∧ caps.nonLegacy = true

theorem Position.rate_of_mem_rates {p : Position} {aggregation : Aggregation}
    (h : p.index ∈ CeilingTable.expected.rates (p.group aggregation)) (other : Aggregation) :
    CeilingTable.expected.ceiling (p.group other) p.index ≠ 0 := by
  rw [CeilingTable.mem_rates, CeilingTable.expected_ceiling_ne_zero] at h
  rw [CeilingTable.expected_ceiling_ne_zero]
  exact h

theorem Position.Usable.index_lt {caps : Capabilities} {p : Position} (h : p.Usable caps) :
    p.index < ratesPerGroup :=
  CeilingTable.lt_of_ceiling_ne_zero (h.rate .off)

theorem Position.Usable.width_eq {caps : Capabilities} {p q : Position} (hp : p.Usable caps)
    (hq : q.Usable caps) (hmode : p.column.mode = q.column.mode) : p.width = q.width := by
  cases hl : q.column.mode.isLegacy with
  | true => rw [hp.legacy (hmode ▸ hl), hq.legacy hl]
  | false => rw [(hp.nonLegacy (hmode ▸ hl)).1, (hq.nonLegacy hl).1]

theorem Position.Usable.withIndex {caps : Capabilities} {p : Position} (h : p.Usable caps)
    {aggregation : Aggregation} {index : Nat}
    (hi : index ∈ CeilingTable.expected.rates (p.group aggregation)) :
    Position.Usable caps { p with index := index } where
  rate := Position.rate_of_mem_rates (p := { p with index := index }) hi
  legacy := h.legacy
  nonLegacy := h.nonLegacy

theorem Position.Usable.enter {caps : Capabilities} {next : Column} {aggregation : Aggregation}
    {index : Nat} (hnext : next.mode.isLegacy = true ∨ caps.nonLegacy = true)
    (hi : index ∈ CeilingTable.expected.rates (next.group (next.fit caps.width) aggregation)) :
    Position.Usable caps ⟨next, index, next.fit caps.width⟩ where
  rate := Position.rate_of_mem_rates (p := ⟨next, index, next.fit caps.width⟩) hi
  legacy hl := by simp [Column.fit, show next.mode.isLegacy = true from hl]
  nonLegacy hl := by
    have hl' : next.mode.isLegacy = false := hl
    simpa [Column.fit, hl'] using hnext

theorem Position.usable_initial (caps : Capabilities) :
    Position.Usable caps ⟨.initial, 0, .mhz20⟩ where
  rate aggregation := by cases aggregation <;> decide
  legacy _ := rfl
  nonLegacy h := absurd h (by decide)

namespace Ledger

/-- The ceilings under which the windows of a ledger are kept. -/
def ceilings (l : Ledger) : CeilingTable := ⟨l.groups.map (·.map Window.ceiling)⟩

theorem ceilings_new (t : CeilingTable) : (new t).ceilings = t := by
  obtain ⟨rows⟩ := t
  simp [ceilings, new, Function.comp_def, Window.new]

theorem ceilings_setGroup {l : Ledger} {g : RateGroup} {row : Vector Window ratesPerGroup}
    (h : row.map Window.ceiling = (l.group g).map Window.ceiling) :
    (l.setGroup g row).ceilings = l.ceilings := by
  have hg := g.slot_lt
  simp only [ceilings, setGroup, Vector.map_set, h, group, CeilingTable.mk.injEq]
  apply Vector.ext
  intro i hi
  by_cases hs : g.slot = i
  · subst hs
    simp
  · simp [Vector.getElem_set_ne hg hi hs]

theorem window_eq_getElem (l : Ledger) (g : RateGroup) {index : Nat} (h : index < ratesPerGroup) :
    l.window g index = (l.group g)[index] := by
  simp [window, window?, h]

theorem ceilings_record (l : Ledger) (g : RateGroup) (index acked lost : Nat) :
    (l.record g index acked lost).ceilings = l.ceilings := by
  apply ceilings_setGroup
  by_cases hi : index < ratesPerGroup
  · apply Vector.ext
    intro i h
    by_cases hs : index = i
    · subst hs
      simp [Window.pushMany_ceiling, l.window_eq_getElem g hi]
    · simp [Vector.getElem_setIfInBounds_ne, hs]
  · rw [Vector.setIfInBounds_eq_of_size_le (Nat.not_lt.1 hi)]

theorem ceilings_clear (l : Ledger) (g : RateGroup) : (l.clear g).ceilings = l.ceilings := by
  apply ceilings_setGroup
  simp [Function.comp_def, Window.clear_ceiling]

theorem window_ceiling (l : Ledger) (g : RateGroup) (index : Nat) :
    (l.window g index).ceiling = l.ceilings.ceiling g index := by
  by_cases h : index < ratesPerGroup <;>
    simp [window, window?, group, CeilingTable.ceiling, CeilingTable.row, ceilings, h, Window.new]

end Ledger

namespace Controller

theorem nonLegacy_of_nextColumn? {c : Controller} {rate : Nat} {next : Column}
    (hnext : c.nextColumn? rate = some next) :
    next.mode.isLegacy = true ∨ c.caps.nonLegacy = true := by
  have hp := List.find?_some hnext
  simp only [isPromising, Bool.and_eq_true, Bool.or_eq_true] at hp
  exact hp.1.2

theorem report_caps (c : Controller) (r : Report) (now : Nat) : (c.report r now).caps = c.caps := by
  have hm := report_move c r now
  generalize c.report r now = d at hm ⊢
  cases hm <;> simp [resolve, stepTo, beginTrial, clearGroup]

theorem apply_caps (c : Controller) (e : Event) : (c.apply e).caps = c.caps := by
  cases e with
  | report r now => exact c.report_caps r now
  | setAggregation aggregation =>
    simp only [apply, setAggregation]
    split_ifs <;> rfl

theorem run_caps (c : Controller) (events : List Event) : (c.run events).caps = c.caps :=
  run_induction (P := fun d => d.caps = c.caps) (fun d e h => (d.apply_caps e).trans h) rfl events

/-- What every reachable controller keeps to: usable positions, and the ceilings of the table. -/
structure Sound (c : Controller) : Prop where
  position : c.position.Usable c.caps
  rollback : ∀ t, c.trial? = some t → t.rollback.Usable c.caps
  ceilings : c.ledger.ceilings = .expected

namespace Sound

theorem new (caps : Capabilities) : (Controller.new caps).Sound where
  position := Position.usable_initial caps
  rollback t ht := by simp [Controller.new, trial?, Phase.trial?] at ht
  ceilings := Ledger.ceilings_new _

variable {c : Controller}

theorem observe (h : c.Sound) (r : Report) : (c.observe r).Sound where
  position := h.position
  rollback t ht := h.rollback t (by simpa using ht)
  ceilings := (Ledger.ceilings_record _ _ _ _ _).trans h.ceilings

theorem clearGroup (h : c.Sound) : c.clearGroup.Sound where
  position := h.position
  rollback := h.rollback
  ceilings := (Ledger.ceilings_clear _ _).trans h.ceilings

/-- Without a trial, neither the phase nor the set of visited columns matters. -/
theorem of_no_trial {d : Controller} (h : c.Sound) (hposition : d.position = c.position)
    (hcaps : d.caps = c.caps) (hledger : d.ledger = c.ledger) (htrial : d.trial? = none) :
    d.Sound where
  position := by rw [hposition, hcaps]; exact h.position
  rollback t ht := by simp [htrial] at ht
  ceilings := by rw [hledger]; exact h.ceilings

theorem supervise (h : c.Sound) (now : Nat) : (c.supervise now).Sound := by
  have hs := supervised c now
  generalize c.supervise now = s at hs ⊢
  cases hs with
  | idle => exact h
  | expires => exact h.of_no_trial rfl rfl rfl rfl
  | @refreshes stay =>
    have hc : ({ c with phase := .staying { stay with age := 0 } } : Controller).Sound :=
      h.of_no_trial rfl rfl rfl rfl
    exact hc.clearGroup
  | ages => exact h.of_no_trial rfl rfl rfl rfl

theorem stepTo (h : c.Sound) {rate index : Nat} (hstep : c.step? rate = some index) :
    (c.stepTo index).Sound where
  position := h.position.withIndex (Neighbours.mem_rates (step?_eq_some hstep))
  rollback := h.rollback
  ceilings := h.ceilings

theorem resolve (h : c.Sound) {t : Trial} (ht : c.trial? = some t) (rate : Nat) :
    (c.resolve t rate).Sound where
  position := by
    simp only [Controller.resolve]
    split_ifs
    · exact h.position
    · exact h.rollback t ht
  rollback _ hn := by simp [Controller.resolve, trial?, Phase.trial?] at hn
  ceilings := h.ceilings

theorem beginTrial (h : c.Sound) {rate : Nat} {next : Column}
    (hnext : c.nextColumn? rate = some next) : (c.beginTrial next rate).Sound := by
  have hcolumn := nonLegacy_of_nextColumn? hnext
  refine clearGroup ⟨?_, ?_, h.ceilings⟩
  · exact .enter hcolumn (startIndex_mem_rates _ _)
  · intro t ht
    obtain rfl : ⟨c.position, rate⟩ = t := by simpa [trial?, Phase.trial?] using ht
    exact h.position

theorem report (h : c.Sound) (r : Report) (now : Nat) : (c.report r now).Sound := by
  have hm := report_move c r now
  have ho := h.observe r
  generalize c.report r now = d at hm ⊢
  cases hm with
  | waits => exact ho.supervise now
  | resolves _ htrial => exact ho.resolve htrial _
  | steps _ _ hstep => exact (ho.stepTo hstep).supervise now
  | tries _ _ _ _ hnext => exact (ho.supervise now).beginTrial hnext
  | settles => exact (ho.supervise now).of_no_trial rfl rfl rfl rfl
  | stays => exact ho.supervise now

theorem setAggregation (h : c.Sound) (aggregation : Aggregation) :
    (c.setAggregation aggregation).Sound := by
  unfold Controller.setAggregation
  split_ifs
  · exact h
  · have hc : ({ c with aggregation := aggregation } : Controller).Sound :=
      ⟨h.position, h.rollback, h.ceilings⟩
    exact hc.clearGroup

theorem apply (h : c.Sound) (e : Event) : (c.apply e).Sound := by
  cases e with
  | report r now => exact h.report r now
  | setAggregation aggregation => exact h.setAggregation aggregation

end Sound

theorem sound_run (caps : Capabilities) (events : List Event) : ((new caps).run events).Sound :=
  run_induction (fun _ e h => h.apply e) (.new caps) events

/-- Wherever a station has got to, it can transmit there under either aggregation setting, and
so it can where an unfinished trial may send it back to. A column with HT or VHT rates is used
only by a device that supports them, and no window ever changes its ceiling. -/
theorem run_new_usable (caps : Capabilities) (events : List Event) :
    let c := (new caps).run events
    c.position.Usable caps ∧ (∀ t, c.trial? = some t → t.rollback.Usable caps) ∧
      ∀ (slot : Fin groupCount) (index : Fin ratesPerGroup),
        c.ledger.groups[slot][index].ceiling = CeilingTable.expected.rows[slot][index] := by
  intro c
  have hs : c.Sound := sound_run caps events
  have hcaps : c.caps = caps := run_caps _ events
  refine ⟨hcaps ▸ hs.position, fun t ht => hcaps ▸ hs.rollback t ht, fun slot index => ?_⟩
  simp [← hs.ceilings, Ledger.ceilings]

/-- Third report of failures only: a legacy station has gone on trial at its full width. -/
example :
    let c := (new ⟨.mhz40, true, false⟩).run (List.replicate 3 (.report ⟨0, 3, false⟩ 0))
    c.position = ⟨.sisoAntA, 4, .mhz40⟩ ∧
      c.trial? = some ⟨⟨.legacyAntA, 0, .mhz20⟩, 0⟩ := by
  decide +kernel

end Controller

end LinkAdaptation
