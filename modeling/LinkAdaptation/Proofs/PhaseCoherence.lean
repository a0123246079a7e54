import LinkAdaptation.Proofs.ReportMoves

/-! How phase, trial, visited columns and the account of a stay fit together.
Recording a report can push the account past its limits, so the invariant has a
part that holds in the middle of a report, too, and a part that only the end of
the report restores. -/

namespace LinkAdaptation

theorem Window.throughput?_clear (w : Window) : w.clear.throughput? = none := by
  have hratio : w.clear.ratio? = none := rfl
  simp [throughput?, hratio]

theorem Stay.isOver_eq_false {s : Stay} {limits : StayLimits} {now : Nat} :
    s.isOver limits now = false ↔
      s.acked ≤ limits.acked ∧ s.lost ≤ limits.lost ∧ now < s.since + duration := by
  simp only [isOver, Bool.or_eq_false_iff, decide_eq_false_iff_not]
  omega

namespace Controller

/-- The frames counted so far, acknowledged and lost. Both are 0 outside a stay. -/
def totals (c : Controller) : Nat × Nat := c.stay?.elim (0, 0) fun s => (s.acked, s.lost)

def tableAge (c : Controller) : Nat := c.stay?.elim 0 (·.age)

def timer? (c : Controller) : Option Nat := c.stay?.map (·.since)

theorem limits_eq (c : Controller) :
    c.limits = if c.column.mode.isLegacy then ⟨480, 160, 160⟩ else ⟨4500, 400, 1500⟩ := by
  unfold limits
  cases c.column.mode <;> rfl

/-- What holds at every moment, also between recording a report and acting on it. -/
structure Orderly (c : Controller) : Prop where
  not_ended : c.phase ≠ .ended
  visited : c.visited.contains c.column = true
  trial : ∀ t, c.phase = .searching (some t) →
    t.rollback.column ≠ c.column ∧ c.visited.contains t.rollback.column = true
  staying : ∀ s, c.phase = .staying s → c.visited = .only c.column ∧ s.age ≤ c.limits.age

/-- What holds between events besides. -/
structure Coherent (c : Controller) : Prop extends c.Orderly where
  untold : ∀ t, c.phase = .searching (some t) → c.window.throughput? = none
  within : ∀ s, c.phase = .staying s → s.acked ≤ c.limits.acked ∧ s.lost ≤ c.limits.lost

namespace Coherent

variable {c : Controller}

theorem of_searching (hphase : c.phase = .searching none)
    (hvisited : c.visited.contains c.column = true) : c.Coherent := by
  refine ⟨⟨?_, hvisited, ?_, ?_⟩, ?_, ?_⟩ <;> simp [hphase]

theorem of_staying {s : Stay} (hphase : c.phase = .staying s) (hvisited : c.visited = .only c.column)
    (hacked : s.acked ≤ c.limits.acked) (hlost : s.lost ≤ c.limits.lost)
    (hage : s.age ≤ c.limits.age) : c.Coherent := by
  refine ⟨⟨?_, ?_, ?_, ?_⟩, ?_, ?_⟩
  all_goals simp [hphase, hvisited, ColumnSet.contains_only, hacked, hlost, hage]

theorem of_trial {t : Trial} (hphase : c.phase = .searching (some t))
    (hvisited : c.visited.contains c.column = true) (hne : t.rollback.column ≠ c.column)
    (hrollback : c.visited.contains t.rollback.column = true)
    (huntold : c.window.throughput? = none) : c.Coherent := by
  refine ⟨⟨?_, hvisited, ?_, ?_⟩, ?_, ?_⟩
  all_goals simp [hphase, hne, hrollback, huntold]

end Coherent

namespace Orderly

variable {c : Controller}

theorem observe (h : c.Orderly) (r : Report) : (c.observe r).Orderly := by
  cases hp : c.phase with
  | ended => exact absurd hp h.not_ended
  | searching trial =>
    have ho := observe_phase_of_searching hp r
    refine ⟨by simp [ho], h.visited, fun t ht => ?_, fun s hs => by simp [ho] at hs⟩
    exact h.trial t (hp.trans (ho.symm.trans ht))
  | staying stay =>
    have ho : (c.observe r).phase = .staying (stay.count r.acked r.failures) := by
      simp [Controller.observe, hp, Phase.count]
    refine ⟨by simp [ho], h.visited, fun t ht => by simp [ho] at ht, fun s hs => ?_⟩
    obtain rfl : stay.count r.acked r.failures = s := by simpa [ho] using hs
    exact h.staying stay hp

theorem stepTo (h : c.Orderly) (index : Nat) : (c.stepTo index).Orderly :=
  ⟨h.not_ended, h.visited, h.trial, h.staying⟩

theorem supervise (h : c.Orderly) (hrate : ∀ t, c.phase = .searching (some t) →
    c.window.throughput? = none) (now : Nat) : (c.supervise now).Coherent := by
  have hs := supervised c now
  generalize c.supervise now = d at hs ⊢
  cases hs with
  | idle hstay =>
    refine ⟨h, hrate, fun s hp => ?_⟩
    simp [stay?, hp, Phase.stay?] at hstay
  | expires => exact .of_searching rfl (by simp [ColumnSet.contains_only, column])
  | refreshes hstay hover =>
    obtain ⟨hacked, hlost, -⟩ := Stay.isOver_eq_false.mp hover
    exact .of_staying rfl (h.staying _ hstay).1 hacked hlost (Nat.zero_le _)
  | ages hstay hover hage =>
    obtain ⟨hacked, hlost, -⟩ := Stay.isOver_eq_false.mp hover
    exact .of_staying rfl (h.staying _ hstay).1 hacked hlost hage

theorem resolve (h : c.Orderly) {t : Trial} (ht : c.trial? = some t) (rate : Nat) :
    (c.resolve t rate).Coherent := by
  refine .of_searching rfl ?_
  simp only [Controller.resolve, column]
  split_ifs
  · exact h.visited
  · exact (h.trial t (Phase.trial?_eq_some.mp ht)).2

theorem beginTrial (h : c.Orderly) {rate : Nat} {next : Column}
    (hnext : c.nextColumn? rate = some next) : (c.beginTrial next rate).Coherent := by
  have hnew := not_visited_of_nextColumn? hnext
  have hne : c.column ≠ next := by
    rintro rfl
    simp [h.visited] at hnew
  have hvisited (d : Column) :
      (c.beginTrial next rate).visited.contains d = (d == next || c.visited.contains d) :=
    ColumnSet.contains_insert _ _ _
  refine .of_trial rfl ?_ hne ?_ ?_
  · rw [hvisited]
    simp [column, Controller.beginTrial, clearGroup]
  · rw [hvisited]
    simpa [column] using .inr h.visited
  · rw [Controller.beginTrial, clearGroup_window, Window.throughput?_clear]

end Orderly

namespace Coherent

theorem new (caps : Capabilities) : (Controller.new caps).Coherent :=
  .of_searching rfl (by simp [Controller.new, column, ColumnSet.contains_only])

variable {c : Controller}

theorem report (h : c.Coherent) (r : Report) (now : Nat) : (c.report r now).Coherent := by
  have hm := report_move c r now
  have ho := h.toOrderly.observe r
  have hno (htrial : (c.observe r).trial? = none) (t : Trial) :
      (c.observe r).phase ≠ .searching (some t) := fun hp => by
    simp [Phase.trial?_eq_some.mpr hp, trial?] at htrial
  generalize c.report r now = d at hm ⊢
  cases hm with
  | waits hrate => exact ho.supervise (fun _ _ => hrate) now
  | resolves _ htrial => exact ho.resolve htrial _
  | @steps rate index _ htrial =>
    exact (ho.stepTo index).supervise (fun t ht => absurd ht (hno htrial t)) now
  | tries _ htrial _ _ hnext =>
    have hs := ho.supervise (fun t ht => absurd ht (hno htrial t)) now
    exact hs.toOrderly.beginTrial hnext
  | settles =>
    refine .of_staying rfl ?_ (Nat.zero_le _) (Nat.zero_le _) (Nat.zero_le _)
    simp [column]
  | stays _ htrial => exact ho.supervise (fun t ht => absurd ht (hno htrial t)) now

theorem setAggregation (h : c.Coherent) (aggregation : Aggregation) :
    (c.setAggregation aggregation).Coherent := by
  unfold Controller.setAggregation
  split_ifs
  · exact h
  · refine ⟨⟨h.not_ended, h.visited, h.trial, h.staying⟩, fun t _ => ?_, h.within⟩
    rw [clearGroup_window, Window.throughput?_clear]

theorem apply (h : c.Coherent) (e : Event) : (c.apply e).Coherent := by
  cases e with
  | report r now => exact h.report r now
  | setAggregation aggregation => exact h.setAggregation aggregation

end Coherent

theorem coherent_run (caps : Capabilities) (events : List Event) :
    ((new caps).run events).Coherent :=
  run_induction (fun _ e h => h.apply e) (.new caps) events

/-- Between events, phase, trial, visited columns and the account of a stay agree: a search has
no account, and a stay has no trial and stays within the limits of its mode. -/
theorem run_new_coherent (caps : Capabilities) (events : List Event) :
    let c := (new caps).run events
    c.phase ≠ .ended ∧ c.visited.contains c.column = true ∧
      (∀ t, c.trial? = some t → c.phase = .searching (some t) ∧ t.rollback.column ≠ c.column ∧
        c.visited.contains c.column = true ∧ c.visited.contains t.rollback.column = true ∧
        c.window.throughput? = none) ∧
      (∀ trial, c.phase = .searching trial →
        c.totals = (0, 0) ∧ c.tableAge = 0 ∧ c.timer? = none) ∧
      (∀ stay, c.phase = .staying stay →
        c.trial? = none ∧ (∀ d, c.visited.contains d = true ↔ d = c.column) ∧ c.timer?.isSome ∧
        c.totals.1 ≤ (if c.column.mode.isLegacy then 480 else 4500) ∧
        c.totals.2 ≤ (if c.column.mode.isLegacy then 160 else 400) ∧
        c.tableAge ≤ (if c.column.mode.isLegacy then 160 else 1500)) := by
  intro c
  have h : c.Coherent := coherent_run caps events
  refine ⟨h.not_ended, h.visited, fun t ht => ?_, fun trial hp => ?_, fun stay hp => ?_⟩
  · have hp := Phase.trial?_eq_some.mp ht
    have htrial := h.trial t hp
    exact ⟨hp, htrial.1, h.visited, htrial.2, h.untold t hp⟩
  · simp [totals, tableAge, timer?, stay?, hp, Phase.stay?]
  · have hs := h.staying stay hp
    have hw := h.within stay hp
    have hstay : c.stay? = some stay := Phase.stay?_eq_some.mpr hp
    refine ⟨by simp [trial?, hp, Phase.trial?], fun d => ?_, by simp [timer?, hstay], ?_⟩
    · simp [hs.1, ColumnSet.contains_only]
    · rw [limits_eq] at hs hw
      simp only [totals, tableAge, hstay, Option.elim_some]
      split_ifs at hs hw ⊢ <;> exact ⟨hw.1, hw.2, hs.2⟩

/-- Without HT and VHT, the same reports leave nothing to try. -/
example :
    let c := (new ⟨.mhz40, false, false⟩).run (List.replicate 3 (.report ⟨0, 3, false⟩ 7))
    c.phase = .staying (.start 7) ∧ c.column = .legacyAntA := by
  decide +kernel

end Controller

end LinkAdaptation
