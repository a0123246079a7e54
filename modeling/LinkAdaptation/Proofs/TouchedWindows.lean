import LinkAdaptation.Proofs.SearchCycles
import LinkAdaptation.Proofs.StayCourse
import LinkAdaptation.Proofs.WindowDebt

/-! Where a report leaves traces in the statistics. Its outcomes go to the rate it
was sent at, and that is all unless statistics are thrown away: those of the
current group when a stay finds them too old, or those of the group that a trial
is about to use. No report does both. -/

namespace LinkAdaptation

theorem Ledger.cell_clear (l : Ledger) (g : RateGroup) (slot : Fin groupCount)
    (i : Fin ratesPerGroup) :
    (l.clear g).cell slot i = if g.slot = slot then (l.cell slot i).clear else l.cell slot i := by
  obtain ⟨slot, hslot⟩ := slot
  obtain ⟨i, hi⟩ := i
  rw [cell_mk, cell_mk]
  by_cases hs : g.slot = slot
  · subst hs
    simp [clear, setGroup, group]
  · simp [clear, setGroup, hs, Vector.getElem_set_ne]

namespace Controller

/-- The report leaves the station in its stay and brings the age of the statistics beyond its
limit. -/
def Refreshes (c : Controller) (r : Report) (now : Nat) : Prop :=
  ∃ stay, c.phase = .staying stay ∧ ¬ c.EndsStay r now ∧ c.limits.age < stay.age + 1

/-- What a report writes, told by the state before it and the state after it. -/
inductive Writes (c : Controller) (r : Report) (now : Nat) (d : Controller) : Prop where
  | records (hbegins : ¬ c.Begins d) (hrefreshes : ¬ c.Refreshes r now)
      (hledger : d.ledger = (c.observe r).ledger) : Writes c r now d
  | refreshes (hbegins : ¬ c.Begins d) (hrefreshes : c.Refreshes r now) (hgroup : d.group = c.group)
      (hledger : d.ledger = (c.observe r).ledger.clear c.group) : Writes c r now d
  | begins (hbegins : c.Begins d) (hrefreshes : ¬ c.Refreshes r now)
      (hledger : d.ledger = (c.observe r).ledger.clear d.group) : Writes c r now d

section Report

variable {c : Controller} {r : Report} {now : Nat}

theorem Refreshes.trial? (h : c.Refreshes r now) : c.trial? = none := by
  obtain ⟨stay, hphase, -⟩ := h
  simp [Controller.trial?, hphase, Phase.trial?]

theorem Refreshes.writes (h : c.Refreshes r now) : Writes c r now (c.report r now) := by
  obtain ⟨stay, hphase, hgoes, hage⟩ := id h
  rw [endsStay_iff hphase, Bool.not_eq_true] at hgoes
  obtain ⟨index, hreport⟩ := report_of_not_over hphase hgoes
  rw [if_pos hage] at hreport
  rw [hreport]
  exact .refreshes (fun hbegins => hbegins.2 rfl) h rfl rfl

theorem ledger_supervise_of_not_refreshes (h : ¬ c.Refreshes r now) (index : Nat) :
    (((c.observe r).stepTo index).supervise now).ledger = (c.observe r).ledger := by
  have hs := supervised ((c.observe r).stepTo index) now
  generalize ((c.observe r).stepTo index).supervise now = s at hs ⊢
  cases hs with
  | idle | expires | ages => rfl
  | refreshes hstay hover hage =>
    obtain ⟨stay, hphase, rfl⟩ := staying_of_observe hstay
    refine absurd ⟨stay, hphase, ?_, hage⟩ h
    rw [endsStay_iff hphase, Bool.not_eq_true]
    exact hover

theorem report_writes (c : Controller) (r : Report) (now : Nat) :
    Writes c r now (c.report r now) := by
  by_cases h : c.Refreshes r now
  · exact h.writes
  have hm := report_move c r now
  have hsupervise := ledger_supervise_of_not_refreshes h
  generalize c.report r now = d at hm ⊢
  cases hm with
  | waits | stays =>
    refine .records (fun hbegins => hbegins.2 ?_) h (hsupervise c.index)
    simpa using hbegins.1
  | resolves => exact .records (fun hbegins => hbegins.2 rfl) h rfl
  | @steps rate index =>
    refine .records (fun hbegins => hbegins.2 ?_) h (hsupervise index)
    simpa using hbegins.1
  | tries _ htrial =>
    rw [observe_trial?] at htrial
    refine .begins ⟨htrial, nofun⟩ h ?_
    exact congrArg (Ledger.clear · _) (hsupervise c.index)
  | settles => exact .records (fun hbegins => hbegins.2 rfl) h (hsupervise c.index)

theorem cell_observe (c : Controller) (r : Report) (slot : Fin groupCount) (i : Fin ratesPerGroup) :
    (c.observe r).ledger.cell slot i =
      if c.group.slot = slot ∧ c.index = i then c.window.absorb r else c.ledger.cell slot i :=
  Ledger.cell_record _ _ _ _ _ _ _

theorem cell_observe_ceiling (c : Controller) (r : Report) (slot : Fin groupCount)
    (i : Fin ratesPerGroup) :
    ((c.observe r).ledger.cell slot i).ceiling = (c.ledger.cell slot i).ceiling := by
  rw [cell_observe]
  split_ifs with hhere
  · obtain ⟨hslot, hindex⟩ := hhere
    have hcell : c.window = c.ledger.cell slot i := by
      rw [window, windowAt, hindex, Ledger.window_eq_cell _ _ i.isLt]
      congr 1
      exact Fin.ext hslot
    rw [← hcell, Window.absorb_ceiling]
  · rfl

/-- The report throws away the statistics kept in a slot. -/
def Empties (c : Controller) (r : Report) (now slot : Nat) : Prop :=
  c.Refreshes r now ∧ slot = c.group.slot ∨
    c.Begins (c.report r now) ∧ slot = (c.report r now).group.slot

theorem cell_report_of_empties {slot : Fin groupCount} (h : c.Empties r now slot)
    (i : Fin ratesPerGroup) :
    (c.report r now).ledger.cell slot i = .new (c.ledger.cell slot i).ceiling := by
  have hclear {g : RateGroup} (hledger : (c.report r now).ledger = (c.observe r).ledger.clear g)
      (hslot : slot = g.slot) :
      (c.report r now).ledger.cell slot i = .new (c.ledger.cell slot i).ceiling := by
    rw [hledger, Ledger.cell_clear, if_pos hslot.symm, Window.clear, cell_observe_ceiling]
  cases c.report_writes r now with
  | records hbegins hrefreshes =>
    rcases h with ⟨hrefresh, -⟩ | ⟨hbegin, -⟩
    · exact absurd hrefresh hrefreshes
    · exact absurd hbegin hbegins
  | refreshes hbegins _ _ hledger =>
    rcases h with ⟨-, hslot⟩ | ⟨hbegin, -⟩
    · exact hclear hledger hslot
    · exact absurd hbegin hbegins
  | begins _ hrefreshes hledger =>
    rcases h with ⟨hrefresh, -⟩ | ⟨-, hslot⟩
    · exact absurd hrefresh hrefreshes
    · exact hclear hledger hslot

theorem cell_report_of_not_empties {slot : Fin groupCount} (h : ¬ c.Empties r now slot)
    (i : Fin ratesPerGroup) :
    (c.report r now).ledger.cell slot i = (c.observe r).ledger.cell slot i := by
  cases c.report_writes r now with
  | records _ _ hledger => rw [hledger]
  | refreshes _ hrefreshes _ hledger =>
    rw [hledger, Ledger.cell_clear, if_neg fun hslot => h (.inl ⟨hrefreshes, hslot.symm⟩)]
  | begins hbegins _ hledger =>
    rw [hledger, Ledger.cell_clear, if_neg fun hslot => h (.inr ⟨hbegins, hslot.symm⟩)]

end Report

/-- A report writes where it should. Whatever it leads to, only the groups that are current before
and after it are touched. Of these it empties one at most, the current group when a stay finds its
statistics too old, or the group of a trial that begins; and unless it has emptied the group that
was current before, its outcomes are the newest in the window of the rate it was sent at, the
failures, one for a missing block acknowledgement, after the successes. All other windows are as
they were, and a report that ends a trial empties none. -/
theorem report_touches_own_windows (caps : Capabilities) (past : List Event) (r : Report)
    (now : Nat) :
    let before := (new caps).run past
    let after := before.report r now
    let sent := after.ledger.window before.group before.index
    let failed := if r.aggregated = true ∧ r.acked = 0 then 1 else r.lost
    (∀ (slot : Fin groupCount) i,
      (slot.val ≠ before.group.slot → slot.val ≠ after.group.slot →
        after.ledger.cell slot i = before.ledger.cell slot i) ∧
      (before.Empties r now slot →
        after.ledger.cell slot i = .new (before.ledger.cell slot i).ceiling) ∧
      (¬ before.Empties r now slot → ¬ (slot.val = before.group.slot ∧ i.val = before.index) →
        after.ledger.cell slot i = before.ledger.cell slot i)) ∧
    (¬ before.Empties r now before.group.slot →
      sent.ceiling = before.window.ceiling ∧
      sent.outcomes =
        (List.replicate failed false ++ List.replicate r.acked true ++ before.window.outcomes).take
          windowLength) ∧
    (before.Refreshes r now → after.group = before.group ∧ ¬ before.Begins after) ∧
    (before.trial? ≠ none → ∀ slot, ¬ before.Empties r now slot) := by
  intro before after sent failed
  have hs : before.Sound := sound_run caps past
  have hindex := hs.position.index_lt
  have hkept (slot : Fin groupCount) (i : Fin ratesPerGroup) (h : ¬ before.Empties r now slot)
      (hother : ¬ (slot.val = before.group.slot ∧ i.val = before.index)) :
      after.ledger.cell slot i = before.ledger.cell slot i := by
    rw [cell_report_of_not_empties h, cell_observe, if_neg]
    exact fun hhere => hother ⟨hhere.1.symm, hhere.2.symm⟩
  refine ⟨fun slot i => ⟨fun hbefore hafter => ?_, fun h => cell_report_of_empties h i, hkept slot i⟩,
    fun h => ?_, fun h => ?_, fun htrial slot h => ?_⟩
  · refine hkept slot i (fun h => ?_) fun hhere => hbefore hhere.1
    rcases h with ⟨-, hslot⟩ | ⟨-, hslot⟩
    · exact hbefore hslot
    · exact hafter hslot
  · have hsent : sent = before.window.absorb r :=
      calc sent
        _ = after.ledger.cell ⟨_, before.group.slot_lt⟩ ⟨_, hindex⟩ :=
            Ledger.window_eq_cell _ _ hindex
        _ = (before.observe r).ledger.cell ⟨_, before.group.slot_lt⟩ ⟨_, hindex⟩ :=
            cell_report_of_not_empties h _
        _ = (before.observe r).window := (Ledger.window_eq_cell _ _ hindex).symm
        _ = before.window.absorb r := hs.window_observe r
    have hclean : before.window.Clean := clean_run caps past _ _
    rw [hsent, Window.outcomes_absorb hclean]
    exact ⟨Window.absorb_ceiling _ _, by simp [Report.outcomes, Report.failures, failed]⟩
  · cases before.report_writes r now with
    | refreshes hbegins _ hgroup => exact ⟨hgroup, hbegins⟩
    | records _ hrefreshes | begins _ hrefreshes => exact absurd h hrefreshes
  · rcases h with ⟨hrefresh, -⟩ | ⟨hbegin, -⟩
    · exact htrial hrefresh.trial?
    · exact htrial hbegin.1

/-- The 161st report of a legacy stay finds the statistics too old, its own outcome among them. -/
example :
    let before := (new ⟨.mhz40, false, false⟩).run
      (List.replicate 3 (.report ⟨0, 3, false⟩ 7) ++ List.replicate 160 (.report ⟨0, 0, false⟩ 7))
    before.phase = .staying ⟨0, 0, 160, 7⟩ ∧ (before.report ⟨1, 0, false⟩ 7).window.isEmpty := by
  decide +kernel

end Controller

end LinkAdaptation
