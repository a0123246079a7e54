import LinkAdaptation.Proofs.ColumnSearch
import LinkAdaptation.Proofs.TrialOutcomes

/-! What a trial does to the statistics. Entering a column empties its group, and
until the trial is over all outcomes are recorded at the rate on trial. So the
statistics of the column left behind are untouched if they are kept in another
group. Columns that differ in their chains only share a group; between them,
a trial that fails costs everything that was known. -/

namespace LinkAdaptation

namespace Ledger

def recordAll (l : Ledger) (g : RateGroup) (index : Nat) (reports : List Report) : Ledger :=
  reports.foldl (fun l r => l.record g index r.acked r.failures) l

theorem recordAll_append (l : Ledger) (g : RateGroup) (index : Nat) (rs ss : List Report) :
    l.recordAll g index (rs ++ ss) = (l.recordAll g index rs).recordAll g index ss :=
  List.foldl_append

theorem group_recordAll_of_ne (l : Ledger) {g g' : RateGroup} (index : Nat) (reports : List Report)
    (h : g.slot ≠ g'.slot) : (l.recordAll g index reports).group g' = l.group g' := by
  induction reports generalizing l with
  | nil => rfl
  | cons r rs ih => exact (ih _).trans (group_record_of_ne l index r.acked r.failures h)

theorem window_recordAll_of_ne (l : Ledger) (g : RateGroup) {index other : Nat}
    (reports : List Report) (h : index ≠ other) :
    (l.recordAll g index reports).window g other = l.window g other := by
  induction reports generalizing l with
  | nil => rfl
  | cons r rs ih => exact (ih _).trans (window_record_of_ne l g r.acked r.failures h)

theorem group_recordAll_clear_of_ne (l : Ledger) {g g' : RateGroup} (index : Nat)
    (reports : List Report) (h : g.slot ≠ g'.slot) :
    ((l.clear g).recordAll g index reports).group g' = l.group g' :=
  (group_recordAll_of_ne _ index reports h).trans (group_clear_of_ne l h)

theorem outcomes_recordAll_clear_of_ne (l : Ledger) (g : RateGroup) {index other : Nat}
    (reports : List Report) (h : index ≠ other) :
    (((l.clear g).recordAll g index reports).window g other).outcomes = [] := by
  rw [window_recordAll_of_ne _ g reports h, window_clear_self]
  rfl

end Ledger

namespace Controller

namespace OnTrial

variable {start c : Controller} {v : Evidence} {t : Trial}

theorem group_eq (h : OnTrial start v c) (hv : v.aggregation = start.aggregation) :
    c.group = start.group := by
  have haggregation : c.aggregation = start.aggregation := h.aggregation.trans hv
  rw [group, group, h.position, haggregation]

theorem observe_ledger (h : OnTrial start v c) (hv : v.aggregation = start.aggregation)
    (r : Report) : (c.observe r).ledger = c.ledger.recordAll start.group start.index [r] := by
  have hindex : c.index = start.index := congrArg Position.index h.position
  rw [observe, h.group_eq hv, hindex]
  rfl

theorem ledger_step (h : OnTrial start v c) (hs : c.Sound) (ht : start.phase = .searching (some t))
    (hv : v.aggregation = start.aggregation) {e : Event} (he : e.Keeps start.aggregation)
    (hno : ¬ (v.add e).Decides start.position) :
    (c.apply e).ledger = c.ledger.recordAll start.group start.index (reportsOf [e]) := by
  cases e with
  | report r now =>
    have hreport : c.apply (.report r now) = c.observe r := h.report_undecided hs ht hno
    rw [hreport]
    exact h.observe_ledger hv r
  | setAggregation aggregation =>
    have hsame : aggregation = c.aggregation := Eq.trans he (h.aggregation.trans hv).symm
    simp only [apply, setAggregation, hsame, if_true]
    rfl

theorem ledger_run (h : OnTrial start v c) (hs : c.Sound) (ht : start.phase = .searching (some t))
    (hv : v.aggregation = start.aggregation) {events : List Event}
    (hkeeps : ∀ e ∈ events, e.Keeps start.aggregation)
    (hno : ∀ pre, pre <+: events → ¬ (v.addAll pre).Decides start.position) :
    (c.run events).ledger = c.ledger.recordAll start.group start.index (reportsOf events) := by
  -- an undecided event leaves the station on trial, with more evidence
  induction events generalizing c v with
  | nil => rfl
  | cons e es ih =>
    have he := hno [e] (by simp)
    have hkeepsHead := hkeeps e (by simp)
    have hadd : (v.add e).aggregation = start.aggregation := by
      cases e with
      | report r now => exact hv
      | setAggregation aggregation =>
        have hsame : aggregation = v.aggregation := Eq.trans hkeepsHead hv.symm
        rw [Evidence.add, if_pos hsame, hv]
    have hstep := h.ledger_step hs ht hv hkeepsHead he
    have hrest := ih (h.step hs ht he) (hs.apply e) hadd
      (fun x hx => hkeeps x (by simp [hx])) fun pre hpre =>
        hno (e :: pre) (List.cons_prefix_cons.mpr ⟨rfl, hpre⟩)
    have hsplit : reportsOf (e :: es) = reportsOf [e] ++ reportsOf es :=
      List.filterMap_append (l := [e])
    rw [hsplit, Ledger.recordAll_append, ← hstep]
    exact hrest

theorem report_over (h : OnTrial start v c) (hs : c.Sound) (ht : start.phase = .searching (some t))
    (hv : v.aggregation = start.aggregation) {r : Report} {now : Nat}
    (hover : (c.report r now).trial? = none) :
    (c.report r now).aggregation = start.aggregation ∧
      (c.report r now).ledger = c.ledger.recordAll start.group start.index [r] ∧
      (c.report r now).ledger.window start.group start.index =
        (v.add (.report r now)).window start.position := by
  have hdecides : (v.add (.report r now)).Decides start.position := by
    by_contra hopen
    rw [h.report_undecided hs ht hopen, observe_trial?, h.trial? ht] at hover
    cases hover
  obtain ⟨rate, -, hreport⟩ := h.report_decided hs ht hdecides
  have hledger : (c.report r now).ledger = (c.observe r).ledger := by rw [hreport]; rfl
  have haggregation : (c.report r now).aggregation = c.aggregation := by rw [hreport]; rfl
  have hindex : c.index = start.index := congrArg Position.index h.position
  have hwindow : (c.observe r).ledger.window c.group c.index =
      (v.add (.report r now)).window start.position := h.window_observe hs r now
  rw [h.group_eq hv, hindex] at hwindow
  rw [hledger, haggregation]
  exact ⟨h.aggregation.trans hv, h.observe_ledger hv r, hwindow⟩

/-- What a trial leaves behind: a ledger with all its outcomes at one rate, whose window they fill
alone. -/
theorem ledger_over (h : OnTrial start (.empty start.aggregation) start) (hs : start.Sound)
    (ht : start.phase = .searching (some t)) {events : List Event} {last : Report} {later : Nat}
    (hkeeps : ∀ e ∈ events, e.Keeps start.aggregation)
    (hlast : ∀ pre, pre <+: events → (start.run pre).trial?.isSome)
    (hover : ((start.run events).report last later).trial? = none) :
    ((start.run events).report last later).aggregation = start.aggregation ∧
      ((start.run events).report last later).ledger =
        start.ledger.recordAll start.group start.index (reportsOf (events ++ [.report last later])) ∧
      (((start.run events).report last later).ledger.window start.group start.index).outcomes =
        ((outcomesOf (events ++ [.report last later])).reverse).take windowLength := by
  have hno := (h.lasts_iff hs ht events).mp hlast
  have hrun := h.run hs ht hno
  have hsound : (start.run events).Sound := run_induction (fun _ e hc => hc.apply e) hs events
  have hsame : ((Evidence.empty start.aggregation).addAll events).aggregation = start.aggregation :=
    congrArg Evidence.aggregation (Evidence.addAll_of_keeps hkeeps)
  obtain ⟨haggregation, hledger, hwindow⟩ := hrun.report_over hsound ht hsame hover
  refine ⟨haggregation, ?_, ?_⟩
  · have hreports : reportsOf (events ++ [.report last later]) = reportsOf events ++ [last] :=
      List.filterMap_append
    rw [hledger, h.ledger_run hs ht rfl hkeeps hno, hreports, Ledger.recordAll_append]
  · rw [hwindow, ← Evidence.addAll_concat]
    exact Evidence.outcomes_window_of_keeps (Event.keeps_append_report hkeeps last later) _

end OnTrial

/-- A trial that fails leaves the statistics of the column it came from as they were when it began,
if these are kept in another group, that is unless the two columns differ in their chains only. In
that case the group is shared: it was emptied when the trial began, and afterwards holds nothing
but the outcomes of the trial, at the rate that was on trial. -/
theorem rollback_keeps_statistics (caps : Capabilities) (past : List Event) (r : Report) (now : Nat)
    (t : Trial) (hidle : ((new caps).run past).trial? = none)
    (hbegin : (((new caps).run past).report r now).trial? = some t) :
    let before := (new caps).run past
    let start := before.report r now
    ∀ (events : List Event) (last : Report) (later : Nat),
      let ended := (start.run events).report last later
      (∀ e ∈ events, e.Keeps start.aggregation) →
      (∀ pre, pre <+: events → (start.run pre).trial?.isSome) →
      ended.trial? = none → ended.position = before.position →
        ended.group = before.group ∧
        (start.column.mode ≠ before.column.mode ∨ start.column.guard ≠ before.column.guard →
          ended.ledger.group ended.group = (before.observe r).ledger.group before.group) ∧
        (start.column.mode = before.column.mode → start.column.guard = before.column.guard →
          ∀ index, (ended.ledger.window ended.group index).outcomes =
            if index = start.index then
              ((outcomesOf (events ++ [.report last later])).reverse).take windowLength
            else []) := by
  intro before start events last later ended hkeeps hlast hover hback
  have hsound : before.Sound := sound_run caps past
  have hss : start.Sound := hsound.report r now
  obtain ⟨hcleared, hsetting⟩ : start.ledger = (before.observe r).ledger.clear start.group ∧
      start.aggregation = before.aggregation := by
    obtain ⟨next, -, -, -, hstart⟩ :=
      beginTrial_of_report (coherent_run caps past) hsound (clean_run caps past) hidle hbegin
    change start = beginTrial { before.observe r with phase := .searching none } next t.baseline
      at hstart
    rw [hstart]
    exact ⟨rfl, rfl⟩
  obtain ⟨-, -, hon⟩ := trial_begins hsound hidle hbegin
  obtain ⟨haggregation, hledger, houtcomes⟩ :=
    hon.ledger_over hss (Phase.trial?_eq_some.mp hbegin) hkeeps hlast hover
  rw [hcleared] at hledger
  have hgroup : ended.group = before.group := by
    rw [group, group, hback, haggregation.trans hsetting]
  refine ⟨hgroup, fun hother => ?_, fun hmode hguard index => ?_⟩
  · have hslot : start.group.slot ≠ before.group.slot := Column.slot_ne hother _ _ _ _
    rw [hgroup, hledger]
    exact Ledger.group_recordAll_clear_of_ne _ _ _ hslot
  · have hcaps : start.caps = before.caps := report_caps before r now
    have hwidth : start.width = before.width := (hcaps ▸ hss.position).width_eq hsound.position hmode
    -- columns of one mode run at one width, so the two differ in nothing a group is told by
    have hshared : ended.group = start.group :=
      hgroup.trans ((RateGroup.mk.injEq ..).mpr ⟨hmode, hwidth, hguard, hsetting⟩).symm
    rw [hshared]
    split_ifs with hi
    · rw [hi]
      exact houtcomes
    · rw [hledger]
      exact Ledger.outcomes_recordAll_clear_of_ne _ _ _ (Ne.symm hi)

/-- Three frames lost at 80 MHz bring a station back to the fastest legacy rate. What it knew of
that rate is still there. -/
theorem legacy_statistics_survive :
    let before := (new ⟨.mhz80, true, true⟩).run (List.replicate 9 (.report ⟨8, 0, false⟩ 0))
    let start := before.report ⟨8, 0, false⟩ 0
    let ended := (start.run [.report ⟨0, 1, false⟩ 0]).report ⟨0, 2, false⟩ 0
    start.column = .sisoAntA ∧ ended.position = before.position ∧
      ended.ledger.group ended.group = (before.observe ⟨8, 0, false⟩).ledger.group before.group ∧
      ((before.observe ⟨8, 0, false⟩).ledger.window before.group 11).successes = 8 := by
  intro before start ended
  have hidle : before.trial? = none := by decide +kernel +zetaReduce
  have hbegin : start.trial? = some ⟨⟨.legacyAntA, 11, .mhz20⟩, 18600⟩ := by
    decide +kernel +zetaReduce
  have hcolumn : start.column = .sisoAntA := by decide +kernel +zetaReduce
  have hold : before.column = .legacyAntA := by decide +kernel +zetaReduce
  have hlast : ∀ pre, pre <+: [Event.report ⟨0, 1, false⟩ 0] → (start.run pre).trial?.isSome := by
    intro pre hpre
    rw [← List.mem_inits] at hpre
    revert pre
    decide +kernel +zetaReduce
  have hback : ended.position = before.position := by decide +kernel +zetaReduce
  obtain ⟨-, hkept, -⟩ := rollback_keeps_statistics _ _ _ _ _ hidle hbegin
    [.report ⟨0, 1, false⟩ 0] ⟨0, 2, false⟩ 0 (by simp [Event.Keeps]) hlast
    (by decide +kernel +zetaReduce) hback
  have hmode : start.column.mode ≠ before.column.mode := by
    rw [hcolumn, hold]
    decide
  exact ⟨hcolumn, hback, hkept (.inl hmode), by decide +kernel +zetaReduce⟩

/-- The two legacy columns share their statistics. A trial of the other chain throws away the nine
frames that got through at the first rate and the three lost at the second, and the four it loses
itself at the second are held against the old chain. -/
theorem twin_trial_discards_statistics :
    let before := (new ⟨.mhz20, false, false⟩).run [.report ⟨8, 0, false⟩ 0, .report ⟨0, 3, false⟩ 0]
    let start := before.report ⟨1, 0, false⟩ 0
    let ended := start.report ⟨0, 4, false⟩ 0
    before.trial? = none ∧ start.trial? = some ⟨before.position, 700⟩ ∧
      start.column = .legacyAntB ∧ start.index = 1 ∧
      ended.trial? = none ∧ ended.position = before.position ∧
      ended.ledger.group ended.group ≠ (before.observe ⟨1, 0, false⟩).ledger.group before.group ∧
      ((before.observe ⟨1, 0, false⟩).ledger.window before.group 0).outcomes = List.replicate 9 true ∧
      (ended.ledger.window ended.group 0).outcomes = [] ∧
      ((before.observe ⟨1, 0, false⟩).ledger.window before.group 1).outcomes = List.replicate 3 false ∧
      (ended.ledger.window ended.group 1).outcomes = List.replicate 4 false := by
  decide +kernel +zetaReduce

end Controller

end LinkAdaptation
