import LinkAdaptation.Proofs.CleanWindows
import LinkAdaptation.Proofs.UsablePositions
import Mathlib.Data.List.Infix

/-! The course of a column trial, from the report that begins it to the report
that decides it. What decides is read off the events alone, and until then
nothing but the statistics changes. -/

namespace LinkAdaptation

/-- The window with the outcomes of a report added, the successes first. -/
def Window.absorb (w : Window) (r : Report) : Window :=
  (w.pushMany true r.acked).pushMany false r.failures

theorem Window.absorb_ceiling (w : Window) (r : Report) : (w.absorb r).ceiling = w.ceiling := by
  rw [absorb, pushMany_ceiling, pushMany_ceiling]

theorem Window.Clean.absorb {w : Window} (h : w.Clean) (r : Report) : (w.absorb r).Clean :=
  (h.pushMany true r.acked).pushMany false r.failures

/-- The reports that a trial is judged by: those since it began, or since the
aggregation setting last changed, oldest first. -/
structure Evidence where
  aggregation : Aggregation
  reports : List Report

namespace Evidence

def empty (aggregation : Aggregation) : Evidence := ⟨aggregation, []⟩

def add (v : Evidence) : Event → Evidence
  | .report r _ => { v with reports := v.reports ++ [r] }
  | .setAggregation aggregation => if aggregation = v.aggregation then v else .empty aggregation

def addAll (v : Evidence) (events : List Event) : Evidence := events.foldl add v

/-- The outcomes at the rate of a position, in a window that was empty before. -/
def window (v : Evidence) (p : Position) : Window :=
  v.reports.foldl Window.absorb (.new (CeilingTable.expected.ceiling (p.group v.aggregation) p.index))

def Decides (v : Evidence) (p : Position) : Prop :=
  3 ≤ (v.window p).failures ∨ 8 ≤ (v.window p).successes

instance (v : Evidence) (p : Position) : Decidable (v.Decides p) :=
  inferInstanceAs (Decidable (_ ∨ _))

theorem clean_window (v : Evidence) (p : Position) : (v.window p).Clean := by
  have hfold (reports : List Report) (w : Window) (hw : w.Clean) :
      (reports.foldl Window.absorb w).Clean := by
    induction reports generalizing w with
    | nil => exact hw
    | cons r rs ih => exact ih _ (hw.absorb r)
  exact hfold v.reports _ (Window.clean_new _)

theorem window_add_report (v : Evidence) (r : Report) (now : Nat) (p : Position) :
    (v.add (.report r now)).window p = (v.window p).absorb r := by
  simp [add, window, List.foldl_append]

theorem not_decides_empty (aggregation : Aggregation) (p : Position) :
    ¬ (empty aggregation).Decides p := by
  have hsize : ((empty aggregation).window p).size = 0 := rfl
  have hs := Window.successes_of_size_eq_zero ((empty aggregation).clean_window p) hsize
  rw [Decides, Window.failures, hs, hsize]
  omega

theorem not_decides_setAggregation {v : Evidence} {p : Position} (h : ¬ v.Decides p)
    (aggregation : Aggregation) : ¬ (v.add (.setAggregation aggregation)).Decides p := by
  simp only [add]
  split_ifs
  · exact h
  · exact not_decides_empty aggregation p

end Evidence

namespace Controller

theorem Sound.window_observe {c : Controller} (h : c.Sound) (r : Report) :
    (c.observe r).window = c.window.absorb r :=
  Ledger.window_record_self _ _ _ _ h.position.index_lt

theorem Sound.window_clearGroup {c : Controller} (h : c.clearGroup.Sound) :
    c.clearGroup.window = .new (CeilingTable.expected.ceiling c.group c.index) := by
  have hceilings : c.ledger.ceilings = .expected :=
    (Ledger.ceilings_clear c.ledger c.group).symm.trans h.ceilings
  rw [clearGroup_window, Window.clear, window, windowAt, Ledger.window_ceiling, hceilings]

theorem Sound.window_setAggregation {c : Controller} (h : c.Sound) {aggregation : Aggregation}
    (hne : aggregation ≠ c.aggregation) :
    (c.setAggregation aggregation).window =
      .new (CeilingTable.expected.ceiling (c.position.group aggregation) c.index) := by
  have hs := h.setAggregation aggregation
  rw [setAggregation_of_ne hne] at hs ⊢
  exact hs.window_clearGroup

/-- A trial that is under way: the events since `start` have supplied the
evidence `v`, which does not decide it. -/
structure OnTrial (start : Controller) (v : Evidence) (c : Controller) : Prop where
  position : c.position = start.position
  phase : c.phase = start.phase
  visited : c.visited = start.visited
  aggregation : c.aggregation = v.aggregation
  window : c.window = v.window start.position
  undecided : ¬ v.Decides start.position

namespace OnTrial

variable {start c : Controller} {v : Evidence} {t : Trial}

theorem window_observe (h : OnTrial start v c) (hs : c.Sound) (r : Report) (now : Nat) :
    (c.observe r).window = (v.add (.report r now)).window start.position := by
  rw [hs.window_observe, h.window, Evidence.window_add_report]

theorem report_undecided (h : OnTrial start v c) (hs : c.Sound)
    (ht : start.phase = .searching (some t)) {r : Report} {now : Nat}
    (hno : ¬ (v.add (.report r now)).Decides start.position) : c.report r now = c.observe r := by
  have hrate : (c.observe r).window.throughput? = none := by
    rw [h.window_observe hs r now]
    exact (Window.throughput?_eq_none_iff (Evidence.clean_window _ _)).mpr hno
  rw [report_of_trial (Phase.trial?_eq_some.mpr (h.phase.trans ht)), hrate]

theorem report_decided (h : OnTrial start v c) (hs : c.Sound)
    (ht : start.phase = .searching (some t)) {r : Report} {now : Nat}
    (hdec : (v.add (.report r now)).Decides start.position) :
    ∃ rate, (c.observe r).window.throughput? = some rate ∧
      c.report r now = (c.observe r).resolve t rate := by
  have hsome : (c.observe r).window.throughput? ≠ none := by
    rw [h.window_observe hs r now]
    exact fun hn => (Window.throughput?_eq_none_iff (Evidence.clean_window _ _)).mp hn hdec
  obtain ⟨rate, hrate⟩ := Option.ne_none_iff_exists'.mp hsome
  refine ⟨rate, hrate, ?_⟩
  rw [report_of_trial (Phase.trial?_eq_some.mpr (h.phase.trans ht)), hrate]

theorem step (h : OnTrial start v c) (hs : c.Sound) (ht : start.phase = .searching (some t))
    {e : Event} (hno : ¬ (v.add e).Decides start.position) :
    OnTrial start (v.add e) (c.apply e) := by
  cases e with
  | report r now =>
    have hreport : c.apply (.report r now) = c.observe r := h.report_undecided hs ht hno
    rw [hreport]
    refine ⟨h.position, ?_, h.visited, h.aggregation, h.window_observe hs r now, hno⟩
    exact (observe_phase_of_searching (h.phase.trans ht) r).trans ht.symm
  | setAggregation aggregation =>
    simp only [apply, Evidence.add] at hno ⊢
    by_cases ha : aggregation = c.aggregation
    · have hv : aggregation = v.aggregation := ha.trans h.aggregation
      simpa [setAggregation, ha, hv, h.aggregation] using h
    · have hv : aggregation ≠ v.aggregation := fun hv => ha (hv.trans h.aggregation.symm)
      have hwindow := hs.window_setAggregation ha
      simp only [hv, if_false] at hno ⊢
      rw [h.position, show c.index = start.index from congrArg Position.index h.position] at hwindow
      rw [setAggregation_of_ne ha] at hwindow ⊢
      exact ⟨h.position, h.phase, h.visited, rfl, hwindow, hno⟩

theorem run (h : OnTrial start v c) (hs : c.Sound) (ht : start.phase = .searching (some t))
    {events : List Event}
    (hno : ∀ pre, pre <+: events → ¬ (v.addAll pre).Decides start.position) :
    OnTrial start (v.addAll events) (c.run events) := by
  induction events generalizing c v with
  | nil => exact h
  | cons e es ih =>
    have he := hno [e] (by simp)
    refine ih (h.step hs ht he) (hs.apply e) fun pre hpre => ?_
    exact hno (e :: pre) (List.cons_prefix_cons.mpr ⟨rfl, hpre⟩)

theorem trial? (h : OnTrial start v c) (ht : start.phase = .searching (some t)) :
    c.trial? = some t :=
  Phase.trial?_eq_some.mpr (h.phase.trans ht)

theorem lasts_iff (h : OnTrial start v c) (hs : c.Sound) (ht : start.phase = .searching (some t))
    (events : List Event) :
    (∀ pre, pre <+: events → (c.run pre).trial?.isSome) ↔
      ∀ pre, pre <+: events → ¬ (v.addAll pre).Decides start.position := by
  constructor
  · induction events generalizing c v with
    | nil =>
      intro _ pre hpre
      obtain rfl := List.prefix_nil.mp hpre
      exact h.undecided
    | cons e es ih =>
      intro hlast pre hpre
      have he : ¬ (v.add e).Decides start.position := by
        intro hdec
        have hsome := hlast [e] (by simp)
        cases e with
        | setAggregation aggregation =>
          exact Evidence.not_decides_setAggregation h.undecided aggregation hdec
        | report r now =>
          obtain ⟨rate, _, hreport⟩ := h.report_decided hs ht hdec
          have hrun : c.run [.report r now] = c.report r now := rfl
          simp [hrun, hreport, resolve, Controller.trial?, Phase.trial?] at hsome
      rcases List.prefix_cons_iff.mp hpre with rfl | ⟨tail, rfl, htail⟩
      · exact h.undecided
      · refine ih (h.step hs ht he) (hs.apply e) (fun q hq => ?_) tail htail
        exact hlast (e :: q) (List.cons_prefix_cons.mpr ⟨rfl, hq⟩)
  · intro hno pre hpre
    have hp := h.run hs ht fun q hq => hno q (hq.trans hpre)
    simp [hp.trial? ht]

end OnTrial

/-- A report that puts a column on trial leaves its rate without evidence. -/
theorem trial_begins {c : Controller} (hs : c.Sound) {r : Report} {now : Nat} {t : Trial}
    (hidle : c.trial? = none) (hbegin : (c.report r now).trial? = some t) :
    t.rollback = c.position ∧ (c.observe r).window.throughput? = some t.baseline ∧
      OnTrial (c.report r now) (.empty (c.report r now).aggregation) (c.report r now) := by
  have hm := report_move c r now
  have hsound := hs.report r now
  generalize c.report r now = d at hm hbegin hsound ⊢
  have hidle' : (c.observe r).trial? = none := by simpa using hidle
  cases hm with
  | waits => simp [hidle] at hbegin
  | resolves _ htrial => simp [hidle] at htrial
  | steps => simp [hidle] at hbegin
  | @tries rate next hrate =>
    obtain rfl : ⟨c.position, rate⟩ = t := by
      simpa [beginTrial, clearGroup, trial?, Phase.trial?] using hbegin
    exact ⟨rfl, hrate, rfl, rfl, rfl, rfl, hsound.window_clearGroup, Evidence.not_decides_empty _ _⟩
  | settles => simp [trial?, Phase.trial?] at hbegin
  | stays => simp [hidle] at hbegin

/-- A column trial is all or nothing. From the report that begins it on, the trial lasts for as
long as no report has brought the failures to three or the successes to eight, in a window that
was empty at first and is emptied whenever the aggregation setting changes. All that time the
station keeps to its position, its visited columns and the terms of the trial. The report that
decides ends the trial and begins no other: the station stays where it is if it measures more than
the baseline, and is otherwise back where it was before. -/
theorem trial_all_or_nothing (caps : Capabilities) (past : List Event) (r : Report) (now : Nat)
    (t : Trial) (hidle : ((new caps).run past).trial? = none)
    (hbegin : (((new caps).run past).report r now).trial? = some t) (events : List Event) :
    let before := (new caps).run past
    let start := before.report r now
    let c := start.run events
    let evidence (es : List Event) : Evidence := (Evidence.empty start.aggregation).addAll es
    t.rollback = before.position ∧ (before.observe r).window.throughput? = some t.baseline ∧
      start.phase = .searching (some t) ∧
      ((∀ pre, pre <+: events → (start.run pre).trial?.isSome) ↔
        ∀ pre, pre <+: events → ¬ (evidence pre).Decides start.position) ∧
      ((∀ pre, pre <+: events → (start.run pre).trial?.isSome) →
        c.position = start.position ∧ c.phase = start.phase ∧ c.visited = start.visited ∧
        c.window = (evidence events).window start.position ∧
        ∀ (last : Report) (later : Nat),
          (c.observe last).window = (evidence (events ++ [.report last later])).window start.position ∧
          ((evidence (events ++ [.report last later])).Decides start.position →
            ∃ rate, (c.observe last).window.throughput? = some rate ∧
              (c.report last later).phase = .searching none ∧
              (c.report last later).visited = start.visited ∧
              (c.report last later).position =
                if t.baseline < rate then start.position else before.position)) := by
  intro before start c evidence
  have hsound : before.Sound := sound_run caps past
  obtain ⟨hrollback, hbaseline, hstart⟩ := trial_begins hsound hidle hbegin
  have hphase : start.phase = .searching (some t) := Phase.trial?_eq_some.mp hbegin
  have hss : start.Sound := hsound.report r now
  have hlasts := hstart.lasts_iff hss hphase events
  refine ⟨hrollback, hbaseline, hphase, hlasts, fun hlast => ?_⟩
  have hc : OnTrial start (evidence events) c := hstart.run hss hphase (hlasts.mp hlast)
  have hcs : c.Sound := run_induction (fun _ e h => h.apply e) hss events
  have hadd (last : Report) (later : Nat) :
      evidence (events ++ [.report last later]) = (evidence events).add (.report last later) :=
    List.foldl_append
  refine ⟨hc.position, hc.phase, hc.visited, hc.window, fun last later => ?_⟩
  rw [hadd]
  refine ⟨hc.window_observe hcs last later, fun hdec => ?_⟩
  obtain ⟨rate, hrate, hreport⟩ := hc.report_decided hcs hphase hdec
  refine ⟨rate, hrate, by rw [hreport]; rfl, by rw [hreport]; exact hc.visited, ?_⟩
  rw [hreport, ← hrollback, ← hc.position]
  rfl

/-- Two failures before a change of the setting and two after it do not decide. The missing block
acknowledgement that follows is the third failure, and the station leaves 40 MHz again. -/
theorem trial_rolled_back_after_flip :
    let before := (new ⟨.mhz40, true, false⟩).run [.report ⟨0, 3, false⟩ 0, .report ⟨0, 3, false⟩ 0]
    let start := before.report ⟨0, 1, false⟩ 0
    let c := start.run [.report ⟨7, 2, false⟩ 9, .setAggregation .on, .report ⟨0, 2, false⟩ 3]
    before.trial? = none ∧ start.trial? = some ⟨before.position, 0⟩ ∧
      start.position = ⟨.sisoAntA, 4, .mhz40⟩ ∧ c.position = start.position ∧
      (c.report ⟨0, 5, true⟩ 4).phase = .searching none ∧
      (c.report ⟨0, 5, true⟩ 4).position = before.position := by
  intro before start c
  have hidle : before.trial? = none := by decide +kernel +zetaReduce
  have hbegin : start.trial? = some ⟨before.position, 0⟩ := by decide +kernel +zetaReduce
  obtain ⟨-, -, -, hlasts, hcourse⟩ := trial_all_or_nothing _ _ _ _ _ hidle hbegin
    [.report ⟨7, 2, false⟩ 9, .setAggregation .on, .report ⟨0, 2, false⟩ 3]
  have hlast := hlasts.mpr fun pre hpre => by
    rw [← List.mem_inits] at hpre
    revert pre
    decide +kernel +zetaReduce
  obtain ⟨hkeep, -, -, -, hdecided⟩ := hcourse hlast
  obtain ⟨rate, hrate, hphase, -, hposition⟩ :=
    (hdecided ⟨0, 5, true⟩ 4).2 (by decide +kernel +zetaReduce)
  have hzero : (c.observe ⟨0, 5, true⟩).window.throughput? = some 0 := by
    decide +kernel +zetaReduce
  obtain rfl := Option.some.inj (hrate.symm.trans hzero)
  exact ⟨hidle, hbegin, by decide +kernel +zetaReduce, hkeep, hphase, by simpa using hposition⟩

end Controller

end LinkAdaptation
