import LinkAdaptation.Proofs.BestRates
import LinkAdaptation.Proofs.LedgerWindows
import LinkAdaptation.Proofs.PhaseCoherence

/-! The search for another column. Candidates are judged at the width in use,
but tried at the width of the device; the two differ only where a legacy column
looks at the others, and those beat every legacy rate at any width. So a search
misses no column that could do better, and a station settles only when there
is none. -/

namespace LinkAdaptation

namespace Controller

/-- What makes a column worth a trial: it could beat the measured rate at the width it would be
tried at. -/
def Eligible (c : Controller) (rate : Nat) (next : Column) : Prop :=
  c.visited.contains next = false ∧ (next.mode.isLegacy = true ∨ c.caps.nonLegacy = true) ∧
    rate < 100 * CeilingTable.expected.best (next.group (next.fit c.caps.width) c.aggregation)

instance (c : Controller) (rate : Nat) (next : Column) : Decidable (c.Eligible rate next) :=
  inferInstanceAs (Decidable (_ ∧ _ ∧ _))

/-- A report that leads to a search: it measures a rate, decides no trial, takes no step, and
leaves or makes the station searching. -/
structure Searches (c : Controller) (r : Report) (now rate : Nat) : Prop where
  measured : (c.observe r).window.throughput? = some rate
  idle : c.trial? = none
  still : (c.observe r).step? rate = none
  searching : ((c.observe r).supervise now).phase = .searching none

theorem isPromising_iff {c : Controller} (h : c.Sound) {rate : Nat}
    (hrate : rate ≤ 100 * CeilingTable.expected.ceiling c.group c.index) (next : Column) :
    c.isPromising rate next = true ↔ c.Eligible rate next := by
  have hwidth : rate < 100 * CeilingTable.expected.best (next.group (next.fit c.width) c.aggregation) ↔
      rate < 100 * CeilingTable.expected.best (next.group (next.fit c.caps.width) c.aggregation) := by
    -- only a legacy column runs at a width that is not the device's own
    cases hl : c.column.mode.isLegacy with
    | false => rw [show c.width = c.caps.width from (h.position.nonLegacy hl).1]
    | true =>
      cases hn : next.mode.isLegacy with
      | true => simp only [Column.fit, hn, if_true]
      | false =>
        -- at whatever width, the best HT or VHT rate is above all legacy rates
        have hbeats (w : Width) : rate < 100 * CeilingTable.expected.best (next.group w c.aggregation) := by
          have hlt := CeilingTable.expected_legacy_lt_best (l := c.group)
            (g := next.group w c.aggregation) hl hn c.index
          omega
        exact iff_of_true (hbeats _) (hbeats _)
  simp only [isPromising, Eligible, Bool.and_eq_true, Bool.not_eq_true', Bool.or_eq_true,
    decide_eq_true_eq, hwidth, and_assoc]

theorem nextColumn?_eq {c : Controller} (h : c.Sound) {rate : Nat}
    (hrate : rate ≤ 100 * CeilingTable.expected.ceiling c.group c.index) :
    c.nextColumn? rate = c.column.next.find? (c.Eligible rate ·) := by
  have hsame : c.isPromising rate = fun next => decide (c.Eligible rate next) := by
    funext next
    rw [Bool.eq_iff_iff, decide_eq_true_eq]
    exact isPromising_iff h hrate next
  rw [nextColumn?, hsame]

theorem Orderly.supervise_visited {c : Controller} (h : c.Orderly) (now : Nat) :
    (c.supervise now).visited = c.visited := by
  have hs := supervised c now
  generalize c.supervise now = s at hs ⊢
  cases hs with
  | idle | refreshes | ages => rfl
  | expires hstay => exact (h.staying _ hstay).1.symm

theorem Searches.supervise_eq {c : Controller} (h : c.Coherent) {r : Report} {now rate : Nat}
    (hs : c.Searches r now rate) :
    (c.observe r).supervise now = { c.observe r with phase := .searching none } := by
  rw [supervise_of_phase_searching hs.searching, (h.toOrderly.observe r).supervise_visited now]

section Search

variable {c : Controller} (hcoherent : c.Coherent) (hsound : c.Sound)
  (hclean : c.ledger.All Window.Clean) {r : Report} {now : Nat}

include hcoherent hsound hclean

theorem Searches.report {rate : Nat} (hs : c.Searches r now rate) :
    c.report r now =
      match c.column.next.find? (c.Eligible rate ·) with
      | some next => beginTrial { c.observe r with phase := .searching none } next rate
      | none => { c.observe r with phase := .staying (.start now), visited := .only c.column } := by
  have hrate : rate ≤ 100 * CeilingTable.expected.ceiling c.group c.index :=
    hsound.rate_le_of_observe hclean hs.measured
  have hso : Sound { c.observe r with phase := .searching none } :=
    (hsound.observe r).of_no_trial rfl rfl rfl rfl
  have hnext : nextColumn? { c.observe r with phase := .searching none } rate =
      c.column.next.find? (c.Eligible rate ·) := nextColumn?_eq hso hrate
  have hidle : (c.observe r).trial? = none := (observe_trial? c r).trans hs.idle
  simp only [Controller.report, act, hs.measured, hidle, hs.still, hs.supervise_eq hcoherent, search,
    hnext]
  cases c.column.next.find? (c.Eligible rate ·) with
  | some next => simp [settle, beginTrial, clearGroup]
  | none => simp [settle, column]

theorem Searches.report_of_eligible {rate : Nat} (hs : c.Searches r now rate)
    (hsome : ∃ next ∈ c.column.next, c.Eligible rate next) :
    ∃ next, c.column.next.find? (c.Eligible rate ·) = some next ∧
      c.report r now = beginTrial { c.observe r with phase := .searching none } next rate := by
  obtain ⟨next, hfind⟩ : ∃ next, c.column.next.find? (c.Eligible rate ·) = some next := by
    obtain ⟨d, hd, heligible⟩ := hsome
    exact Option.isSome_iff_exists.mp (List.find?_isSome.mpr ⟨d, hd, by simpa using heligible⟩)
  have hreport := hs.report hcoherent hsound hclean
  rw [hfind] at hreport
  exact ⟨next, hfind, hreport⟩

theorem Searches.report_of_none {rate : Nat} (hs : c.Searches r now rate)
    (hnone : ∀ next ∈ c.column.next, ¬ c.Eligible rate next) :
    c.report r now =
      { c.observe r with phase := .staying (.start now), visited := .only c.column } := by
  have hfind : c.column.next.find? (c.Eligible rate ·) = none :=
    List.find?_eq_none.mpr (by simpa using hnone)
  have hreport := hs.report hcoherent hsound hclean
  rw [hfind] at hreport
  exact hreport

/-- A trial begins in a search only, and in an eligible column. -/
theorem beginTrial_of_report {t : Trial} (hidle : c.trial? = none)
    (hbegin : (c.report r now).trial? = some t) :
    ∃ next ∈ c.column.next, c.Eligible t.baseline next ∧
      (c.observe r).window.throughput? = some t.baseline ∧
      c.report r now = beginTrial { c.observe r with phase := .searching none } next t.baseline := by
  have hs : c.Searches r now t.baseline := by
    have hm := report_move c r now
    generalize c.report r now = d at hm hbegin
    cases hm with
    | waits | steps | stays => simp [hidle] at hbegin
    | resolves _ htrial => simp [hidle] at htrial
    | settles => simp [trial?, Phase.trial?] at hbegin
    | @tries rate next hrate _ hstep hphase =>
      obtain rfl : ⟨c.position, rate⟩ = t := by
        simpa [beginTrial, clearGroup, trial?, Phase.trial?] using hbegin
      exact ⟨hrate, hidle, hstep, hphase⟩
  by_cases hsome : ∃ next ∈ c.column.next, c.Eligible t.baseline next
  · obtain ⟨next, hfind, hreport⟩ := hs.report_of_eligible hcoherent hsound hclean hsome
    have heligible : c.Eligible t.baseline next := by simpa using List.find?_some hfind
    exact ⟨next, List.mem_of_find?_eq_some hfind, heligible, hs.measured, hreport⟩
  · push Not at hsome
    rw [hs.report_of_none hcoherent hsound hclean hsome] at hbegin
    simp [trial?, Phase.trial?] at hbegin

end Search

theorem supervise_ne_ended {c : Controller} (h : c.phase ≠ .ended) (now : Nat) :
    (c.supervise now).phase ≠ .ended := by
  have hs := supervised c now
  generalize c.supervise now = s at hs ⊢
  cases hs with
  | idle => exact h
  | expires | refreshes | ages => simp [clearGroup]

theorem staying_of_supervise {c : Controller} {now : Nat} {stay : Stay}
    (h : (c.supervise now).phase = .staying stay) :
    ∃ old, c.phase = .staying old ∧ stay.since = old.since ∧ old.isOver c.limits now = false := by
  have hs := supervised c now
  generalize c.supervise now = s at hs h
  cases hs with
  | idle hstay => simp [stay?, h, Phase.stay?] at hstay
  | expires => simp at h
  | @refreshes old hstay hover =>
    obtain rfl : { old with age := 0 } = stay := by simpa [clearGroup] using h
    exact ⟨old, hstay, rfl, hover⟩
  | @ages old hstay hover =>
    obtain rfl : { old with age := old.age + 1 } = stay := by simpa using h
    exact ⟨old, hstay, rfl, hover⟩

theorem staying_of_observe {c : Controller} {r : Report} {stay : Stay}
    (h : (c.observe r).phase = .staying stay) :
    ∃ old, c.phase = .staying old ∧ stay = old.count r.acked r.failures := by
  cases hp : c.phase with
  | searching trial => simp [observe, hp, Phase.count] at h
  | ended => simp [observe, hp, Phase.count] at h
  | staying old =>
    have hcount : old.count r.acked r.failures = stay := by
      simpa [observe, hp, Phase.count] using h
    exact ⟨old, rfl, hcount.symm⟩

theorem staying_of_report {c : Controller} (hcoherent : c.Coherent) {r : Report} {now : Nat}
    {stay : Stay} (hstay : (c.report r now).phase = .staying stay) :
    (∃ rate, c.Searches r now rate) ∨
      ∃ old, c.phase = .staying old ∧ stay.since = old.since ∧
        (old.count r.acked r.failures).isOver c.limits now = false := by
  have hstays (index : Nat)
      (h : (((c.observe r).stepTo index).supervise now).phase = .staying stay) :
      ∃ old, c.phase = .staying old ∧ stay.since = old.since ∧
        (old.count r.acked r.failures).isOver c.limits now = false := by
    obtain ⟨counted, hphase, hsince, hover⟩ := staying_of_supervise h
    obtain ⟨old, hold, rfl⟩ := staying_of_observe hphase
    exact ⟨old, hold, hsince, hover⟩
  have hm := report_move c r now
  generalize c.report r now = d at hm hstay
  cases hm with
  | waits | stays => exact .inr (hstays c.index hstay)
  | resolves => simp [resolve] at hstay
  | steps => exact .inr (hstays _ hstay)
  | tries => simp [beginTrial, clearGroup] at hstay
  | @settles rate hrate htrial hstep hphase =>
    refine .inl ⟨rate, hrate, (observe_trial? c r).symm.trans htrial, hstep, ?_⟩
    rcases hphase with hended | ⟨hsearching, -⟩
    · exact absurd hended (supervise_ne_ended (hcoherent.toOrderly.observe r).not_ended now)
    · exact hsearching

/-- A search is neither blind nor hasty. Whenever a report leads to one, the station goes on trial
in the first candidate that could beat what it measures, and it settles, with a fresh account and
only its own column visited, when there is no such candidate. Nothing else makes a station stay:
after any other report it does so only because it did before and its stay is not over. -/
theorem search_exhaustive (caps : Capabilities) (past : List Event) (r : Report) (now : Nat) :
    let before := (new caps).run past
    let after := before.report r now
    (∀ rate, before.Searches r now rate →
      ((∃ next ∈ before.column.next, before.Eligible rate next) →
        ∃ next, before.column.next.find? (before.Eligible rate ·) = some next ∧
          after.phase = .searching (some ⟨before.position, rate⟩) ∧ after.column = next ∧
          after.visited = before.visited.insert next) ∧
      ((∀ next ∈ before.column.next, ¬ before.Eligible rate next) →
        after.phase = .staying ⟨0, 0, 0, now⟩ ∧ after.position = before.position ∧
          ∀ d, after.visited.contains d = true ↔ d = after.column)) ∧
    (∀ stay, after.phase = .staying stay →
      (∃ rate, before.Searches r now rate ∧
        ∀ next ∈ before.column.next, ¬ before.Eligible rate next) ∨
      ∃ old, before.phase = .staying old ∧ stay.since = old.since ∧
        (old.count r.acked r.failures).isOver before.limits now = false) := by
  intro before after
  have hcoherent : before.Coherent := coherent_run caps past
  have hsound : before.Sound := sound_run caps past
  have hclean := clean_run caps past
  refine ⟨fun rate hs => ⟨fun hsome => ?_, fun hnone => ?_⟩, fun stay hstay => ?_⟩
  · obtain ⟨next, hfind, hreport⟩ := hs.report_of_eligible hcoherent hsound hclean hsome
    have hafter : after =
        beginTrial { before.observe r with phase := .searching none } next rate := hreport
    rw [hafter]
    exact ⟨next, hfind, rfl, rfl, rfl⟩
  · have hafter : after =
        { before.observe r with phase := .staying (.start now), visited := .only before.column } :=
      hs.report_of_none hcoherent hsound hclean hnone
    rw [hafter]
    refine ⟨rfl, rfl, fun d => ?_⟩
    simp [ColumnSet.contains_only, column]
  · rcases staying_of_report hcoherent hstay with ⟨rate, hs⟩ | hold
    · refine .inl ⟨rate, hs, fun next hnext heligible => ?_⟩
      -- an eligible candidate would be on trial now
      obtain ⟨first, -, hreport⟩ :=
        hs.report_of_eligible hcoherent hsound hclean ⟨next, hnext, heligible⟩
      have hafter : after =
          beginTrial { before.observe r with phase := .searching none } first rate := hreport
      rw [hafter] at hstay
      simp [beginTrial, clearGroup] at hstay
    · exact .inr hold

/-- From the fastest legacy rate, at 20 MHz, the other chain promises nothing more, and the first
HT or VHT column is tried. -/
theorem search_leaves_fastest_legacy_rate :
    let before := (new ⟨.mhz80, true, true⟩).run (List.replicate 9 (.report ⟨8, 0, false⟩ 0))
    let after := before.report ⟨8, 0, false⟩ 0
    before.Searches ⟨8, 0, false⟩ 0 18600 ∧
      (∃ next ∈ before.column.next, before.Eligible 18600 next) ∧
      after.phase = .searching (some ⟨⟨.legacyAntA, 11, .mhz20⟩, 18600⟩) ∧
      after.column = .sisoAntA := by
  intro before after
  have hs : before.Searches ⟨8, 0, false⟩ 0 18600 := by
    constructor <;> decide +kernel +zetaReduce
  have hsome : ∃ next ∈ before.column.next, before.Eligible 18600 next := by
    decide +kernel +zetaReduce
  obtain ⟨next, hfirst, hphase, hcolumn, -⟩ :=
    ((search_exhaustive _ (List.replicate 9 (.report ⟨8, 0, false⟩ 0)) ⟨8, 0, false⟩ 0).1 18600 hs).1
      hsome
  have hposition : before.position = ⟨.legacyAntA, 11, .mhz20⟩ := by decide +kernel +zetaReduce
  have hnext : before.column.next.find? (before.Eligible 18600 ·) = some .sisoAntA := by
    decide +kernel +zetaReduce
  obtain rfl := Option.some.inj (hfirst.symm.trans hnext)
  exact ⟨hs, hsome, hposition ▸ hphase, hcolumn⟩

end Controller

end LinkAdaptation
