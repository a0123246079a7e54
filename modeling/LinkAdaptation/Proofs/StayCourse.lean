import LinkAdaptation.Proofs.TrafficBounds

/-! The course of a stay, report by report. Whether a report ends the stay is
settled by exact sums, although the totals are kept in words: a total that was
cut off is far beyond every limit. A report that ends a stay may go on to a
trial, or find nothing to try and begin another stay in the same column. -/

namespace LinkAdaptation

theorem Stay.isOver_iff {s : Stay} {limits : StayLimits} {now : Nat} :
    s.isOver limits now = true ↔
      limits.lost < s.lost ∨ limits.acked < s.acked ∨ s.since + duration ≤ now := by
  simp only [isOver, Bool.or_eq_true, decide_eq_true_eq, or_assoc]

/-- The totals are as good as unbounded numbers when they are held against the limits. -/
theorem Stay.isOver_count_iff {s : Stay} {m : Mode} {acked lost now : Nat} :
    (s.count acked lost).isOver (.of m) now = true ↔
      (StayLimits.of m).lost < s.lost + lost ∨ (StayLimits.of m).acked < s.acked + acked ∨
        s.since + duration ≤ now := by
  have hlimits : (StayLimits.of m).lost < UInt32.size - 1 ∧
      (StayLimits.of m).acked < UInt32.size - 1 := by
    cases m <;> decide
  rw [isOver_iff]
  simp only [count, saturate]
  omega

namespace Controller

/-- The report takes the station out of its stay, if only for a moment. -/
def EndsStay (c : Controller) (r : Report) (now : Nat) : Prop :=
  ∃ m ∈ c.moments r now, m.stay? = none

section Staying

variable {c : Controller} {stay : Stay} (hphase : c.phase = .staying stay) (now : Nat)

include hphase

theorem supervise_of_over (hover : stay.isOver c.limits now = true) :
    c.supervise now = { c with phase := .searching none, visited := .only c.column } := by
  simp [supervise, hphase, hover]

theorem supervise_of_not_over (hover : stay.isOver c.limits now = false) :
    c.supervise now =
      if c.limits.age < stay.age + 1 then
        clearGroup { c with phase := .staying { stay with age := 0 } }
      else { c with phase := .staying { stay with age := stay.age + 1 } } := by
  simp [supervise, hphase, hover]

theorem stay?_supervise_eq_none_iff :
    (c.supervise now).stay? = none ↔ stay.isOver c.limits now = true := by
  cases hover : stay.isOver c.limits now with
  | true => simp [supervise_of_over hphase now hover, stay?, Phase.stay?]
  | false =>
    rw [supervise_of_not_over hphase now hover]
    split_ifs <;> simp [stay?, Phase.stay?, clearGroup]

theorem observe_phase_of_staying (r : Report) :
    (c.observe r).phase = .staying (stay.count r.acked r.failures) := by
  simp [observe, hphase, Phase.count]

end Staying

/-- As long as supervision leaves a stay going, the moments of a report are those of its records,
its steps and its supervision. -/
theorem mem_moments_of_stays {c : Controller} {r : Report} {now : Nat} (htrial : c.trial? = none)
    (hstays : ∀ index, (((c.observe r).stepTo index).supervise now).stay? ≠ none) {m : Controller}
    (hm : m ∈ c.moments r now) :
    m.stay? = (c.observe r).stay? ∨ ∃ index, m = ((c.observe r).stepTo index).supervise now := by
  have hsame : (c.observe r).stepTo c.index = c.observe r := rfl
  have hidle : (c.observe r).trial? = none := (observe_trial? c r).trans htrial
  obtain ⟨s, hs⟩ := Option.ne_none_iff_exists'.mp (hstays c.index)
  rw [hsame, stay?, Phase.stay?_eq_some] at hs
  simp only [moments, hidle] at hm
  cases hrate : (c.observe r).window.throughput? with
  | none =>
    simp only [hrate, List.mem_cons, List.not_mem_nil, or_false] at hm
    rcases hm with rfl | rfl
    · exact .inl rfl
    · exact .inr ⟨c.index, by rw [hsame]⟩
  | some rate =>
    cases hstep : (c.observe r).step? rate with
    | some index =>
      simp only [hrate, hstep, List.mem_cons, List.not_mem_nil, or_false] at hm
      rcases hm with rfl | rfl | rfl
      · exact .inl rfl
      · exact .inl rfl
      · exact .inr ⟨index, rfl⟩
    | none =>
      have hsearch : ((c.observe r).supervise now).search rate = (c.observe r).supervise now := by
        simp [search, hs]
      have hsettle : ((c.observe r).supervise now).settle now = (c.observe r).supervise now := by
        simp [settle, hs]
      simp only [hrate, hstep, hsearch, hsettle, List.mem_cons, List.not_mem_nil, or_false,
        or_self] at hm
      rcases hm with rfl | rfl
      · exact .inl rfl
      · exact .inr ⟨c.index, by rw [hsame]⟩

theorem endsStay_iff {c : Controller} {stay : Stay} (hphase : c.phase = .staying stay) (r : Report)
    (now : Nat) :
    c.EndsStay r now ↔ (stay.count r.acked r.failures).isOver c.limits now = true := by
  have hobserved := observe_phase_of_staying hphase r
  -- neither the step of the report nor what it finds has a part in this
  have hsupervise (index : Nat) : (((c.observe r).stepTo index).supervise now).stay? = none ↔
      (stay.count r.acked r.failures).isOver c.limits now = true :=
    stay?_supervise_eq_none_iff (c := (c.observe r).stepTo index) hobserved now
  constructor
  · rintro ⟨m, hm, hnone⟩
    by_contra hover
    have hstays (index : Nat) : (((c.observe r).stepTo index).supervise now).stay? ≠ none :=
      fun h => hover ((hsupervise index).mp h)
    have htrial : c.trial? = none := by simp [trial?, hphase, Phase.trial?]
    rcases mem_moments_of_stays htrial hstays hm with hstay | ⟨index, rfl⟩
    · rw [hstay] at hnone
      simp [stay?, hobserved, Phase.stay?] at hnone
    · exact hstays index hnone
  · intro hover
    obtain ⟨index, hmem, -⟩ := supervise_mem_moments hphase r now
    exact ⟨_, hmem, (hsupervise index).mpr hover⟩

/-- A report that ends a stay leaves the station to search where it is, on trial in another column,
or in a new stay that begins with this report. -/
theorem report_of_over {c : Controller} {stay : Stay} (hphase : c.phase = .staying stay)
    {r : Report} {now : Nat} (hover : (stay.count r.acked r.failures).isOver c.limits now = true) :
    ((c.report r now).phase = .searching none ∧ (c.report r now).column = c.column) ∨
      (∃ t, (c.report r now).phase = .searching (some t) ∧ t.rollback = c.position) ∨
      ((c.report r now).phase = .staying (.start now) ∧ (c.report r now).column = c.column) := by
  have hobserved := observe_phase_of_staying hphase r
  have hexpires := supervise_of_over (c := c.observe r) hobserved now hover
  have hm := report_move c r now
  generalize c.report r now = d at hm ⊢
  cases hm with
  | waits => exact .inl ⟨by rw [hexpires], by rw [hexpires]; rfl⟩
  | resolves _ htrial =>
    rw [observe_trial?] at htrial
    simp [trial?, hphase, Phase.trial?] at htrial
  | @steps rate index =>
    have hstep := supervise_of_over (c := (c.observe r).stepTo index) hobserved now hover
    exact .inl ⟨by rw [hstep], by rw [hstep]; rfl⟩
  | tries => exact .inr (.inl ⟨_, rfl, by rw [hexpires]; rfl⟩)
  | settles => exact .inr (.inr ⟨rfl, by rw [hexpires]; rfl⟩)
  | stays _ _ _ hstays => simp [hexpires] at hstays

/-- A report that does not end a stay is counted, and may step. The age of the statistics grows, or
passes its limit and starts again with the statistics thrown away. -/
theorem report_of_not_over {c : Controller} {stay : Stay} (hphase : c.phase = .staying stay)
    {r : Report} {now : Nat} (hover : (stay.count r.acked r.failures).isOver c.limits now = false) :
    ∃ index, c.report r now =
      if c.limits.age < stay.age + 1 then
        clearGroup { (c.observe r).stepTo index with
          phase := .staying ⟨stay.acked + r.acked, stay.lost + r.failures, 0, stay.since⟩ }
      else
        { (c.observe r).stepTo index with
          phase := .staying
            ⟨stay.acked + r.acked, stay.lost + r.failures, stay.age + 1, stay.since⟩ } := by
  obtain ⟨hacked, hlost⟩ := Stay.count_of_not_over hover
  obtain ⟨index, -, hreport⟩ := supervise_mem_moments hphase r now
  have hobserved : ((c.observe r).stepTo index).phase = .staying (stay.count r.acked r.failures) :=
    observe_phase_of_staying hphase r
  have hstays : (((c.observe r).stepTo index).supervise now).stay? ≠ none := fun hnone => by
    have hends := (stay?_supervise_eq_none_iff hobserved now).mp hnone
    exact Bool.false_ne_true (hover.symm.trans hends)
  have hcount (age : Nat) : ({ stay.count r.acked r.failures with age := age } : Stay) =
      ⟨stay.acked + r.acked, stay.lost + r.failures, age, stay.since⟩ :=
    (Stay.mk.injEq ..).mpr ⟨hacked, hlost, rfl, rfl⟩
  refine ⟨index, ?_⟩
  rw [hreport hstays, supervise_of_not_over hobserved now hover, hcount, hcount]
  rfl

theorem no_account_of_searching {c : Controller} {trial : Option Trial}
    (h : c.phase = .searching trial) : c.totals = (0, 0) ∧ c.tableAge = 0 ∧ c.timer? = none := by
  simp [totals, tableAge, timer?, stay?, h, Phase.stay?]

theorem account_of_start {c : Controller} {now : Nat} (h : c.phase = .staying (.start now)) :
    c.totals = (0, 0) ∧ c.tableAge = 0 ∧ c.timer? = some now := by
  simp [totals, tableAge, timer?, stay?, h, Phase.stay?, Stay.start]

/-- The law of a stay. It ends with the report that brings the lost or the acknowledged frames, as
exact numbers, above the limit of the mode, or that comes 25 seconds after the stay began; a clock
that went back ends none. Until then the totals are exact, and only the statistics of the column
are thrown away when they are too old. A report that ends a stay leaves no account of it: the
station searches on, has just gone on trial elsewhere, or begins a new stay where it is. -/
theorem stay_course (caps : Capabilities) (past : List Event) (stay : Stay)
    (hphase : ((new caps).run past).phase = .staying stay) (r : Report) (now : Nat) :
    let before := (new caps).run past
    let after := before.report r now
    let limits := before.limits
    (before.EndsStay r now ↔ limits.lost < stay.lost + r.failures ∨
      limits.acked < stay.acked + r.acked ∨ stay.since + 25000000000 ≤ now) ∧
    (¬ before.EndsStay r now →
      after.phase = .staying ⟨stay.acked + r.acked, stay.lost + r.failures,
        if limits.age < stay.age + 1 then 0 else stay.age + 1, stay.since⟩ ∧
      after.column = before.column ∧ after.width = before.width ∧
      after.visited = before.visited ∧
      (limits.age < stay.age + 1 → ∀ index, (after.windowAt index).outcomes = []) ∧
      (stay.age + 1 ≤ limits.age → after.ledger = (before.observe r).ledger)) ∧
    (before.EndsStay r now →
      after.totals = (0, 0) ∧ after.tableAge = 0 ∧
      ((after.phase = .searching none ∧ after.timer? = none ∧ after.column = before.column) ∨
        (∃ t, after.phase = .searching (some t) ∧ after.timer? = none ∧
          t.rollback = before.position) ∨
        (after.phase = .staying (.start now) ∧ after.timer? = some now ∧
          after.column = before.column))) := by
  intro before after limits
  have hends : before.EndsStay r now ↔
      (stay.count r.acked r.failures).isOver before.limits now = true := endsStay_iff hphase r now
  refine ⟨hends.trans Stay.isOver_count_iff, fun hgoes => ?_, fun hover => ?_⟩
  · have hnot : (stay.count r.acked r.failures).isOver before.limits now = false := by
      simpa [hends] using hgoes
    obtain ⟨index, hreport⟩ := report_of_not_over hphase hnot
    change after = _ at hreport
    by_cases hage : limits.age < stay.age + 1
    · rw [if_pos hage] at hreport
      rw [hreport, if_pos hage]
      refine ⟨rfl, rfl, rfl, rfl, fun _ i => ?_, fun hyoung => absurd hage (Nat.not_lt.mpr hyoung)⟩
      rw [clearGroup_windowAt]
      rfl
    · rw [if_neg hage] at hreport
      rw [hreport, if_neg hage]
      exact ⟨rfl, rfl, rfl, rfl, fun hold => absurd hold hage, fun _ => rfl⟩
  · rcases report_of_over hphase (hends.mp hover) with
      ⟨hafter, hcolumn⟩ | ⟨t, hafter, hrollback⟩ | ⟨hafter, hcolumn⟩
    · obtain ⟨htotals, hage, htimer⟩ := no_account_of_searching hafter
      exact ⟨htotals, hage, .inl ⟨hafter, htimer, hcolumn⟩⟩
    · obtain ⟨htotals, hage, htimer⟩ := no_account_of_searching hafter
      exact ⟨htotals, hage, .inr (.inl ⟨t, hafter, htimer, hrollback⟩)⟩
    · obtain ⟨htotals, hage, htimer⟩ := account_of_start hafter
      exact ⟨htotals, hage, .inr (.inr ⟨hafter, htimer, hcolumn⟩)⟩

/-- The limit of a legacy stay is 160 lost frames: with so many it goes on, and with one more it
ends. The clock reads less than it did when the stay began. -/
theorem stay_ends_beyond_limit :
    let before := (new ⟨.mhz40, false, false⟩).run (List.replicate 3 (.report ⟨0, 3, false⟩ 7))
    before.phase = .staying (.start 7) ∧ ¬ before.EndsStay ⟨0, 160, false⟩ 0 ∧
      (before.report ⟨0, 160, false⟩ 0).phase = .staying ⟨0, 160, 1, 7⟩ ∧
      before.EndsStay ⟨0, 161, false⟩ 0 ∧ (before.report ⟨0, 161, false⟩ 0).totals = (0, 0) := by
  intro before
  have hphase : before.phase = .staying (.start 7) := by decide +kernel +zetaReduce
  obtain ⟨hends, hgoes, -⟩ := stay_course _ _ _ hphase ⟨0, 160, false⟩ 0
  obtain ⟨hends', -, hover⟩ := stay_course _ _ _ hphase ⟨0, 161, false⟩ 0
  have hlimits : before.limits = ⟨480, 160, 160⟩ := by decide +kernel +zetaReduce
  rw [hlimits] at hends hgoes hends'
  have hkeeps : ¬ before.EndsStay ⟨0, 160, false⟩ 0 := by
    rw [hends]
    decide
  have hbeyond : before.EndsStay ⟨0, 161, false⟩ 0 := by
    rw [hends']
    decide
  exact ⟨hphase, hkeeps, (hgoes hkeeps).1, hbeyond, (hover hbeyond).1⟩

end Controller

end LinkAdaptation
