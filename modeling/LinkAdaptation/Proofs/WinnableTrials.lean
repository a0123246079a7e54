import LinkAdaptation.Proofs.ColumnSearch
import LinkAdaptation.Proofs.TrialOutcomes

/-! Every trial can be won. It starts at a rate that is expected to do better
than what was measured before, even if no rate of the new column exceeds the
threshold it was meant to exceed. So a trial without losses is kept, whereas
one in which nothing arrives is given up. -/

namespace LinkAdaptation

/-- The rate of a group at which a trial is to start: the first that is expected to exceed the
threshold, or the last of the group if none is. -/
def RateGroup.StartsAt (g : RateGroup) (threshold index : Nat) : Prop :=
  CeilingTable.expected.ceiling g index ≠ 0 ∧
    (threshold < 100 * CeilingTable.expected.ceiling g index ∧
        (∀ j < index, 100 * CeilingTable.expected.ceiling g j ≤ threshold) ∨
      (∀ j, 100 * CeilingTable.expected.ceiling g j ≤ threshold) ∧
        ∀ j, index < j → CeilingTable.expected.ceiling g j = 0)

theorem RateGroup.StartsAt.lt_of_lt_best {g : RateGroup} {threshold index rate : Nat}
    (h : g.StartsAt threshold index) (hrate : rate ≤ threshold)
    (hbest : rate < 100 * CeilingTable.expected.best g) :
    rate < 100 * CeilingTable.expected.ceiling g index := by
  obtain ⟨hne, ⟨hlt, -⟩ | ⟨-, hlast⟩⟩ := h
  · exact Nat.lt_of_le_of_lt hrate hlt
  · rwa [CeilingTable.expected_best_of_last hne hlast] at hbest

theorem mem_front_of_lt {front back : List Nat} {i j : Nat}
    (h : (front ++ i :: back).Pairwise (· < ·)) (hmem : j ∈ front ++ i :: back) (hj : j < i) :
    j ∈ front := by
  rw [List.pairwise_append, List.pairwise_cons] at h
  rcases List.mem_append.mp hmem with hfront | hback
  · exact hfront
  · rcases List.mem_cons.mp hback with rfl | hback
    · omega
    · have := h.2.1.1 j hback
      omega

theorem le_of_getLast?_eq_some {l : List Nat} (h : l.Pairwise (· < ·)) {last j : Nat}
    (hlast : l.getLast? = some last) (hmem : j ∈ l) : j ≤ last := by
  obtain ⟨front, rfl⟩ := List.getLast?_eq_some_iff.mp hlast
  rw [List.pairwise_append] at h
  rcases List.mem_append.mp hmem with hfront | hback
  · exact Nat.le_of_lt (h.2.2 j hfront last (by simp))
  · exact Nat.le_of_eq (List.mem_singleton.mp hback)

theorem CeilingTable.pairwise_rates (t : CeilingTable) (g : RateGroup) :
    (t.rates g).Pairwise (· < ·) :=
  List.pairwise_lt_range.filter _

namespace Controller

theorem startIndex_startsAt (g : RateGroup) (threshold : Nat) :
    g.StartsAt threshold (startIndex g threshold) := by
  have hsorted := CeilingTable.expected.pairwise_rates g
  refine ⟨CeilingTable.mem_rates.mp (startIndex_mem_rates g threshold), ?_⟩
  unfold startIndex
  dsimp only
  cases hf : (CeilingTable.expected.rates g).find?
      (threshold < 100 * CeilingTable.expected.ceiling g ·) with
  | some i =>
    obtain ⟨hi, front, back, hsplit, hfront⟩ := List.find?_eq_some_iff_append.mp hf
    refine .inl ⟨by simpa using hi, fun j hj => ?_⟩
    by_cases hz : CeilingTable.expected.ceiling g j = 0
    · simp [hz]
    · -- the rates are listed in ascending order, so `j` was looked at before `i`
      have hmem : j ∈ front :=
        mem_front_of_lt (hsplit ▸ hsorted) (hsplit ▸ CeilingTable.mem_rates.mpr hz) hj
      simpa using hfront j hmem
  | none =>
    obtain ⟨last, hlast⟩ := Option.ne_none_iff_exists'.mp
      (mt List.getLast?_eq_none_iff.mp (CeilingTable.expected_rates_ne_nil g))
    refine .inr ⟨fun j => ?_, fun j hj => ?_⟩
    · by_cases hz : CeilingTable.expected.ceiling g j = 0
      · simp [hz]
      · simpa using List.find?_eq_none.mp hf j (CeilingTable.mem_rates.mpr hz)
    · have hj' : last < j := by simpa [hlast] using hj
      by_contra hz
      have hle := le_of_getLast?_eq_some hsorted hlast (CeilingTable.mem_rates.mpr hz)
      omega

theorem threshold_eq {c : Controller} (h : c.window.size ≠ 0) (rate : Nat) :
    c.threshold rate =
      if 85 * c.window.size ≤ 100 * c.window.successes then
        100 * CeilingTable.expected.ceiling c.group c.index
      else rate := by
  simp only [threshold, ratio, reliableRatio, ge_iff_le, Window.le_ratio_iff h, expectedAt]

theorem le_threshold {c : Controller} {rate : Nat}
    (h : rate ≤ 100 * CeilingTable.expected.ceiling c.group c.index) : rate ≤ c.threshold rate := by
  unfold threshold
  split_ifs
  · exact h
  · exact Nat.le_refl rate

theorem beginTrial_startsAt (c : Controller) (next : Column) (rate : Nat) :
    (c.beginTrial next rate).group.StartsAt (c.threshold rate) (c.beginTrial next rate).index :=
  startIndex_startsAt _ _

theorem Eligible.lt_beginTrial {c : Controller} {rate : Nat} {next : Column}
    (h : c.Eligible rate next)
    (hrate : rate ≤ 100 * CeilingTable.expected.ceiling c.group c.index) :
    rate < 100 * CeilingTable.expected.ceiling (c.beginTrial next rate).group
      (c.beginTrial next rate).index :=
  (beginTrial_startsAt c next rate).lt_of_lt_best (le_threshold hrate) h.2.2

/-- A trial is fair. It starts at the first rate of the new column that is expected to exceed the
threshold, in the group it runs in, and that rate, or the last one if none exceeds the threshold,
is always expected to beat the baseline. As long as the aggregation setting stays as it is, eight
successes without a failure keep the new column, and three failures without a success restore the
old position; short of them, such a trial goes on. -/
theorem trial_winnable (caps : Capabilities) (past : List Event) (r : Report) (now : Nat) (t : Trial)
    (hidle : ((new caps).run past).trial? = none)
    (hbegin : (((new caps).run past).report r now).trial? = some t) :
    let before := (new caps).run past
    let start := before.report r now
    let old := (before.observe r).window
    let threshold :=
      if 85 * old.size ≤ 100 * old.successes then
        100 * CeilingTable.expected.ceiling before.group before.index
      else t.baseline
    old.throughput? = some t.baseline ∧
      start.group = start.column.group (start.column.fit caps.width) before.aggregation ∧
      start.group.StartsAt threshold start.index ∧
      t.baseline < 100 * CeilingTable.expected.ceiling start.group start.index ∧
      ∀ (events : List Event) (last : Report) (later : Nat),
        let c := start.run events
        let outcomes := outcomesOf (events ++ [.report last later])
        (∀ e ∈ events, e.Keeps start.aggregation) →
          ((∀ x ∈ outcomes, x = true) → (outcomesOf events).length < 8 → 8 ≤ outcomes.length →
            c.trial? = some t ∧ (c.report last later).phase = .searching none ∧
              (c.report last later).position = start.position) ∧
          ((∀ x ∈ outcomes, x = false) → (outcomesOf events).length < 3 → 3 ≤ outcomes.length →
            c.trial? = some t ∧ (c.report last later).phase = .searching none ∧
              (c.report last later).position = before.position) := by
  intro before start old threshold
  have hsound : before.Sound := sound_run caps past
  have hclean : before.ledger.All Window.Clean := clean_run caps past
  obtain ⟨next, -, heligible, hrate, hstart⟩ :=
    beginTrial_of_report (coherent_run caps past) hsound hclean hidle hbegin
  change start = beginTrial { before.observe r with phase := .searching none } next t.baseline at hstart
  have hbaseline : t.baseline ≤ 100 * CeilingTable.expected.ceiling before.group before.index :=
    hsound.rate_le_of_observe hclean hrate
  have hsize : old.size ≠ 0 := (Window.throughput?_eq_some hrate).1
  have hthreshold : threshold =
      Controller.threshold { before.observe r with phase := .searching none } t.baseline :=
    (threshold_eq (c := { before.observe r with phase := .searching none }) hsize t.baseline).symm
  have hgroup : start.group = start.column.group (start.column.fit caps.width) before.aggregation := by
    have hcaps : before.caps = caps := run_caps _ past
    rw [hstart, ← hcaps]
    rfl
  have hstarts : start.group.StartsAt threshold start.index := by
    rw [hthreshold, hstart]
    exact beginTrial_startsAt _ _ _
  have hwins : t.baseline < 100 * CeilingTable.expected.ceiling start.group start.index := by
    rw [hstart]
    exact Eligible.lt_beginTrial (c := { before.observe r with phase := .searching none })
      heligible hbaseline
  refine ⟨hrate, hgroup, hstarts, hwins, fun events last later => ?_⟩
  intro c outcomes hkeeps
  obtain ⟨hrollback, -, hon⟩ := trial_begins hsound hidle hbegin
  have hss : start.Sound := hsound.report r now
  have hphase : start.phase = .searching (some t) := Phase.trial?_eq_some.mp hbegin
  constructor
  · intro hequal hfew hmany
    obtain ⟨htrial, hended, hposition⟩ := hon.verdict_of_equal hss hphase hkeeps hequal hfew hmany
    rw [if_pos rfl, if_pos hwins] at hposition
    exact ⟨htrial, hended, hposition⟩
  · intro hequal hfew hmany
    obtain ⟨htrial, hended, hposition⟩ := hon.verdict_of_equal hss hphase hkeeps hequal hfew hmany
    rw [if_neg Bool.false_ne_true, if_neg (Nat.not_lt_zero _), hrollback] at hposition
    exact ⟨htrial, hended, hposition⟩

/-- On a device without HT and VHT nothing beats the fastest legacy rate. Nine frames in ten send
the station to the same rate of the other chain, where the eighth frame in a row keeps it and the
third loss in a row brings it back. -/
theorem trial_starts_at_last_rate :
    let before := (new ⟨.mhz20, false, false⟩).run (List.replicate 9 (.report ⟨8, 0, false⟩ 0))
    let start := before.report ⟨9, 1, false⟩ 0
    start.trial? = some ⟨⟨.legacyAntA, 11, .mhz20⟩, 16740⟩ ∧
      start.position = ⟨.legacyAntB, 11, .mhz20⟩ ∧
      16740 < 100 * CeilingTable.expected.ceiling start.group start.index ∧
      ((start.run [.report ⟨7, 0, false⟩ 0]).report ⟨1, 0, false⟩ 0).position = start.position ∧
      ((start.run [.report ⟨0, 2, false⟩ 0]).report ⟨0, 1, false⟩ 0).position = before.position := by
  intro before start
  have hidle : before.trial? = none := by decide +kernel +zetaReduce
  have hbegin : start.trial? = some ⟨⟨.legacyAntA, 11, .mhz20⟩, 16740⟩ := by
    decide +kernel +zetaReduce
  obtain ⟨-, -, -, hwins, hverdict⟩ := trial_winnable _ _ _ _ _ hidle hbegin
  have hreport (r : Report) : ∀ e ∈ [Event.report r 0], e.Keeps start.aggregation := by
    simp [Event.Keeps]
  obtain ⟨hwon, -⟩ := hverdict [.report ⟨7, 0, false⟩ 0] ⟨1, 0, false⟩ 0 (hreport _)
  obtain ⟨-, hlost⟩ := hverdict [.report ⟨0, 2, false⟩ 0] ⟨0, 1, false⟩ 0 (hreport _)
  obtain ⟨-, -, hkept⟩ := hwon (by decide) (by decide) (by decide)
  obtain ⟨-, -, hrolled⟩ := hlost (by decide) (by decide) (by decide)
  exact ⟨hbegin, by decide +kernel +zetaReduce, hwins, hkept, hrolled⟩

end Controller

end LinkAdaptation
