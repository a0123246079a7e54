import LinkAdaptation.Proofs.ColumnSearch
import LinkAdaptation.Proofs.RateLadder

/-! Steps to a neighbouring rate, and what they go by. A step has one of three
causes, and each of them is a matter of what was measured: at the rate itself,
where the fraction of frames that arrived decides without rounding, and at its
neighbours, where they were measured at all. -/

namespace LinkAdaptation

/-- A rate that is not hopeless measures something. -/
theorem Window.throughput_ne_zero {w : Window} (hceiling : w.ceiling ≠ 0)
    (hratio : 128 ≤ w.ratio?.getD 0) {rate : Nat} (hrate : w.throughput? = some rate) : rate ≠ 0 := by
  obtain ⟨hsize, rfl⟩ := throughput?_eq_some hrate
  have hvalue : w.ratio?.getD 0 = 12800 * w.successes / w.size := by
    simp [ratio?, isEmpty, hsize, ratioOfPercent]
  rw [hvalue] at hratio
  have hscaled := Nat.mul_le_mul hratio (Nat.pos_of_ne_zero hceiling)
  omega

namespace Controller

/-- Why a station that measures `rate` steps to another index. -/
inductive StepCause (c : Controller) (rate : Nat) : Nat → Prop where
  | hopeless {index : Nat} (hratio : c.ratio ≤ hopelessRatio ∨ rate = 0)
      (hlower : c.neighbours.lower = some index) : StepCause c rate index
  /-- The upper rate does better, or might while the lower one does not. -/
  | faster {index : Nat} (hupper : c.neighbours.upper = some index)
      (hbetter : ∀ other, (c.windowAt index).throughput? = some other → rate < other)
      (hworse : (c.windowAt index).throughput? = none → ∀ low, c.neighbours.lower = some low →
        ∀ other, (c.windowAt low).throughput? = some other → other < rate) : StepCause c rate index
  /-- The lower rate does better, or might. -/
  | slower {index : Nat} (hlower : c.neighbours.lower = some index)
      (hbetter : ∀ other, (c.windowAt index).throughput? = some other → rate < other)
      (hratio : c.ratio < reliableRatio) (hexpected : rate ≤ c.expectedAt index) :
      StepCause c rate index

theorem stepCause {c : Controller} {rate index : Nat} (h : c.step? rate = some index) :
    StepCause c rate index := by
  unfold step? at h
  dsimp only at h
  split_ifs at h with hopeless hup hdown
  · exact .hopeless hopeless h
  · rw [h] at hup
    refine .faster h (fun other hother => ?_) (fun hnone low hlow other hother => ?_)
    · simpa [hother] using hup
    · simpa [hnone, hlow, hother] using hup
  · simp only [h, Option.bind_some, Option.any_some, Bool.and_eq_true, decide_eq_true_eq] at hdown
    obtain ⟨⟨hall, hratio⟩, hexpected⟩ := hdown
    exact .slower h (fun other hother => by simpa [hother] using hall) hratio hexpected

theorem step?_of_hopeless {c : Controller} (h : c.ratio ≤ hopelessRatio) (rate : Nat) :
    c.step? rate = c.neighbours.lower := by
  simp [step?, h]

/-- The report changes the index within the column. -/
def Steps (c : Controller) (r : Report) (now : Nat) : Prop :=
  (c.report r now).column = c.column ∧ (c.report r now).index ≠ c.index

/-- The report takes the station to the lower neighbour of its rate. -/
def Lowers (c : Controller) (r : Report) (now : Nat) : Prop :=
  (c.report r now).column = c.column ∧ c.neighbours.lower = some (c.report r now).index

/-- The report takes the station to the upper neighbour of its rate. -/
def Raises (c : Controller) (r : Report) (now : Nat) : Prop :=
  (c.report r now).column = c.column ∧ c.neighbours.upper = some (c.report r now).index

instance (c : Controller) (r : Report) (now : Nat) : Decidable (c.Lowers r now) :=
  inferInstanceAs (Decidable (_ ∧ _))

instance (c : Controller) (r : Report) (now : Nat) : Decidable (c.Raises r now) :=
  inferInstanceAs (Decidable (_ ∧ _))

section Report

variable {c : Controller} {r : Report} {now : Nat}

theorem Lowers.steps (h : c.Lowers r now) : c.Steps r now :=
  ⟨h.1, Neighbours.ne_of_neighbour (.inl h.2)⟩

theorem Raises.steps (h : c.Raises r now) : c.Steps r now :=
  ⟨h.1, Neighbours.ne_of_neighbour (.inr h.2)⟩

theorem Lowers.not_raises (h : c.Lowers r now) : ¬ c.Raises r now :=
  fun h' => Neighbours.upper_ne_of_lower h.2 h'.2

theorem position_report_of_step {rate index : Nat} (htrial : c.trial? = none)
    (hrate : (c.observe r).window.throughput? = some rate)
    (hstep : (c.observe r).step? rate = some index) :
    (c.report r now).position = { c.position with index := index } := by
  have hidle : (c.observe r).trial? = none := (observe_trial? c r).trans htrial
  simp only [report, act, hrate, hidle, hstep, supervise_position]
  rfl

/-- Of all that a report can do, only a step changes the index within the column: what a trial
brings is another column. -/
theorem Steps.step?_eq_some (h : c.Steps r now) (hc : c.Coherent) :
    c.trial? = none ∧ ∃ rate, (c.observe r).window.throughput? = some rate ∧
      (c.observe r).step? rate = some (c.report r now).index := by
  obtain ⟨hcolumn, hindex⟩ := h
  have hm := report_move c r now
  generalize c.report r now = d at hm hcolumn hindex ⊢
  cases hm with
  | waits | settles | stays => exact absurd (by simp [index]) hindex
  | @resolves rate t _ htrial =>
    rw [observe_trial?] at htrial
    have hne := (hc.trial t (Phase.trial?_eq_some.mp htrial)).1
    simp only [resolve, column, index] at hcolumn hindex
    split_ifs at hcolumn hindex
    · exact absurd rfl hindex
    · exact absurd hcolumn hne
  | @steps rate i hrate htrial hstep =>
    rw [observe_trial?] at htrial
    refine ⟨htrial, rate, hrate, ?_⟩
    simpa [index, stepTo] using hstep
  | @tries rate next _ _ _ _ hnext =>
    have hnew := not_visited_of_nextColumn? hnext
    rw [(hc.toOrderly.observe r).supervise_visited now, observe_visited,
      show next = c.column from hcolumn, hc.visited] at hnew
    cases hnew

theorem steps_iff (hc : c.Coherent) : c.Steps r now ↔ c.Lowers r now ∨ c.Raises r now := by
  constructor
  · intro h
    obtain ⟨-, rate, -, hstep⟩ := h.step?_eq_some hc
    exact (Controller.step?_eq_some hstep).imp (⟨h.1, ·⟩) (⟨h.1, ·⟩)
  · rintro (h | h)
    · exact h.steps
    · exact h.steps

theorem lowers_of_hopeless {rate : Nat} (htrial : c.trial? = none)
    (hrate : (c.observe r).window.throughput? = some rate)
    (hopeless : (c.observe r).ratio ≤ hopelessRatio) (hlower : c.neighbours.lower ≠ none) :
    c.Lowers r now := by
  obtain ⟨low, hlow⟩ := Option.ne_none_iff_exists'.mp hlower
  have hstep : (c.observe r).step? rate = some low := (step?_of_hopeless hopeless rate).trans hlow
  have hposition : (c.report r now).position = { c.position with index := low } :=
    position_report_of_step htrial hrate hstep
  refine ⟨?_, ?_⟩
  · rw [column, hposition]
    rfl
  · rw [index, hposition]
    exact hlow

theorem Steps.cause {rate : Nat} (h : c.Steps r now) (hc : c.Coherent)
    (hrate : (c.observe r).window.throughput? = some rate) :
    StepCause (c.observe r) rate (c.report r now).index := by
  obtain ⟨-, rate', hrate', hstep⟩ := h.step?_eq_some hc
  obtain rfl := Option.some.inj (hrate.symm.trans hrate')
  exact stepCause hstep

section Hopeful

variable {rate : Nat} (hc : c.Coherent) (hrate : (c.observe r).window.throughput? = some rate)
  (hopeful : ¬ ((c.observe r).ratio ≤ hopelessRatio ∨ rate = 0))

include hc hrate hopeful

theorem Lowers.of_hopeful (h : c.Lowers r now) :
    (∀ other, ((c.observe r).windowAt (c.report r now).index).throughput? = some other →
      rate < other) ∧
    (c.observe r).ratio < reliableRatio ∧ rate ≤ (c.observe r).expectedAt (c.report r now).index := by
  cases h.steps.cause hc hrate with
  | hopeless hlow => exact absurd hlow hopeful
  | faster hupper => exact absurd hupper (Neighbours.upper_ne_of_lower h.2)
  | slower _ hbetter hratio hexpected => exact ⟨hbetter, hratio, hexpected⟩

theorem Raises.of_hopeful (h : c.Raises r now) :
    (∀ other, ((c.observe r).windowAt (c.report r now).index).throughput? = some other →
      rate < other) ∧
    (((c.observe r).windowAt (c.report r now).index).throughput? = none →
      ∀ low, c.neighbours.lower = some low → ∀ other,
        ((c.observe r).windowAt low).throughput? = some other → other < rate) := by
  cases h.steps.cause hc hrate with
  | hopeless hlow => exact absurd hlow hopeful
  | faster _ hbetter hworse => exact ⟨hbetter, hworse⟩
  | slower hlower => exact absurd h.2 (Neighbours.upper_ne_of_lower hlower)

end Hopeful

end Report

/-- No step goes the wrong way on what is known. With at most 15 in 100 frames acknowledged, a
station steps down wherever it can, and never up; with 85 or more it never steps down. In between
it steps only to a rate that does better, as far as that was measured: down if the lower rate could
do as well at best, and up to an unknown rate if the lower one is not known to do as well. -/
theorem steps_follow_measurements (caps : Capabilities) (past : List Event) (r : Report)
    (now rate : Nat) (hidle : ((new caps).run past).trial? = none)
    (hrate : (((new caps).run past).observe r).window.throughput? = some rate) :
    let before := (new caps).run past
    let seen := before.observe r
    let after := before.report r now
    let acked := seen.window.successes
    let size := seen.window.size
    (before.Steps r now ↔ before.Lowers r now ∨ before.Raises r now) ∧
    (before.Lowers r now → ¬ before.Raises r now) ∧
    (100 * acked ≤ 15 * size →
      (before.neighbours.lower ≠ none → before.Lowers r now) ∧ ¬ before.Raises r now) ∧
    (85 * size ≤ 100 * acked → ¬ before.Lowers r now) ∧
    (15 * size < 100 * acked →
      (before.Steps r now → ∀ other,
        (seen.windowAt after.index).throughput? = some other → rate < other) ∧
      (before.Lowers r now →
        rate ≤ 100 * CeilingTable.expected.ceiling before.group after.index) ∧
      (before.Raises r now → (seen.windowAt after.index).throughput? = none →
        ∀ low, before.neighbours.lower = some low → ∀ other,
          (seen.windowAt low).throughput? = some other → other < rate)) := by
  intro before seen after acked size
  have hc : before.Coherent := coherent_run caps past
  have hsound : seen.Sound := (sound_run caps past).observe r
  have hclean : seen.window.Clean :=
    (clean_run caps past).record (fun _ b hw => hw.push b) _ _ _ _ _ _
  have hsize : seen.window.size ≠ 0 := (Window.throughput?_eq_some hrate).1
  have hopeless : seen.ratio ≤ hopelessRatio ↔ 100 * acked ≤ 15 * size :=
    Window.ratio_le_iff hclean hsize 15
  have hreliable : reliableRatio ≤ seen.ratio ↔ 85 * size ≤ 100 * acked :=
    Window.le_ratio_iff hsize 85
  have hceiling : seen.window.ceiling ≠ 0 := by
    rw [window, windowAt, Ledger.window_ceiling, hsound.ceilings]
    exact hsound.position.rate seen.aggregation
  -- above the ratio of a hopeless rate, a rate is not abandoned
  have hopeful (hratio : hopelessRatio < seen.ratio) : ¬ (seen.ratio ≤ hopelessRatio ∨ rate = 0) := by
    have hpos : rate ≠ 0 :=
      Window.throughput_ne_zero hceiling ((by decide : 128 ≤ hopelessRatio).trans hratio.le) hrate
    omega
  refine ⟨steps_iff hc, Lowers.not_raises, fun hfew => ⟨lowers_of_hopeless hidle hrate (hopeless.mpr hfew),
    fun hraises => ?_⟩, fun hmany hlowers => ?_, fun hmore => ?_⟩
  · obtain ⟨-, rate', -, hstep⟩ := hraises.steps.step?_eq_some hc
    rw [step?_of_hopeless (hopeless.mpr hfew)] at hstep
    exact Neighbours.upper_ne_of_lower hstep hraises.2
  · have hratio := hreliable.mpr hmany
    have hlow := hlowers.of_hopeful hc hrate
      (hopeful ((by decide : hopelessRatio < reliableRatio).trans_le hratio))
    exact absurd hlow.2.1 (Nat.not_lt.mpr hratio)
  · have hratio : hopelessRatio < seen.ratio := by
      by_contra hle
      exact absurd (hopeless.mp (Nat.not_lt.mp hle)) (Nat.not_le.mpr hmore)
    refine ⟨fun hsteps => ?_, fun hlowers => (hlowers.of_hopeful hc hrate (hopeful hratio)).2.2,
      fun hraises => (hraises.of_hopeful hc hrate (hopeful hratio)).2⟩
    rcases (steps_iff hc).mp hsteps with hlowers | hraises
    · exact (hlowers.of_hopeful hc hrate (hopeful hratio)).1
    · exact (hraises.of_hopeful hc hrate (hopeful hratio)).1

/-- Two frames in five arrive at the second rate, where eight in eight arrived at the first: the
station goes back, as the first rate measured 700 and the second measures 520. -/
theorem poor_rate_steps_down :
    let before := (new ⟨.mhz20, false, false⟩).run [.report ⟨8, 0, false⟩ 0]
    let seen := before.observe ⟨2, 3, false⟩
    let after := before.report ⟨2, 3, false⟩ 0
    before.Lowers ⟨2, 3, false⟩ 0 ∧ seen.window.throughput? = some 520 ∧
      (seen.windowAt after.index).throughput? = some 700 ∧
      520 < 700 ∧ 520 ≤ 100 * CeilingTable.expected.ceiling before.group after.index := by
  intro before seen after
  have hidle : before.trial? = none := by decide +kernel +zetaReduce
  have hrate : seen.window.throughput? = some 520 := by decide +kernel +zetaReduce
  have hlower : (seen.windowAt after.index).throughput? = some 700 := by decide +kernel +zetaReduce
  have hlowers : before.Lowers ⟨2, 3, false⟩ 0 := by decide +kernel +zetaReduce
  obtain ⟨-, -, -, -, hbetween⟩ := steps_follow_measurements _ _ _ 0 _ hidle hrate
  obtain ⟨hbetter, hexpected, -⟩ := hbetween (by decide +kernel)
  exact ⟨hlowers, hrate, hlower, hbetter hlowers.steps _ hlower, hexpected hlowers⟩

end Controller

end LinkAdaptation
