import LinkAdaptation.Proofs.LedgerWindows
import LinkAdaptation.Proofs.PhaseCoherence
import LinkAdaptation.Proofs.RunMoments
import LinkAdaptation.Proofs.TrialOutcomes

/-! How long a stay and a trial can last while there is traffic. Every report
that carries an outcome adds to the totals of a stay, and to the window of a
trial. Both are bounded for as long as the stay or the trial is not over, so
only so many reports can pass before it is, whatever the clock does. -/

namespace LinkAdaptation

/-- The event reports at least one outcome. -/
def Event.CarriesTraffic : Event → Prop
  | .report r _ => r.outcomes ≠ []
  | .setAggregation _ => False

theorem Report.outcomes_ne_nil_iff (r : Report) : r.outcomes ≠ [] ↔ 0 < r.acked + r.failures := by
  simp only [outcomes, ne_eq, List.append_eq_nil_iff, List.replicate_eq_nil_iff]
  omega

theorem Report.length_outcomes (r : Report) : r.outcomes.length = r.acked + r.failures := by
  simp [outcomes]

/-- Totals that are within the limits of a stay have not been cut off at the largest word. -/
theorem Stay.count_of_not_over {s : Stay} {m : Mode} {acked lost now : Nat}
    (h : (s.count acked lost).isOver (.of m) now = false) :
    (s.count acked lost).acked = s.acked + acked ∧ (s.count acked lost).lost = s.lost + lost := by
  obtain ⟨hacked, hlost, -⟩ := isOver_eq_false.mp h
  simp only [count, saturate, UInt32.size] at hacked hlost ⊢
  cases m <;> simp only [StayLimits.of] at hacked hlost <;> omega

namespace Controller

/-- A run of suitable events on which a measure falls with each event that does not end the run
must come to an event that does. -/
theorem run_ends {P : Controller → Prop} {Ends : Controller → Event → Prop} {E : Event → Prop}
    {left : Controller → Nat}
    (hstep : ∀ c e, P c → E e → ¬ Ends c e → P (c.apply e) ∧ left (c.apply e) < left c)
    {c : Controller} (h : P c) {events : List Event} (hevents : ∀ e ∈ events, E e)
    (hlong : left c < events.length) :
    ∃ kept e rest, events = kept ++ e :: rest ∧ kept.length ≤ left c ∧
      (∀ pre, pre <+: kept → P (c.run pre)) ∧
      (∀ pre last, pre ++ [last] <+: kept → ¬ Ends (c.run pre) last) ∧ Ends (c.run kept) e := by
  induction events generalizing c with
  | nil => simp at hlong
  | cons e es ih =>
    by_cases hends : Ends c e
    · exact ⟨[], e, es, rfl, Nat.zero_le _, by simpa [run] using h, by simp, hends⟩
    · obtain ⟨hnext, hless⟩ := hstep c e h (hevents e (by simp)) hends
      have hlong' : left (c.apply e) < es.length := by
        rw [List.length_cons] at hlong
        omega
      obtain ⟨kept, f, rest, hsplit, hlen, hkept, hnot, hf⟩ :=
        ih hnext (fun x hx => hevents x (by simp [hx])) hlong'
      refine ⟨e :: kept, f, rest, by simp [hsplit], ?_, fun pre hpre => ?_, fun pre last hpre => ?_,
        hf⟩
      · rw [List.length_cons]
        omega
      · rcases List.prefix_cons_iff.mp hpre with rfl | ⟨tail, rfl, htail⟩
        · exact h
        · exact hkept tail htail
      · cases pre with
        | nil =>
          obtain rfl : last = e := by simpa using hpre
          exact hends
        | cons a pre =>
          obtain ⟨rfl, htail⟩ := List.cons_prefix_cons.mp hpre
          exact hnot pre last htail

theorem mem_laterMoments {c m : Controller} {events : List Event} :
    m ∈ c.laterMoments events ↔
      ∃ pre last, pre ++ [last] <+: events ∧ m ∈ (c.run pre).momentsOf last := by
  induction events generalizing c with
  | nil => simp [laterMoments]
  | cons e es ih =>
    rw [laterMoments, List.mem_append, ih]
    constructor
    · rintro (hm | ⟨pre, last, hpre, hm⟩)
      · exact ⟨[], e, by simp, hm⟩
      · exact ⟨e :: pre, last, List.cons_prefix_cons.mpr ⟨rfl, hpre⟩, hm⟩
    · rintro ⟨pre, last, hpre, hm⟩
      cases pre with
      | nil =>
        obtain rfl : last = e := by simpa using hpre
        exact .inl hm
      | cons a pre =>
        obtain ⟨rfl, htail⟩ := List.cons_prefix_cons.mp hpre
        exact .inr ⟨pre, last, htail, hm⟩

/-- In a stay, a report is supervised where it is sent or where it steps to, and unless the stay
is then over, nothing else happens. -/
theorem supervise_mem_moments {c : Controller} {stay : Stay} (hphase : c.phase = .staying stay)
    (r : Report) (now : Nat) :
    ∃ index, ((c.observe r).stepTo index).supervise now ∈ c.moments r now ∧
      (((((c.observe r).stepTo index).supervise now).stay? ≠ none) →
        c.report r now = ((c.observe r).stepTo index).supervise now) := by
  have htrial : (c.observe r).trial? = none :=
    (observe_trial? c r).trans (by simp [trial?, hphase, Phase.trial?])
  have hsame : (c.observe r).stepTo c.index = c.observe r := rfl
  unfold moments report act
  dsimp only
  cases (c.observe r).window.throughput? with
  | none => exact ⟨c.index, by simp [hsame], fun _ => by rw [hsame]⟩
  | some rate =>
    simp only [htrial]
    cases (c.observe r).step? rate with
    | some index => exact ⟨index, by simp, fun _ => rfl⟩
    | none =>
      refine ⟨c.index, by simp [hsame], fun hstay => ?_⟩
      rw [hsame] at hstay ⊢
      obtain ⟨s, hs⟩ := Option.ne_none_iff_exists'.mp hstay
      have hp := Phase.stay?_eq_some.mp hs
      simp [search, settle, hp]

/-- A station that stays in the column `home`, with totals that the stay allows. -/
def StaysIn (home : Column) (c : Controller) : Prop :=
  c.Coherent ∧ c.column = home ∧ c.stay? ≠ none

/-- What the totals of a stay fall short of their limits, both together. -/
def slack (c : Controller) : Nat :=
  c.limits.acked + c.limits.lost - (c.totals.1 + c.totals.2)

theorem totals_eq {c : Controller} {stay : Stay} (h : c.phase = .staying stay) :
    c.totals = (stay.acked, stay.lost) := by
  simp [totals, stay?, h, Phase.stay?]

/-- A stay that is not over after a report has counted all its outcomes. -/
theorem totals_supervise {c : Controller} {old : Stay} {r : Report} {now : Nat}
    (hphase : c.phase = .staying (old.count r.acked r.failures))
    (hstay : (c.supervise now).stay? ≠ none) :
    (c.supervise now).totals = (old.acked + r.acked, old.lost + r.failures) := by
  have hs := supervised c now
  generalize c.supervise now = d at hs hstay ⊢
  cases hs with
  | idle hidle => exact absurd hidle hstay
  | expires => simp [stay?, Phase.stay?] at hstay
  | refreshes hold hover | ages hold hover =>
    obtain rfl := Phase.staying.inj (hold.symm.trans hphase)
    obtain ⟨hacked, hlost⟩ := Stay.count_of_not_over hover
    rw [totals_eq rfl, hacked, hlost]

theorem slack_report_lt {c : Controller} {home : Column} (h : c.StaysIn home) {r : Report}
    {now : Nat} (hr : r.outcomes ≠ []) (hall : ∀ m ∈ c.moments r now, m.stay? ≠ none) :
    (c.report r now).StaysIn home ∧ (c.report r now).slack < c.slack := by
  obtain ⟨hcoherent, hhome, hstay⟩ := h
  obtain ⟨stay, hs⟩ := Option.ne_none_iff_exists'.mp hstay
  have hphase := Phase.stay?_eq_some.mp hs
  obtain ⟨index, hmem, hreport⟩ := supervise_mem_moments hphase r now
  have hafter := hall _ hmem
  have hobserved :
      ((c.observe r).stepTo index).phase = .staying (stay.count r.acked r.failures) := by
    simp [observe, stepTo, hphase, Phase.count]
  have htotals := totals_supervise hobserved hafter
  have hcolumn : (((c.observe r).stepTo index).supervise now).column = c.column := by
    simp [column, stepTo]
  have hcoherent' := hcoherent.report r now
  rw [hreport hafter] at hcoherent' ⊢
  refine ⟨⟨hcoherent', hcolumn.trans hhome, hafter⟩, ?_⟩
  obtain ⟨stay', hs'⟩ := Option.ne_none_iff_exists'.mp hafter
  have hwithin := hcoherent'.within stay' (Phase.stay?_eq_some.mp hs')
  rw [totals_eq (Phase.stay?_eq_some.mp hs'), Prod.mk.injEq] at htotals
  have hsome := r.outcomes_ne_nil_iff.mp hr
  simp only [slack, limits, hcolumn, totals_eq hphase, totals_eq (Phase.stay?_eq_some.mp hs')]
    at hwithin ⊢
  omega

theorem slack_le (c : Controller) :
    c.slack ≤ if c.column.mode.isLegacy then 640 else 4900 := by
  unfold slack
  rw [limits_eq]
  split_ifs <;> exact Nat.sub_le _ _

/-- A station that tries the position `p`, and cannot tell yet how it does there. -/
structure OnProbation (t : Trial) (p : Position) (c : Controller) : Prop where
  sound : c.Sound
  clean : c.window.Clean
  untold : c.window.throughput? = none
  phase : c.phase = .searching (some t)
  position : c.position = p

theorem OnProbation.size_le {t : Trial} {p : Position} {c : Controller} (h : c.OnProbation t p) :
    c.window.size ≤ 9 := by
  have hno := (Window.throughput?_eq_none_iff h.clean).mp h.untold
  have hsum := Window.successes_add_failures h.clean
  omega

/-- A report that does not end a trial is recorded, and that is all. -/
theorem OnProbation.report {t : Trial} {p : Position} {c : Controller} (h : c.OnProbation t p)
    {r : Report} {now : Nat} (hgoes : (c.report r now).trial? ≠ none) :
    (c.report r now).OnProbation t p ∧ (c.report r now).window = c.window.absorb r := by
  have htrial : (c.observe r).trial? = some t :=
    Phase.trial?_eq_some.mpr (observe_phase_of_searching h.phase r)
  have hm := report_move c r now
  generalize c.report r now = d at hm hgoes ⊢
  cases hm with
  | waits hrate =>
    rw [supervise_of_searching (observe_phase_of_searching h.phase r)]
    have hwindow := h.sound.window_observe r
    refine ⟨⟨h.sound.observe r, ?_, hrate, observe_phase_of_searching h.phase r, h.position⟩,
      hwindow⟩
    rw [hwindow]
    exact h.clean.absorb r
  | resolves => exact absurd rfl hgoes
  | steps _ hidle | tries _ hidle | settles _ hidle | stays _ hidle => simp [htrial] at hidle

theorem OnProbation.size_lt {t : Trial} {p : Position} {c : Controller} (h : c.OnProbation t p)
    {r : Report} {now : Nat} (hr : r.outcomes ≠ []) (hgoes : (c.report r now).trial? ≠ none) :
    c.window.size < (c.report r now).window.size := by
  obtain ⟨hnext, hwindow⟩ := h.report hgoes
  have hsize := congrArg List.length (Window.outcomes_absorb h.clean r)
  have hsome := r.outcomes_ne_nil_iff.mp hr
  have hle := hnext.size_le
  rw [← hwindow, Window.length_outcomes, List.length_take, List.length_append, List.length_reverse,
    r.length_outcomes, Window.length_outcomes, windowLength] at hsize
  omega

theorem OnProbation.ended {t : Trial} {p : Position} {c : Controller} (h : c.OnProbation t p)
    {r : Report} {now : Nat} (hends : (c.report r now).trial? = none) :
    (c.report r now).phase = .searching none ∧
      ((c.report r now).position = p ∨ (c.report r now).position = t.rollback) := by
  have htrial : (c.observe r).trial? = some t :=
    Phase.trial?_eq_some.mpr (observe_phase_of_searching h.phase r)
  have hm := report_move c r now
  generalize c.report r now = d at hm hends ⊢
  cases hm with
  | waits =>
    rw [supervise_trial?, htrial] at hends
    cases hends
  | resolves _ hsame =>
    obtain rfl := Option.some.inj (hsame.symm.trans htrial)
    refine ⟨rfl, ?_⟩
    simp only [resolve]
    split_ifs
    · exact .inl h.position
    · exact .inr rfl
  | steps _ hidle | tries _ hidle | settles _ hidle | stays _ hidle => simp [htrial] at hidle

/-- Under traffic neither a stay nor a trial goes on for ever. Of the reports that carry an
outcome, 640 at most leave a stay in a legacy column as it is, and 4900 in another column; the next
one ends it. Nine at most leave a trial undecided; the next one keeps the column or goes back. -/
theorem stays_and_trials_end (caps : Capabilities) (past events : List Event)
    (htraffic : ∀ e ∈ events, e.CarriesTraffic) :
    let c := (new caps).run past
    let most := if c.column.mode.isLegacy then 640 else 4900
    (∀ stay, c.phase = .staying stay → most < events.length →
      ∃ kept e rest, events = kept ++ e :: rest ∧ kept.length ≤ most ∧
        (∀ m ∈ c.course kept, m.stay? ≠ none) ∧ ∃ m ∈ (c.run kept).momentsOf e, m.stay? = none) ∧
    (∀ t, c.trial? = some t → 10 ≤ events.length →
      ∃ kept e rest, events = kept ++ e :: rest ∧ kept.length ≤ 9 ∧
        (∀ pre, pre <+: kept → (c.run pre).trial? = some t) ∧
        ((c.run kept).apply e).phase = .searching none ∧
        (((c.run kept).apply e).position = c.position ∨
          ((c.run kept).apply e).position = t.rollback)) := by
  intro c most
  have hcoherent : c.Coherent := coherent_run caps past
  refine ⟨fun stay hphase hlong => ?_, fun t htrial hlong => ?_⟩
  · have hstart : c.StaysIn c.column := ⟨hcoherent, rfl, by simp [stay?, hphase, Phase.stay?]⟩
    have hslack : c.slack ≤ most := c.slack_le
    have hstep (d : Controller) (e : Event) (hd : d.StaysIn c.column) (he : e.CarriesTraffic)
        (hnot : ¬ ∃ m ∈ d.momentsOf e, m.stay? = none) :
        (d.apply e).StaysIn c.column ∧ (d.apply e).slack < d.slack := by
      cases e with
      | report r now => exact slack_report_lt hd he fun m hm hnone => hnot ⟨m, hm, hnone⟩
      | setAggregation => exact absurd he id
    obtain ⟨kept, e, rest, hsplit, hlen, -, hkept, hends⟩ :=
      run_ends hstep hstart htraffic (Nat.lt_of_le_of_lt hslack hlong)
    refine ⟨kept, e, rest, hsplit, hlen.trans hslack, fun m hm => ?_, hends⟩
    rcases List.mem_cons.mp hm with rfl | hm
    · exact hstart.2.2
    · obtain ⟨pre, last, hpre, hm⟩ := mem_laterMoments.mp hm
      exact fun hnone => hkept pre last hpre ⟨m, hm, hnone⟩
  · have hphase := Phase.trial?_eq_some.mp htrial
    have hstart : c.OnProbation t c.position :=
      ⟨sound_run caps past, clean_run caps past _ _, hcoherent.untold t hphase, hphase, rfl⟩
    have hstep (d : Controller) (e : Event) (hd : d.OnProbation t c.position)
        (he : e.CarriesTraffic) (hnot : ¬ (d.apply e).trial? = none) :
        (d.apply e).OnProbation t c.position ∧ 9 - (d.apply e).window.size < 9 - d.window.size := by
      cases e with
      | report r now =>
        have hlt : d.window.size < (d.report r now).window.size := hd.size_lt he hnot
        have hle : (d.report r now).window.size ≤ 9 := (hd.report hnot).1.size_le
        refine ⟨(hd.report hnot).1, ?_⟩
        change 9 - (d.report r now).window.size < 9 - d.window.size
        omega
      | setAggregation => exact absurd he id
    obtain ⟨kept, e, rest, hsplit, hlen, hkept, -, hends⟩ :=
      @run_ends _ _ _ (fun d => 9 - d.window.size) hstep c hstart events htraffic
        (Nat.lt_of_le_of_lt (Nat.sub_le 9 _) hlong)
    have he := htraffic e (by simp [hsplit])
    refine ⟨kept, e, rest, hsplit, hlen.trans (Nat.sub_le 9 _), fun pre hpre => ?_, ?_⟩
    · exact Phase.trial?_eq_some.mpr (hkept pre hpre).phase
    · cases e with
      | report r now => exact (hkept kept (List.prefix_refl kept)).ended hends
      | setAggregation => exact absurd he id

/-- A frame a report, each acknowledged: the first stay of a legacy station is over after 641 of
them, and the first trial of another station is decided within ten. -/
theorem frames_end_stay_and_trial :
    let frame := Event.report ⟨1, 0, false⟩ 0
    let settled := (new ⟨.mhz20, false, false⟩).run (List.replicate 3 (.report ⟨0, 3, false⟩ 0))
    let trying := (new ⟨.mhz20, true, false⟩).run (List.replicate 3 (.report ⟨0, 3, false⟩ 0))
    settled.phase = .staying (.start 0) ∧ trying.trial? = some ⟨⟨.legacyAntA, 0, .mhz20⟩, 0⟩ ∧
      (∃ kept rest, List.replicate 641 frame = kept ++ frame :: rest ∧ kept.length ≤ 640 ∧
        (∀ m ∈ settled.course kept, m.stay? ≠ none) ∧
        ∃ m ∈ (settled.run kept).momentsOf frame, m.stay? = none) ∧
      ∃ kept rest, List.replicate 10 frame = kept ++ frame :: rest ∧ kept.length ≤ 9 ∧
        ((trying.run kept).apply frame).phase = .searching none := by
  intro frame settled trying
  have htraffic (n : Nat) : ∀ e ∈ List.replicate n frame, e.CarriesTraffic := by
    intro e he
    rw [List.eq_of_mem_replicate he]
    exact List.cons_ne_nil true []
  have hframe {n : Nat} {kept rest : List Event} {e : Event}
      (h : List.replicate n frame = kept ++ e :: rest) : e = frame :=
    List.eq_of_mem_replicate (n := n) (h ▸ by simp)
  have hstay : settled.phase = .staying (.start 0) := by decide +kernel +zetaReduce
  have hlegacy : settled.column.mode.isLegacy = true := by decide +kernel +zetaReduce
  have htrial : trying.trial? = some ⟨⟨.legacyAntA, 0, .mhz20⟩, 0⟩ := by decide +kernel +zetaReduce
  obtain ⟨hstays, -⟩ := stays_and_trials_end ⟨.mhz20, false, false⟩
    (List.replicate 3 (.report ⟨0, 3, false⟩ 0)) (List.replicate 641 frame) (htraffic 641)
  obtain ⟨-, htrials⟩ := stays_and_trials_end ⟨.mhz20, true, false⟩
    (List.replicate 3 (.report ⟨0, 3, false⟩ 0)) (List.replicate 10 frame) (htraffic 10)
  refine ⟨hstay, htrial, ?_, ?_⟩
  · obtain ⟨kept, e, rest, hsplit, hlen, hall, hend⟩ :=
      hstays _ hstay (by rw [if_pos hlegacy, List.length_replicate]; decide)
    obtain rfl := hframe hsplit
    rw [if_pos hlegacy] at hlen
    exact ⟨kept, rest, hsplit, hlen, hall, hend⟩
  · obtain ⟨kept, e, rest, hsplit, hlen, -, hphase, -⟩ :=
      htrials _ htrial (by rw [List.length_replicate])
    obtain rfl := hframe hsplit
    exact ⟨kept, rest, hsplit, hlen, hphase⟩

end Controller

end LinkAdaptation
