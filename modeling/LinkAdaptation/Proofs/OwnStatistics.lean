import LinkAdaptation.Proofs.TouchedWindows

/-! What a report goes by. Two stations that differ in the statistics of other
groups only are given the same report and compared function by function: each
function reads the group that was current before the report, and no other. A
trial that begins or fails changes the group, but no statistics are read then. -/

namespace LinkAdaptation

namespace Ledger

variable {l l' : Ledger} {g : RateGroup} (h : l'.group g = l.group g)

include h

theorem group_record_congr (index acked lost : Nat) :
    (l'.record g index acked lost).group g = (l.record g index acked lost).group g := by
  rw [record, record, group_setGroup _ _ rfl, group_setGroup _ _ rfl, h, window_of_group_eq h]

theorem group_clear_congr (g' : RateGroup) : (l'.clear g').group g = (l.clear g').group g := by
  by_cases hslot : g'.slot = g.slot
  · have hsame (k : Ledger) : k.group g' = k.group g := by simp [group, hslot]
    rw [clear, clear, group_setGroup _ _ hslot, group_setGroup _ _ hslot, hsame, hsame, h]
  · rw [group_clear_of_ne _ hslot, group_clear_of_ne _ hslot, h]

omit h in
/-- A group that is cleared is as in a new ledger: what a window keeps is its ceiling. -/
theorem group_clear_eq_new (hceilings : l.ceilings = .expected) (g : RateGroup) :
    (l.clear g).group g = (new .expected).group g := by
  rw [clear, group_setGroup _ _ rfl, group_new, ← hceilings, CeilingTable.row]
  simp [ceilings, group, Function.comp_def, Window.clear]

end Ledger

namespace Controller

/-- The two states are equal but for the statistics, and these agree in one group. -/
inductive AgreeOn (g : RateGroup) (c : Controller) : Controller → Prop where
  | intro {l : Ledger} (h : l.group g = c.ledger.group g) : AgreeOn g c { c with ledger := l }

/-- The two states are equal but for the statistics. -/
structure AlikeOutside (c d : Controller) : Prop where
  caps : d.caps = c.caps
  phase : d.phase = c.phase
  position : d.position = c.position
  aggregation : d.aggregation = c.aggregation
  visited : d.visited = c.visited

namespace AlikeOutside

/-! What does not read statistics. -/

variable {c d : Controller} (h : AlikeOutside c d)

include h

theorem index : d.index = c.index := congrArg Position.index h.position

theorem trial? : d.trial? = c.trial? := congrArg Phase.trial? h.phase

theorem group : d.group = c.group := by
  rw [Controller.group, Controller.group, h.position, h.aggregation]

theorem limits : d.limits = c.limits := by
  rw [Controller.limits, Controller.limits, column, column, h.position]

theorem neighbours : d.neighbours = c.neighbours := by
  rw [Controller.neighbours, Controller.neighbours, h.group, h.index]

theorem expectedAt : d.expectedAt = c.expectedAt := by
  unfold Controller.expectedAt
  rw [h.group]

theorem nextColumn? (rate : Nat) : d.nextColumn? rate = c.nextColumn? rate := by
  unfold Controller.nextColumn? isPromising column width
  rw [h.position, h.caps, h.visited, h.aggregation]

theorem txVector : d.txVector = c.txVector := by
  unfold Controller.txVector column width
  rw [h.position, h.index, h.caps, h.aggregation]

end AlikeOutside

/-- The two states are equal but for the statistics of groups that are not current. -/
structure Alike (c d : Controller) : Prop extends AlikeOutside c d where
  statistics : d.ledger.group c.group = c.ledger.group c.group

theorem Alike.agreeOn {c d : Controller} (h : Alike c d) : AgreeOn c.group c d := by
  obtain ⟨caps, phase, position, aggregation, visited, ledger⟩ := d
  obtain ⟨⟨rfl, rfl, rfl, rfl, rfl⟩, hstatistics⟩ := h
  exact .intro hstatistics

namespace AgreeOn

variable {g : RateGroup} {c d : Controller}

theorem alikeOutside (h : AgreeOn g c d) : AlikeOutside c d := by
  cases h
  exact ⟨rfl, rfl, rfl, rfl, rfl⟩

theorem statistics (h : AgreeOn g c d) : d.ledger.group g = c.ledger.group g := by
  obtain ⟨h⟩ := h
  exact h

theorem clearGroup (h : AgreeOn g c d) : AgreeOn g c.clearGroup d.clearGroup := by
  obtain ⟨h⟩ := h
  exact .intro (Ledger.group_clear_congr h _)

theorem stepTo (h : AgreeOn g c d) (index : Nat) : AgreeOn g (c.stepTo index) (d.stepTo index) := by
  obtain ⟨h⟩ := h
  exact .intro h

theorem resolve (h : AgreeOn g c d) (t : Trial) (rate : Nat) :
    AgreeOn g (c.resolve t rate) (d.resolve t rate) := by
  obtain ⟨h⟩ := h
  exact .intro h

theorem settle (h : AgreeOn g c d) (now : Nat) : AgreeOn g (c.settle now) (d.settle now) := by
  have hphase : d.phase = c.phase := h.alikeOutside.phase
  unfold Controller.settle
  rw [hphase]
  obtain ⟨h⟩ := h
  split <;> exact .intro h

theorem supervise (h : AgreeOn g c d) (now : Nat) :
    AgreeOn g (c.supervise now) (d.supervise now) := by
  have hphase : d.phase = c.phase := h.alikeOutside.phase
  have hlimits : d.limits = c.limits := h.alikeOutside.limits
  unfold Controller.supervise
  rw [hphase, hlimits]
  obtain ⟨h⟩ := h
  split
  · split_ifs
    · exact .intro h
    · refine clearGroup ?_
      exact .intro h
    · exact .intro h
  all_goals exact .intro h

section Current

/-! What reads statistics reads those of the current group. -/

variable (h : AgreeOn c.group c d)

include h

theorem windowAt : d.windowAt = c.windowAt := by
  obtain ⟨h⟩ := h
  exact funext (Ledger.window_of_group_eq h)

theorem window : d.window = c.window := by
  rw [Controller.window, Controller.window, h.alikeOutside.index, h.windowAt]

theorem ratio : d.ratio = c.ratio := by
  rw [Controller.ratio, Controller.ratio, h.window]

theorem step? (rate : Nat) : d.step? rate = c.step? rate := by
  unfold Controller.step?
  rw [h.alikeOutside.neighbours, h.ratio, h.windowAt, h.alikeOutside.expectedAt]

theorem observe (r : Report) : AgreeOn c.group (c.observe r) (d.observe r) := by
  obtain ⟨h⟩ := h
  exact .intro (Ledger.group_record_congr h _ _ _)

theorem beginTrial (next : Column) (rate : Nat) :
    AgreeOn c.group (c.beginTrial next rate) (d.beginTrial next rate) := by
  have hthreshold : d.threshold rate = c.threshold rate := by
    rw [threshold, threshold, h.ratio, h.alikeOutside.expectedAt, h.alikeOutside.index]
  rw [Controller.beginTrial, Controller.beginTrial, hthreshold]
  obtain ⟨h⟩ := h
  refine clearGroup ?_
  exact .intro h

theorem search (rate : Nat) : AgreeOn c.group (c.search rate) (d.search rate) := by
  unfold Controller.search
  rw [h.alikeOutside.phase, h.alikeOutside.nextColumn?]
  split
  · split
    · exact h.beginTrial _ rate
    · obtain ⟨h⟩ := h
      exact .intro h
  all_goals exact h

theorem act (now : Nat) : AgreeOn c.group (c.act now) (d.act now) := by
  have htrial : d.trial? = c.trial? := h.alikeOutside.trial?
  unfold Controller.act
  rw [h.window]
  cases c.window.throughput? with
  | none => exact h.supervise now
  | some rate =>
    dsimp only
    rw [htrial]
    cases c.trial? with
    | some t => exact h.resolve t rate
    | none =>
      dsimp only
      rw [h.step?]
      cases c.step? rate with
      | some index => exact (h.stepTo index).supervise now
      | none =>
        -- supervision leaves the group as it is, so the search reads the same one
        have hgroup : (c.supervise now).group = c.group := by simp [group]
        have hsearch := (hgroup.symm ▸ h.supervise now).search rate
        exact (hgroup ▸ hsearch).settle now

theorem report (r : Report) (now : Nat) : AgreeOn c.group (c.report r now) (d.report r now) :=
  act (c := c.observe r) (h.observe r) now

end Current

end AgreeOn

theorem Sound.fresh_of_begins {c : Controller} (h : c.Sound) {r : Report} {now : Nat}
    (hbegins : c.Begins (c.report r now)) :
    (c.report r now).ledger.group (c.report r now).group =
      (Ledger.new .expected).group (c.report r now).group := by
  cases c.report_writes r now with
  | begins _ _ hledger =>
    rw [hledger]
    exact Ledger.group_clear_eq_new (h.observe r).ceilings _
  | records hnot | refreshes hnot => exact absurd hbegins hnot

/-- Only the begin of a trial and a rollback lead to another group. -/
theorem group_report_of_not_begins {c : Controller} {r : Report} {now : Nat}
    (hback : c.trial? = none ∨ (c.report r now).position = c.position)
    (hnot : ¬ c.Begins (c.report r now)) : (c.report r now).group = c.group := by
  rcases hback with hidle | hposition
  · have hm := report_move c r now
    generalize c.report r now = d at hm hnot ⊢
    cases hm with
    | waits | settles | stays => simp [group]
    | resolves _ htrial =>
      rw [observe_trial?, hidle] at htrial
      cases htrial
    | steps =>
      rw [group, supervise_position, supervise_aggregation]
      rfl
    | tries => exact absurd ⟨hidle, nofun⟩ hnot
  · rw [group, group, hposition, report_aggregation]

namespace Alike

variable {c d : Controller}

theorem begins_iff (h : Alike c d) (r : Report) (now : Nat) :
    d.Begins (d.report r now) ↔ c.Begins (c.report r now) := by
  rw [Begins, Begins, h.trial?, (h.agreeOn.report r now).alikeOutside.trial?]

theorem report (h : Alike c d) (hc : c.Sound) (hd : d.Sound) {r : Report} {now : Nat}
    (hback : c.trial? = none ∨ (c.report r now).position = c.position) :
    Alike (c.report r now) (d.report r now) := by
  have hagree := h.agreeOn.report r now
  refine ⟨hagree.alikeOutside, ?_⟩
  by_cases hbegins : c.Begins (c.report r now)
  · have hfresh := hd.fresh_of_begins ((h.begins_iff r now).mpr hbegins)
    rw [hagree.alikeOutside.group] at hfresh
    rw [hfresh, hc.fresh_of_begins hbegins]
  · rw [group_report_of_not_begins hback hbegins]
    exact hagree.statistics

theorem setAggregation (h : Alike c d) (hc : c.Sound) (hd : d.Sound) (aggregation : Aggregation) :
    Alike (c.setAggregation aggregation) (d.setAggregation aggregation) := by
  by_cases hsame : aggregation = c.aggregation
  · have hsame' : aggregation = d.aggregation := hsame.trans h.aggregation.symm
    rwa [Controller.setAggregation, Controller.setAggregation, if_pos hsame, if_pos hsame']
  · have hsame' : aggregation ≠ d.aggregation := fun hd => hsame (hd.trans h.aggregation)
    rw [setAggregation_of_ne hsame, setAggregation_of_ne hsame']
    have hgroup : d.position.group aggregation = c.position.group aggregation := by
      rw [h.position]
    refine ⟨⟨h.caps, h.phase, h.position, rfl, h.visited⟩, ?_⟩
    change (d.ledger.clear (d.position.group aggregation)).group (c.position.group aggregation) =
      (c.ledger.clear (c.position.group aggregation)).group (c.position.group aggregation)
    rw [hgroup, Ledger.group_clear_eq_new hd.ceilings, Ledger.group_clear_eq_new hc.ceilings]

theorem apply (h : Alike c d) (hc : c.Sound) (hd : d.Sound) {e : Event}
    (hback : c.trial? = none ∨ (c.apply e).position = c.position) :
    Alike (c.apply e) (d.apply e) := by
  cases e with
  | report r now => exact h.report hc hd hback
  | setAggregation aggregation => exact h.setAggregation hc hd aggregation

/-- Stations that are alike stay alike until a trial is taken back. -/
theorem run (h : Alike c d) (hc : c.Sound) (hd : d.Sound) {events : List Event}
    (hback : ∀ pre e, pre ++ [e] <+: events →
      (c.run pre).trial? = none ∨ (c.run (pre ++ [e])).position = (c.run pre).position) :
    Alike (c.run events) (d.run events) := by
  induction events generalizing c d with
  | nil => exact h
  | cons e es ih =>
    refine ih (h.apply hc hd (hback [] e ?_)) (hc.apply e) (hd.apply e) fun pre e' hpre =>
      hback (e :: pre) e' (List.cons_prefix_cons.mpr ⟨rfl, hpre⟩)
    exact List.cons_prefix_cons.mpr ⟨rfl, List.nil_prefix⟩

end Alike

/-- A report goes by the statistics of the group that is current. Two stations that differ in the
statistics of other groups only make the same of it: they come to the same phase, with the same
account, at the same position, and send in the same way. What it writes in that group is the same in
both, and the group of a trial that begins is as new in both. So they are still alike, unless the
report takes a trial back: then the group they return to may hold what it held before. -/
theorem report_reads_own_group (caps caps' : Capabilities) (es fs : List Event)
    (halike : Alike ((new caps).run es) ((new caps').run fs)) (r : Report) (now : Nat) :
    let c := (new caps).run es
    let d := (new caps').run fs
    let c' := c.report r now
    let d' := d.report r now
    AlikeOutside c' d' ∧ d'.txVector = c'.txVector ∧
      d'.ledger.group c.group = c'.ledger.group c.group ∧
      (c.Begins c' →
        c'.ledger.group c'.group = (Ledger.new .expected).group c'.group ∧
        d'.ledger.group c'.group = (Ledger.new .expected).group c'.group) ∧
      (c.trial? = none ∨ c'.position = c.position → Alike c' d') := by
  intro c d c' d'
  have hc : c.Sound := sound_run caps es
  have hd : d.Sound := sound_run caps' fs
  have hagree : AgreeOn c.group c' d' := halike.agreeOn.report r now
  have hsame : AlikeOutside c' d' := hagree.alikeOutside
  refine ⟨hsame, hsame.txVector, hagree.statistics, fun hbegins => ?_, halike.report hc hd⟩
  have hfresh := hd.fresh_of_begins ((halike.begins_iff r now).mpr hbegins)
  exact ⟨hc.fresh_of_begins hbegins, hsame.group ▸ hfresh⟩

/-- One of two stations lost three frames in a trial and the other one four. They are alike when they
are back in the first column, and begin the same trial. -/
theorem report_forgets_failed_trial :
    let c := (new ⟨.mhz40, true, false⟩).run (List.replicate 4 (.report ⟨0, 3, false⟩ 0))
    let d := (new ⟨.mhz40, true, false⟩).run
      (List.replicate 3 (.report ⟨0, 3, false⟩ 0) ++ [.report ⟨0, 4, false⟩ 0])
    let c' := c.report ⟨0, 3, false⟩ 0
    let d' := d.report ⟨0, 3, false⟩ 0
    Alike c d ∧ c.ledger ≠ d.ledger ∧ c.column = .legacyAntA ∧ c'.column = .mimo ∧
      AlikeOutside c' d' ∧ d'.txVector = c'.txVector ∧
      c'.ledger.group c'.group = (Ledger.new .expected).group c'.group ∧
      d'.ledger.group c'.group = (Ledger.new .expected).group c'.group ∧ Alike c' d' := by
  intro c d c' d'
  have halike : Alike c d :=
    ⟨⟨by decide +kernel +zetaReduce, by decide +kernel +zetaReduce, by decide +kernel +zetaReduce,
      by decide +kernel +zetaReduce, by decide +kernel +zetaReduce⟩, by decide +kernel +zetaReduce⟩
  have hidle : c.trial? = none := by decide +kernel +zetaReduce
  have hbegins : c.Begins c' := by decide +kernel +zetaReduce
  obtain ⟨hsame, htx, -, hfresh, hstill⟩ := report_reads_own_group _ _ _ _ halike ⟨0, 3, false⟩ 0
  exact ⟨halike, by decide +kernel +zetaReduce, by decide +kernel +zetaReduce,
    by decide +kernel +zetaReduce, hsame, htx, (hfresh hbegins).1, (hfresh hbegins).2,
    hstill (.inl hidle)⟩

end Controller

end LinkAdaptation
