import LinkAdaptation.Proofs.LedgerWindows
import LinkAdaptation.Proofs.TrialOutcomes

/-! How old the statistics are. Each outcome bears the number of the event that
reported it. A window holds the newest outcomes that were reported at its rate,
so the length of a window tells how old its oldest outcome is.

A change of the aggregation setting empties the group that becomes current by
it, and no other. A column that the station comes back to later, from a trial
that was under way at the time, has its statistics still. -/

namespace LinkAdaptation

structure DatedOutcome where
  event : Nat
  acked : Bool
  deriving DecidableEq, Repr

/-- The outcomes of a report, newest first. -/
def Report.dated (r : Report) (event : Nat) : List DatedOutcome :=
  r.outcomes.reverse.map (⟨event, ·⟩)

theorem Ledger.outcomes_of_clear (l : Ledger) (g g' : RateGroup) (index : Nat) :
    ((l.clear g).window g' index).outcomes <+: (l.window g' index).outcomes := by
  by_cases hs : g.slot = g'.slot
  · rw [← window_congr _ hs, window_clear_self]
    exact List.nil_prefix
  · rw [window_of_group_eq (group_clear_of_ne l hs)]

namespace Controller

/-- What the event of the given number reports at a rate. -/
def told (c : Controller) (g : RateGroup) (index number : Nat) : Event → List DatedOutcome
  | .report r _ => if c.group.slot = g.slot ∧ c.index = index then r.dated number else []
  | .setAggregation _ => []

/-- All that the events report at a rate, newest first. The first of them has the given number. -/
def reported (c : Controller) (g : RateGroup) (index number : Nat) : List Event → List DatedOutcome
  | [] => []
  | e :: es => (c.apply e).reported g index (number + 1) es ++ c.told g index number e

/-- What the window of a rate holds after the events, newest first. -/
def held (caps : Capabilities) (events : List Event) (g : RateGroup) (index : Nat) :
    List DatedOutcome :=
  ((new caps).reported g index 0 events).take
    (((new caps).run events).ledger.window g index).size

theorem reported_append (c : Controller) (g : RateGroup) (index number : Nat)
    (es fs : List Event) :
    c.reported g index number (es ++ fs) =
      (c.run es).reported g index (number + es.length) fs ++ c.reported g index number es := by
  induction es generalizing c number with
  | nil => simp [reported, run]
  | cons e es ih =>
    have hnumber : number + 1 + es.length = number + (e :: es).length := by
      rw [List.length_cons]
      omega
    rw [List.cons_append, reported, ih, hnumber, reported, List.append_assoc]
    rfl

theorem le_event_of_mem_reported {c : Controller} {g : RateGroup} {index number : Nat}
    {events : List Event} {x : DatedOutcome} (hx : x ∈ c.reported g index number events) :
    number ≤ x.event := by
  induction events generalizing c number with
  | nil => cases hx
  | cons e es ih =>
    rcases List.mem_append.mp hx with hx | hx
    · exact (Nat.le_succ number).trans (ih hx)
    · cases e with
      | setAggregation => cases hx
      | report r now =>
        simp only [told] at hx
        split_ifs at hx
        · obtain ⟨b, -, rfl⟩ := List.mem_map.mp hx
          exact Nat.le_refl _
        · cases hx

/-- An event puts its outcomes in front of those that are held, and old ones may fall off. -/
theorem outcomes_of_apply {c : Controller} (hs : c.Sound) (hclean : c.ledger.All Window.Clean)
    (e : Event) (g : RateGroup) (index number : Nat) :
    ((c.apply e).ledger.window g index).outcomes <+:
      (c.told g index number e).map (·.acked) ++ (c.ledger.window g index).outcomes := by
  cases e with
  | setAggregation aggregation =>
    simp only [apply, setAggregation, told]
    split_ifs
    · exact List.prefix_refl _
    · exact c.ledger.outcomes_of_clear _ _ _
  | report r now =>
    have hobserve : ((c.observe r).ledger.window g index).outcomes <+:
        (c.told g index number (.report r now)).map (·.acked) ++
          (c.ledger.window g index).outcomes := by
      simp only [told]
      split_ifs with hhere
      · obtain ⟨hslot, rfl⟩ := hhere
        rw [← Ledger.window_congr _ hslot, ← Ledger.window_congr _ hslot]
        have habsorb : (c.observe r).ledger.window c.group c.index = c.window.absorb r :=
          hs.window_observe r
        have hwindow : c.window.Clean := hclean _ _
        have hdated : (r.dated number).map (·.acked) = r.outcomes.reverse := by
          simp [Report.dated, Function.comp_def]
        rw [habsorb, Window.outcomes_absorb hwindow, hdated]
        exact List.take_prefix _ _
      · suffices hsame : (c.observe r).ledger.window g index = c.ledger.window g index by
          rw [hsame]
          exact List.prefix_refl _
        by_cases hslot : c.group.slot = g.slot
        · have hindex : c.index ≠ index := fun h => hhere ⟨hslot, h⟩
          rw [← Ledger.window_congr _ hslot, ← Ledger.window_congr _ hslot]
          exact Ledger.window_record_of_ne _ _ _ _ hindex
        · exact Ledger.window_of_group_eq (Ledger.group_record_of_ne _ _ _ _ hslot) _
    rcases c.report_ledger r now with hl | ⟨cleared, hl⟩
    · rw [apply, hl]
      exact hobserve
    · rw [apply, hl]
      exact (Ledger.outcomes_of_clear _ _ _ _).trans hobserve

section Run

variable {caps : Capabilities} {past later : List Event} {g : RateGroup} {index : Nat}

theorem outcomes_of_run (caps : Capabilities) (past later : List Event) (g : RateGroup)
    (index : Nat) :
    (((new caps).run (past ++ later)).ledger.window g index).outcomes <+:
      (((new caps).run past).reported g index past.length later).map (·.acked) ++
        (((new caps).run past).ledger.window g index).outcomes := by
  -- from the end, as the last event comes in front of what the others have left
  induction later using List.reverseRecOn with
  | nil => simp [reported]
  | append_singleton later e ih =>
    have hstep := outcomes_of_apply (sound_run caps (past ++ later))
      (clean_run caps (past ++ later)) e g index (past.length + later.length)
    have htold : ((new caps).run past).reported g index past.length (later ++ [e]) =
        ((new caps).run (past ++ later)).told g index (past.length + later.length) e ++
          ((new caps).run past).reported g index past.length later := by
      rw [reported_append, run_append]
      rfl
    rw [← List.append_assoc, run_concat, htold, List.map_append, List.append_assoc]
    exact hstep.trans ((List.prefix_append_right_inj _).mpr ih)

/-- What a window is said to hold is what it holds. -/
theorem outcomes_eq_held (caps : Capabilities) (events : List Event) (g : RateGroup) (index : Nat) :
    (((new caps).run events).ledger.window g index).outcomes =
      (held caps events g index).map (·.acked) := by
  have hprefix := outcomes_of_run caps [] events g index
  have hempty : (((new caps).run []).ledger.window g index).outcomes = [] := by
    rw [show (new caps).run [] = new caps from rfl, new, Ledger.window_new]
    rfl
  rw [hempty, List.append_nil, List.nil_append] at hprefix
  have htake := List.prefix_iff_eq_take.mp hprefix
  rw [Window.length_outcomes] at htake
  rw [htake, held, List.map_take]
  rfl

theorem held_eq_nil (h : (((new caps).run past).ledger.window g index).outcomes = []) :
    held caps past g index = [] := by
  rw [outcomes_eq_held] at h
  exact List.map_eq_nil_iff.mp h

theorem mem_held_append {x : DatedOutcome} (hx : x ∈ held caps (past ++ later) g index) :
    x ∈ ((new caps).run past).reported g index past.length later ∨ x ∈ held caps past g index := by
  have hsize := (outcomes_of_run caps past later g index).length_le
  rw [List.length_append, List.length_map, Window.length_outcomes, Window.length_outcomes] at hsize
  rw [held, reported_append, Nat.zero_add, List.take_append] at hx
  rcases List.mem_append.mp hx with hx | hx
  · exact .inl (List.mem_of_mem_take hx)
  · exact .inr (List.take_subset_take_left _ (by omega) hx)

end Run

/-- All that the group holds after the events was reported by the later ones. -/
def Fresh (caps : Capabilities) (past later : List Event) (g : RateGroup) : Prop :=
  ∀ index, ∀ x ∈ held caps (past ++ later) g index, past.length ≤ x.event

theorem Fresh.concat {caps : Capabilities} {past later : List Event} {g : RateGroup}
    (h : Fresh caps past later g) (e : Event) : Fresh caps past (later ++ [e]) g := by
  intro index x hx
  rw [← List.append_assoc] at hx
  rcases mem_held_append hx with hnew | hold
  · have hlate := le_event_of_mem_reported hnew
    rw [List.length_append] at hlate
    omega
  · exact h index x hold

theorem fresh_of_empty {caps : Capabilities} {past later : List Event} {g : RateGroup}
    (h : ∀ index, (((new caps).run (past ++ later)).ledger.window g index).outcomes = []) :
    Fresh caps past later g := by
  intro index x hx
  rw [held_eq_nil (h index)] at hx
  cases hx

theorem apply_setAggregation_of_keeps {c : Controller} {aggregation : Aggregation}
    (h : (Event.setAggregation aggregation).Keeps c.aggregation) :
    c.apply (.setAggregation aggregation) = c :=
  if_pos h

theorem apply_aggregation {c : Controller} {e : Event} (h : e.Keeps c.aggregation) :
    (c.apply e).aggregation = c.aggregation := by
  cases e with
  | report r now => exact c.report_aggregation r now
  | setAggregation aggregation => rw [apply_setAggregation_of_keeps h]

theorem run_aggregation {c : Controller} {events : List Event}
    (h : ∀ e ∈ events, e.Keeps c.aggregation) : (c.run events).aggregation = c.aggregation := by
  induction events generalizing c with
  | nil => rfl
  | cons e es ih =>
    have hfirst := apply_aggregation (h e List.mem_cons_self)
    have hrest := ih (c := c.apply e) fun x hx => hfirst.symm ▸ h x (List.mem_cons_of_mem e hx)
    exact hrest.trans hfirst

/-- The property holds of the group in use, and of the one that a trial may go back to. -/
structure Stands (P : RateGroup → Prop) (c : Controller) : Prop where
  group : P c.group
  rollback : ∀ t, c.trial? = some t → P (t.rollback.group c.aggregation)

theorem Stands.of_no_trial {P : RateGroup → Prop} {c : Controller} (hidle : c.trial? = none)
    (hgroup : P c.group) : Stands P c :=
  ⟨hgroup, fun t ht => by simp [hidle] at ht⟩

theorem Stands.apply {P Q : RateGroup → Prop} {c : Controller} (h : Stands P c) {e : Event}
    (he : e.Keeps c.aggregation) (hkeep : ∀ g, P g → Q g)
    (hempty : ∀ g, (∀ index, ((c.apply e).ledger.window g index).outcomes = []) → Q g) :
    Stands Q (c.apply e) := by
  have hall : Stands Q c := ⟨hkeep _ h.group, fun t ht => hkeep _ (h.rollback t ht)⟩
  cases e with
  | setAggregation aggregation =>
    rw [apply_setAggregation_of_keeps he]
    exact hall
  | report r now =>
    have hm := report_move c r now
    change ∀ g, (∀ index, ((c.report r now).ledger.window g index).outcomes = []) → Q g at hempty
    change Stands Q (c.report r now)
    generalize c.report r now = d at hm hempty ⊢
    have hsupervise (index : Nat) : Stands Q (((c.observe r).stepTo index).supervise now) := by
      refine ⟨?_, fun t ht => ?_⟩
      · rw [Controller.group, supervise_position, supervise_aggregation]
        exact hall.group
      · rw [supervise_trial?, stepTo_trial?, observe_trial?] at ht
        rw [supervise_aggregation]
        exact hall.rollback t ht
    have hgroup : ((c.observe r).supervise now).group = c.group := by
      rw [Controller.group, supervise_position, supervise_aggregation]
      rfl
    -- a group comes into use by being emptied, for a trial, or by being gone back to
    cases hm with
    | waits | stays => exact hsupervise c.index
    | steps => exact hsupervise _
    | @resolves rate t _ htrial =>
      rw [observe_trial?] at htrial
      refine .of_no_trial rfl ?_
      simp only [Controller.group, resolve]
      split_ifs
      · exact hall.group
      · exact hall.rollback t htrial
    | @tries rate next =>
      refine ⟨hempty _ fun index => ?_, fun u hu => ?_⟩
      · exact congrArg Window.outcomes (clearGroup_windowAt _ index)
      · obtain rfl : ⟨((c.observe r).supervise now).position, rate⟩ = u := Option.some.inj hu
        have hback : ((c.observe r).supervise now).position.group
            ((c.observe r).supervise now).aggregation = c.group := hgroup
        exact hback ▸ hall.group
    | settles => exact .of_no_trial rfl (hgroup ▸ hall.group)

/-- The trial `t` was under way at first, and then failed. -/
def RolledBack (start : Controller) (events : List Event) (t : Trial) : Prop :=
  ∃ lasting r now rest, events = lasting ++ .report r now :: rest ∧
    (∀ pre, pre <+: lasting → (start.run pre).trial? = some t) ∧
    ((start.run lasting).report r now).trial? = none ∧
    ((start.run lasting).report r now).position = t.rollback

theorem RolledBack.concat {start : Controller} {events : List Event} {t : Trial}
    (h : RolledBack start events t) (e : Event) : RolledBack start (events ++ [e]) t := by
  obtain ⟨lasting, r, now, rest, rfl, hfailed⟩ := h
  exact ⟨lasting, r, now, rest ++ [e], by simp, hfailed⟩

theorem report_on_trial {c : Controller} {t : Trial} (htrial : c.trial? = some t) (r : Report)
    (now : Nat) :
    ((c.report r now).trial? = some t ∧ (c.report r now).position = c.position) ∨
      ((c.report r now).trial? = none ∧
        ((c.report r now).position = c.position ∨ (c.report r now).position = t.rollback)) := by
  rw [report_of_trial htrial]
  cases (c.observe r).window.throughput? with
  | none => exact .inl ⟨(observe_trial? c r).trans htrial, rfl⟩
  | some rate =>
    refine .inr ⟨rfl, ?_⟩
    simp only [resolve]
    split_ifs
    · exact .inl rfl
    · exact .inr rfl

/-- How it stands with the statistics after a change of the setting. All that may matter is fresh,
or a trial that was under way still is, or it failed and the station went back. -/
inductive Standing (caps : Capabilities) (past later : List Event) : Prop where
  | fresh (h : Stands (Fresh caps past later) ((new caps).run (past ++ later)))
  | trying (t : Trial)
      (hlasts : ∀ pre, pre <+: later → (((new caps).run past).run pre).trial? = some t)
      (hposition : ((new caps).run (past ++ later)).position = ((new caps).run past).position)
  | back (t : Trial) (hstart : ((new caps).run past).trial? = some t)
      (hfailed : RolledBack ((new caps).run past) later t)
      (h : Stands (fun g => Fresh caps past later g ∨
        g = t.rollback.group ((new caps).run past).aggregation) ((new caps).run (past ++ later)))

section Standing

variable {caps : Capabilities} {past later : List Event}
  (hempty : ∀ index, (((new caps).run past).windowAt index).outcomes = [])

include hempty

theorem fresh_group : Fresh caps past later ((new caps).run past).group := by
  intro index x hx
  rcases mem_held_append hx with hnew | hold
  · exact le_event_of_mem_reported hnew
  · rw [held_eq_nil (hempty index)] at hold
    cases hold

theorem standing_nil : Standing caps past [] := by
  cases htrial : ((new caps).run past).trial? with
  | none =>
    have hfresh : Fresh caps past [] ((new caps).run past).group := fresh_group hempty
    exact .fresh (by rw [List.append_nil]; exact .of_no_trial htrial hfresh)
  | some t =>
    refine .trying t (fun pre hpre => ?_) (by rw [List.append_nil])
    rw [List.prefix_nil.mp hpre]
    exact htrial

theorem Standing.concat (h : Standing caps past later) {e : Event}
    (hkeeps : ∀ x ∈ later ++ [e], x.Keeps ((new caps).run past).aggregation) :
    Standing caps past (later ++ [e]) := by
  have hrun : (new caps).run (past ++ (later ++ [e])) =
      ((new caps).run (past ++ later)).apply e := by
    rw [← List.append_assoc, run_concat]
  have hsame : ((new caps).run (past ++ later)).aggregation =
      ((new caps).run past).aggregation := by
    rw [run_append]
    exact run_aggregation fun x hx => hkeeps x (List.mem_append_left _ hx)
  have he : e.Keeps ((new caps).run (past ++ later)).aggregation :=
    hsame ▸ hkeeps e (List.mem_append_right _ List.mem_cons_self)
  have hcleared (g : RateGroup) : (∀ index, ((((new caps).run (past ++ later)).apply e).ledger.window
      g index).outcomes = []) → Fresh caps past (later ++ [e]) g := by
    rw [← hrun]
    exact fresh_of_empty
  cases h with
  | fresh h =>
    refine .fresh ?_
    rw [hrun]
    exact h.apply he (fun g hg => hg.concat e) hcleared
  | back t hstart hfailed h =>
    refine .back t hstart (hfailed.concat e) ?_
    rw [hrun]
    exact h.apply he (fun g hg => hg.imp_left (·.concat e)) fun g hg => .inl (hcleared g hg)
  | trying t hlasts hposition =>
    have htrial : ((new caps).run (past ++ later)).trial? = some t := by
      rw [run_append]
      exact hlasts later (List.prefix_refl later)
    have hlonger (hgoes : (((new caps).run (past ++ later)).apply e).trial? = some t) :
        ∀ pre, pre <+: later ++ [e] → (((new caps).run past).run pre).trial? = some t := by
      intro pre hpre
      rcases List.prefix_concat_iff.mp hpre with rfl | hpre
      · rw [← run_append, hrun]
        exact hgoes
      · exact hlasts pre hpre
    cases e with
    | setAggregation aggregation =>
      rw [apply_setAggregation_of_keeps he] at hrun hlonger
      exact .trying t (hlonger htrial) (by rw [hrun, hposition])
    | report r now =>
      rcases report_on_trial htrial r now with ⟨hgoes, hstays⟩ | ⟨hends, hkept | hback⟩
      · exact .trying t (hlonger hgoes) (by rw [hrun]; exact hstays.trans hposition)
      · -- the group of the trial is the one that the change emptied
        refine .fresh (hrun ▸ .of_no_trial hends ?_)
        have hgroup : (((new caps).run (past ++ later)).report r now).group =
            ((new caps).run past).group := by
          rw [group, hkept, hposition, report_aggregation, hsame]
          rfl
        rw [apply, hgroup]
        exact fresh_group hempty
      · have hfailed : RolledBack ((new caps).run past) (later ++ [.report r now]) t := by
          refine ⟨later, r, now, [], rfl, hlasts, ?_, ?_⟩
          · rw [← run_append]
            exact hends
          · rw [← run_append]
            exact hback
        refine .back t (hlasts [] List.nil_prefix) hfailed (hrun ▸ .of_no_trial hends (.inr ?_))
        rw [apply, group, hback, report_aggregation, hsame]

theorem standing_of_keeps (hkeeps : ∀ e ∈ later, e.Keeps ((new caps).run past).aggregation) :
    Standing caps past later := by
  induction later using List.reverseRecOn with
  | nil => exact standing_nil hempty
  | append_singleton later e ih =>
    exact (ih fun x hx => hkeeps x (List.mem_append_left _ hx)).concat hempty hkeeps

/-- Nothing but a failed trial brings outcomes back that were reported before the change. -/
theorem rolledBack_of_old (hkeeps : ∀ e ∈ later, e.Keeps ((new caps).run past).aggregation)
    {index : Nat} {x : DatedOutcome}
    (hx : x ∈ held caps (past ++ later) ((new caps).run (past ++ later)).group index)
    (hold : x.event < past.length) :
    ∃ t, ((new caps).run past).trial? = some t ∧ RolledBack ((new caps).run past) later t ∧
      (t.rollback.column.mode ≠ ((new caps).run past).column.mode ∨
        t.rollback.column.guard ≠ ((new caps).run past).column.guard) ∧
      ((new caps).run (past ++ later)).group =
        t.rollback.group ((new caps).run past).aggregation := by
  have hstale : ¬ Fresh caps past later ((new caps).run (past ++ later)).group := fun hfresh =>
    Nat.not_lt.mpr (hfresh index x hx) hold
  have hother : ((new caps).run (past ++ later)).group ≠ ((new caps).run past).group := fun hsame =>
    hstale (hsame ▸ fresh_group hempty)
  have hsame : ((new caps).run (past ++ later)).aggregation =
      ((new caps).run past).aggregation := by
    rw [run_append]
    exact run_aggregation hkeeps
  cases standing_of_keeps hempty hkeeps with
  | fresh h => exact absurd h.group hstale
  | trying t hlasts hposition => exact absurd (by rw [group, hposition, hsame, group]) hother
  | back t hstart hfailed h =>
    have hback := h.group.resolve_left hstale
    refine ⟨t, hstart, hfailed, ?_, hback⟩
    by_contra! htwin
    obtain ⟨hmode, hguard⟩ := htwin
    -- the two columns run at one width, and so share their statistics
    have hsound := sound_run caps past
    have hwidth := (hsound.rollback t hstart).width_eq hsound.position hmode
    exact hother (hback.trans ((RateGroup.mk.injEq ..).mpr ⟨hmode, hwidth, hguard, rfl⟩))

end Standing

/-- A change of the aggregation setting starts the statistics afresh. Whatever the current group
holds afterwards was reported after the last change, with one exception. When the change comes in
the middle of a trial that then fails, and the station goes back to a column of another mode or
guard interval, the group of that column holds what it held before the change. -/
theorem change_starts_afresh (caps : Capabilities) (past later : List Event)
    (aggregation : Aggregation) (hchange : aggregation ≠ ((new caps).run past).aggregation)
    (hlast : ∀ e ∈ later, e.Keeps aggregation) :
    let changed := ((new caps).run past).setAggregation aggregation
    let events := past ++ .setAggregation aggregation :: later
    let c := (new caps).run events
    c.aggregation = aggregation ∧
      ∀ index,
        (c.windowAt index).outcomes = (held caps events c.group index).map (·.acked) ∧
        ∀ x ∈ held caps events c.group index, past.length < x.event ∨
          ∃ t, changed.trial? = some t ∧ RolledBack changed later t ∧
            (t.rollback.column.mode ≠ changed.column.mode ∨
              t.rollback.column.guard ≠ changed.column.guard) ∧
            c.group = t.rollback.group aggregation ∧ x ∈ held caps past c.group index := by
  intro changed events c
  have hsplit : events = (past ++ [.setAggregation aggregation]) ++ later := by simp [events]
  have hchanged : (new caps).run (past ++ [.setAggregation aggregation]) = changed := by
    rw [run_append]
    rfl
  have hcleared : changed = clearGroup { (new caps).run past with aggregation := aggregation } :=
    setAggregation_of_ne hchange
  have hsetting : changed.aggregation = aggregation := by
    rw [hcleared]
    rfl
  have hempty (index : Nat) : (((new caps).run (past ++ [.setAggregation aggregation])).windowAt
      index).outcomes = [] := by
    rw [hchanged, hcleared, clearGroup_windowAt]
    rfl
  refine ⟨?_, fun index => ⟨outcomes_eq_held caps events c.group index, fun x hx => ?_⟩⟩
  · have hc : c = changed.run later := by rw [← hchanged, ← run_append, ← hsplit]
    rw [hc, run_aggregation (hsetting.symm ▸ hlast), hsetting]
  · by_cases hnew : past.length < x.event
    · exact .inl hnew
    · have hold : x.event < (past ++ [Event.setAggregation aggregation]).length := by
        rw [List.length_append, List.length_singleton]
        omega
      obtain ⟨t, hstart, hfailed, hother, hgroup⟩ := rolledBack_of_old hempty
        (by rw [hchanged, hsetting]; exact hlast) (by rw [← hsplit]; exact hx) hold
      rw [hchanged] at hstart hfailed hother hgroup
      rw [← hsplit, hsetting] at hgroup
      refine .inr ⟨t, hstart, hfailed, hother, hgroup, ?_⟩
      rw [hsplit] at hx
      rcases mem_held_append hx with hlate | hx
      · exact absurd (le_event_of_mem_reported hlate) (Nat.not_le.mpr hold)
      · rcases mem_held_append hx with htold | hx
        · simp [reported, told] at htold
        · exact hx

/-- The legacy column, from which the trial began, holds six failures of the second and the third
report. The setting changes during the trial, and the trial fails: they are still there, and any of
them tells that this is what happened. -/
theorem old_failures_tell_of_trial :
    let past := List.replicate 3 (Event.report ⟨0, 3, false⟩ 0)
    let later := [Event.report ⟨0, 3, false⟩ 0, .setAggregation .on]
    let events := past ++ .setAggregation .on :: later
    let changed := ((new ⟨.mhz40, true, false⟩).run past).setAggregation .on
    let c := (new ⟨.mhz40, true, false⟩).run events
    (held ⟨.mhz40, true, false⟩ events c.group 0).map (·.event) = [2, 2, 2, 1, 1, 1] ∧
      ∃ t, changed.trial? = some t ∧ RolledBack changed later t ∧
        c.group = t.rollback.group .on := by
  intro past later events changed c
  have hheld : held ⟨.mhz40, true, false⟩ events c.group 0 =
      List.replicate 3 ⟨2, false⟩ ++ List.replicate 3 ⟨1, false⟩ := by decide +kernel +zetaReduce
  have hlast : ∀ e ∈ later, e.Keeps .on := by simp [later, Event.Keeps]
  obtain ⟨-, hall⟩ := change_starts_afresh ⟨.mhz40, true, false⟩ past later .on
    (by decide +kernel +zetaReduce) hlast
  rcases (hall 0).2 ⟨2, false⟩ (by rw [hheld]; simp) with hnew | ⟨t, hstart, hfailed, -, hgroup, -⟩
  · exact absurd hnew (by decide)
  · exact ⟨by rw [hheld]; rfl, t, hstart, hfailed, hgroup⟩

/-- So a change of the setting does not always start everything afresh. -/
theorem failed_trial_brings_old_outcomes_back :
    let past := List.replicate 3 (Event.report ⟨0, 3, false⟩ 0)
    let later := [Event.report ⟨0, 3, false⟩ 0]
    let events := past ++ .setAggregation .on :: later
    let c := (new ⟨.mhz40, true, false⟩).run events
    Aggregation.on ≠ ((new ⟨.mhz40, true, false⟩).run past).aggregation ∧
      (∀ e ∈ later, e.Keeps .on) ∧
      (c.windowAt 0).outcomes = (held ⟨.mhz40, true, false⟩ events c.group 0).map (·.acked) ∧
      ¬ ∀ index, ∀ x ∈ held ⟨.mhz40, true, false⟩ events c.group index, past.length < x.event := by
  intro past later events c
  refine ⟨by decide +kernel +zetaReduce, by simp [later, Event.Keeps],
    by decide +kernel +zetaReduce, fun hnew => ?_⟩
  have hold : ⟨2, false⟩ ∈ held ⟨.mhz40, true, false⟩ events c.group 0 := by
    decide +kernel +zetaReduce
  exact absurd (hnew 0 _ hold) (by decide)

end Controller

end LinkAdaptation
