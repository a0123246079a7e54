import LinkAdaptation.Proofs.ColumnSearch
import LinkAdaptation.Proofs.StayCourse

/-! What the clock can do. Two runs that are told the same, except for the
readings of the clock, are compared step by step. They differ in the timer of a
stay and in nothing else, as long as they agree on whether a stay has timed out. -/

namespace LinkAdaptation

variable {R : Nat → Nat → Prop}

/-- The same event, with readings of the clock that `R` relates. -/
inductive Event.InStep (R : Nat → Nat → Prop) : Event → Event → Prop where
  | report (r : Report) {n m : Nat} (h : R n m) : InStep R (.report r n) (.report r m)
  | setAggregation (aggregation : Aggregation) :
      InStep R (.setAggregation aggregation) (.setAggregation aggregation)

/-- The same phase, with a timer in both or in neither. -/
inductive Phase.InStep (R : Nat → Nat → Prop) : Phase → Phase → Prop where
  | searching (trial : Option Trial) : InStep R (.searching trial) (.searching trial)
  | ended : InStep R .ended .ended
  | staying (acked lost age : Nat) {s t : Nat} (h : R s t) :
      InStep R (.staying ⟨acked, lost, age, s⟩) (.staying ⟨acked, lost, age, t⟩)

/-- The same state in every field but the phase, and the same phase except for its timer. -/
inductive Controller.InStep (R : Nat → Nat → Prop) : Controller → Controller → Prop where
  | intro (caps : Capabilities) (position : Position) (aggregation : Aggregation)
      (visited : ColumnSet) (ledger : Ledger) {p q : Phase} (hphase : p.InStep R q) :
      InStep R ⟨caps, p, position, aggregation, visited, ledger⟩
        ⟨caps, q, position, aggregation, visited, ledger⟩

/-- The event with the clock put forward. -/
def Event.delay (k : Nat) : Event → Event
  | .report r now => .report r (now + k)
  | .setAggregation aggregation => .setAggregation aggregation

def Phase.delay (k : Nat) : Phase → Phase
  | .staying stay => .staying { stay with since := stay.since + k }
  | .searching trial => .searching trial
  | .ended => .ended

namespace Controller

def delay (k : Nat) (c : Controller) : Controller := { c with phase := c.phase.delay k }

/-- Whether the stay has lasted its full time, or has not, in both states alike. Where there is no
stay there is nothing to agree on. -/
def AgreeOnTimeout (c d : Controller) (n m : Nat) : Prop :=
  ∀ s t, c.timer? = some s → d.timer? = some t → (s + 25000000000 ≤ n ↔ t + 25000000000 ≤ m)

/-- A report at the reading `since` found the station outside a stay, if only for a moment, and
left it in one that has lasted from then on. -/
def StayBegan (c : Controller) (events : List Event) (since : Nat) : Prop :=
  ∃ past r later, events = past ++ .report r since :: later ∧
    (∃ m ∈ (c.run past).moments r since, m.stay? = none) ∧
    ∀ m ∈ ((c.run past).report r since).course later, m.stay? ≠ none

namespace InStep

variable {c d : Controller} {n m : Nat}

theorem trial? (h : InStep R c d) : d.trial? = c.trial? := by
  obtain ⟨_, _, _, _, _, hphase⟩ := h
  cases hphase <;> rfl

theorem timer? (h : InStep R c d) : Option.Rel R c.timer? d.timer? := by
  obtain ⟨_, _, _, _, _, hphase⟩ := h
  cases hphase with
  | searching | ended => exact .none
  | staying _ _ _ hR => exact .some hR

theorem window (h : InStep R c d) : d.window = c.window := by
  cases h
  rfl

theorem step? (h : InStep R c d) (rate : Nat) : d.step? rate = c.step? rate := by
  cases h
  rfl

theorem observe (h : InStep R c d) (r : Report) : InStep R (c.observe r) (d.observe r) := by
  obtain ⟨_, _, _, _, _, hphase⟩ := h
  refine .intro _ _ _ _ _ ?_
  cases hphase with
  | searching trial => exact .searching trial
  | ended => exact .ended
  | staying _ _ _ hR => exact .staying _ _ _ hR

theorem stepTo (h : InStep R c d) (index : Nat) : InStep R (c.stepTo index) (d.stepTo index) := by
  obtain ⟨_, _, _, _, _, hphase⟩ := h
  exact .intro _ _ _ _ _ hphase

theorem setAggregation (h : InStep R c d) (aggregation : Aggregation) :
    InStep R (c.setAggregation aggregation) (d.setAggregation aggregation) := by
  obtain ⟨_, _, _, _, _, hphase⟩ := h
  simp only [Controller.setAggregation]
  split_ifs
  all_goals exact .intro _ _ _ _ _ hphase

theorem resolve (h : InStep R c d) (t : Trial) (rate : Nat) :
    InStep R (c.resolve t rate) (d.resolve t rate) := by
  cases h
  exact .intro _ _ _ _ _ (.searching none)

theorem supervise (h : InStep R c d) (hagree : AgreeOnTimeout c d n m) :
    InStep R (c.supervise n) (d.supervise m) := by
  obtain ⟨caps, position, aggregation, visited, ledger, hphase⟩ := h
  cases hphase with
  | searching trial => exact .intro _ _ _ _ _ (.searching trial)
  | ended => exact .intro _ _ _ _ _ .ended
  | @staying acked lost age s t hR =>
    have htimeout := hagree s t rfl rfl
    have hsame : Stay.isOver ⟨acked, lost, age, s⟩ (.of position.column.mode) n =
        Stay.isOver ⟨acked, lost, age, t⟩ (.of position.column.mode) m := by
      rw [Bool.eq_iff_iff, Stay.isOver_iff, Stay.isOver_iff]
      exact or_congr_right (or_congr_right htimeout)
    cases hover : Stay.isOver ⟨acked, lost, age, s⟩ (.of position.column.mode) n with
    | true =>
      rw [supervise_of_over rfl n hover, supervise_of_over rfl m (hsame ▸ hover)]
      exact .intro _ _ _ _ _ (.searching none)
    | false =>
      rw [supervise_of_not_over rfl n hover, supervise_of_not_over rfl m (hsame ▸ hover)]
      -- both states compare the same ages
      split_ifs with hold hold' hold'
      · exact .intro _ _ _ _ _ (.staying _ _ _ hR)
      · exact absurd hold hold'
      · exact absurd hold' hold
      · exact .intro _ _ _ _ _ (.staying _ _ _ hR)

theorem search (h : InStep R c d) (rate : Nat) : InStep R (c.search rate) (d.search rate) := by
  obtain ⟨caps, position, aggregation, visited, ledger, hphase⟩ := h
  cases hphase with
  | searching trial =>
    -- without a timer the two states are one
    have hs := searched ⟨caps, .searching trial, position, aggregation, visited, ledger⟩ rate
    generalize Controller.search _ rate = e at hs ⊢
    cases hs with
    | idle => exact .intro _ _ _ _ _ (.searching trial)
    | tries => exact .intro _ _ _ _ _ (.searching _)
    | ends => exact .intro _ _ _ _ _ .ended
  | ended => exact .intro _ _ _ _ _ .ended
  | staying _ _ _ hR => exact .intro _ _ _ _ _ (.staying _ _ _ hR)

theorem settle (h : InStep R c d) (hR : R n m) : InStep R (c.settle n) (d.settle m) := by
  obtain ⟨_, _, _, _, _, hphase⟩ := h
  cases hphase with
  | searching trial => exact .intro _ _ _ _ _ (.searching trial)
  | ended => exact .intro _ _ _ _ _ (.staying _ _ _ hR)
  | staying _ _ _ hR' => exact .intro _ _ _ _ _ (.staying _ _ _ hR')

theorem act (h : InStep R c d) (hagree : AgreeOnTimeout c d n m) (hR : R n m) :
    InStep R (c.act n) (d.act m) := by
  unfold Controller.act
  rw [h.window]
  cases c.window.throughput? with
  | none => exact h.supervise hagree
  | some rate =>
    dsimp only
    rw [h.trial?]
    cases c.trial? with
    | some t => exact h.resolve t rate
    | none =>
      dsimp only
      rw [h.step?]
      cases c.step? rate with
      | some index => exact (h.stepTo index).supervise hagree
      | none => exact ((h.supervise hagree).search rate).settle hR

theorem report (h : InStep R c d) (hagree : AgreeOnTimeout c d n m) (hR : R n m) (r : Report) :
    InStep R (c.report r n) (d.report r m) := by
  refine (h.observe r).act ?_ hR
  have htimer (e : Controller) : (e.observe r).timer? = e.timer? := by
    cases hp : e.phase <;>
      simp [Controller.observe, Controller.timer?, stay?, hp, Phase.count, Phase.stay?, Stay.count]
  rw [AgreeOnTimeout, htimer, htimer]
  exact hagree

theorem apply (h : InStep R c d) {e f : Event} (hsame : e.InStep R f)
    (hagree : ∀ r n m, e = .report r n → f = .report r m → AgreeOnTimeout c d n m) :
    InStep R (c.apply e) (d.apply f) := by
  cases hsame with
  | report r hR => exact h.report (hagree r _ _ rfl rfl) hR r
  | setAggregation aggregation => exact h.setAggregation aggregation

theorem run (h : InStep R c d) {es fs : List Event} (hsame : List.Forall₂ (Event.InStep R) es fs)
    (hagree : ∀ k r n m, es[k]? = some (.report r n) → fs[k]? = some (.report r m) →
      AgreeOnTimeout (c.run (es.take k)) (d.run (fs.take k)) n m) :
    InStep R (c.run es) (d.run fs) := by
  induction hsame generalizing c d with
  | nil => exact h
  | @cons e f es fs hef _ ih =>
    have hfirst : InStep R (c.apply e) (d.apply f) :=
      h.apply hef fun r n m he hf => hagree 0 r n m (by simp [he]) (by simp [hf])
    refine ih hfirst fun k r n m he hf => hagree (k + 1) r n m ?_ ?_
    · simpa using he
    · simpa using hf

end InStep

section Delay

variable (k : Nat)

theorem inStep_delay (c : Controller) : InStep (fun n m => m = n + k) c (c.delay k) := by
  refine .intro _ _ _ _ _ ?_
  cases c.phase with
  | searching trial => exact .searching trial
  | ended => exact .ended
  | staying stay => exact .staying _ _ _ rfl

theorem InStep.eq_delay {c d : Controller} (h : InStep (fun n m => m = n + k) c d) :
    d = c.delay k := by
  obtain ⟨_, _, _, _, _, hphase⟩ := h
  cases hphase with
  | searching | ended => rfl
  | staying _ _ _ hR =>
    subst hR
    rfl

theorem apply_delay (c : Controller) (e : Event) :
    (c.delay k).apply (e.delay k) = (c.apply e).delay k := by
  refine (InStep.apply (inStep_delay k c) ?_ ?_).eq_delay
  · cases e with
    | report r now => exact .report r rfl
    | setAggregation aggregation => exact .setAggregation aggregation
  · rintro r n m rfl hdelay s t hs ht
    obtain rfl : n + k = m := (Event.report.inj hdelay).2
    have htimers := (inStep_delay k c).timer?
    rw [hs, ht] at htimers
    cases htimers with
    | some hst => omega

theorem run_delay (c : Controller) (events : List Event) :
    (c.delay k).run (events.map (.delay k)) = (c.run events).delay k := by
  induction events generalizing c with
  | nil => rfl
  | cons e es ih =>
    have hfirst := ih (c.apply e)
    rw [← apply_delay] at hfirst
    exact hfirst

end Delay

theorem laterMoments_concat (c : Controller) (events : List Event) (e : Event) :
    c.laterMoments (events ++ [e]) = c.laterMoments events ++ (c.run events).momentsOf e := by
  induction events generalizing c with
  | nil => simp [laterMoments, run]
  | cons d es ih =>
    rw [List.cons_append, laterMoments, ih, laterMoments, List.append_assoc]
    rfl

theorem course_concat (c : Controller) (events : List Event) (e : Event) :
    c.course (events ++ [e]) = c.course events ++ (c.run events).momentsOf e := by
  rw [course, laterMoments_concat, course, List.cons_append]

theorem timer?_eq_some {c : Controller} {since : Nat} :
    c.timer? = some since ↔ ∃ stay, c.phase = .staying stay ∧ stay.since = since := by
  simp [timer?, stay?, Phase.stay?_eq_some]

theorem timer?_setAggregation (c : Controller) (aggregation : Aggregation) :
    (c.setAggregation aggregation).timer? = c.timer? := by
  rw [setAggregation]
  split_ifs <;> rfl

/-- A stay that a report leaves behind began with the report, or went on all through it. -/
theorem stay_of_report {c : Controller} {r : Report} {now : Nat} {stay : Stay}
    (hstay : (c.report r now).phase = .staying stay) :
    (stay.since = now ∧ c.EndsStay r now) ∨
      (c.timer? = some stay.since ∧ ¬ c.EndsStay r now) := by
  have hgoes (index : Nat)
      (h : (((c.observe r).stepTo index).supervise now).phase = .staying stay) :
      c.timer? = some stay.since ∧ ¬ c.EndsStay r now := by
    obtain ⟨counted, hcounted, hsince, hover⟩ := staying_of_supervise h
    obtain ⟨old, hold, rfl⟩ := staying_of_observe hcounted
    refine ⟨timer?_eq_some.mpr ⟨old, hold, hsince.symm⟩, fun hends => ?_⟩
    exact Bool.false_ne_true (hover.symm.trans ((endsStay_iff hold r now).mp hends))
  have hm := report_move c r now
  generalize c.report r now = d at hm hstay
  cases hm with
  | waits | stays => exact .inr (hgoes c.index hstay)
  | resolves => simp [resolve] at hstay
  | steps => exact .inr (hgoes _ hstay)
  | tries => simp [beginTrial, clearGroup] at hstay
  | settles hrate htrial hstep hphase =>
    obtain rfl : Stay.start now = stay := Phase.staying.inj hstay
    refine .inl ⟨rfl, (c.observe r).supervise now, ?_, ?_⟩
    · simp [moments, hrate, htrial, hstep]
    · rcases hphase with h | ⟨h, -⟩ <;> simp [stay?, h, Phase.stay?]

theorem stay?_ne_none_of_timer? {c : Controller} {since : Nat} (h : c.timer? = some since) :
    c.stay? ≠ none := fun hnone => by
  simp [timer?, hnone] at h

theorem StayBegan.concat {c : Controller} {events : List Event} {e : Event} {since : Nat}
    (h : c.StayBegan events since) (hlasts : ∀ m ∈ (c.run events).momentsOf e, m.stay? ≠ none) :
    c.StayBegan (events ++ [e]) since := by
  obtain ⟨past, r, later, rfl, hbegins, hstays⟩ := h
  refine ⟨past, r, later ++ [e], by simp, hbegins, fun m hm => ?_⟩
  rw [course_concat, List.mem_append] at hm
  rcases hm with hm | hm
  · exact hstays m hm
  · rw [run_append] at hlasts
    exact hlasts m hm

/-- The timer of a stay is the reading of the report that it began with. -/
theorem stayBegan_of_timer? {caps : Capabilities} {events : List Event} {since : Nat}
    (htimer : ((new caps).run events).timer? = some since) : (new caps).StayBegan events since := by
  induction events using List.reverseRecOn with
  | nil => simp [run, new, timer?, stay?, Phase.stay?] at htimer
  | append_singleton events e ih =>
    rw [run_append] at htimer
    cases e with
    | setAggregation aggregation =>
      have hbefore : ((new caps).run events).timer? = some since :=
        (timer?_setAggregation _ aggregation).symm.trans htimer
      refine (ih hbefore).concat fun m hm => ?_
      obtain rfl := List.mem_singleton.mp hm
      exact stay?_ne_none_of_timer? htimer
    | report r now =>
      obtain ⟨stay, hstay, hsince⟩ := timer?_eq_some.mp htimer
      rcases stay_of_report hstay with ⟨hnow, hbegins⟩ | ⟨hbefore, hgoes⟩
      · -- an older stay, if there was one, ended within the report
        obtain rfl : now = since := hnow.symm.trans hsince
        refine ⟨events, r, [], rfl, hbegins, fun m hm => ?_⟩
        obtain rfl := List.mem_singleton.mp hm
        exact stay?_ne_none_of_timer? htimer
      · rw [hsince] at hbefore
        exact (ih hbefore).concat fun m hm hnone => hgoes ⟨m, hm, hnone⟩

/-- Time matters only through the end of a stay. Two runs that are told the same at other readings
of the clock, whichever these are, go through the same states, except for the readings in their
timers, if they agree at each report within a stay on whether 25 seconds have passed since the
reading with which the stay began. A clock that is ahead by a constant puts the timers ahead by that
constant, and changes nothing else. -/
theorem clock_only_times_stays (caps : Capabilities) (es fs : List Event)
    (hsame : List.Forall₂ (Event.InStep fun _ _ => True) es fs)
    (hagree : ∀ k r n m, es[k]? = some (.report r n) → fs[k]? = some (.report r m) →
      AgreeOnTimeout ((new caps).run (es.take k)) ((new caps).run (fs.take k)) n m) :
    (∀ k, InStep (fun _ _ => True) ((new caps).run (es.take k)) ((new caps).run (fs.take k))) ∧
    (∀ events since, ((new caps).run events).timer? = some since →
      (new caps).StayBegan events since) ∧
    (∀ ahead k, (new caps).run ((es.take k).map (.delay ahead)) =
      ((new caps).run (es.take k)).delay ahead) := by
  refine ⟨fun k => ?_, fun events since => stayBegan_of_timer?,
    fun ahead k => run_delay ahead (new caps) _⟩
  have hstart : InStep (fun _ _ => True) (new caps) (new caps) := .intro _ _ _ _ _ (.searching none)
  refine hstart.run (List.forall₂_take k hsame) fun j r n m he hf => ?_
  have hj : j < k := by
    by_contra hj
    simp [hj] at he
  rw [List.getElem?_take_of_lt hj] at he hf
  rw [List.take_take, List.take_take, Nat.min_eq_left hj.le]
  exact hagree j r n m he hf

/-- Both stations settle with the third report, and have a nanosecond left with the fourth, or
nearly all of their time: the second clock runs backwards. -/
theorem clocks_apart_stay_alike :
    let caps : Capabilities := ⟨.mhz40, false, false⟩
    let es := [7, 7, 7, 25000000006].map (Event.report ⟨0, 3, false⟩)
    let fs := [5, 4, 3, 2].map (Event.report ⟨0, 3, false⟩)
    InStep (fun _ _ => True) ((new caps).run es) ((new caps).run fs) ∧
      ((new caps).run es).phase = .staying ⟨0, 3, 1, 7⟩ ∧
      ((new caps).run fs).phase = .staying ⟨0, 3, 1, 3⟩ ∧
      ((new caps).run (es.map (.delay 60))).phase = .staying ⟨0, 3, 1, 67⟩ := by
  intro caps es fs
  have hsame : List.Forall₂ (Event.InStep fun _ _ => True) es fs :=
    .cons (.report _ trivial) (.cons (.report _ trivial) (.cons (.report _ trivial)
      (.cons (.report _ trivial) .nil)))
  have hnone : ∀ k < 3, ((new caps).run (es.take k)).timer? = none := by
    decide +kernel +zetaReduce
  have hseven : ((new caps).run (es.take 3)).timer? = some 7 := by decide +kernel +zetaReduce
  have hthree : ((new caps).run (fs.take 3)).timer? = some 3 := by decide +kernel +zetaReduce
  obtain ⟨hstep, -, hdelay⟩ := clock_only_times_stays caps es fs hsame
    fun k r n m he hf s t hs ht => by
      obtain hk | rfl | hk : k < 3 ∨ k = 3 ∨ 4 ≤ k := by omega
      · cases (hnone k hk).symm.trans hs
      · obtain rfl := Option.some.inj (hseven.symm.trans hs)
        obtain rfl := Option.some.inj (hthree.symm.trans ht)
        obtain rfl : 25000000006 = n := (Event.report.inj (Option.some.inj he)).2
        obtain rfl : 2 = m := (Event.report.inj (Option.some.inj hf)).2
        decide
      · rw [List.getElem?_eq_none hk] at he
        cases he
  have hstays : ((new caps).run es).phase = .staying ⟨0, 3, 1, 7⟩ := by decide +kernel +zetaReduce
  have hdelayed : ((new caps).run (es.map (.delay 60))).phase = _ := congrArg phase (hdelay 60 4)
  refine ⟨hstep 4, hstays, by decide +kernel +zetaReduce, ?_⟩
  rw [hdelayed, delay, show es.take 4 = es from rfl, hstays]
  rfl

end Controller

end LinkAdaptation
