import LinkAdaptation.Controller.Run
import Mathlib.Tactic.Common

/-! What a report can do to a controller, said once. Facts about reports are
proved by cases on the move, without opening the decision procedure again. -/

namespace LinkAdaptation

theorem Phase.trial?_eq_some {p : Phase} {t : Trial} :
    p.trial? = some t ↔ p = .searching (some t) := by
  cases p <;> simp [Phase.trial?]

theorem Phase.stay?_eq_some {p : Phase} {s : Stay} : p.stay? = some s ↔ p = .staying s := by
  cases p <;> simp [Phase.stay?]

namespace Controller

/-- What a report does to a stay. Where there is none, it does nothing. -/
inductive Supervised (c : Controller) (now : Nat) : Controller → Prop where
  | idle (hstay : c.stay? = none) : Supervised c now c
  | expires {stay : Stay} (hstay : c.phase = .staying stay)
      (hover : stay.isOver c.limits now = true) :
      Supervised c now { c with phase := .searching none, visited := .only c.column }
  | refreshes {stay : Stay} (hstay : c.phase = .staying stay)
      (hover : stay.isOver c.limits now = false) (hage : c.limits.age < stay.age + 1) :
      Supervised c now (clearGroup { c with phase := .staying { stay with age := 0 } })
  | ages {stay : Stay} (hstay : c.phase = .staying stay)
      (hover : stay.isOver c.limits now = false) (hage : stay.age + 1 ≤ c.limits.age) :
      Supervised c now { c with phase := .staying { stay with age := stay.age + 1 } }

theorem supervised (c : Controller) (now : Nat) : Supervised c now (c.supervise now) := by
  have hidle (h : c.supervise now = c) (hstay : c.stay? = none) : Supervised c now (c.supervise now) := by
    rw [h]
    exact .idle hstay
  cases hp : c.phase with
  | searching trial => exact hidle (by simp [supervise, hp]) (by simp [stay?, hp, Phase.stay?])
  | ended => exact hidle (by simp [supervise, hp]) (by simp [stay?, hp, Phase.stay?])
  | staying stay =>
    simp only [supervise, hp]
    split_ifs with hover hage
    · exact .expires hp hover
    · exact .refreshes hp (by simpa using hover) hage
    · exact .ages hp (by simpa using hover) (by omega)

theorem supervise_of_searching {c : Controller} {trial : Option Trial}
    (h : c.phase = .searching trial) (now : Nat) : c.supervise now = c := by
  simp [supervise, h]

@[simp] theorem supervise_caps (c : Controller) (now : Nat) : (c.supervise now).caps = c.caps := by
  have h := supervised c now
  generalize c.supervise now = s at h ⊢
  cases h <;> rfl

@[simp] theorem supervise_position (c : Controller) (now : Nat) :
    (c.supervise now).position = c.position := by
  have h := supervised c now
  generalize c.supervise now = s at h ⊢
  cases h <;> rfl

@[simp] theorem supervise_aggregation (c : Controller) (now : Nat) :
    (c.supervise now).aggregation = c.aggregation := by
  have h := supervised c now
  generalize c.supervise now = s at h ⊢
  cases h <;> rfl

@[simp] theorem supervise_trial? (c : Controller) (now : Nat) :
    (c.supervise now).trial? = c.trial? := by
  have h := supervised c now
  generalize c.supervise now = s at h ⊢
  cases h with
  | idle => rfl
  | expires hstay | refreshes hstay | ages hstay => simp [trial?, hstay, Phase.trial?, clearGroup]

@[simp] theorem observe_caps (c : Controller) (r : Report) : (c.observe r).caps = c.caps := rfl

@[simp] theorem observe_position (c : Controller) (r : Report) :
    (c.observe r).position = c.position := rfl

@[simp] theorem observe_aggregation (c : Controller) (r : Report) :
    (c.observe r).aggregation = c.aggregation := rfl

@[simp] theorem observe_visited (c : Controller) (r : Report) :
    (c.observe r).visited = c.visited := rfl

theorem observe_phase_of_searching {c : Controller} {trial : Option Trial}
    (h : c.phase = .searching trial) (r : Report) : (c.observe r).phase = .searching trial := by
  simp [observe, h, Phase.count]

@[simp] theorem observe_trial? (c : Controller) (r : Report) : (c.observe r).trial? = c.trial? := by
  cases hp : c.phase <;> simp [observe, trial?, hp, Phase.count, Phase.trial?]

theorem clearGroup_window (c : Controller) : c.clearGroup.window = c.window.clear :=
  Ledger.window_clear_self _ _ _

theorem clearGroup_windowAt (c : Controller) (index : Nat) :
    c.clearGroup.windowAt index = (c.windowAt index).clear :=
  Ledger.window_clear_self _ _ _

theorem setAggregation_of_ne {c : Controller} {aggregation : Aggregation}
    (h : aggregation ≠ c.aggregation) :
    c.setAggregation aggregation = clearGroup { c with aggregation := aggregation } := by
  simp [setAggregation, h]

@[simp] theorem stepTo_trial? (c : Controller) (index : Nat) : (c.stepTo index).trial? = c.trial? :=
  rfl

theorem not_visited_of_nextColumn? {c : Controller} {rate : Nat} {next : Column}
    (hnext : c.nextColumn? rate = some next) : c.visited.contains next = false := by
  have hp := List.find?_some hnext
  simp only [isPromising, Bool.and_eq_true, Bool.not_eq_true'] at hp
  exact hp.1.1

/-- What a controller may do on its statistics. `waits` are the reports that tell too little,
and `stays` those that leave a settled station where it is. -/
inductive Move (c : Controller) (now : Nat) : Controller → Prop where
  | waits (hrate : c.window.throughput? = none) : Move c now (c.supervise now)
  | resolves {rate : Nat} {t : Trial} (hrate : c.window.throughput? = some rate)
      (htrial : c.trial? = some t) : Move c now (c.resolve t rate)
  | steps {rate index : Nat} (hrate : c.window.throughput? = some rate) (htrial : c.trial? = none)
      (hstep : c.step? rate = some index) : Move c now ((c.stepTo index).supervise now)
  | tries {rate : Nat} {next : Column} (hrate : c.window.throughput? = some rate)
      (htrial : c.trial? = none) (hstep : c.step? rate = none)
      (hphase : (c.supervise now).phase = .searching none)
      (hnext : (c.supervise now).nextColumn? rate = some next) :
      Move c now ((c.supervise now).beginTrial next rate)
  | settles {rate : Nat} (hrate : c.window.throughput? = some rate) (htrial : c.trial? = none)
      (hstep : c.step? rate = none)
      (hphase : (c.supervise now).phase = .ended ∨
        (c.supervise now).phase = .searching none ∧ (c.supervise now).nextColumn? rate = none) :
      Move c now { c.supervise now with phase := .staying (.start now), visited := .only c.column }
  | stays {rate : Nat} {stay : Stay} (hrate : c.window.throughput? = some rate)
      (htrial : c.trial? = none) (hstep : c.step? rate = none)
      (hphase : (c.supervise now).phase = .staying stay) : Move c now (c.supervise now)

theorem act_move (c : Controller) (now : Nat) : Move c now (c.act now) := by
  unfold act
  cases hrate : c.window.throughput? with
  | none => exact .waits hrate
  | some rate =>
    dsimp only
    cases htrial : c.trial? with
    | some t => exact .resolves hrate htrial
    | none =>
      dsimp only
      cases hstep : c.step? rate with
      | some index => exact .steps hrate htrial hstep
      | none =>
        dsimp only
        cases hphase : (c.supervise now).phase with
        | staying stay => simpa [search, settle, hphase] using Move.stays hrate htrial hstep hphase
        | ended =>
          simpa [search, settle, hphase, column] using Move.settles hrate htrial hstep (.inl hphase)
        | searching trial =>
          have htrial' : trial = none := by
            simpa [trial?, hphase, Phase.trial?] using (supervise_trial? c now).trans htrial
          subst trial
          cases hnext : (c.supervise now).nextColumn? rate with
          | none =>
            simpa [search, settle, hphase, hnext, column] using
              Move.settles hrate htrial hstep (.inr ⟨hphase, hnext⟩)
          | some next =>
            have hmove := Move.tries hrate htrial hstep hphase hnext
            simpa [search, settle, hphase, hnext, beginTrial, clearGroup] using hmove

theorem report_move (c : Controller) (r : Report) (now : Nat) :
    Move (c.observe r) now (c.report r now) :=
  act_move _ now

/-- During a trial a report does nothing but record and judge. -/
theorem report_of_trial {c : Controller} {t : Trial} (htrial : c.trial? = some t) (r : Report)
    (now : Nat) :
    c.report r now =
      match (c.observe r).window.throughput? with
      | none => c.observe r
      | some rate => (c.observe r).resolve t rate := by
  have hphase := observe_phase_of_searching (Phase.trial?_eq_some.mp htrial) r
  have hobserved : (c.observe r).trial? = some t := (observe_trial? c r).trans htrial
  cases hrate : (c.observe r).window.throughput? with
  | none => simp only [report, act, hrate, supervise_of_searching hphase]
  | some rate => simp only [report, act, hrate, hobserved]

theorem report_aggregation (c : Controller) (r : Report) (now : Nat) :
    (c.report r now).aggregation = c.aggregation := by
  have hm := report_move c r now
  generalize c.report r now = d at hm ⊢
  cases hm <;> simp [resolve, stepTo, beginTrial, clearGroup]

theorem run_concat (c : Controller) (events : List Event) (e : Event) :
    c.run (events ++ [e]) = (c.run events).apply e := by
  rw [run_append]
  rfl

theorem run_induction {P : Controller → Prop} (hstep : ∀ c e, P c → P (c.apply e))
    {c : Controller} (h : P c) (events : List Event) : P (c.run events) := by
  induction events generalizing c with
  | nil => exact h
  | cons e es ih => exact ih (hstep c e h)

end Controller

end LinkAdaptation
