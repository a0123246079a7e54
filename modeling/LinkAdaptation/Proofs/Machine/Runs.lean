import LinkAdaptation.Proofs.ColumnSearch
import LinkAdaptation.Proofs.Machine.Searches

/-! Whole runs of a machine. Started as the controller is, and told the same
events, a machine stops nowhere and is left with the controller's state, both if
it traps on overflow and if it wraps around. So no operation of a reachable
station overflows, divides by zero or leaves the memory. -/

namespace LinkAdaptation

namespace Machine

variable (a : Arithmetic)

def count (m : Machine) (acked lost : Nat) : Machine :=
  if m.activity = .staying then
    { m with acked := Stay.saturate (m.acked + acked), lost := Stay.saturate (m.lost + lost) }
  else
    m

def observe (m : Machine) (r : Report) : Except Trap Machine := do
  let before ← m.window a
  let acked ← before.pushManyIn a true r.acked
  let after ← acked.pushManyIn a false r.failures
  return (← m.setWindow a after).count r.acked r.failures

def stepTo (m : Machine) (index : Nat) : Machine := { m with index := index }

def resolve (m : Machine) (t : Trial) (rate : Nat) : Machine :=
  if t.baseline < rate then
    { m with trial? := none }
  else
    { m with
      trial? := none
      column := t.rollback.column
      index := t.rollback.index
      width := t.rollback.width }

/-- A search that finds no column is over at once. -/
def search (m : Machine) (rate now : Nat) : Except Trap Machine :=
  if m.activity ≠ .searching then
    return m
  else do
    if (← m.window a).isEmpty then
      return m
    else
      match ← m.nextColumn? a rate with
      | some next => m.beginTrial a next rate
      | none => return m.settle now

def act (m : Machine) (now : Nat) : Except Trap Machine := do
  match ← (← m.window a).throughputIn? a with
  | none => m.supervise a now
  | some rate =>
    match m.trial? with
    | some trial =>
      let m ← (m.resolve trial rate).supervise a now
      if m.activity = .ended then return m.settle now else return m
    | none =>
      match ← m.step? a rate with
      | some index => (m.stepTo index).supervise a now
      | none => (← m.supervise a now).search a rate now

def setAggregation (m : Machine) (aggregation : Aggregation) : Except Trap Machine :=
  if aggregation = m.aggregation then
    return m
  else
    clearGroup a { m with aggregation := aggregation }

def apply (m : Machine) : Event → Except Trap Machine
  | .report r now => do (← m.observe a r).act a now
  | .setAggregation aggregation => m.setAggregation a aggregation

def run (m : Machine) (events : List Event) : Except Trap Machine := events.foldlM (apply a) m

def legacyRates : Vector LegacyRate 12 := ⟨LegacyRate.all.toArray, rfl⟩

def rate (m : Machine) : Except Trap Rate :=
  match m.column.mode with
  | .legacy => do
    return .legacy (← Memory.fetch legacyRates (min (max m.index 4) 11))
  | .siso =>
    let mcs := RatePoint.streamMcs m.index
    return if m.caps.vht then .vht mcs else .ht (min mcs 7)
  | .mimo =>
    if m.caps.vht then
      return .vht (RatePoint.streamMcs m.index)
    else do
      let mcs ← (if m.index = 4 then .ok 8 else a.fit 8 (m.index + 3))
      return .ht (min mcs 15)

def txVector (m : Machine) : Except Trap TxVector := do
  return {
    rate := ← m.rate a
    guardNs := m.column.guard.nanoseconds
    antennas := m.column.antennas.count
    streams := m.column.mode.streams
    width := m.width
    aggregated := m.aggregation.isOn }

/-- The window of any rate, if there is such a rate. -/
def history? (m : Machine) (g : RateGroup) (index : Nat) : Except Trap (Option Window) :=
  if ratesPerGroup ≤ index then
    return none
  else do
    return some (← Memory.fetch m.memory (← address a g index))

end Machine

namespace Controller

variable {c : Controller} (a : Arithmetic)

theorem setGroup_record (hi : c.index < ratesPerGroup) (acked lost : Nat) :
    c.ledger.setGroup c.group ((c.ledger.group c.group).set c.index
      ((c.window.pushMany true acked).pushMany false lost)) =
      c.ledger.record c.group c.index acked lost := by
  rw [Ledger.record]
  congr 1
  apply Vector.ext
  intro i hlt
  rw [Vector.getElem_set, Vector.getElem_setIfInBounds]
  rfl

theorem count_machine (c : Controller) (acked lost : Nat) :
    c.machine.count acked lost =
      ({ c with phase := c.phase.count acked lost } : Controller).machine := by
  cases hphase : c.phase with
  | staying stay =>
    let d : Controller := { c with phase := (Phase.staying stay).count acked lost }
    have hcounted : d.machine = _ := machine_of_staying rfl
    rw [machine_of_staying hphase, hcounted]
    rfl
  | searching trial | ended =>
    have hactivity : ¬ c.machine.activity = .staying := by simp [hphase, Phase.activity]
    rw [Machine.count, if_neg hactivity, Phase.count, ← hphase]

theorem Housed.observe_machine (h : c.Housed) (r : Report) :
    c.machine.observe a r = .ok (c.observe r).machine := by
  have hi : c.index < ratesPerGroup := h.sound.position.index_lt
  have hclean : c.window.Clean := h.clean _ _
  have hwindow := Machine.setWindow_machine a c hi
    ((c.window.pushMany true r.acked).pushMany false r.failures)
  rw [setGroup_record hi] at hwindow
  rw [Machine.observe, h.window_machine, ok_bind, hclean.pushManyIn_eq, ok_bind,
    (hclean.pushMany true r.acked).pushManyIn_eq, ok_bind, hwindow, ok_bind]
  exact congrArg Except.ok (count_machine _ r.acked r.failures)

theorem Housed.supervise (h : c.Housed) (now : Nat) : (c.supervise now).Housed where
  sound := h.sound.supervise now
  clean := by
    rcases supervise_ledger c now with hl | hl
    · exact hl ▸ h.clean
    · exact hl ▸ h.clean.clear Window.clean_new c.group

theorem resolve_machine {t : Trial} (htrial : c.trial? = some t) (rate : Nat) :
    c.machine.resolve t rate = (c.resolve t rate).machine := by
  have hphase := Phase.trial?_eq_some.mp htrial
  have hresolved : (c.resolve t rate).machine = _ := machine_of_searching rfl
  rw [machine_of_searching hphase, hresolved]
  simp only [Machine.resolve, resolve, column, index, width]
  split_ifs <;> rfl

theorem Housed.search_machine (h : c.Housed) (htrial : c.trial? = none) (hended : c.phase ≠ .ended)
    (hsize : c.phase = .searching none → c.window.isEmpty = false) (rate now : Nat) :
    c.machine.search a rate now = .ok ((c.search rate).settle now).machine := by
  cases hphase : c.phase with
  | ended => exact absurd hphase hended
  | staying stay => simp [Machine.search, search, settle, hphase, Phase.activity]
  | searching trial =>
    obtain rfl : trial = none := by simpa [trial?, hphase, Phase.trial?] using htrial
    have hactivity : ¬ c.machine.activity ≠ .searching := by simp [hphase, Phase.activity]
    have hfull : ¬ c.window.isEmpty = true := by simp [hsize hphase]
    rw [Machine.search, if_neg hactivity, h.window_machine, ok_bind, if_neg hfull,
      nextColumn?_machine, ok_bind]
    simp only [search, hphase]
    cases c.nextColumn? rate with
    | some next => exact h.beginTrial_machine a hphase next rate
    | none => exact congrArg Except.ok (c.settle_machine now hphase)

theorem Housed.act_machine (h : c.Housed) (horderly : c.Orderly) (now : Nat) :
    c.machine.act a now = .ok (c.act now).machine := by
  have hage (s : Stay) (hphase : c.phase = .staying s) : s.age ≤ c.limits.age :=
    (horderly.staying s hphase).2
  have hrate : c.window.throughputIn? a = .ok c.window.throughput? :=
    (h.fits _ _).throughputIn?_eq a
  rw [Machine.act, h.window_machine, ok_bind, hrate, ok_bind, act]
  cases hmeasured : c.window.throughput? with
  | none => exact supervise_machine a hage now
  | some rate =>
    have htrial : c.machine.trial? = c.trial? := rfl
    dsimp only
    rw [htrial]
    cases htrial : c.trial? with
    | some t =>
      have hphase : (c.resolve t rate).phase = .searching none := rfl
      have hidle := supervise_machine (c := c.resolve t rate) a (by simp [hphase]) now
      rw [supervise_of_searching hphase] at hidle
      dsimp only
      rw [resolve_machine htrial, hidle]
      rfl
    | none =>
      dsimp only
      rw [h.step?_machine, ok_bind]
      cases c.step? rate with
      | some index => exact supervise_machine (c := c.stepTo index) a hage now
      | none =>
        dsimp only
        rw [supervise_machine a hage now, ok_bind]
        have hsize : (c.supervise now).phase = .searching none →
            (c.supervise now).window.isEmpty = false := by
          intro hphase
          have hsame : (c.supervise now).window = c.window := by
            rw [supervise_of_phase_searching hphase]
            rfl
          have hne := (Window.throughput?_eq_some hmeasured).1
          rw [hsame]
          simpa [Window.isEmpty] using hne
        exact (h.supervise now).search_machine a ((supervise_trial? c now).trans htrial)
          (supervise_ne_ended horderly.not_ended now) hsize rate now

theorem Housed.observe (h : c.Housed) (r : Report) : (c.observe r).Housed where
  sound := h.sound.observe r
  clean := h.clean.record (fun _ acked hw => hw.push acked) _ _ _ _

theorem setAggregation_machine (c : Controller) (aggregation : Aggregation) :
    c.machine.setAggregation a aggregation = .ok (c.setAggregation aggregation).machine := by
  unfold Machine.setAggregation setAggregation
  rw [machine_aggregation]
  split_ifs
  · rfl
  · exact Machine.clearGroup_machine a { c with aggregation := aggregation }

theorem Housed.apply_machine (h : c.Housed) (horderly : c.Orderly) (e : Event) :
    c.machine.apply a e = .ok (c.apply e).machine := by
  cases e with
  | report r now =>
    rw [Machine.apply, h.observe_machine, ok_bind]
    exact (h.observe r).act_machine a (horderly.observe r) now
  | setAggregation aggregation => exact setAggregation_machine a c aggregation

theorem run_machine (caps : Capabilities) (events : List Event) :
    Machine.run a (new caps).machine events = .ok ((new caps).run events).machine := by
  induction events using List.reverseRecOn with
  | nil => rfl
  | append_singleton past e ih =>
    have hhoused : ((new caps).run past).Housed := ⟨sound_run caps past, clean_run caps past⟩
    have hcoherent := coherent_run caps past
    rw [Machine.run] at ih ⊢
    rw [List.foldlM_append, ih, ok_bind, List.foldlM_cons, run_append]
    change (Machine.apply a _ e >>= pure) = .ok (((new caps).run past).apply e).machine
    rw [hhoused.apply_machine a hcoherent.toOrderly e]
    rfl

theorem legacyRate_eq (index : Nat) :
    Memory.fetch Machine.legacyRates (min (max index 4) 11) = .ok (RatePoint.legacyRate index) := by
  by_cases hi : index < 12
  · have hall : ∀ i : Fin 12, Memory.fetch Machine.legacyRates (min (max i 4) 11) =
        .ok (RatePoint.legacyRate i) := by decide
    exact hall ⟨index, hi⟩
  · have hlast : min (max index 4) 11 = 11 := by omega
    have hnone : LegacyRate.all[max index 4]? = none := by
      rw [List.getElem?_eq_none_iff, show LegacyRate.all.length = 12 from rfl]
      omega
    simp only [hlast, RatePoint.legacyRate, hnone]
    rfl

theorem Housed.txVector_machine (h : c.Housed) : c.machine.txVector a = .ok c.txVector := by
  have hindex : c.index < ratesPerGroup := h.sound.position.index_lt
  have hfit : a.fit 8 (c.index + 3) = .ok (c.index + 3) :=
    a.fit_of_lt (by simp only [ratesPerGroup] at hindex; omega)
  have hmcs : (if c.index = 4 then .ok 8 else a.fit 8 (c.index + 3)) =
      .ok (RatePoint.twoStreamMcs c.index) := by
    rw [hfit, RatePoint.twoStreamMcs]
    split_ifs <;> rfl
  have hrate : c.machine.rate a = .ok (c.point.rate c.caps.vht) := by
    simp only [Machine.rate, RatePoint.rate, machine_column, machine_caps, machine_index, point,
      legacyRate_eq, hmcs, ok_bind, pure_eq_ok]
    cases c.column.mode <;> cases c.caps.vht <;> rfl
  rw [Machine.txVector, hrate]
  rfl

theorem history?_machine (c : Controller) (g : RateGroup) (index : Nat) :
    c.machine.history? a g index = .ok (c.ledger.window? g index) := by
  unfold Machine.history?
  split_ifs with hi
  · simp [Ledger.window?, Nat.not_lt.mpr hi]
  · have hlt : index < ratesPerGroup := Nat.not_le.mp hi
    have hcell := cell_lt g.slot_lt hlt
    have hwindow : c.ledger.window? g index =
        some c.machine.memory[g.slot * ratesPerGroup + index] := by
      rw [machine_memory, getElem_flatten_cell _ g.slot_lt hlt]
      simp [Ledger.window?, Ledger.group, hlt]
    rw [Machine.address_eq a g hlt.le, ok_bind, Memory.fetch_of_lt _ hcell, hwindow]
    rfl

/-- Whatever happens to a station, a machine can follow. It never addresses a cell or a row that is
not there, never divides by zero, and no result overflows its word; so it stops nowhere, and it
makes no difference whether an overflow would stop it or wrap around. The same goes for every
question that can then be put to it. -/
theorem machine_never_stops (a : Arithmetic) (caps : Capabilities) (events : List Event) :
    let c := (new caps).run events
    (do (← Machine.start caps).run a events) = .ok c.machine ∧
      c.machine.txVector a = .ok c.txVector ∧ c.machine.neighbours a = .ok c.neighbours ∧
      c.machine.window a = .ok c.window ∧
      ∀ g index, c.machine.history? a g index = .ok (c.ledger.window? g index) ∧
        ∀ w ∈ c.ledger.window? g index, w.failureIn? a = .ok w.failure? ∧
          w.ratioIn? a = .ok w.ratio? ∧ w.throughputIn? a = .ok w.throughput? := by
  intro c
  have hhoused : c.Housed := ⟨sound_run caps events, clean_run caps events⟩
  refine ⟨?_, hhoused.txVector_machine a, hhoused.neighbours_machine a, hhoused.window_machine a,
    fun g index => ⟨history?_machine a c g index, fun w hw => ?_⟩⟩
  · rw [Machine.start_eq, ok_bind]
    exact run_machine a caps events
  · obtain rfl : c.ledger.window g index = w := congrArg (·.getD (.new 0)) hw
    have hfits := hhoused.fits g index
    exact ⟨hfits.failureIn?_eq a, hfits.ratioIn?_eq a, hfits.throughputIn?_eq a⟩

/-- An index that no station takes up would lead out of the memory. -/
example :
    let m : Machine := { (new ⟨.mhz160, true, true⟩).machine with
      column := .mimoShort
      width := .mhz160
      aggregation := .on
      index := 15 }
    m.window .wrapping = .error .outOfBounds := by
  decide +kernel

end Controller

end LinkAdaptation
