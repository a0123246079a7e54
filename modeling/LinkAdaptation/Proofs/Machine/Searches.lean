import LinkAdaptation.Proofs.Machine.Steps

/-! Searches and stays as a machine runs them. The best rate of a column and the
first rate to try there are read off the table row by row; the age of a stay is
the one register that counts up. -/

namespace LinkAdaptation

namespace Machine

variable (a : Arithmetic)

def isPromising (m : Machine) (rate : Nat) (next : Column) : Except Trap Bool :=
  if m.visited.contains next then
    return false
  else if !next.mode.isLegacy && !m.caps.nonLegacy then
    return false
  else do
    let g := next.group (next.fit m.width) m.aggregation
    let row ← Memory.fetch CeilingTable.expected.rows g.slot
    let best ← a.fit 32 (100 * row.foldl max 0)
    return !(best ≤ rate)

def nextColumn? (m : Machine) (rate : Nat) : Except Trap (Option Column) :=
  m.column.next.findM? (m.isPromising a rate)

/-- Goes through some indices of a row, up to the first rate that is expected to exceed the
threshold. The last rate that was seen is kept. -/
def scan (row : CeilingRow) (threshold : Nat) : (indices : List Nat) → (seen : Option Nat) →
    Except Trap (Option Nat)
  | [], seen => return seen
  | i :: is, seen => do
    let ceiling ← Memory.fetch row i
    if ceiling = 0 then
      scan row threshold is seen
    else
      if threshold < (← a.fit 32 (100 * ceiling)) then
        return some i
      else
        scan row threshold is (some i)

def threshold (m : Machine) (rate : Nat) : Except Trap Nat := do
  if Controller.reliableRatio ≤ (← m.ratio a) then
    m.expectedAt a m.index
  else
    return rate

def startIndex (m : Machine) (g : RateGroup) (rate : Nat) : Except Trap Nat := do
  let threshold ← m.threshold a rate
  let row ← Memory.fetch CeilingTable.expected.rows g.slot
  return (← scan a row threshold (List.range ratesPerGroup) none).getD 0

def beginTrial (m : Machine) (next : Column) (rate : Nat) : Except Trap Machine := do
  let width := next.fit m.caps.width
  let index ← m.startIndex a (next.group width m.aggregation) rate
  clearGroup a { m with
    trial? := some ⟨⟨m.column, m.index, m.width⟩, rate⟩
    column := next
    width := width
    index := index
    visited := m.visited.insert next }

def limits (m : Machine) : StayLimits := .of m.column.mode

/-- No time has passed since the stay began if the clock went back. -/
def isOver (m : Machine) (now : Nat) : Bool :=
  m.limits.lost < m.lost || m.limits.acked < m.acked ||
    m.trial?.isNone && m.timer?.any (Stay.duration ≤ now - ·)

def supervise (m : Machine) (now : Nat) : Except Trap Machine :=
  if m.activity ≠ .staying then
    return m
  else if m.isOver now then
    return { m with
      activity := .searching
      acked := 0
      lost := 0
      age := 0
      timer? := none
      visited := .only m.column }
  else do
    let age ← a.fit 32 (m.age + 1)
    if m.limits.age < age then
      clearGroup a { m with age := 0 }
    else
      return { m with age := age }

def settle (m : Machine) (now : Nat) : Machine :=
  { m with
    activity := .staying
    acked := 0
    lost := 0
    age := 0
    timer? := some now
    visited := .only m.column }

end Machine

namespace Controller

variable {c : Controller} (a : Arithmetic)

theorem fetch_expected (g : RateGroup) :
    Memory.fetch CeilingTable.expected.rows g.slot = .ok (CeilingTable.expected.row g) :=
  Memory.fetch_of_lt _ g.slot_lt

theorem isPromising_machine (c : Controller) (rate : Nat) (next : Column) :
    c.machine.isPromising a rate next = .ok (c.isPromising rate next) := by
  have hbest (g : RateGroup) : a.fit 32 (100 * (CeilingTable.expected.row g).foldl max 0) =
      .ok (100 * CeilingTable.expected.best g) := by
    have hlt : CeilingTable.expected.best g < 2 ^ 16 := by
      rw [CeilingTable.expected_best]
      exact CeilingTable.expected_ceiling_lt g _
    rw [CeilingTable.best] at hlt ⊢
    exact a.fit_of_lt (by omega)
  simp only [Machine.isPromising, machine_visited, machine_caps, machine_width, machine_aggregation,
    pure_eq_ok, fetch_expected, hbest, ok_bind]
  rw [isPromising]
  cases c.visited.contains next with
  | true => rfl
  | false =>
    have hbeats (best : Nat) : (!decide (best ≤ rate)) = decide (rate < best) := by
      rw [← decide_not]
      exact decide_eq_decide.mpr Nat.not_le
    simp only [hbeats]
    cases next.mode.isLegacy <;> cases c.caps.nonLegacy <;> simp

theorem nextColumn?_machine (c : Controller) (rate : Nat) :
    c.machine.nextColumn? a rate = .ok (c.nextColumn? rate) :=
  findM?_of_forall_ok fun next _ => c.isPromising_machine a rate next

theorem scan_eq (g : RateGroup) (threshold : Nat) {indices : List Nat}
    (h : ∀ i ∈ indices, i < ratesPerGroup) (seen : Option Nat) :
    let rates := indices.filter (CeilingTable.expected.ceiling g · != 0)
    Machine.scan a (CeilingTable.expected.row g) threshold indices seen =
      .ok ((rates.find? (threshold < 100 * CeilingTable.expected.ceiling g ·)).or
        (rates.getLast?.or seen)) := by
  intro rates
  induction indices generalizing seen with
  | nil => rfl
  | cons i is ih =>
    have hi : i < ratesPerGroup := h i (by simp)
    have hrest := ih fun j hj => h j (by simp [hj])
    have hceiling : (CeilingTable.expected.row g)[i] = CeilingTable.expected.ceiling g i := by
      simp [CeilingTable.ceiling, hi]
    have hlt := CeilingTable.expected_ceiling_lt g i
    have hfit : a.fit 32 (100 * CeilingTable.expected.ceiling g i) = .ok _ := a.fit_of_lt (by omega)
    rw [Machine.scan, Memory.fetch_of_lt _ hi, ok_bind, hceiling, hfit, ok_bind]
    by_cases hzero : CeilingTable.expected.ceiling g i = 0
    · simp [rates, hzero, hrest]
    · by_cases hbeats : threshold < 100 * CeilingTable.expected.ceiling g i
      · simp [rates, hzero, hbeats]
      · simp [rates, hzero, hbeats, hrest, List.getLast?_cons]

theorem Housed.threshold_machine (h : c.Housed) (rate : Nat) :
    c.machine.threshold a rate = .ok (c.threshold rate) := by
  have hexpected := h.expectedAt_machine a h.sound.position.index_lt
  rw [Machine.threshold, h.ratio_machine, ok_bind, threshold]
  split_ifs
  · exact hexpected
  · rfl

theorem Housed.startIndex_machine (h : c.Housed) (g : RateGroup) (rate : Nat) :
    c.machine.startIndex a g rate = .ok (startIndex g (c.threshold rate)) := by
  have hscan := scan_eq a g (c.threshold rate) (fun i hi => List.mem_range.mp hi) none
  rw [Machine.startIndex, h.threshold_machine, ok_bind, fetch_expected, ok_bind, hscan, ok_bind,
    Option.or_none]
  rfl

theorem Housed.beginTrial_machine (h : c.Housed) (hphase : c.phase = .searching none)
    (next : Column) (rate : Nat) :
    c.machine.beginTrial a next rate = .ok (c.beginTrial next rate).machine := by
  have hindex := h.startIndex_machine a (next.group (next.fit c.caps.width) c.aggregation) rate
  have hclear := Machine.clearGroup_machine a { c with
    phase := .searching (some ⟨c.position, rate⟩)
    position := ⟨next, startIndex (next.group (next.fit c.caps.width) c.aggregation)
      (c.threshold rate), next.fit c.caps.width⟩
    visited := c.visited.insert next }
  rw [Machine.beginTrial, machine_caps, machine_aggregation, hindex, ok_bind, beginTrial, ← hclear,
    machine_of_searching hphase, machine_of_searching rfl]
  rfl

theorem supervise_machine {c : Controller}
    (hage : ∀ s, c.phase = .staying s → s.age ≤ c.limits.age) (now : Nat) :
    c.machine.supervise a now = .ok (c.supervise now).machine := by
  cases hphase : c.phase with
  | searching trial =>
    rw [supervise_of_searching hphase]
    simp [Machine.supervise, hphase, Phase.activity]
  | ended => simp [Machine.supervise, supervise, hphase, Phase.activity]
  | staying stay =>
    have hlimit : c.limits.age ≤ 1500 := by
      rw [limits_eq]
      split_ifs <;> decide
    have hfit : a.fit 32 (stay.age + 1) = .ok (stay.age + 1) :=
      a.fit_of_lt (by have := hage stay hphase; omega)
    have hover : c.machine.isOver now = stay.isOver c.limits now := by
      have hpassed : (Stay.duration ≤ now - stay.since) ↔ stay.since + Stay.duration ≤ now := by
        simp only [Stay.duration]
        omega
      rw [machine_of_staying hphase, Machine.isOver, Stay.isOver, Option.any_some,
        Option.isNone_none, Bool.true_and, decide_eq_decide.mpr hpassed]
      rfl
    have haged (age : Nat) : { c.machine with age := age } =
        ({ c with phase := .staying { stay with age := age } } : Controller).machine := by
      rw [machine_of_staying hphase, machine_of_staying rfl]
      rfl
    have hactivity : ¬ c.machine.activity ≠ .staying := by simp [hphase, Phase.activity]
    have hage' : c.machine.age = stay.age := by rw [machine_of_staying hphase]
    have hlimits : c.machine.limits = c.limits := rfl
    rw [Machine.supervise, if_neg hactivity, hover, hage', hfit, ok_bind, haged, haged, hlimits]
    simp only [supervise, hphase]
    split_ifs with hends hold
    · refine congrArg Except.ok ?_
      rw [machine_of_staying hphase]
      exact (machine_of_searching (c := { c with
        phase := .searching none
        visited := .only c.column }) rfl).symm
    · exact Machine.clearGroup_machine a _
    · rfl

theorem settle_machine (c : Controller) (now : Nat) (hphase : c.phase = .searching none) :
    c.machine.settle now = (({ c with phase := .ended } : Controller).settle now).machine := by
  rw [machine_of_searching hphase]
  rfl

end Controller

end LinkAdaptation
