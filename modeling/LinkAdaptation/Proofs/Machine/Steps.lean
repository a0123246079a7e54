import LinkAdaptation.Proofs.BestRates
import LinkAdaptation.Proofs.Machine.Layout
import LinkAdaptation.Proofs.SendableVectors
import Mathlib.Data.List.Find

/-! Steps as a machine takes them. The neighbours of a rate are looked up in the
windows one by one, and the measurements there are put to one test after another.
What comes out is the step of the controller. -/

namespace LinkAdaptation

section Candidates

variable (p : Nat → Bool) {index last n : Nat}

theorem find?_filter_lt (h : index ≤ n) :
    ((List.range n).filter p).reverse.find? (· < index) = (List.range index).reverse.find? p := by
  obtain ⟨k, rfl⟩ := Nat.exists_eq_add_of_le h
  have hlow : (List.range index).reverse.find? (fun i => p i && decide (i < index)) =
      (List.range index).reverse.find? p :=
    List.find?_congr fun i hi => by simp [List.mem_range.mp (List.mem_reverse.mp hi)]
  have hhigh : ((List.range k).map (index + ·)).reverse.find? (fun i => p i && decide (i < index)) =
      none := by
    simp
  rw [← List.filter_reverse, List.find?_filter]
  simpa [List.range_add, hhigh] using hlow

theorem find?_filter_gt (hindex : index ≤ last) (hlast : last < n)
    (hp : ∀ i, last < i → p i = false) :
    ((List.range n).filter p).find? (index < ·) =
      (List.range' (index + 1) (last - index)).find? p := by
  have hsplit : List.range n = List.range (index + 1) ++
      (List.range' (index + 1) (last - index) ++ List.range' (last + 1) (n - (last + 1))) := by
    have hend : index + 1 + (last - index) = last + 1 := by omega
    calc List.range n = List.range' 0 (index + 1 + (last - index + (n - (last + 1)))) := by
          rw [List.range_eq_range']
          congr 1
          omega
      _ = _ := by
          rw [← List.range'_append_1, ← List.range_eq_range', Nat.zero_add, ← List.range'_append_1,
            hend]
  have hlow : (List.range (index + 1)).find? (fun i => p i && decide (index < i)) = none := by
    simp
    omega
  have hmid : (List.range' (index + 1) (last - index)).find? (fun i => p i && decide (index < i)) =
      (List.range' (index + 1) (last - index)).find? p :=
    List.find?_congr fun i hi => by
      have hmem := List.mem_range'_1.mp hi
      have hlt : index < i := by omega
      simp [hlt]
  have hhigh :
      (List.range' (last + 1) (n - (last + 1))).find? (fun i => p i && decide (index < i)) = none := by
    rw [List.find?_eq_none]
    intro i hi
    have hmem := List.mem_range'_1.mp hi
    simp [hp i (by omega)]
  rw [List.find?_filter, hsplit]
  simpa [hlow, hhigh] using hmid

end Candidates

/-- The outcome of the tests that decide on a step. -/
inductive Direction where
  | down
  | stay
  | up
  deriving DecidableEq, Repr

/-- The index to which a direction leads. -/
def Neighbours.toward (n : Neighbours) : Direction → Option Nat
  | .down => n.lower
  | .up => n.upper
  | .stay => none

namespace Machine

variable (a : Arithmetic)

def isRate (m : Machine) (index : Nat) : Except Trap Bool := do
  return (← m.windowAt a index).ceiling != 0

/-- The search upwards begins behind the index, which stays within its word, and ends at the last
index of the width. -/
def neighbours (m : Machine) : Except Trap Neighbours :=
  if m.column.mode.isLegacy then
    return Neighbours.legacy[m.index]?.getD ⟨none, none⟩
  else do
    let next := min (m.index + 1) 255
    let last := if m.width = .mhz20 then 13 else 14
    let lower ← (List.range m.index).reverse.findM? (m.isRate a)
    let upper ← (List.range' next (last + 1 - next)).findM? (m.isRate a)
    return ⟨lower, upper⟩

def measured? (m : Machine) : Option Nat → Except Trap (Option Nat)
  | none => return none
  | some i => do (← m.windowAt a i).throughputIn? a

def ratio (m : Machine) : Except Trap Nat := do
  return (← (← m.window a).ratioIn? a).getD 0

def expectedAt (m : Machine) (index : Nat) : Except Trap Nat := do
  a.fit 32 (100 * (← m.windowAt a index).ceiling)

/-- A step down is not taken where the rate is reliable or beats all that the lower one could give. -/
def descent (m : Machine) (rate : Nat) (n : Neighbours) : Except Trap Direction :=
  match n.lower with
  | none => return .down
  | some i => do
    if Controller.reliableRatio ≤ (← m.ratio a) then
      return .stay
    else
      if (← m.expectedAt a i) < rate then return .stay else return .down

/-- The tests are made in this order, and the first that applies decides. -/
def direction (m : Machine) (rate : Nat) (n : Neighbours) (low high : Option Nat) :
    Except Trap Direction := do
  let ratio ← m.ratio a
  if ratio ≤ Controller.hopelessRatio ∨ rate = 0 then
    return .down
  else if low.isNone && high.isNone && n.upper.isSome then
    return .up
  else if high.isNone && n.upper.isSome && low.any (· < rate) then
    return .up
  else if high.any (rate < ·) then
    return .up
  else if low.any (· < rate) && high.any (· < rate) then
    return .stay
  else if low.any (rate < ·) || low.isNone && n.lower.isSome then
    m.descent a rate n
  else
    return .stay

def step? (m : Machine) (rate : Nat) : Except Trap (Option Nat) := do
  let n ← m.neighbours a
  let low ← m.measured? a n.lower
  let high ← m.measured? a n.upper
  return n.toward (← m.direction a rate n low high)

end Machine

namespace Controller

variable {c : Controller} (a : Arithmetic)

theorem Housed.ceiling_windowAt (h : c.Housed) (index : Nat) :
    (c.windowAt index).ceiling = CeilingTable.expected.ceiling c.group index := by
  rw [windowAt, Ledger.window_ceiling, h.sound.ceilings]

theorem Housed.isRate_machine (h : c.Housed) {index : Nat} (hi : index < ratesPerGroup) :
    c.machine.isRate a index = .ok (CeilingTable.expected.ceiling c.group index != 0) := by
  rw [Machine.isRate, Machine.windowAt_machine a c hi, ok_bind, h.ceiling_windowAt]
  rfl

theorem Housed.neighbours_machine (h : c.Housed) : c.machine.neighbours a = .ok c.neighbours := by
  cases hl : c.column.mode.isLegacy with
  | true =>
    have hof : c.neighbours = Neighbours.legacy[c.index]?.getD ⟨none, none⟩ := if_pos hl
    rw [hof]
    exact if_pos hl
  | false =>
    have hmode : c.group.mode.isLegacy = false := hl
    have hof : c.neighbours = .within c.group c.index := if_neg (by simp [hmode])
    let last := c.column.mode.lastRate c.width
    have hlast : (if c.width = .mhz20 then 13 else 14) = last := by
      cases hm : c.column.mode with
      | legacy => simp [hm, Mode.isLegacy] at hl
      | siso | mimo => simp [last, hm, Mode.lastRate]
    have hle : c.index ≤ last := Mode.le_lastRate h.sound.hasRate
    have hlt : last < ratesPerGroup := Mode.hasRate_lt (Mode.hasRate_lastRate _ _)
    have hnone (i : Nat) (hi : last < i) :
        (CeilingTable.expected.ceiling c.group i != 0) = false := by
      have hrate := mt (CeilingTable.expected_ceiling_ne_zero c.group i).mp
        fun hrate => Nat.not_le.mpr hi (Mode.le_lastRate hrate)
      simpa using hrate
    have hlower : (List.range c.index).reverse.findM? (c.machine.isRate a) =
        .ok (Neighbours.within c.group c.index).lower := by
      rw [findM?_of_forall_ok fun i hi => h.isRate_machine a (by
        have hmem := List.mem_range.mp (List.mem_reverse.mp hi)
        omega)]
      exact congrArg Except.ok (find?_filter_lt _ (hle.trans hlt.le)).symm
    have hupper : (List.range' (c.index + 1) (last - c.index)).findM? (c.machine.isRate a) =
        .ok (Neighbours.within c.group c.index).upper := by
      rw [findM?_of_forall_ok fun i hi => h.isRate_machine a (by
        have hmem := List.mem_range'_1.mp hi
        omega)]
      exact congrArg Except.ok (find?_filter_gt _ hle hlt hnone).symm
    have hnext : min (c.index + 1) 255 = c.index + 1 := by
      simp only [ratesPerGroup] at hlt
      omega
    simp only [Machine.neighbours, machine_column, machine_index, machine_width, hl, hlast, hnext,
      Nat.add_sub_add_right, hlower, hupper, ok_bind, hof]
    rfl

theorem Housed.measured?_machine (h : c.Housed) {i : Option Nat}
    (hi : ∀ index ∈ i, index < ratesPerGroup) :
    c.machine.measured? a i = .ok (i.bind fun index => (c.windowAt index).throughput?) := by
  cases i with
  | none => rfl
  | some index =>
    rw [Machine.measured?, Machine.windowAt_machine a c (hi index rfl), ok_bind]
    exact (h.fits _ _).throughputIn?_eq a

theorem Housed.window_machine (h : c.Housed) : c.machine.window a = .ok c.window :=
  Machine.windowAt_machine a c h.sound.position.index_lt

theorem Housed.ratio_machine (h : c.Housed) : c.machine.ratio a = .ok c.ratio := by
  have hratio : c.window.ratioIn? a = .ok c.window.ratio? := (h.fits _ _).ratioIn?_eq a
  rw [Machine.ratio, h.window_machine, ok_bind, hratio]
  rfl

theorem Housed.expectedAt_machine (h : c.Housed) {index : Nat} (hi : index < ratesPerGroup) :
    c.machine.expectedAt a index = .ok (c.expectedAt index) := by
  have hceiling := CeilingTable.expected_ceiling_lt c.group index
  rw [Machine.expectedAt, Machine.windowAt_machine a c hi, ok_bind, h.ceiling_windowAt]
  exact a.fit_of_lt (by omega)

theorem Housed.descent_machine (h : c.Housed) (rate : Nat) {n : Neighbours}
    (hlower : ∀ i ∈ n.lower, i < ratesPerGroup) :
    n.toward <$> c.machine.descent a rate n = .ok
      (if c.ratio < reliableRatio && n.lower.any (rate ≤ c.expectedAt ·) then n.lower
      else none) := by
  unfold Machine.descent
  cases hl : n.lower with
  | none => simp [Neighbours.toward, hl]
  | some i =>
    have hexpected := h.expectedAt_machine a (hlower i hl)
    simp only [h.ratio_machine, hexpected, ok_bind, pure_eq_ok]
    by_cases hreliable : reliableRatio ≤ c.ratio
    · simp [hreliable, Neighbours.toward]
    · by_cases hbeats : c.expectedAt i < rate
      · simp [hreliable, hbeats, Neighbours.toward]
      · simp [hreliable, hbeats, Neighbours.toward, hl]

theorem Housed.direction_machine (h : c.Housed) (rate : Nat) {n : Neighbours}
    (hlower : ∀ i ∈ n.lower, i < ratesPerGroup) (low high : Option Nat) :
    n.toward <$> c.machine.direction a rate n low high = .ok
      (if c.ratio ≤ hopelessRatio ∨ rate = 0 then
        n.lower
      else if (n.upper.isSome && high.isNone && low.all (· < rate)) || high.any (rate < ·) then
        n.upper
      else if low.all (rate < ·) && c.ratio < reliableRatio &&
          n.lower.any (rate ≤ c.expectedAt ·) then
        n.lower
      else none) := by
  simp only [Machine.direction, h.ratio_machine, ok_bind, pure_eq_ok]
  by_cases hopeless : c.ratio ≤ hopelessRatio ∨ rate = 0
  · rw [if_pos hopeless, if_pos hopeless]
    rfl
  · rw [if_neg hopeless, if_neg hopeless]
    have hdescent := h.descent_machine a rate hlower
    -- the second to the fourth test together are the test for a step up
    have hup : ((low.isNone && high.isNone && n.upper.isSome ||
        high.isNone && n.upper.isSome && low.any (· < rate)) || high.any (rate < ·)) =
        ((n.upper.isSome && high.isNone && low.all (· < rate)) || high.any (rate < ·)) := by
      cases low <;> cases high <;> cases n.upper <;> simp
    rw [← hup]
    by_cases hfirst : (low.isNone && high.isNone && n.upper.isSome) = true
    · simp [hfirst, Neighbours.toward]
    by_cases hsecond : (high.isNone && n.upper.isSome && low.any (· < rate)) = true
    · simp [hsecond, Neighbours.toward]
    by_cases hthird : high.any (rate < ·) = true
    · simp [hthird, Neighbours.toward]
    rw [Bool.not_eq_true] at hfirst hsecond hthird
    simp only [hfirst, hsecond, hthird, Bool.or_self, Bool.false_eq_true, if_false]
    cases low with
    | none =>
      cases hl : n.lower with
      | none => simp [Neighbours.toward]
      | some i => simpa [hl] using hdescent
    | some l =>
      by_cases hbetter : rate < l
      · have hnot : ¬ l < rate := by omega
        simpa [hbetter, hnot] using hdescent
      · simp [hbetter, Neighbours.toward]

theorem Housed.step?_machine (h : c.Housed) (rate : Nat) :
    c.machine.step? a rate = .ok (c.step? rate) := by
  have hrange (i : Nat) (hi : c.neighbours.lower = some i ∨ c.neighbours.upper = some i) :
      i < ratesPerGroup :=
    CeilingTable.lt_of_ceiling_ne_zero (CeilingTable.mem_rates.mp (Neighbours.mem_rates hi))
  have hdirection := h.direction_machine a rate fun i hi => hrange i (.inl hi)
  have hlow := h.measured?_machine a fun i hi => hrange i (.inl hi)
  have hhigh := h.measured?_machine a fun i hi => hrange i (.inr hi)
  rw [Machine.step?, h.neighbours_machine, ok_bind, hlow, ok_bind, hhigh, ok_bind]
  exact hdirection _ _

end Controller

end LinkAdaptation
