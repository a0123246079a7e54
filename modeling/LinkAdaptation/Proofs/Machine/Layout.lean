import LinkAdaptation.Proofs.LedgerWindows
import LinkAdaptation.Proofs.Machine.Windows
import LinkAdaptation.Proofs.PhaseCoherence

/-! A controller as a machine holds it: registers of fixed width, and the windows
of all groups one behind the other in one memory. A window is found at the slot
of its group times the rates of a group, plus its index. -/

namespace LinkAdaptation

/-- What a station is doing, without the data that go with it. -/
inductive Activity where
  | searching
  | ended
  | staying
  deriving DecidableEq, Repr

def Phase.activity : Phase → Activity
  | .searching _ => .searching
  | .ended => .ended
  | .staying _ => .staying

abbrev Cells := Vector Window (groupCount * ratesPerGroup)

/-- The registers of a station, and its memory. The totals, the age and the timer are those of a
stay, and lie idle outside one. -/
structure Machine where
  caps : Capabilities
  activity : Activity
  column : Column
  index : Nat
  width : Width
  aggregation : Aggregation
  trial? : Option Trial
  visited : ColumnSet
  acked : Nat
  lost : Nat
  age : Nat
  timer? : Option Nat
  memory : Cells
  deriving DecidableEq

namespace Machine

variable (a : Arithmetic)

def start (caps : Capabilities) : Except Trap Machine := do
  let memory ← Vector.ofFnM fun cell : Fin (groupCount * ratesPerGroup) => do
    let row ← Memory.fetch CeilingTable.expected.rows (cell / ratesPerGroup)
    return Window.new (← Memory.fetch row (cell % ratesPerGroup))
  return {
    caps := caps
    activity := .searching
    column := .initial
    index := 0
    width := .mhz20
    aggregation := .off
    trial? := none
    visited := .only .initial
    acked := 0
    lost := 0
    age := 0
    timer? := none
    memory := memory }

def group (m : Machine) : RateGroup := m.column.group m.width m.aggregation

def address (g : RateGroup) (index : Nat) : Except Trap Nat :=
  a.fit 32 (g.slot * ratesPerGroup + index)

def windowAt (m : Machine) (index : Nat) : Except Trap Window := do
  Memory.fetch m.memory (← address a m.group index)

def window (m : Machine) : Except Trap Window := m.windowAt a m.index

def setWindow (m : Machine) (w : Window) : Except Trap Machine := do
  let memory ← Memory.store m.memory (← address a m.group m.index) w
  return { m with memory := memory }

def clearGroup (m : Machine) : Except Trap Machine := do
  let first ← address a m.group 0
  let past ← a.fit 32 (first + ratesPerGroup)
  let memory ← Memory.update m.memory first past Window.clear
  return { m with memory := memory }

end Machine

section Cells

variable {α : Type} (v : Vector (Vector α ratesPerGroup) groupCount) {slot i : Nat}

theorem cell_lt (hs : slot < groupCount) (hi : i < ratesPerGroup) :
    slot * ratesPerGroup + i < groupCount * ratesPerGroup := by
  simp only [groupCount, ratesPerGroup] at hs hi ⊢
  omega

theorem cell_div (hi : i < ratesPerGroup) : (slot * ratesPerGroup + i) / ratesPerGroup = slot := by
  simp only [ratesPerGroup] at hi ⊢
  omega

theorem cell_mod (hi : i < ratesPerGroup) : (slot * ratesPerGroup + i) % ratesPerGroup = i := by
  simp only [ratesPerGroup] at hi ⊢
  omega

theorem getElem_flatten_cell (hs : slot < groupCount) (hi : i < ratesPerGroup)
    (h : slot * ratesPerGroup + i < groupCount * ratesPerGroup) :
    v.flatten[slot * ratesPerGroup + i] = v[slot][i] := by
  simp [cell_div hi, cell_mod hi]

theorem set_flatten_cell (hs : slot < groupCount) (hi : i < ratesPerGroup) (x : α)
    (h : slot * ratesPerGroup + i < groupCount * ratesPerGroup) :
    v.flatten.set (slot * ratesPerGroup + i) x = (v.set slot (v[slot].set i x)).flatten := by
  apply Vector.ext
  intro k hk
  have hdiv := Nat.div_add_mod' k ratesPerGroup
  have hmod : k % ratesPerGroup < ratesPerGroup := Nat.mod_lt _ (by decide)
  rw [Vector.getElem_set, Vector.getElem_flatten, Vector.getElem_flatten]
  by_cases hslot : slot = k / ratesPerGroup
  · subst hslot
    by_cases hcell : i = k % ratesPerGroup
    · simp [hcell, hdiv]
    · have hne : k / ratesPerGroup * ratesPerGroup + i ≠ k := by omega
      simp [hne, hcell]
  · have hne : slot * ratesPerGroup + i ≠ k := fun hk => hslot (by rw [← hk, cell_div hi])
    simp [hne, hslot]

theorem mapIdx_flatten_row (hs : slot < groupCount) (f : α → α) :
    (v.flatten.mapIdx fun k x =>
      if slot * ratesPerGroup ≤ k ∧ k < slot * ratesPerGroup + ratesPerGroup then f x else x) =
      (v.set slot (v[slot].map f)).flatten := by
  apply Vector.ext
  intro k hk
  have hrow : (slot * ratesPerGroup ≤ k ∧ k < slot * ratesPerGroup + ratesPerGroup) ↔
      slot = k / ratesPerGroup := by
    simp only [ratesPerGroup]
    omega
  rw [Vector.getElem_mapIdx, Vector.getElem_flatten, Vector.getElem_flatten]
  simp only [hrow]
  by_cases hslot : slot = k / ratesPerGroup
  · subst hslot
    simp
  · simp [hslot]

end Cells

theorem CeilingTable.expected_ceiling_lt (g : RateGroup) (index : Nat) :
    expected.ceiling g index < 2 ^ 16 := by
  have hrows : ∀ row ∈ expected.rows, ∀ x ∈ row, x < 2 ^ 16 := by decide
  have hslot := g.slot_lt
  unfold ceiling
  cases hcell : (expected.row g)[index]? with
  | none => decide
  | some x =>
    exact hrows _ (Vector.getElem_mem hslot) x (Vector.mem_of_getElem? hcell)

namespace Controller

/-- The controller as a machine holds it. -/
@[simps]
def machine (c : Controller) : Machine where
  caps := c.caps
  activity := c.phase.activity
  column := c.column
  index := c.index
  width := c.width
  aggregation := c.aggregation
  trial? := c.trial?
  visited := c.visited
  acked := c.totals.1
  lost := c.totals.2
  age := c.tableAge
  timer? := c.timer?
  memory := c.ledger.groups.flatten

/-- What a controller keeps to so that a machine can hold it. -/
structure Housed (c : Controller) : Prop where
  sound : c.Sound
  clean : c.ledger.All Window.Clean

variable {c : Controller}

/-- Outside a stay, its registers lie idle. -/
theorem machine_of_searching {trial : Option Trial} (h : c.phase = .searching trial) :
    c.machine =
      ⟨c.caps, .searching, c.column, c.index, c.width, c.aggregation, trial, c.visited, 0, 0, 0,
        none, c.ledger.groups.flatten⟩ := by
  simp [machine, h, Phase.activity, trial?, Phase.trial?, totals, tableAge, timer?, stay?,
    Phase.stay?]

theorem machine_of_staying {stay : Stay} (h : c.phase = .staying stay) :
    c.machine =
      ⟨c.caps, .staying, c.column, c.index, c.width, c.aggregation, none, c.visited, stay.acked,
        stay.lost, stay.age, some stay.since, c.ledger.groups.flatten⟩ := by
  simp [machine, h, Phase.activity, trial?, Phase.trial?, totals, tableAge, timer?, stay?,
    Phase.stay?]

theorem Housed.fits (h : c.Housed) (g : RateGroup) (index : Nat) :
    (c.ledger.window g index).Fits where
  toClean := h.clean g index
  ceiling_lt := by
    rw [Ledger.window_ceiling, h.sound.ceilings]
    exact CeilingTable.expected_ceiling_lt g index

end Controller

namespace Machine

variable (a : Arithmetic)

theorem address_eq (g : RateGroup) {index : Nat} (hi : index ≤ ratesPerGroup) :
    address a g index = .ok (g.slot * ratesPerGroup + index) := by
  have hslot := g.slot_lt
  refine a.fit_of_lt ?_
  simp only [groupCount, ratesPerGroup] at hslot hi ⊢
  omega

theorem windowAt_machine (c : Controller) {index : Nat} (hi : index < ratesPerGroup) :
    c.machine.windowAt a index = .ok (c.windowAt index) := by
  have hcell := cell_lt c.group.slot_lt hi
  have hwindow : c.windowAt index =
      c.ledger.groups.flatten[c.group.slot * ratesPerGroup + index] := by
    rw [getElem_flatten_cell _ c.group.slot_lt hi]
    exact c.ledger.window_eq_getElem c.group hi
  rw [windowAt, address_eq a _ hi.le, ok_bind, hwindow]
  exact Memory.fetch_of_lt _ hcell

theorem setWindow_machine (c : Controller) (hi : c.index < ratesPerGroup) (w : Window) :
    c.machine.setWindow a w = .ok
      ({ c with ledger := c.ledger.setGroup c.group ((c.ledger.group c.group).set c.index w) }
        : Controller).machine := by
  have hslot := c.group.slot_lt
  have hcell := cell_lt hslot hi
  have haddress : address a c.machine.group c.machine.index =
      .ok (c.group.slot * ratesPerGroup + c.index) := address_eq a c.group hi.le
  have hstore := Memory.store_of_lt c.machine.memory w hcell
  rw [setWindow, haddress, ok_bind, hstore, ok_bind, pure_eq_ok, Controller.machine_memory,
    set_flatten_cell _ hslot hi]
  rfl

theorem clearGroup_machine (c : Controller) :
    c.machine.clearGroup a = .ok c.clearGroup.machine := by
  have hslot := c.group.slot_lt
  have hfirst : address a c.machine.group 0 = .ok (c.group.slot * ratesPerGroup) :=
    address_eq a c.group (Nat.zero_le _)
  have hpast : a.fit 32 (c.group.slot * ratesPerGroup + ratesPerGroup) = .ok _ :=
    address_eq a c.group le_rfl
  have hend : c.group.slot * ratesPerGroup + ratesPerGroup ≤ groupCount * ratesPerGroup := by
    simp only [groupCount, ratesPerGroup] at hslot ⊢
    omega
  rw [clearGroup, hfirst, ok_bind, hpast, ok_bind, Memory.update, if_pos hend, ok_bind,
    Controller.machine_memory, mapIdx_flatten_row _ hslot]
  rfl

theorem start_eq (caps : Capabilities) : start caps = .ok (Controller.new caps).machine := by
  have hcell (cell : Fin (groupCount * ratesPerGroup)) :
      (Memory.fetch CeilingTable.expected.rows (cell / ratesPerGroup) >>= fun row => do
        return Window.new (← Memory.fetch row (cell % ratesPerGroup))) =
        pure ((CeilingTable.expected.rows.map (·.map Window.new)).flatten[cell.val]) := by
    have hrow : cell / ratesPerGroup < groupCount := by
      have hlt := cell.isLt
      simp only [groupCount, ratesPerGroup] at hlt ⊢
      omega
    have hindex : cell % ratesPerGroup < ratesPerGroup := Nat.mod_lt _ (by decide)
    rw [Memory.fetch_of_lt _ hrow, ok_bind, Memory.fetch_of_lt _ hindex, ok_bind]
    simp
  rw [start, funext hcell, Vector.ofFnM_pure, pure_eq_ok, ok_bind, Vector.ofFn_getElem]
  rfl

end Machine

end LinkAdaptation
