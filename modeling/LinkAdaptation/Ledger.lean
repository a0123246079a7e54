import LinkAdaptation.Ceilings
import LinkAdaptation.Window

/-! The statistics of a station: one window per group and rate index. The
laws below say what each operation does to each window. -/

namespace LinkAdaptation

structure Ledger where
  groups : Vector (Vector Window ratesPerGroup) groupCount
  deriving DecidableEq

namespace Ledger

def new (table : CeilingTable) : Ledger := ⟨table.rows.map (·.map Window.new)⟩

def group (l : Ledger) (g : RateGroup) : Vector Window ratesPerGroup :=
  have h := g.slot_lt
  l.groups[g.slot]

def setGroup (l : Ledger) (g : RateGroup) (row : Vector Window ratesPerGroup) : Ledger :=
  ⟨l.groups.set g.slot row g.slot_lt⟩

def window? (l : Ledger) (g : RateGroup) (index : Nat) : Option Window := (l.group g)[index]?

/-- The window of a rate; an index past the end stands for a rate that does not exist. -/
def window (l : Ledger) (g : RateGroup) (index : Nat) : Window :=
  (l.window? g index).getD (.new 0)

def record (l : Ledger) (g : RateGroup) (index acked lost : Nat) : Ledger :=
  l.setGroup g <| (l.group g).setIfInBounds index <|
    ((l.window g index).pushMany true acked).pushMany false lost

def clear (l : Ledger) (g : RateGroup) : Ledger := l.setGroup g ((l.group g).map Window.clear)

theorem group_new (table : CeilingTable) (g : RateGroup) :
    (new table).group g = (table.row g).map Window.new := by
  simp [new, group, CeilingTable.row]

theorem group_setGroup (l : Ledger) {g g' : RateGroup} (row : Vector Window ratesPerGroup)
    (h : g.slot = g'.slot) : (l.setGroup g row).group g' = row := by
  simp [setGroup, group, h]

theorem group_setGroup_of_ne (l : Ledger) {g g' : RateGroup} (row : Vector Window ratesPerGroup)
    (h : g.slot ≠ g'.slot) : (l.setGroup g row).group g' = l.group g' :=
  Vector.getElem_set_ne g.slot_lt g'.slot_lt h

theorem window_new (table : CeilingTable) (g : RateGroup) (index : Nat) :
    (new table).window g index = .new (table.ceiling g index) := by
  by_cases h : index < ratesPerGroup <;>
    simp [window, window?, group_new, CeilingTable.ceiling, h]

theorem window_record_self (l : Ledger) (g : RateGroup) {index : Nat} (acked lost : Nat)
    (h : index < ratesPerGroup) :
    (l.record g index acked lost).window g index =
      ((l.window g index).pushMany true acked).pushMany false lost := by
  rw [window, window?, record, group_setGroup _ _ rfl]
  simp [h]

theorem window_record_of_ne (l : Ledger) (g : RateGroup) {index other : Nat} (acked lost : Nat)
    (h : index ≠ other) : (l.record g index acked lost).window g other = l.window g other := by
  rw [window, window?, record, group_setGroup _ _ rfl]
  simp [window, window?, h]

theorem group_record_of_ne (l : Ledger) {g g' : RateGroup} (index acked lost : Nat)
    (h : g.slot ≠ g'.slot) : (l.record g index acked lost).group g' = l.group g' :=
  group_setGroup_of_ne l _ h

theorem window_clear_self (l : Ledger) (g : RateGroup) (index : Nat) :
    (l.clear g).window g index = (l.window g index).clear := by
  rw [window, window?, clear, group_setGroup _ _ rfl]
  by_cases h : index < ratesPerGroup <;> simp [window, window?, h, Window.clear, Window.new]

theorem group_clear_of_ne (l : Ledger) {g g' : RateGroup} (h : g.slot ≠ g'.slot) :
    (l.clear g).group g' = l.group g' :=
  group_setGroup_of_ne l _ h

end Ledger

end LinkAdaptation
