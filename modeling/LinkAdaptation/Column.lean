import LinkAdaptation.RateGroup

/-! The columns of the rate space: combinations of mode, transmit chains and
guard interval, each with the columns that a search tries next. -/

namespace LinkAdaptation

inductive Column where
  | legacyAntA
  | legacyAntB
  | sisoAntA
  | sisoAntB
  | sisoAntAShort
  | sisoAntBShort
  | mimo
  | mimoShort
  deriving DecidableEq, Repr

/-- What a column stands for, and its neighbours in the order of search. -/
structure ColumnSpec where
  mode : Mode
  antennas : AntennaSet
  guard : GuardInterval
  next : List Column
  deriving DecidableEq, Repr

namespace Column

def all : List Column :=
  [.legacyAntA, .legacyAntB, .sisoAntA, .sisoAntB, .sisoAntAShort, .sisoAntBShort, .mimo,
    .mimoShort]

def number : Column → Nat
  | .legacyAntA => 0
  | .legacyAntB => 1
  | .sisoAntA => 2
  | .sisoAntB => 3
  | .sisoAntAShort => 4
  | .sisoAntBShort => 5
  | .mimo => 6
  | .mimoShort => 7

/-- Every station starts in the legacy column of chain A. -/
def initial : Column := .legacyAntA

def spec : Column → ColumnSpec
  | .legacyAntA => ⟨.legacy, .single .a, .long, [.legacyAntB, .sisoAntA, .mimo]⟩
  | .legacyAntB => ⟨.legacy, .single .b, .long, [.legacyAntA, .sisoAntB, .mimo]⟩
  | .sisoAntA => ⟨.siso, .single .a, .long,
      [.sisoAntB, .mimo, .sisoAntAShort, .legacyAntA, .legacyAntB]⟩
  | .sisoAntB => ⟨.siso, .single .b, .long,
      [.sisoAntA, .mimo, .sisoAntBShort, .legacyAntA, .legacyAntB]⟩
  | .sisoAntAShort => ⟨.siso, .single .a, .short,
      [.sisoAntBShort, .mimoShort, .sisoAntA, .legacyAntA, .legacyAntB]⟩
  | .sisoAntBShort => ⟨.siso, .single .b, .short,
      [.sisoAntAShort, .mimoShort, .sisoAntB, .legacyAntA, .legacyAntB]⟩
  | .mimo => ⟨.mimo, .ab, .long, [.sisoAntA, .mimoShort, .legacyAntA, .legacyAntB]⟩
  | .mimoShort => ⟨.mimo, .ab, .short, [.sisoAntAShort, .mimo, .legacyAntA, .legacyAntB]⟩

def mode (c : Column) : Mode := c.spec.mode

def antennas (c : Column) : AntennaSet := c.spec.antennas

def guard (c : Column) : GuardInterval := c.spec.guard

def next (c : Column) : List Column := c.spec.next

def group (c : Column) (width : Width) (aggregation : Aggregation) : RateGroup :=
  ⟨c.mode, width, c.guard, aggregation⟩

def name (c : Column) : String := s!"{c.mode.name}/{c.antennas.name}/{c.guard.name}"

def find? (mode : Mode) (antennas : AntennaSet) (guard : GuardInterval) : Option Column :=
  all.find? fun c => c.mode = mode ∧ c.antennas = antennas ∧ c.guard = guard

theorem mem_all (c : Column) : c ∈ all := by
  cases c <;> decide

theorem number_lt (c : Column) : c.number < 8 := by
  cases c <;> decide

theorem number_inj {c d : Column} : c.number = d.number ↔ c = d := by
  constructor
  · cases c <;> cases d <;> first | exact fun _ => rfl | exact fun h => absurd h (by decide)
  · exact congrArg number

theorem count_antennas (c : Column) : c.antennas.count = c.mode.streams := by
  cases c <;> rfl

theorem guard_of_isLegacy {c : Column} (h : c.mode.isLegacy = true) : c.guard = .long := by
  cases c <;> first | rfl | cases h

/-- Columns that share statistics differ in their chains at most. -/
theorem slot_ne {c d : Column} (h : c.mode ≠ d.mode ∨ c.guard ≠ d.guard) (w w' : Width)
    (agg agg' : Aggregation) : (c.group w agg).slot ≠ (d.group w' agg').slot := by
  intro hslot
  have hmode : c.mode = d.mode := RateGroup.mode_of_slot_eq hslot
  rcases h with h | h
  · exact h hmode
  · cases hl : c.mode.isLegacy with
    | true => exact h ((guard_of_isLegacy hl).trans (guard_of_isLegacy (hmode ▸ hl)).symm)
    | false => exact h (RateGroup.guard_of_slot_eq hl hslot)

theorem find?_spec (c : Column) : find? c.mode c.antennas c.guard = some c := by
  cases c <;> rfl

end Column

end LinkAdaptation
