import LinkAdaptation.Column

/-! Sets of columns, one bit per column. -/

namespace LinkAdaptation

structure ColumnSet where
  bits : BitVec 8
  deriving DecidableEq, Repr

namespace ColumnSet

def empty : ColumnSet := ⟨0⟩

def insert (s : ColumnSet) (c : Column) : ColumnSet := ⟨s.bits ||| BitVec.twoPow 8 c.number⟩

def only (c : Column) : ColumnSet := empty.insert c

def contains (s : ColumnSet) (c : Column) : Bool := s.bits.getLsbD c.number

def toList (s : ColumnSet) : List Column := Column.all.filter s.contains

def size (s : ColumnSet) : Nat := s.toList.length

def isEmpty (s : ColumnSet) : Bool := s.bits == 0

theorem contains_empty (c : Column) : empty.contains c = false := by
  simp [contains, empty]

theorem contains_insert (s : ColumnSet) (c d : Column) :
    (s.insert c).contains d = (d == c || s.contains d) := by
  have h := c.number_lt
  have hd : (d == c) = decide (c = d) := by cases c <;> cases d <;> rfl
  rw [hd, Bool.or_comm]
  simp only [contains, insert, BitVec.getLsbD_or, BitVec.getLsbD_twoPow, Column.number_inj, h,
    decide_true, Bool.true_and]

theorem contains_only (c d : Column) : (only c).contains d = (d == c) := by
  simp [only, contains_insert, contains_empty]

theorem ext_contains {s t : ColumnSet} (h : ∀ c, s.contains c = t.contains c) : s = t := by
  obtain ⟨s⟩ := s
  obtain ⟨t⟩ := t
  congr 1
  apply BitVec.eq_of_getLsbD_eq
  intro i hi
  have hc : ∃ c : Column, c.number = i := by
    match i, hi with
    | 0, _ => exact ⟨.legacyAntA, rfl⟩
    | 1, _ => exact ⟨.legacyAntB, rfl⟩
    | 2, _ => exact ⟨.sisoAntA, rfl⟩
    | 3, _ => exact ⟨.sisoAntB, rfl⟩
    | 4, _ => exact ⟨.sisoAntAShort, rfl⟩
    | 5, _ => exact ⟨.sisoAntBShort, rfl⟩
    | 6, _ => exact ⟨.mimo, rfl⟩
    | 7, _ => exact ⟨.mimoShort, rfl⟩
  obtain ⟨c, rfl⟩ := hc
  exact h c

theorem mem_toList (s : ColumnSet) (c : Column) : c ∈ s.toList ↔ s.contains c = true := by
  simp [toList, Column.mem_all]

theorem size_le (s : ColumnSet) : s.size ≤ 8 :=
  List.length_filter_le _ _

theorem size_insert {s : ColumnSet} {c : Column} (h : s.contains c = false) :
    (s.insert c).size = s.size + 1 := by
  have hs : (s.insert c).contains = fun d => d == c || s.contains d :=
    funext (contains_insert s c)
  simp only [size, toList, hs]
  generalize s.contains = p at h
  rw [← List.countP_eq_length_filter, ← List.countP_eq_length_filter]
  cases c <;> simp [Column.all, List.countP_cons, h] <;> omega

end ColumnSet

end LinkAdaptation
