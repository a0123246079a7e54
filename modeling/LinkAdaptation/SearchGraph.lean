import LinkAdaptation.Ceilings
import LinkAdaptation.ColumnSet

/-! The graph that a search follows from column to column, and the check that
no search can get stuck in it. The check walks the columns with a stack and
visits each at most once; it ends because a visit takes a column off the stack
and puts only unseen ones on it. -/

namespace LinkAdaptation

def Mode.widths (m : Mode) : List Width := if m.isLegacy then [.mhz20] else Width.all

abbrev SearchGraph := Column → ColumnSpec

/-- The columns reached so far, and those whose neighbours are still to be visited. -/
structure Walk where
  seen : ColumnSet
  stack : List Column

namespace Walk

def start : Walk := ⟨.only .initial, [.initial]⟩

def discover (w : Walk) (c : Column) : Walk :=
  if w.seen.contains c then w else ⟨w.seen.insert c, c :: w.stack⟩

def visit (graph : SearchGraph) (w : Walk) (c : Column) (rest : List Column) : Walk :=
  (graph c).next.foldl discover ⟨w.seen, rest⟩

/-- Unseen columns count twice, so that discovering one makes progress. -/
def remaining (w : Walk) : Nat := 2 * (8 - w.seen.size) + w.stack.length

theorem remaining_discover_le (w : Walk) (c : Column) :
    (w.discover c).remaining ≤ w.remaining := by
  unfold discover
  split
  · exact Nat.le_refl _
  · rename_i h
    have hc := ColumnSet.size_insert (s := w.seen) (c := c) (by simpa using h)
    have hle := (w.seen.insert c).size_le
    simp only [remaining, List.length_cons]
    omega

theorem remaining_foldl_le (w : Walk) (cs : List Column) :
    (cs.foldl discover w).remaining ≤ w.remaining := by
  induction cs generalizing w with
  | nil => exact Nat.le_refl _
  | cons c cs ih => exact Nat.le_trans (ih _) (remaining_discover_le w c)

theorem remaining_visit_lt (graph : SearchGraph) {w : Walk} {c : Column} {rest : List Column}
    (h : w.stack = c :: rest) : (w.visit graph c rest).remaining < w.remaining := by
  refine Nat.lt_of_le_of_lt (remaining_foldl_le _ _) ?_
  simp [remaining, h]

end Walk

namespace SearchGraph

/-- A column has somewhere to go, and a rate at every width it can run at. -/
def isSound (graph : SearchGraph) (table : CeilingTable) (c : Column) : Bool :=
  let spec := graph c
  !spec.next.isEmpty && spec.mode.widths.all fun width =>
    [.off, .on].all fun aggregation =>
      table.best ⟨spec.mode, width, spec.guard, aggregation⟩ != 0

def checkFrom (graph : SearchGraph) (table : CeilingTable) (w : Walk) : Except Fault Unit :=
  match _h : w.stack with
  | [] => .ok ()
  | c :: rest =>
    if graph.isSound table c then
      graph.checkFrom table (w.visit graph c rest)
    else
      .error .configuration
termination_by w.remaining
decreasing_by exact Walk.remaining_visit_lt graph _h

def check (graph : SearchGraph) (table : CeilingTable) : Except Fault Unit :=
  graph.checkFrom table .start

end SearchGraph

def checkConfiguration : Except Fault Unit := do
  CeilingTable.expected.check
  SearchGraph.check Column.spec .expected

end LinkAdaptation
