import LinkAdaptation.Proofs.Machine.Arithmetic
import LinkAdaptation.Proofs.ReachableColumns

/-! The walk of the search graph as a machine makes it, with eight cells for the
columns that are still to be visited. Each column that is on the stack or has been
visited is one of those seen, and there are only eight to be seen. So the cells
suffice for every graph, and the walk is over within eight visits. -/

namespace LinkAdaptation

/-- The stack lies in the first `depth` cells, with its top in the last of them. -/
structure WalkMachine where
  seen : ColumnSet
  cells : Vector Column 8
  depth : Nat
  deriving DecidableEq

namespace WalkMachine

variable (a : Arithmetic)

def start : WalkMachine := ⟨.only .initial, .replicate 8 .initial, 1⟩

def discover (m : WalkMachine) (c : Column) : Except Trap WalkMachine :=
  if m.seen.contains c then
    return m
  else do
    let cells ← Memory.store m.cells m.depth c
    let depth ← a.fit 32 (m.depth + 1)
    return ⟨m.seen.insert c, cells, depth⟩

/-- Takes the top off the stack and goes on to its neighbours, or to nothing if it is not sound. -/
def visit? (graph : SearchGraph) (table : CeilingTable) (m : WalkMachine) :
    Except Trap (Option WalkMachine) := do
  let depth ← a.sub 32 m.depth 1
  let c ← Memory.fetch m.cells depth
  if graph.isSound table c then
    let next ← (graph c).next.foldlM (discover a) { m with depth := depth }
    return some next
  else
    return none

/-- The answer of a walk, if it is over within some number of visits. -/
def check? (graph : SearchGraph) (table : CeilingTable) (visits : Nat) (m : WalkMachine) :
    Except Trap (Option (Except Fault Unit)) :=
  if m.depth = 0 then
    return some (.ok ())
  else
    match visits with
    | 0 => return none
    | visits + 1 => do
      match ← m.visit? a graph table with
      | none => return some (.error .configuration)
      | some next => next.check? graph table visits

/-- The walk that the machine is making. -/
def walk (m : WalkMachine) : Walk := ⟨m.seen, (m.cells.toList.take m.depth).reverse⟩

/-- The columns seen are those on the stack and those visited. -/
def HasVisited (m : WalkMachine) (visits : Nat) : Prop := m.seen.size = m.depth + visits

theorem walk_start : start.walk = .start := rfl

theorem hasVisited_start : start.HasVisited 0 := rfl

section Stack

variable {α : Type} {n i : Nat} (cells : Vector α n) (h : i < n)

include h

theorem reverse_take_succ :
    (cells.toList.take (i + 1)).reverse = cells[i] :: (cells.toList.take i).reverse := by
  have hlength : i < cells.toList.length := by simpa using h
  rw [← List.take_append_getElem hlength, List.reverse_concat, Vector.getElem_toList]

theorem reverse_take_set (x : α) :
    ((cells.set i x).toList.take (i + 1)).reverse = x :: (cells.toList.take i).reverse := by
  rw [reverse_take_succ _ h, Vector.getElem_set_self, Vector.toList_set,
    List.take_set_of_le (Nat.le_refl i)]

end Stack

namespace HasVisited

variable {graph : SearchGraph} {table : CeilingTable} {m : WalkMachine} {visits : Nat}
  {c : Column} {rest : List Column} (h : m.HasVisited visits)

include h

theorem depth_add_le : m.depth + visits ≤ 8 := h ▸ m.seen.size_le

theorem length_stack : m.walk.stack.length = m.depth := by
  have hle := h.depth_add_le
  rw [walk, List.length_reverse, List.length_take, Vector.length_toList]
  exact Nat.min_eq_left (by omega)

theorem depth_eq_of_cons (hstack : m.walk.stack = c :: rest) : m.depth = rest.length + 1 := by
  rw [← h.length_stack, hstack, List.length_cons]

theorem discover (c : Column) :
    ∃ next, m.discover a c = .ok next ∧ next.walk = m.walk.discover c ∧
      next.HasVisited visits := by
  by_cases hseen : m.seen.contains c = true
  · exact ⟨m, if_pos hseen, (if_pos hseen).symm, h⟩
  · have hsize : (m.seen.insert c).size = m.seen.size + 1 :=
      ColumnSet.size_insert (Bool.eq_false_iff.mpr hseen)
    have hle := (m.seen.insert c).size_le
    have hcount : m.seen.size = m.depth + visits := h
    -- the column is a new one, so there is room for it
    have hdepth : m.depth < 8 := by omega
    have hstore := Memory.store_of_lt m.cells c hdepth
    have hfit : a.fit 32 (m.depth + 1) = .ok (m.depth + 1) := a.fit_of_lt (by omega)
    refine ⟨⟨m.seen.insert c, m.cells.set m.depth c, m.depth + 1⟩, ?_, ?_, ?_⟩
    · rw [WalkMachine.discover, if_neg hseen, hstore, ok_bind, hfit]
      rfl
    · have hnew : ¬ m.walk.seen.contains c = true := hseen
      rw [Walk.discover, if_neg hnew, walk, reverse_take_set _ hdepth]
      rfl
    · change (m.seen.insert c).size = m.depth + 1 + visits
      omega

theorem foldlM_discover (cs : List Column) :
    ∃ next, cs.foldlM (WalkMachine.discover a) m = .ok next ∧
      next.walk = cs.foldl Walk.discover m.walk ∧ next.HasVisited visits := by
  induction cs generalizing m with
  | nil => exact ⟨m, rfl, rfl, h⟩
  | cons c cs ih =>
    obtain ⟨first, hfirst, hwalk, hvisited⟩ := h.discover a c
    rw [List.foldlM_cons, hfirst, ok_bind, List.foldl_cons, ← hwalk]
    exact ih hvisited

theorem pop (hstack : m.walk.stack = c :: rest) :
    a.sub 32 m.depth 1 = .ok rest.length ∧ Memory.fetch m.cells rest.length = .ok c ∧
      { m with depth := rest.length }.walk = ⟨m.seen, rest⟩ := by
  have hdepth := h.depth_eq_of_cons hstack
  have hle := h.depth_add_le
  have hcell : rest.length < 8 := by omega
  have hcells : m.cells[rest.length] :: (m.cells.toList.take rest.length).reverse = c :: rest := by
    rw [← reverse_take_succ, ← hdepth]
    exact hstack
  obtain ⟨htop, hrest⟩ := List.cons.inj hcells
  refine ⟨?_, ?_, congrArg (Walk.mk m.seen) hrest⟩
  · rw [a.sub_of_le (by omega) (by omega), hdepth, Nat.add_sub_cancel]
  · rw [Memory.fetch_of_lt _ hcell, htop]

theorem visit?_of_sound (hstack : m.walk.stack = c :: rest)
    (hsound : graph.isSound table c = true) :
    ∃ next, m.visit? a graph table = .ok (some next) ∧ next.walk = m.walk.visit graph c rest ∧
      next.HasVisited (visits + 1) := by
  obtain ⟨hsub, hfetch, hwalk⟩ := h.pop a hstack
  have hpopped : { m with depth := rest.length }.HasVisited (visits + 1) := by
    have hcount : m.seen.size = m.depth + visits := h
    have hdepth := h.depth_eq_of_cons hstack
    change m.seen.size = rest.length + (visits + 1)
    omega
  obtain ⟨next, hnext, hseen, hvisited⟩ := hpopped.foldlM_discover a (graph c).next
  refine ⟨next, ?_, ?_, hvisited⟩
  · rw [visit?, hsub, ok_bind, hfetch, ok_bind, if_pos hsound, hnext]
    rfl
  · rw [hseen, hwalk]
    rfl

theorem visit?_of_not_sound (hstack : m.walk.stack = c :: rest)
    (hsound : ¬ graph.isSound table c = true) : m.visit? a graph table = .ok none := by
  obtain ⟨hsub, hfetch, -⟩ := h.pop a hstack
  rw [visit?, hsub, ok_bind, hfetch, ok_bind, if_neg hsound]
  rfl

theorem check?_of_cons (hstack : m.walk.stack = c :: rest) :
    m.check? a graph table (8 - visits) = (do
      match ← m.visit? a graph table with
      | none => return some (.error .configuration)
      | some next => next.check? a graph table (8 - (visits + 1))) := by
  have hdepth := h.depth_eq_of_cons hstack
  have hle := h.depth_add_le
  have hvisits : 8 - visits = 8 - (visits + 1) + 1 := by omega
  have hnonempty : m.depth ≠ 0 := by omega
  rw [hvisits, check?, if_neg hnonempty]

theorem check?_eq {w : Walk} (hw : m.walk = w) :
    m.check? a graph table (8 - visits) = .ok (some (graph.checkFrom table w)) := by
  fun_induction graph.checkFrom table w generalizing m visits with
  | case1 w hstack =>
    have hdepth : m.depth = 0 := by rw [← h.length_stack, hw, hstack, List.length_nil]
    rw [check?.eq_def, if_pos hdepth]
    rfl
  | case2 w c rest hstack hsound ih =>
    subst hw
    obtain ⟨next, hnext, hwalk, hvisited⟩ := h.visit?_of_sound a hstack hsound
    rw [h.check?_of_cons a hstack, hnext, ok_bind]
    exact ih hvisited hwalk
  | case3 w c rest hstack hsound =>
    subst hw
    rw [h.check?_of_cons a hstack, h.visit?_of_not_sound a hstack hsound]
    rfl

end HasVisited

end WalkMachine

namespace SearchGraph

/-- The check is right about every search graph and every table. A machine with eight cells for its
stack carries it out within eight visits, and never goes outside the cells. The graph passes if
every column that a search can come to is sound, and only then. Otherwise the fault is that the
configuration is incomplete. -/
theorem check_judges_reachable_columns (a : Arithmetic) (graph : SearchGraph)
    (table : CeilingTable) :
    WalkMachine.start.check? a graph table 8 = .ok (some (graph.check table)) ∧
      (graph.check table = .ok () ↔ ∀ c, graph.Reachable c → graph.Sound table c) ∧
      (graph.check table = .error .configuration ↔
        ¬ ∀ c, graph.Reachable c → graph.Sound table c) :=
  ⟨WalkMachine.hasVisited_start.check?_eq a WalkMachine.walk_start, graph.check_eq_ok_iff table,
    graph.check_eq_error_iff table⟩

/-- A column that leads nowhere does no harm as long as no other column leads to it. -/
example :
    let shut : SearchGraph := fun c => if c = .mimoShort then { c.spec with next := [] } else c.spec
    let apart : SearchGraph := fun c =>
      { shut c with next := (shut c).next.filter (· ≠ .mimoShort) }
    WalkMachine.start.check? .trapping shut .expected 8 = .ok (some (.error .configuration)) ∧
      WalkMachine.start.check? .trapping apart .expected 8 = .ok (some (.ok ())) := by
  decide +kernel

end SearchGraph

end LinkAdaptation
