import LinkAdaptation.SearchGraph
import Mathlib.Logic.Relation
import Mathlib.Tactic.Common

/-! Which search graphs pass the check. A walk sees the columns that can be
reached from the initial one and no others, and it leaves a column behind only
when the column is sound and its neighbours are seen. So when nothing is left to
visit, all reachable columns have been found sound. -/

namespace LinkAdaptation

theorem Mode.mem_widths {m : Mode} {w : Width} : w ∈ m.widths ↔ (m = .legacy → w = .mhz20) := by
  cases m <;> cases w <;> decide

namespace SearchGraph

variable (graph : SearchGraph) (table : CeilingTable)

def Leads (c d : Column) : Prop := d ∈ (graph c).next

/-- The columns that a search can ever come to. -/
abbrev Reachable : Column → Prop := Relation.ReflTransGen graph.Leads .initial

/-- A search can go on from the column. With aggregation and without it, there is a rate at every
width the column can run at, which is 20 MHz for legacy rates and any width for others. -/
structure Sound (c : Column) : Prop where
  goes_on : (graph c).next ≠ []
  has_rate : ∀ width, ((graph c).mode = .legacy → width = .mhz20) →
    ∀ aggregation, table.best ⟨(graph c).mode, width, (graph c).guard, aggregation⟩ ≠ 0

theorem isSound_iff {c : Column} : graph.isSound table c = true ↔ graph.Sound table c := by
  have haggregation (p : Aggregation → Bool) :
      [Aggregation.off, .on].all p = true ↔ ∀ aggregation, p aggregation = true := by
    rw [List.all_eq_true]
    exact ⟨fun h aggregation => h _ (by cases aggregation <;> decide), fun h _ _ => h _⟩
  simp only [isSound, Bool.and_eq_true, Bool.not_eq_true', List.isEmpty_eq_false_iff,
    List.all_eq_true (l := Mode.widths _), haggregation, Mode.mem_widths, bne_iff_ne]
  exact ⟨fun h => ⟨h.1, h.2⟩, fun h => ⟨h.goes_on, h.has_rate⟩⟩

end SearchGraph

namespace Walk

variable {graph : SearchGraph} {table : CeilingTable} {w : Walk} {c : Column} {rest : List Column}

theorem contains_discover (w : Walk) (c d : Column) :
    (w.discover c).seen.contains d = true ↔ d = c ∨ w.seen.contains d = true := by
  unfold discover
  split_ifs with h
  · exact ⟨.inr, fun hd => hd.elim (· ▸ h) id⟩
  · simp [ColumnSet.contains_insert]

theorem mem_stack_discover (w : Walk) (c d : Column) :
    d ∈ (w.discover c).stack ↔ d ∈ w.stack ∨ (d = c ∧ w.seen.contains d = false) := by
  unfold discover
  split_ifs with h
  · refine ⟨.inl, fun hd => hd.resolve_right fun ⟨hdc, hnew⟩ => ?_⟩
    rw [hdc, h] at hnew
    cases hnew
  · rw [List.mem_cons, or_comm]
    refine or_congr_right ⟨fun hd => ⟨hd, ?_⟩, And.left⟩
    rw [hd]
    exact Bool.eq_false_iff.mpr h

theorem contains_foldl_discover (w : Walk) (cs : List Column) (d : Column) :
    (cs.foldl discover w).seen.contains d = true ↔ d ∈ cs ∨ w.seen.contains d = true := by
  induction cs generalizing w with
  | nil => simp
  | cons c cs ih =>
    rw [List.foldl_cons, ih, contains_discover, List.mem_cons, or_left_comm, or_assoc]

theorem mem_stack_foldl_discover (w : Walk) (cs : List Column) (d : Column) :
    d ∈ (cs.foldl discover w).stack ↔
      d ∈ w.stack ∨ (d ∈ cs ∧ w.seen.contains d = false) := by
  induction cs generalizing w with
  | nil => simp
  | cons c cs ih =>
    have hnew : (w.discover c).seen.contains d = false ↔ ¬ (d = c ∨ w.seen.contains d = true) := by
      rw [← contains_discover, Bool.not_eq_true]
    rw [List.foldl_cons, ih, mem_stack_discover, hnew, List.mem_cons, or_assoc]
    refine or_congr_right ?_
    -- a neighbour that is listed twice is no longer new the second time
    by_cases hd : d = c <;> simp [hd]

theorem contains_visit (d : Column) :
    (w.visit graph c rest).seen.contains d = true ↔
      d ∈ (graph c).next ∨ w.seen.contains d = true :=
  contains_foldl_discover _ _ d

theorem mem_stack_visit (d : Column) :
    d ∈ (w.visit graph c rest).stack ↔
      d ∈ rest ∨ (d ∈ (graph c).next ∧ w.seen.contains d = false) :=
  mem_stack_foldl_discover _ _ d

/-- What is known in the course of a walk. A column that is seen but no longer on the stack has been
visited. -/
structure Follows (graph : SearchGraph) (table : CeilingTable) (w : Walk) : Prop where
  initial : w.seen.contains .initial = true
  reachable : ∀ c, w.seen.contains c = true → graph.Reachable c
  seen : ∀ c ∈ w.stack, w.seen.contains c = true
  visited : ∀ c, w.seen.contains c = true → c ∉ w.stack →
    graph.Sound table c ∧ ∀ d ∈ (graph c).next, w.seen.contains d = true

theorem contains_start (c : Column) : start.seen.contains c = true ↔ c = .initial := by
  simp [start, ColumnSet.contains_only]

theorem follows_start : start.Follows graph table where
  initial := (contains_start _).mpr rfl
  reachable c hc := by rw [(contains_start c).mp hc]
  seen c hc := (contains_start c).mpr (List.mem_singleton.mp hc)
  visited c hc hstack := absurd (List.mem_singleton.mpr ((contains_start c).mp hc)) hstack

theorem Follows.visit (h : w.Follows graph table) (hstack : w.stack = c :: rest)
    (hsound : graph.Sound table c) : (w.visit graph c rest).Follows graph table where
  initial := (contains_visit _).mpr (.inr h.initial)
  reachable d hd := by
    have hc : w.seen.contains c = true := h.seen c (by simp [hstack])
    rcases (contains_visit d).mp hd with hnext | hseen
    · exact (h.reachable c hc).tail hnext
    · exact h.reachable d hseen
  seen d hd := by
    rcases (mem_stack_visit d).mp hd with hrest | ⟨hnext, -⟩
    · exact (contains_visit d).mpr (.inr (h.seen d (by simp [hstack, hrest])))
    · exact (contains_visit d).mpr (.inl hnext)
  visited d hd hoff := by
    rw [mem_stack_visit, not_or, not_and, Bool.not_eq_false] at hoff
    have hseen : w.seen.contains d = true := ((contains_visit d).mp hd).elim hoff.2 id
    by_cases hdc : d = c
    · rw [hdc]
      exact ⟨hsound, fun e he => (contains_visit e).mpr (.inl he)⟩
    · obtain ⟨hd', hnext⟩ := h.visited d hseen (by simp [hstack, hdc, hoff.1])
      exact ⟨hd', fun e he => (contains_visit e).mpr (.inr (hnext e he))⟩

/-- When nothing is left to visit, the columns seen are closed under going on. -/
theorem Follows.seen_of_reachable (h : w.Follows graph table) (hstack : w.stack = [])
    (hc : graph.Reachable c) : w.seen.contains c = true := by
  induction hc with
  | refl => exact h.initial
  | tail _ hleads ih => exact (h.visited _ ih (by simp [hstack])).2 _ hleads

end Walk

namespace SearchGraph

variable (graph : SearchGraph) (table : CeilingTable)

theorem checkFrom_eq_ok_iff {w : Walk} (h : w.Follows graph table) :
    graph.checkFrom table w = .ok () ↔ ∀ c, graph.Reachable c → graph.Sound table c := by
  fun_induction graph.checkFrom table w with
  | case1 w hstack =>
    refine iff_of_true rfl fun c hc => ?_
    exact (h.visited c (h.seen_of_reachable hstack hc) (by simp [hstack])).1
  | case2 w c rest hstack hsound ih => exact ih (h.visit hstack ((isSound_iff ..).mp hsound))
  | case3 w c rest hstack hsound =>
    refine iff_of_false (by simp) fun hall => hsound ?_
    have hc : graph.Reachable c := h.reachable c (h.seen c (by simp [hstack]))
    exact (isSound_iff ..).mpr (hall c hc)

theorem check_eq_ok_iff :
    graph.check table = .ok () ↔ ∀ c, graph.Reachable c → graph.Sound table c :=
  checkFrom_eq_ok_iff graph table Walk.follows_start

theorem checkFrom_eq_ok_or (w : Walk) :
    graph.checkFrom table w = .ok () ∨ graph.checkFrom table w = .error .configuration := by
  fun_induction graph.checkFrom table w with
  | case1 => exact .inl rfl
  | case2 _ _ _ _ _ ih => exact ih
  | case3 => exact .inr rfl

/-- No other fault is ever found. -/
theorem check_eq_error_iff :
    graph.check table = .error .configuration ↔
      ¬ ∀ c, graph.Reachable c → graph.Sound table c := by
  rw [← check_eq_ok_iff]
  constructor
  · intro h hok
    simp [h] at hok
  · exact (checkFrom_eq_ok_or graph table .start).resolve_left

end SearchGraph

end LinkAdaptation
