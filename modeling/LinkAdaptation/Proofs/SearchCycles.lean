import LinkAdaptation.Proofs.ColumnSearch
import LinkAdaptation.Proofs.RunMoments
import Mathlib.Data.List.Perm.Subperm
import Mathlib.Data.List.SplitBy

/-! The search cycles of a run. A cycle begins with the first moment of the run,
with every stay, and with the end of every stay; the set of visited columns is
then reset. Between two resets it grows with each column that becomes current,
and only columns outside it are tried, so no cycle tries a column twice. -/

namespace LinkAdaptation

theorem isChain_and {α : Type} {R S : α → α → Prop} {l : List α} (hr : l.IsChain R)
    (hs : l.IsChain S) : l.IsChain fun a b => R a b ∧ S a b := by
  induction hr with
  | nil => exact .nil
  | singleton a => exact .singleton a
  | cons_cons hab _ ih =>
    obtain ⟨hab', htail⟩ := List.isChain_cons_cons.mp hs
    exact .cons_cons ⟨hab, hab'⟩ (ih htail)

namespace Controller

def isStaying (c : Controller) : Bool := c.stay?.isSome

/-- The moments of a run, cut where a stay begins and where one is over. -/
def cycles (course : List Controller) : List (List Controller) :=
  course.splitBy fun a b => a.isStaying == b.isStaying

/-- From one moment to the next, a trial has begun. -/
def Begins (a b : Controller) : Prop := a.trial? = none ∧ b.trial? ≠ none

instance (a b : Controller) : Decidable (a.Begins b) := inferInstanceAs (Decidable (_ ∧ _))

/-- The columns put on trial in the course of some moments, in order. -/
def tried : List Controller → List Column
  | a :: b :: rest => if a.Begins b then b.column :: tried (b :: rest) else tried (b :: rest)
  | [] | [_] => []

/-- What the visited columns have to do with the phase, at every moment of a report. -/
structure Tracked (c : Controller) : Prop where
  current : c.visited.contains c.column = true
  rollback : ∀ t, c.trial? = some t → c.visited.contains t.rollback.column = true

/-- From one moment to the next, within a cycle or from one cycle to another. -/
inductive CycleStage (a b : Controller) : Prop where
  | keeps (hstay : a.isStaying = b.isStaying) (hvisited : b.visited = a.visited)
      (hcolumn : a.visited.contains b.column = true)
      (htrial : ∀ t, b.trial? = some t → a.trial? = some t)
  | tries (hstay : a.isStaying = b.isStaying) (hvisited : b.visited = a.visited.insert b.column)
      (hcolumn : a.visited.contains b.column = false)
      (htrial : ∀ t, b.trial? = some t → t.rollback.column = a.column)
  | restarts (hstay : a.isStaying ≠ b.isStaying) (hvisited : b.visited = .only b.column)
      (htrial : b.trial? = none)

theorem Tracked.cycleStage {a b : Controller} (h : a.Tracked) (hstage : Stage a b) :
    CycleStage a b := by
  cases hstage with
  | observes r =>
    refine .keeps ?_ rfl h.current (by simp)
    cases hp : a.phase <;> simp [isStaying, stay?, observe, hp, Phase.count, Phase.stay?]
  | steps => exact .keeps rfl rfl h.current (by simp)
  | supervises now =>
    have hs := supervised a now
    generalize a.supervise now = s at hs ⊢
    cases hs with
    | idle => exact .keeps rfl rfl h.current (by simp)
    | expires hstay =>
      exact .restarts (by simp [isStaying, stay?, hstay, Phase.stay?]) rfl rfl
    | refreshes hstay | ages hstay =>
      exact .keeps (by simp [isStaying, stay?, hstay, Phase.stay?, clearGroup]) rfl h.current
        (by simp [trial?, Phase.trial?, clearGroup])
  | @resolves t htrial rate =>
    have hphase := Phase.trial?_eq_some.mp htrial
    refine .keeps (by simp [isStaying, stay?, hphase, resolve, Phase.stay?]) rfl ?_
      (by simp [resolve, trial?, Phase.trial?])
    simp only [resolve, column]
    split_ifs
    · exact h.current
    · exact h.rollback t htrial
  | searches rate =>
    have hs := a.searched rate
    generalize a.search rate = s at hs ⊢
    cases hs with
    | idle => exact .keeps rfl rfl h.current (by simp)
    | @tries next hphase hnext =>
      refine .tries (by simp [isStaying, stay?, hphase, Phase.stay?, beginTrial, clearGroup]) rfl
        (not_visited_of_nextColumn? hnext) fun t ht => ?_
      obtain rfl : ⟨a.position, rate⟩ = t := by
        simpa [trial?, Phase.trial?, beginTrial, clearGroup] using ht
      rfl
    | ends hphase =>
      exact .keeps (by simp [isStaying, stay?, hphase, Phase.stay?]) rfl h.current
        (by simp [trial?, Phase.trial?])
  | settles now =>
    have hs := a.settled now
    generalize a.settle now = s at hs ⊢
    cases hs with
    | idle => exact .keeps rfl rfl h.current (by simp)
    | ends hphase => exact .restarts (by simp [isStaying, stay?, hphase, Phase.stay?]) rfl rfl
  | flips aggregation =>
    unfold setAggregation
    split_ifs
    · exact .keeps rfl rfl h.current (by simp)
    · exact .keeps rfl rfl h.current (by simp [trial?, clearGroup])

namespace CycleStage

variable {a b : Controller}

theorem tracked (h : CycleStage a b) (ha : a.Tracked) : b.Tracked := by
  cases h with
  | keeps _ hvisited hcolumn htrial =>
    rw [← hvisited] at hcolumn
    exact ⟨hcolumn, fun t ht => hvisited ▸ ha.rollback t (htrial t ht)⟩
  | tries _ hvisited _ htrial =>
    refine ⟨by simp [hvisited, ColumnSet.contains_insert], fun t ht => ?_⟩
    simp [hvisited, ColumnSet.contains_insert, htrial t ht, ha.current]
  | restarts _ hvisited htrial =>
    exact ⟨by simp [hvisited, ColumnSet.contains_only], fun t ht => by simp [htrial] at ht⟩

theorem visited_iff (h : CycleStage a b) (hstay : a.isStaying = b.isStaying) (x : Column) :
    b.visited.contains x = true ↔ a.visited.contains x = true ∨ x = b.column := by
  cases h with
  | keeps _ hvisited hcolumn =>
    rw [hvisited]
    exact ⟨.inl, fun h => h.elim id fun hx => hx ▸ hcolumn⟩
  | tries _ hvisited => simp [hvisited, ColumnSet.contains_insert, or_comm]
  | restarts hne => exact absurd hstay hne

theorem not_begins_of_restarts (h : CycleStage a b) (hstay : a.isStaying ≠ b.isStaying) :
    ¬ a.Begins b := by
  cases h with
  | keeps hsame | tries hsame => exact absurd hsame hstay
  | restarts _ _ htrial => exact fun hb => hb.2 htrial

theorem new_of_begins (h : CycleStage a b) (hbegins : a.Begins b) :
    a.visited.contains b.column = false := by
  cases h with
  | keeps _ _ _ htrial =>
    obtain ⟨t, ht⟩ := Option.ne_none_iff_exists'.mp hbegins.2
    simp [hbegins.1] at htrial
    simp [htrial t] at ht
  | tries _ _ hcolumn => exact hcolumn
  | restarts _ _ htrial => exact absurd htrial hbegins.2

end CycleStage

theorem tracked_new (caps : Capabilities) : (new caps).Tracked where
  current := by simp [new, column, ColumnSet.contains_only]
  rollback t ht := by simp [new, trial?, Phase.trial?] at ht

theorem isChain_cycleStage (caps : Capabilities) (events : List Event) :
    ((new caps).course events).IsChain CycleStage := by
  have htracked := forall_mem_course (fun _ _ ha hstage => (ha.cycleStage hstage).tracked ha)
    (tracked_new caps) events
  have hchain := isChain_course (new caps) events
  refine List.IsChain.imp_of_mem_imp (fun a b ha _ hstage => ?_) hchain
  exact (htracked a ha).cycleStage hstage

/-- Within a cycle, each moment is linked to the next by a stage that resets nothing. -/
def InCycle (a b : Controller) : Prop := CycleStage a b ∧ a.isStaying = b.isStaying

theorem visited_iff_of_isChain {first : Controller} {rest : List Controller}
    (hchain : (first :: rest).IsChain InCycle) (x : Column) :
    ∀ last ∈ (first :: rest).getLast?, last.visited.contains x = true ↔
      first.visited.contains x = true ∨ x ∈ rest.map column := by
  induction rest generalizing first with
  | nil => simp
  | cons second rest ih =>
    obtain ⟨⟨hstage, hstay⟩, htail⟩ := List.isChain_cons_cons.mp hchain
    intro last hlast
    rw [List.getLast?_cons_cons] at hlast
    rw [ih htail last hlast, hstage.visited_iff hstay, List.map_cons, List.mem_cons, or_assoc]

/-- From a reset on, the visited columns are those that have been current. -/
theorem visited_iff_of_prefix {first d : Controller} {rest pre : List Controller}
    (hchain : (first :: rest).IsChain InCycle) (hvisited : first.visited = .only first.column)
    (hpre : pre ++ [d] <+: first :: rest) (x : Column) :
    d.visited.contains x = true ↔ x ∈ (pre ++ [d]).map column := by
  cases hlist : pre ++ [d] with
  | nil => simp at hlist
  | cons a mid =>
    have hlast : (a :: mid).getLast? = some d := by simp [← hlist]
    rw [hlist] at hpre
    obtain rfl : a = first := (List.cons_prefix_cons.mp hpre).1
    have hpart := List.IsChain.prefix hchain hpre
    rw [visited_iff_of_isChain hpart x d hlast, hvisited]
    simp [ColumnSet.contains_only]

theorem tried_of_isChain {first : Controller} {rest : List Controller}
    (hchain : (first :: rest).IsChain InCycle) :
    (tried (first :: rest)).Nodup ∧
      ∀ x ∈ tried (first :: rest), first.visited.contains x = false := by
  induction rest generalizing first with
  | nil => simp [tried]
  | cons second rest ih =>
    obtain ⟨⟨hstage, hstay⟩, htail⟩ := List.isChain_cons_cons.mp hchain
    obtain ⟨hnodup, hnew⟩ := ih htail
    have hvisited := hstage.visited_iff hstay
    -- what the tail tries is new to its first moment, and that one has visited no less
    have hold : ∀ x ∈ tried (second :: rest),
        first.visited.contains x = false ∧ x ≠ second.column := by
      intro x hx
      have hno : ¬ second.visited.contains x = true := by simp [hnew x hx]
      rw [hvisited, not_or] at hno
      exact ⟨by simpa using hno.1, hno.2⟩
    rw [tried]
    split_ifs with hbegins
    · refine ⟨List.nodup_cons.mpr ⟨fun hmem => (hold _ hmem).2 rfl, hnodup⟩, fun x hx => ?_⟩
      rcases List.mem_cons.mp hx with rfl | hx
      · exact hstage.new_of_begins hbegins
      · exact (hold x hx).1
    · exact ⟨hnodup, fun x hx => (hold x hx).1⟩

theorem mem_map_column_of_mem_tried {course : List Controller} {x : Column} (h : x ∈ tried course) :
    x ∈ course.map column := by
  induction course with
  | nil => simp [tried] at h
  | cons a rest ih =>
    cases rest with
    | nil => simp [tried] at h
    | cons b rest =>
      rw [tried] at h
      split_ifs at h
      · rcases List.mem_cons.mp h with rfl | h
        · simp
        · exact List.mem_cons_of_mem _ (ih h)
      · exact List.mem_cons_of_mem _ (ih h)

theorem tried_append {front back : List Controller}
    (h : ∀ a ∈ front.getLast?, ∀ b ∈ back.head?, ¬ a.Begins b) :
    tried (front ++ back) = tried front ++ tried back := by
  induction front with
  | nil => simp [tried]
  | cons a rest ih =>
    cases rest with
    | nil =>
      cases back with
      | nil => simp [tried]
      | cons b back =>
        have hab : ¬ a.Begins b := h a (by simp) b (by simp)
        simp [tried, hab]
    | cons c rest =>
      have hrest := ih fun x hx b hb => h x (by simpa using hx) b hb
      simp only [List.cons_append, tried] at hrest ⊢
      split_ifs <;> simp [hrest]

/-- The first moment of a cycle comes after the last one of another, by a stage that resets the
visited columns. -/
def Succeeds (old new : List Controller) : Prop :=
  ∃ a b, old.getLast? = some a ∧ new.head? = some b ∧ CycleStage a b ∧ a.isStaying ≠ b.isStaying

theorem Succeeds.not_begins {old new : List Controller} (h : Succeeds old new) :
    ∀ a ∈ old.getLast?, ∀ b ∈ new.head?, ¬ a.Begins b := by
  obtain ⟨a, b, hlast, hhead, hstage, hne⟩ := h
  simpa [hlast, hhead] using hstage.not_begins_of_restarts hne

theorem Succeeds.visited {old new : List Controller} (h : Succeeds old new) :
    ∀ first ∈ new.head?, first.visited = .only first.column := by
  obtain ⟨a, b, -, hhead, hstage, hne⟩ := h
  cases hstage with
  | keeps hsame | tries hsame => exact absurd hsame hne
  | restarts _ hvisited => simpa [hhead] using hvisited

theorem isChain_cycles (caps : Capabilities) (events : List Event) :
    (∀ cycle ∈ cycles ((new caps).course events), cycle.IsChain CycleStage) ∧
      (cycles ((new caps).course events)).IsChain Succeeds := by
  have hchain := isChain_cycleStage caps events
  rw [← List.flatten_splitBy (fun a b => a.isStaying == b.isStaying) ((new caps).course events),
    List.isChain_flatten (List.nil_notMem_splitBy _ _)] at hchain
  have hcut := List.isChain_getLast_head_splitBy (fun a b => a.isStaying == b.isStaying)
    ((new caps).course events)
  refine ⟨hchain.1, (isChain_and hchain.2 hcut).imp ?_⟩
  rintro old new ⟨hstage, hold, hnew, hne⟩
  have hlast := List.getLast?_eq_getLast_of_ne_nil hold
  have hhead := List.head?_eq_some_head hnew
  exact ⟨_, _, hlast, hhead, hstage _ hlast _ hhead, by simpa using hne⟩

theorem visited_of_head_cycles {caps : Capabilities} {events : List Event} {cycle : List Controller}
    (hmem : cycle ∈ cycles ((new caps).course events)) :
    ∀ first ∈ cycle.head?, first.visited = .only first.column := by
  have hfirst (hne : cycles ((new caps).course events) ≠ []) :
      ∀ first ∈ ((cycles ((new caps).course events)).head hne).head?,
        first.visited = .only first.column := by
    intro first hhead
    have hnew : ((cycles ((new caps).course events)).head hne).head? = some (new caps) := by
      rw [List.head?_eq_some_head (List.ne_nil_of_mem_splitBy (List.head_mem hne))]
      exact congrArg some (List.head_head_splitBy _ (List.cons_ne_nil _ _))
    obtain rfl : new caps = first := by simpa [hnew] using hhead
    rfl
  exact (isChain_cycles caps events).2.induction
    (fun cycle => ∀ first ∈ cycle.head?, first.visited = .only first.column) _
    (fun _ _ hnext _ => hnext.visited) hfirst cycle hmem

/-- A cycle starts with one visited column and resets nothing later on. -/
theorem cycle_of_mem_cycles {caps : Capabilities} {events : List Event} {cycle : List Controller}
    (hmem : cycle ∈ cycles ((new caps).course events)) :
    ∃ first rest, cycle = first :: rest ∧ first.visited = .only first.column ∧
      cycle.IsChain InCycle := by
  have hsame : cycle.IsChain fun a b => a.isStaying = b.isStaying := by
    simpa using List.isChain_of_mem_splitBy hmem
  have hchain := isChain_and ((isChain_cycles caps events).1 cycle hmem) hsame
  cases hcycle : cycle with
  | nil => exact absurd hcycle (List.ne_nil_of_mem_splitBy hmem)
  | cons first rest =>
    rw [hcycle] at hmem hchain
    exact ⟨first, rest, rfl, visited_of_head_cycles hmem first rfl, hchain⟩

/-- Each trial of a run begins within one of its cycles. -/
theorem flatMap_tried_cycles (caps : Capabilities) (events : List Event) :
    (cycles ((new caps).course events)).flatMap tried = tried ((new caps).course events) := by
  have hflat (parts : List (List Controller)) (h : parts.IsChain Succeeds) :
      parts.flatMap tried = tried parts.flatten := by
    induction h with
    | nil => rfl
    | singleton part => simp
    | @cons_cons old new parts hnext _ ih =>
      have hnot : ∀ a ∈ old.getLast?, ∀ b ∈ (new :: parts).flatten.head?, ¬ a.Begins b := by
        obtain ⟨_, b, -, hhead, -⟩ := id hnext
        simpa [hhead] using hnext.not_begins
      rw [List.flatMap_cons, ih, ← tried_append hnot]
      rfl
  rw [hflat _ (isChain_cycles caps events).2, cycles, List.flatten_splitBy]

theorem mem_course_of_mem_cycles {course cycle : List Controller} {m : Controller}
    (hcycle : cycle ∈ cycles course) (hm : m ∈ cycle) : m ∈ course := by
  rw [← List.flatten_splitBy (fun a b => a.isStaying == b.isStaying) course]
  exact List.mem_flatten.mpr ⟨cycle, hcycle, hm⟩

/-- Without HT and VHT only the two legacy columns are ever current. -/
theorem column_mem_of_legacyOnly {caps : Capabilities} (hcaps : caps.nonLegacy = false)
    {events : List Event} {m : Controller} (hm : m ∈ (new caps).course events) :
    m.column ∈ [Column.legacyAntA, Column.legacyAntB] := by
  obtain ⟨hsound, hsame⟩ := forall_mem_course (P := fun m => m.Sound ∧ m.caps = caps)
    (fun a b ha hstage => ⟨ha.1.stage hstage, hstage.caps.trans ha.2⟩) ⟨.new caps, rfl⟩ events m hm
  have hlegacy : m.column.mode.isLegacy = true := by
    by_contra hl
    have hnon := (hsound.position.nonLegacy (Bool.eq_false_iff.mpr hl)).2
    rw [hsame, hcaps] at hnon
    cases hnon
  revert hlegacy
  cases m.column <;> decide

/-- A search cycle tries no column twice. At each of its moments the visited columns are those that
have been current since it began, a report that begins a trial adds one column to them, and so the
columns tried in a cycle are different from each other and from the one it began in. There are
seven of them at most, and a single one where the device has legacy rates only. -/
theorem no_column_tried_twice (caps : Capabilities) (events : List Event) :
    let course := (new caps).course events
    course.getLast? = some ((new caps).run events) ∧
      (cycles course).flatMap tried = tried course ∧
      (∀ cycle ∈ cycles course,
        (∀ pre d, pre ++ [d] <+: cycle →
          ∀ x, d.visited.contains x = true ↔ x ∈ (pre ++ [d]).map column) ∧
        ∃ first rest, cycle = first :: rest ∧ (first.column :: tried cycle).Nodup ∧
          (tried cycle).length ≤ 7 ∧ (caps.nonLegacy = false → (tried cycle).length ≤ 1)) ∧
      ∀ (r : Report) (now : Nat),
        let before := (new caps).run events
        let after := before.report r now
        before.Begins after →
          before.visited.contains after.column = false ∧
            after.visited = before.visited.insert after.column := by
  intro course
  refine ⟨getLast?_course _ _, flatMap_tried_cycles caps events, fun cycle hmem => ?_, ?_⟩
  · obtain ⟨first, rest, hcycle, hvisited, hchain⟩ := cycle_of_mem_cycles hmem
    rw [hcycle] at hchain
    obtain ⟨hnodup, hnew⟩ := tried_of_isChain hchain
    rw [← hcycle] at hnodup hnew
    have hall : (first.column :: tried cycle).Nodup := by
      refine List.nodup_cons.mpr ⟨fun hin => ?_, hnodup⟩
      simpa [hvisited, ColumnSet.contains_only] using hnew _ hin
    refine ⟨fun pre d hpre => ?_, first, rest, hcycle, hall, ?_, fun hcaps => ?_⟩
    · exact visited_iff_of_prefix hchain hvisited (hcycle ▸ hpre)
    · have hle := (List.subperm_of_subset hall fun x _ => x.mem_all).length_le
      exact Nat.le_of_succ_le_succ hle
    · have hsub : first.column :: tried cycle ⊆ [Column.legacyAntA, Column.legacyAntB] := by
        intro x hx
        have hmap : x ∈ cycle.map column := by
          rcases List.mem_cons.mp hx with rfl | hx
          · simp [hcycle]
          · exact mem_map_column_of_mem_tried hx
        obtain ⟨m, hm, rfl⟩ := List.mem_map.mp hmap
        exact column_mem_of_legacyOnly hcaps (mem_course_of_mem_cycles hmem hm)
      exact Nat.le_of_succ_le_succ (List.subperm_of_subset hall hsub).length_le
  · intro r now before after hbegins
    obtain ⟨t, ht⟩ := Option.ne_none_iff_exists'.mp hbegins.2
    obtain ⟨next, -, heligible, -, hreport⟩ := beginTrial_of_report (coherent_run caps events)
      (sound_run caps events) (clean_run caps events) hbegins.1 ht
    have hafter :
        after = beginTrial { before.observe r with phase := .searching none } next t.baseline :=
      hreport
    rw [hafter]
    exact ⟨heligible.1, rfl⟩

/-- Where nothing arrives, the first cycle tries all neighbours of the first column in turn, and
the stay that follows tries none. -/
example :
    (cycles ((new ⟨.mhz20, true, true⟩).course (List.replicate 8 (.report ⟨0, 3, false⟩ 0)))).map
      tried = [[.legacyAntB, .sisoAntA, .mimo], []] := by
  decide +kernel

end Controller

end LinkAdaptation
