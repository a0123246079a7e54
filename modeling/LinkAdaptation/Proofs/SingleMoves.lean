import LinkAdaptation.Proofs.RateSteps

/-! One report, one move. A station moves by a step within its column, by going
on trial in another column, or by the end of a trial, which keeps the column or
takes it back. A report makes at most one of these moves, and none before the
rate it was sent at has shown enough. -/

namespace LinkAdaptation

/-- What becomes of the place of a station. -/
inductive MoveKind where
  | rest
  | step
  | begin
  | keep
  | rollback
  deriving DecidableEq, Repr

namespace Controller

/-- The move that a station has made, told by where it was and where it is. -/
inductive Moves (a b : Controller) : MoveKind → Prop where
  | rest (htrial : b.trial? = a.trial?) (hposition : b.position = a.position) : Moves a b .rest
  | step {index : Nat} (hbefore : a.trial? = none) (hafter : b.trial? = none)
      (hneighbour : a.neighbours.lower = some index ∨ a.neighbours.upper = some index)
      (hposition : b.position = { a.position with index := index }) : Moves a b .step
  | begin {t : Trial} (hbefore : a.trial? = none) (hafter : b.trial? = some t)
      (hrollback : t.rollback = a.position) (hcolumn : b.column ≠ a.column) : Moves a b .begin
  | keep {t : Trial} (hbefore : a.trial? = some t) (hafter : b.trial? = none)
      (hposition : b.position = a.position) : Moves a b .keep
  | rollback {t : Trial} (hbefore : a.trial? = some t) (hafter : b.trial? = none)
      (hposition : b.position = t.rollback) (hcolumn : b.column ≠ a.column) : Moves a b .rollback

/-- The only move that can lead from one state to the other. -/
def moveKind (a b : Controller) : MoveKind :=
  match a.trial?, b.trial? with
  | none, none => if b.position = a.position then .rest else .step
  | none, some _ => .begin
  | some _, none => if b.position = a.position then .keep else .rollback
  | some _, some _ => .rest

theorem Moves.eq_moveKind {a b : Controller} {kind : MoveKind} (h : Moves a b kind) :
    kind = moveKind a b := by
  cases h with
  | rest htrial hposition => cases ha : a.trial? <;> simp [moveKind, htrial, ha, hposition]
  | @step index hbefore hafter hneighbour hposition =>
    have hne : ({ a.position with index := index } : Position) ≠ a.position := fun h =>
      Neighbours.ne_of_neighbour hneighbour (congrArg Position.index h)
    simp [moveKind, hbefore, hafter, hposition, hne]
  | begin hbefore hafter => simp [moveKind, hbefore, hafter]
  | keep hbefore hafter hposition => simp [moveKind, hbefore, hafter, hposition]
  | rollback hbefore hafter _ hcolumn =>
    have hne : b.position ≠ a.position := fun h => hcolumn (congrArg Position.column h)
    simp [moveKind, hbefore, hafter, hne]

theorem Coherent.exists_moves {c : Controller} (hc : c.Coherent) (r : Report) (now : Nat) :
    ∃ kind, Moves c (c.report r now) kind := by
  have hafter := hc.report r now
  have hm := report_move c r now
  generalize c.report r now = d at hm hafter ⊢
  cases hm with
  | waits | stays => exact ⟨_, .rest (by simp) (by simp)⟩
  | @resolves rate t _ htrial =>
    rw [observe_trial?] at htrial
    have hcolumn := (hc.trial t (Phase.trial?_eq_some.mp htrial)).1
    by_cases hbetter : t.baseline < rate
    · exact ⟨_, .keep htrial rfl (if_pos hbetter)⟩
    · refine ⟨_, .rollback htrial rfl (if_neg hbetter) ?_⟩
      rwa [column, resolve, if_neg hbetter]
  | @steps rate index _ htrial hstep =>
    rw [observe_trial?] at htrial
    have hneighbour : c.neighbours.lower = some index ∨ c.neighbours.upper = some index :=
      step?_eq_some (c := c.observe r) hstep
    exact ⟨_, .step htrial (by simpa using htrial) hneighbour (by simp [stepTo])⟩
  | @tries rate next _ htrial =>
    rw [observe_trial?] at htrial
    have hcolumn := (hafter.trial _ rfl).1
    exact ⟨_, .begin htrial rfl (by simp) (by simpa [column] using hcolumn.symm)⟩
  | settles _ htrial =>
    rw [observe_trial?] at htrial
    exact ⟨_, .rest htrial.symm (by simp)⟩

/-- A station moves on evidence only, and one move at a time. Until the window of its rate, with the
outcomes of the report, has three failures or eight successes, a report leaves the station where it
is, and a trial undecided. With them it makes one move at most: a step to a neighbouring rate of the
column outside a trial, the begin of a trial in another column, or the end of a trial, which keeps
the position or takes it back. Such evidence always decides a trial, and then the station goes on
searching, with the same columns visited. -/
theorem moves_once_on_evidence (caps : Capabilities) (past : List Event) (r : Report) (now : Nat) :
    let before := (new caps).run past
    let after := before.report r now
    let seen := (before.observe r).window
    (¬ (3 ≤ seen.failures ∨ 8 ≤ seen.successes) → Moves before after .rest) ∧
    (∃! kind, Moves before after kind) ∧
    ∀ t, before.trial? = some t →
      (after.trial? = none ↔ 3 ≤ seen.failures ∨ 8 ≤ seen.successes) ∧
      (after.trial? = none → before.phase = .searching (some t) ∧ after.phase = .searching none ∧
        after.visited = before.visited) := by
  intro before after seen
  have hc : before.Coherent := coherent_run caps past
  have hclean : seen.Clean :=
    (clean_run caps past).record (fun _ b hw => hw.push b) _ _ _ _ _ _
  have huntold : seen.throughput? = none ↔ ¬ (3 ≤ seen.failures ∨ 8 ≤ seen.successes) :=
    Window.throughput?_eq_none_iff hclean
  refine ⟨fun hfew => ?_, ?_, fun t ht => ?_⟩
  · have hrate : (before.observe r).window.throughput? = none := huntold.mpr hfew
    have hwaits : after = (before.observe r).supervise now := by
      simp only [after, report, act, hrate]
    rw [hwaits]
    exact .rest (by simp) (by simp)
  · obtain ⟨kind, hmoves⟩ := hc.exists_moves r now
    exact ⟨kind, hmoves, fun other hother => hother.eq_moveKind.trans hmoves.eq_moveKind.symm⟩
  · rw [show after = _ from report_of_trial ht r now]
    cases hrate : (before.observe r).window.throughput? with
    | none => simp [observe_trial?, ht, huntold.mp hrate]
    | some rate =>
      have htold : 3 ≤ seen.failures ∨ 8 ≤ seen.successes := by
        by_contra hfew
        exact Option.some_ne_none rate (hrate.symm.trans (huntold.mpr hfew))
      exact ⟨iff_of_true rfl htold, fun _ => ⟨Phase.trial?_eq_some.mp ht, rfl, rfl⟩⟩

/-- A report that ends a stay may begin a trial at once. It is one move. -/
example :
    let before := (new ⟨.mhz40, false, false⟩).run (List.replicate 3 (.report ⟨0, 3, false⟩ 7))
    before.stay?.isSome ∧ moveKind before (before.report ⟨0, 3, false⟩ 25000000007) = .begin := by
  decide +kernel

end Controller

end LinkAdaptation
