import LinkAdaptation.Proofs.ReportMoves
import LinkAdaptation.Proofs.UsablePositions
import LinkAdaptation.Proofs.WindowOutcomes

/-! What becomes of the windows of a ledger. A report records its outcomes at
one rate and then clears one group at most, so whatever holds of an empty
window and survives a further outcome holds of every window of every reachable
controller. No rate is therefore ever measured above its expected ceiling. -/

namespace LinkAdaptation

namespace Ledger

/-- Groups are told apart by their slots alone. -/
theorem window_congr (l : Ledger) {g g' : RateGroup} (h : g.slot = g'.slot) (index : Nat) :
    l.window g index = l.window g' index := by
  simp [window, window?, group, h]

theorem window_of_group_eq {l l' : Ledger} {g : RateGroup} (h : l.group g = l'.group g)
    (index : Nat) : l.window g index = l'.window g index := by
  simp [window, window?, h]

theorem window_of_le (l : Ledger) (g : RateGroup) {index : Nat} (h : ratesPerGroup ≤ index) :
    l.window g index = .new 0 := by
  simp [window, window?, Nat.not_lt.2 h]

def All (P : Window → Prop) (l : Ledger) : Prop := ∀ g index, P (l.window g index)

variable {P : Window → Prop}

theorem all_new (hnew : ∀ ceiling, P (.new ceiling)) (table : CeilingTable) : (new table).All P := by
  intro g index
  rw [window_new]
  exact hnew _

theorem All.record (hpush : ∀ w acked, P w → P (w.push acked)) {l : Ledger} (h : l.All P)
    (g : RateGroup) (index acked lost : Nat) : (l.record g index acked lost).All P := by
  have hmany (w : Window) (b : Bool) (n : Nat) (hw : P w) : P (w.pushMany b n) :=
    Window.pushMany_induction hpush hw b n
  intro g' i
  by_cases hs : g.slot = g'.slot
  · rw [← window_congr _ hs]
    by_cases hi : index = i
    · subst hi
      by_cases hlt : index < ratesPerGroup
      · rw [window_record_self l g acked lost hlt]
        exact hmany _ false lost (hmany _ true acked (h g index))
      · have hzero := h g index
        rw [window_of_le _ g (Nat.not_lt.mp hlt)] at hzero ⊢
        exact hzero
    · rw [window_record_of_ne l g acked lost hi]
      exact h g i
  · rw [window_of_group_eq (group_record_of_ne l index acked lost hs)]
    exact h g' i

theorem All.clear (hnew : ∀ ceiling, P (.new ceiling)) {l : Ledger} (h : l.All P) (g : RateGroup) :
    (l.clear g).All P := by
  intro g' i
  by_cases hs : g.slot = g'.slot
  · rw [← window_congr _ hs, window_clear_self]
    exact hnew _
  · rw [window_of_group_eq (group_clear_of_ne l hs)]
    exact h g' i

end Ledger

namespace Controller

theorem supervise_ledger (c : Controller) (now : Nat) :
    (c.supervise now).ledger = c.ledger ∨ (c.supervise now).ledger = c.ledger.clear c.group := by
  have hs := supervised c now
  generalize c.supervise now = s at hs ⊢
  cases hs with
  | idle | expires | ages => exact .inl rfl
  | refreshes => exact .inr rfl

theorem supervise_of_phase_searching {c : Controller} {now : Nat} {trial : Option Trial}
    (h : (c.supervise now).phase = .searching trial) :
    c.supervise now =
      { c with phase := .searching trial, visited := (c.supervise now).visited } := by
  have hs := supervised c now
  generalize c.supervise now = s at hs h ⊢
  cases hs with
  | idle => rw [← h]
  | expires => rw [← h]
  | refreshes => simp [clearGroup] at h
  | ages => simp at h

theorem report_ledger (c : Controller) (r : Report) (now : Nat) :
    (c.report r now).ledger = (c.observe r).ledger ∨
      ∃ g, (c.report r now).ledger = (c.observe r).ledger.clear g := by
  have hm := report_move c r now
  have hsupervise (d : Controller) : (d.supervise now).ledger = d.ledger ∨
      ∃ g, (d.supervise now).ledger = d.ledger.clear g :=
    (supervise_ledger d now).imp_right fun h => ⟨_, h⟩
  generalize c.report r now = d at hm ⊢
  cases hm with
  | waits | settles | stays => exact hsupervise _
  | resolves => exact .inl rfl
  | @steps rate index => exact hsupervise ((c.observe r).stepTo index)
  | @tries rate next _ _ _ hphase =>
    rw [supervise_of_phase_searching hphase]
    exact .inr ⟨_, rfl⟩

theorem ledger_all_run {P : Window → Prop} (hnew : ∀ ceiling, P (.new ceiling))
    (hpush : ∀ w acked, P w → P (w.push acked)) (caps : Capabilities) (events : List Event) :
    ((new caps).run events).ledger.All P := by
  refine run_induction (P := fun c => c.ledger.All P) (fun c e h => ?_) (Ledger.all_new hnew _) events
  cases e with
  | report r now =>
    have hrecord : (c.observe r).ledger.All P := h.record hpush _ _ _ _
    rcases c.report_ledger r now with hl | ⟨g, hl⟩
    · exact hl ▸ hrecord
    · exact hl ▸ hrecord.clear hnew g
  | setAggregation aggregation =>
    simp only [apply, setAggregation]
    split_ifs
    · exact h
    · exact h.clear hnew _

theorem clean_run (caps : Capabilities) (events : List Event) :
    ((new caps).run events).ledger.All Window.Clean :=
  ledger_all_run Window.clean_new (fun _ acked h => h.push acked) caps events

/-- What a report measures is no more than what is expected at the rate it was sent at. -/
theorem Sound.rate_le_of_observe {c : Controller} (h : c.Sound)
    (hclean : c.ledger.All Window.Clean) {r : Report} {rate : Nat}
    (hrate : (c.observe r).window.throughput? = some rate) :
    rate ≤ 100 * CeilingTable.expected.ceiling c.group c.index := by
  have hafter : (c.observe r).ledger.All Window.Clean :=
    hclean.record (fun _ acked hw => hw.push acked) _ _ _ _
  have hle := Window.throughput?_le (hafter c.group c.index) hrate
  rwa [Ledger.window_ceiling, (h.observe r).ceilings] at hle

end Controller

end LinkAdaptation
