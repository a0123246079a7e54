import LinkAdaptation.Proofs.RateLadder
import LinkAdaptation.Proofs.TrafficBounds
import LinkAdaptation.Proofs.WindowDebt

/-! On a link where every frame arrives, or none does, the search comes to an
end. Three things are used up in turn. A trial uses up a column that was not
visited, and may bring back debt in a group it clears; a report at a rate with
debt pays some of it back; and where the rate has no debt, the station moves one
rung along the ladder of its rates, always the same way. Debt and rungs are
bounded, so only so many reports can pass before no column is left to try. -/

namespace LinkAdaptation

/-- The event reports outcomes, all of them equal to `b`. -/
def Event.Steady (b : Bool) : Event → Prop
  | .report r _ => r.outcomes ≠ [] ∧ ∀ x ∈ r.outcomes, x = b
  | .setAggregation _ => False

namespace Controller

/-- The rungs that are left in the direction in which equal outcomes drive the station. -/
def climb (b : Bool) (c : Controller) : Nat :=
  let rung := Neighbours.rung c.group c.index
  if b then ratesPerGroup - 1 - rung else rung

/-- No ledger has as much debt. -/
def debtBound : Nat := groupCount * ratesPerGroup * windowLength + 1

/-- The columns that are left, the debt and the rungs, in order of their weight. -/
def searchLeft (b : Bool) (c : Controller) : Nat :=
  ((8 - c.visited.size) * debtBound + c.ledger.debt b) * ratesPerGroup + c.climb b

/-- More than a search can have left. -/
def settlingBound : Nat := 9 * debtBound * ratesPerGroup

example : settlingBound = 4143285 := rfl

/-- What is left before the next stay. The end of a stay begins a search that has it all to do. -/
def unsettled (b : Bool) (c : Controller) : Nat :=
  if c.stay? = none then c.searchLeft b else settlingBound

def Reachable (caps : Capabilities) (c : Controller) : Prop := ∃ past, (new caps).run past = c

theorem climb_lt {c : Controller} (h : c.Sound) (b : Bool) : c.climb b < ratesPerGroup := by
  have hrung : Neighbours.rung c.group c.index < ratesPerGroup :=
    Neighbours.rung_lt h.position.index_lt
  unfold climb
  dsimp only
  split_ifs <;> omega

theorem debt_lt (b : Bool) (c : Controller) : c.ledger.debt b < debtBound :=
  Nat.lt_succ_of_le (Ledger.debt_le b _)

theorem searchLeft_lt {c : Controller} (h : c.Sound) (b : Bool) :
    c.searchLeft b < settlingBound := by
  have hclimb := climb_lt h b
  have hdebt := debt_lt b c
  have hcolumns : (8 - c.visited.size) * debtBound ≤ 8 * debtBound :=
    Nat.mul_le_mul_right _ (Nat.sub_le _ _)
  simp only [searchLeft, settlingBound, ratesPerGroup] at hclimb ⊢
  omega

section Measure

variable {c d : Controller} {b : Bool}

theorem searchLeft_lt_of_size (hd : d.Sound) (h : c.visited.size < d.visited.size) :
    d.searchLeft b < c.searchLeft b := by
  have hclimb := climb_lt hd b
  have hdebt := debt_lt b d
  have hsize := d.visited.size_le
  have hcolumns : (8 - d.visited.size + 1) * debtBound ≤ (8 - c.visited.size) * debtBound :=
    Nat.mul_le_mul_right _ (by omega)
  rw [Nat.succ_mul] at hcolumns
  simp only [searchLeft, ratesPerGroup] at hclimb ⊢
  omega

theorem searchLeft_lt_of_debt (hd : d.Sound) (hvisited : d.visited = c.visited)
    (h : d.ledger.debt b < c.ledger.debt b) : d.searchLeft b < c.searchLeft b := by
  have hclimb := climb_lt hd b
  simp only [searchLeft, hvisited, ratesPerGroup] at hclimb ⊢
  omega

theorem searchLeft_lt_of_climb (hvisited : d.visited = c.visited)
    (hdebt : d.ledger.debt b ≤ c.ledger.debt b) (h : d.climb b < c.climb b) :
    d.searchLeft b < c.searchLeft b := by
  simp only [searchLeft, hvisited, ratesPerGroup]
  omega

end Measure

/-- A rate that has shown nothing but equal outcomes is left for a faster one if every frame arrived
there, and for a slower one if none did. -/
theorem Sound.neighbour_of_step {c : Controller} (h : c.Sound) (hclean : c.window.Clean) {b : Bool}
    (hdebt : c.window.debt b = 0) {rate index : Nat} (hrate : c.window.throughput? = some rate)
    (hstep : c.step? rate = some index) :
    (if b then c.neighbours.upper else c.neighbours.lower) = some index := by
  have hceiling : c.window.ceiling ≠ 0 := by
    rw [window, windowAt, Ledger.window_ceiling, h.ceilings]
    exact h.position.rate c.aggregation
  have hratio : c.ratio = if b then ratioOfPercent 100 else 0 := by
    rw [ratio, Window.ratio?_of_debt_eq_zero hclean hdebt, Option.getD_some]
  obtain rfl := Option.some.inj (hrate.symm.trans (Window.throughput?_of_debt_eq_zero hclean hdebt))
  unfold step? at hstep
  dsimp only at hstep
  cases b with
  | false =>
    rw [if_pos (.inr rfl)] at hstep
    exact hstep
  | true =>
    have hhopeful : ¬ (c.ratio ≤ hopelessRatio ∨ 100 * c.window.ceiling = 0) := by
      rw [hratio]
      simp [hopelessRatio, ratioOfPercent, hceiling]
    have hreliable : ¬ c.ratio < reliableRatio := by
      rw [hratio]
      decide
    simp only [if_true] at hstep ⊢
    rw [if_neg hhopeful] at hstep
    split_ifs at hstep with hup hdown
    · exact hstep
    · simp [hreliable] at hdown

theorem Sound.climb_stepTo_lt {c : Controller} (h : c.Sound) (hclean : c.window.Clean) {b : Bool}
    (hdebt : c.window.debt b = 0) {rate index : Nat} (hrate : c.window.throughput? = some rate)
    (hstep : c.step? rate = some index) : (c.stepTo index).climb b < c.climb b := by
  have hneighbour := h.neighbour_of_step hclean hdebt hrate hstep
  obtain ⟨hlower, hupper⟩ := Neighbours.rung_of_neighbour c.group c.index
  have hrung : Neighbours.rung c.group index < ratesPerGroup :=
    Neighbours.rung_lt (h.stepTo hstep).position.index_lt
  cases b with
  | false => exact hlower index hneighbour
  | true =>
    have hclimb := hupper index hneighbour
    exact Nat.sub_lt_sub_left (by omega) hclimb

theorem Coherent.searching_of_stay? {c : Controller} (h : c.Coherent) (hstay : c.stay? = none) :
    ∃ trial, c.phase = .searching trial := by
  cases hp : c.phase with
  | searching trial => exact ⟨trial, rfl⟩
  | ended => exact absurd hp h.not_ended
  | staying stay => simp [stay?, hp, Phase.stay?] at hstay

theorem size_visited_beginTrial {c : Controller} {rate : Nat} {next : Column}
    (hnext : c.nextColumn? rate = some next) :
    (c.beginTrial next rate).visited.size = c.visited.size + 1 :=
  ColumnSet.size_insert (not_visited_of_nextColumn? hnext)

section Steady

variable {c : Controller} (hsound : c.Sound) (hclean : c.window.Clean) {b : Bool} {r : Report}
  (hequal : ∀ x ∈ r.outcomes, x = b)

include hsound hclean

theorem Sound.clean_window_observe : (c.observe r).window.Clean := by
  rw [hsound.window_observe]
  exact hclean.absorb r

include hequal

theorem Sound.debt_window_observe (hdebt : c.window.debt b = 0) :
    (c.observe r).window.debt b = 0 := by
  have hle := Window.debt_absorb_le hclean hequal
  rw [hsound.window_observe]
  omega

theorem Sound.debt_observe_le : (c.observe r).ledger.debt b ≤ c.ledger.debt b :=
  Ledger.debt_record_le hsound.position.index_lt hclean hequal

theorem Sound.debt_observe_lt (hsome : r.outcomes ≠ []) (hdebt : c.window.debt b ≠ 0) :
    (c.observe r).ledger.debt b < c.ledger.debt b :=
  Ledger.debt_record_lt hsound.position.index_lt hclean hequal hsome hdebt

end Steady

/-- Outside a stay, a steady report that does not settle the station uses something up. -/
theorem searchLeft_report_lt {c : Controller} (hsound : c.Sound) (hcoherent : c.Coherent)
    (hclean : c.window.Clean) {b : Bool} {r : Report} {now : Nat}
    (hr : Event.Steady b (.report r now)) (hstay : c.stay? = none)
    (hafter : (c.report r now).stay? = none) : (c.report r now).searchLeft b < c.searchLeft b := by
  obtain ⟨hsome, hequal⟩ := hr
  obtain ⟨trial, hphase⟩ := hcoherent.searching_of_stay? hstay
  have hsearching := observe_phase_of_searching hphase r
  have hclean' := hsound.clean_window_observe hclean (r := r)
  have hkept := hsound.debt_window_observe hclean hequal
  have hlt := hsound.debt_observe_lt hclean hequal hsome
  have hm := report_move c r now
  have hsound' := hsound.report r now
  generalize c.report r now = d at hm hafter hsound' ⊢
  cases hm with
  | waits hrate =>
    rw [supervise_of_searching hsearching] at hsound' ⊢
    refine searchLeft_lt_of_debt hsound' rfl (hlt fun hdebt => ?_)
    rw [Window.throughput?_of_debt_eq_zero hclean' (hkept hdebt)] at hrate
    cases hrate
  | @resolves rate t _ htrial =>
    rw [observe_trial?] at htrial
    refine searchLeft_lt_of_debt hsound' rfl (hlt fun hdebt => ?_)
    -- before the report, the window of a trial tells too little, so it has debt
    have huntold := hcoherent.untold t (Phase.trial?_eq_some.mp htrial)
    rw [Window.throughput?_of_debt_eq_zero hclean hdebt] at huntold
    cases huntold
  | @steps rate index hrate _ hstep =>
    rw [supervise_of_searching (c := (c.observe r).stepTo index) hsearching] at hsound' ⊢
    by_cases hdebt : c.window.debt b = 0
    · have hclimb := (hsound.observe r).climb_stepTo_lt hclean' (hkept hdebt) hrate hstep
      exact searchLeft_lt_of_climb rfl (hsound.debt_observe_le hclean hequal) hclimb
    · exact searchLeft_lt_of_debt hsound' rfl (hlt hdebt)
  | @tries rate next _ _ _ _ hnext =>
    rw [supervise_of_searching hsearching] at hnext hsound' ⊢
    have hsize := size_visited_beginTrial hnext
    exact searchLeft_lt_of_size hsound' (hsize ▸ Nat.lt_succ_self _)
  | settles => simp [stay?, Phase.stay?] at hafter
  | stays _ _ _ hstaying => simp [stay?, hstaying, Phase.stay?] at hafter

theorem Reachable.unsettled_apply_lt {caps : Capabilities} {c : Controller} {b : Bool} {e : Event}
    (h : c.Reachable caps) (he : e.Steady b) (hafter : (c.apply e).stay? = none) :
    (c.apply e).Reachable caps ∧ (c.apply e).unsettled b < c.unsettled b := by
  obtain ⟨past, rfl⟩ := h
  have hsound := sound_run caps past
  refine ⟨⟨past ++ [e], run_append _ past [e]⟩, ?_⟩
  cases e with
  | setAggregation => exact absurd he id
  | report r now =>
    rw [unsettled, unsettled, if_pos hafter]
    split_ifs with hstay
    · exact searchLeft_report_lt hsound (coherent_run caps past) (clean_run caps past _ _) he hstay
        hafter
    · exact searchLeft_lt (hsound.report r now) b

/-- On a steady link the search settles, from whatever state a station has got into and however
many outcomes each report carries. -/
theorem settles_on_steady_link (caps : Capabilities) (past events : List Event) (b : Bool)
    (hsteady : ∀ e ∈ events, e.Steady b) (hlong : settlingBound < events.length) :
    ∃ pre, pre ≠ [] ∧ pre <+: events ∧ (((new caps).run past).run pre).stay?.isSome := by
  let c := (new caps).run past
  have hleft : c.unsettled b ≤ settlingBound := by
    unfold unsettled
    split_ifs
    · exact (searchLeft_lt (sound_run caps past) b).le
    · exact le_rfl
  have hstep (d : Controller) (e : Event) (hd : d.Reachable caps) (he : e.Steady b)
      (hnot : ¬ (d.apply e).stay? ≠ none) :
      (d.apply e).Reachable caps ∧ (d.apply e).unsettled b < d.unsettled b :=
    hd.unsettled_apply_lt he (not_not.mp hnot)
  obtain ⟨kept, e, rest, hsplit, -, -, -, hends⟩ :=
    run_ends hstep ⟨past, rfl⟩ hsteady (hleft.trans_lt hlong)
  refine ⟨kept ++ [e], by simp, ⟨rest, by simp [hsplit]⟩, ?_⟩
  rw [run_append]
  exact Option.isSome_iff_ne_none.mpr hends

/-- A frame a report, each lost: a station that has just gone on trial settles. -/
theorem losses_settle_trial :
    let frame (n : Nat) := Event.report ⟨0, n, false⟩ 0
    let trying := (new ⟨.mhz20, true, false⟩).run [frame 3]
    trying.trial? = some ⟨⟨.legacyAntA, 0, .mhz20⟩, 0⟩ ∧
      ∃ n, 0 < n ∧ n ≤ settlingBound + 1 ∧
        (trying.run (List.replicate n (frame 1))).stay?.isSome := by
  intro frame trying
  have hsteady : ∀ e ∈ List.replicate (settlingBound + 1) (frame 1), e.Steady false := by
    intro e he
    rw [List.eq_of_mem_replicate he]
    simp [frame, Event.Steady, Report.outcomes, Report.failures]
  obtain ⟨pre, hne, hpre, hstay⟩ := settles_on_steady_link ⟨.mhz20, true, false⟩ [frame 3]
    (List.replicate (settlingBound + 1) (frame 1)) false hsteady
    (by rw [List.length_replicate]; exact Nat.lt_succ_self _)
  obtain ⟨hlen, hpre⟩ := List.prefix_replicate_iff.mp hpre
  refine ⟨by decide +kernel +zetaReduce, pre.length, List.length_pos_of_ne_nil hne, hlen, ?_⟩
  rw [← hpre]
  exact hstay

end Controller

end LinkAdaptation
