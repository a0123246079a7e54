import LinkAdaptation.Proofs.RateSteps
import LinkAdaptation.Proofs.SendableVectors

/-! What a step does to the nominal rate of the frames. The steps follow the order
of the ceilings, and the projection sends some rates as others, so the two orders
could disagree. They do in one place: the 11 Mbps slot stands above the 9 Mbps one,
but is sent at 6 Mbps, as the legacy columns use no DSSS rate. -/

namespace LinkAdaptation

/-- The nominal order within one family of rates. Rates of different families do not compare. -/
def Rate.NoFaster : Rate → Rate → Prop
  | .legacy a, .legacy b => a.kbps ≤ b.kbps
  | .ht a, .ht b => a ≤ b
  | .vht a, .vht b => a ≤ b
  | .legacy _, .ht _ | .legacy _, .vht _ | .ht _, .legacy _ | .ht _, .vht _
  | .vht _, .legacy _ | .vht _, .ht _ => False

def TxVector.NoFaster (v w : TxVector) : Prop :=
  v.streams = w.streams ∧ v.rate.NoFaster w.rate

namespace RatePoint

theorem streamMcs_mono {i j : Nat} (h : i ≤ j) : streamMcs i ≤ streamMcs j := by
  unfold streamMcs
  split_ifs <;> omega

theorem twoStreamMcs_mono {i j : Nat} (h : i ≤ j) : twoStreamMcs i ≤ twoStreamMcs j := by
  unfold twoStreamMcs
  split_ifs <;> omega

theorem legacyRate_mono : ∀ i j : Fin 12,
    Neighbours.legacyLadder.idxOf i.val < Neighbours.legacyLadder.idxOf j.val →
      ¬ (i.val = 5 ∧ j.val = 3) → (legacyRate i).kbps ≤ (legacyRate j).kbps := by
  decide

theorem rate_noFaster {g : RateGroup} {p q : RatePoint} (vht : Bool)
    (hp : p.mode = g.mode) (hq : q.mode = g.mode)
    (hprate : p.mode.hasRate p.width p.index = true) (hqrate : q.mode.hasRate q.width q.index = true)
    (hrung : Neighbours.rung g p.index < Neighbours.rung g q.index)
    (hcross : ¬ (g.mode = .legacy ∧ p.index = 5 ∧ q.index = 3)) :
    (p.rate vht).NoFaster (q.rate vht) := by
  rw [hp] at hprate
  rw [hq] at hqrate
  cases hmode : g.mode with
  | legacy =>
    simp only [hmode, Mode.hasRate, decide_eq_true_eq] at hprate hqrate
    simp only [Neighbours.rung, hmode, Mode.isLegacy, if_true] at hrung
    have hkbps : (legacyRate p.index).kbps ≤ (legacyRate q.index).kbps :=
      legacyRate_mono ⟨p.index, hprate⟩ ⟨q.index, hqrate⟩ hrung fun h => hcross ⟨hmode, h⟩
    simpa [rate, hp, hq, hmode, Rate.NoFaster] using hkbps
  | siso =>
    simp only [Neighbours.rung, hmode, Mode.isLegacy] at hrung
    have hmcs : streamMcs p.index ≤ streamMcs q.index := streamMcs_mono hrung.le
    cases vht with
    | true => simpa [rate, hp, hq, hmode, Rate.NoFaster] using hmcs
    | false => simpa [rate, hp, hq, hmode, Rate.NoFaster] using min_le_min_right 7 hmcs
  | mimo =>
    simp only [Neighbours.rung, hmode, Mode.isLegacy] at hrung
    cases vht with
    | true => simpa [rate, hp, hq, hmode, Rate.NoFaster] using streamMcs_mono hrung.le
    | false =>
      simpa [rate, hp, hq, hmode, Rate.NoFaster] using
        min_le_min_right 15 (twoStreamMcs_mono hrung.le)

end RatePoint

namespace Controller

/-- The report takes the station from one index of a legacy column to another. -/
def Crosses (c : Controller) (r : Report) (now i j : Nat) : Prop :=
  c.column.mode = .legacy ∧ c.index = i ∧ (c.report r now).index = j

theorem txVector_noFaster {c d : Controller} {g : RateGroup} (hc : c.Sound) (hd : d.Sound)
    (hcaps : c.caps = d.caps) (hcg : c.column.mode = g.mode) (hdg : d.column.mode = g.mode)
    (hrung : Neighbours.rung g c.index < Neighbours.rung g d.index)
    (hcross : ¬ (g.mode = .legacy ∧ c.index = 5 ∧ d.index = 3)) :
    c.txVector.NoFaster d.txVector := by
  refine ⟨congrArg Mode.streams (hcg.trans hdg.symm), ?_⟩
  rw [txVector_eq, txVector_eq, hcaps]
  exact RatePoint.rate_noFaster d.caps.vht (p := c.point) (q := d.point) hcg hdg hc.hasRate
    hd.hasRate hrung hcross

/-- Whatever has happened to a station, a step down does not make its frames faster and a step up
does not make them slower, but for the two steps between the 9 and the 11 Mbps slot. -/
theorem steps_keep_nominal_order (caps : Capabilities) (past : List Event) (r : Report)
    (now : Nat) :
    let before := (new caps).run past
    let after := before.report r now
    (before.Lowers r now →
      (¬ before.Crosses r now 3 5 → after.txVector.NoFaster before.txVector) ∧
      (before.Crosses r now 3 5 →
        before.txVector.rate = .legacy .ofdm6 ∧ after.txVector.rate = .legacy .ofdm9)) ∧
    (before.Raises r now →
      (¬ before.Crosses r now 5 3 → before.txVector.NoFaster after.txVector) ∧
      (before.Crosses r now 5 3 →
        before.txVector.rate = .legacy .ofdm9 ∧ after.txVector.rate = .legacy .ofdm6)) := by
  intro before after
  have hbefore : before.Sound := sound_run caps past
  have hafter : after.Sound := hbefore.report r now
  have hcaps : after.caps = before.caps := report_caps before r now
  obtain ⟨hlower, hupper⟩ := Neighbours.rung_of_neighbour before.group before.index
  have hsent {i j : Nat} (hcolumn : after.column = before.column)
      (h : before.Crosses r now i j) :
      before.txVector.rate = .legacy (RatePoint.legacyRate i) ∧
        after.txVector.rate = .legacy (RatePoint.legacyRate j) := by
    obtain ⟨hmode, rfl, rfl⟩ := h
    exact ⟨txVector_rate_of_legacy hmode, txVector_rate_of_legacy (hcolumn ▸ hmode)⟩
  refine ⟨fun hlowers => ⟨fun hcross => ?_, hsent hlowers.1⟩,
    fun hraises => ⟨fun hcross => ?_, hsent hraises.1⟩⟩
  · exact txVector_noFaster (g := before.group) hafter hbefore hcaps (congrArg Column.mode hlowers.1)
      rfl (hlower _ hlowers.2) fun ⟨hmode, hj, hi⟩ => hcross ⟨hmode, hi, hj⟩
  · exact txVector_noFaster (g := before.group) hbefore hafter hcaps.symm rfl
      (congrArg Column.mode hraises.1) (hupper _ hraises.2) hcross

/-- On a link that carries everything and then nothing, the steps from 6 to 12 Mbps and back are
in order. -/
theorem twelve_and_back :
    let low := (new ⟨.mhz20, false, false⟩).run (List.replicate 3 (.report ⟨8, 0, false⟩ 0))
    let high := (new ⟨.mhz20, false, false⟩).run (List.replicate 4 (.report ⟨8, 0, false⟩ 0))
    low.Raises ⟨8, 0, false⟩ 0 ∧
      low.txVector.NoFaster (low.report ⟨8, 0, false⟩ 0).txVector ∧
      high.Lowers ⟨0, 3, false⟩ 0 ∧
      (high.report ⟨0, 3, false⟩ 0).txVector.NoFaster high.txVector := by
  intro low high
  have hraises : low.Raises ⟨8, 0, false⟩ 0 := by decide +kernel +zetaReduce
  have hlowers : high.Lowers ⟨0, 3, false⟩ 0 := by decide +kernel +zetaReduce
  have hlow : low.index = 3 := by decide +kernel +zetaReduce
  have hhigh : high.index = 6 := by decide +kernel +zetaReduce
  obtain ⟨-, hup⟩ := steps_keep_nominal_order _ _ ⟨8, 0, false⟩ 0
  obtain ⟨hdown, -⟩ := steps_keep_nominal_order _ _ ⟨0, 3, false⟩ 0
  refine ⟨hraises, (hup hraises).1 fun h => ?_, hlowers, (hdown hlowers).1 fun h => ?_⟩
  · exact absurd (hlow.symm.trans h.2.1) (by decide)
  · exact absurd (hhigh.symm.trans h.2.1) (by decide)

/-- The step down from the 11 Mbps slot goes from 6 to 9 Mbps, and the step up to it back to 6. -/
theorem eleven_slot_is_slower :
    let high := (new ⟨.mhz20, false, false⟩).run
      (List.replicate 4 (.report ⟨8, 0, false⟩ 0) ++ [.report ⟨0, 3, false⟩ 0])
    let low := high.report ⟨0, 8, false⟩ 0
    (high.Lowers ⟨0, 8, false⟩ 0 ∧ ¬ low.txVector.NoFaster high.txVector) ∧
      low.Raises ⟨3, 5, false⟩ 0 ∧
      ¬ low.txVector.NoFaster (low.report ⟨3, 5, false⟩ 0).txVector := by
  intro high low
  have hsix : high.txVector.rate = .legacy .ofdm6 := by decide +kernel +zetaReduce
  have hnine : low.txVector.rate = .legacy .ofdm9 := by decide +kernel +zetaReduce
  have hagain : (low.report ⟨3, 5, false⟩ 0).txVector.rate = .legacy .ofdm6 := by
    decide +kernel +zetaReduce
  have hslower : ¬ (Rate.legacy .ofdm9).NoFaster (.legacy .ofdm6) :=
    Nat.not_le.mpr (by decide : LegacyRate.kbps .ofdm6 < LegacyRate.kbps .ofdm9)
  refine ⟨⟨by decide +kernel +zetaReduce, fun h => hslower ?_⟩, by decide +kernel +zetaReduce,
    fun h => hslower ?_⟩
  · exact hnine ▸ hsix ▸ h.2
  · exact hnine ▸ hagain ▸ h.2

end Controller

end LinkAdaptation
