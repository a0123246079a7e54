import LinkAdaptation.Proofs.UsablePositions

/-! Every vector that a controller hands out can be sent. The projection would
take any index and any mode; that its rates are among those of the device
follows from the positions a controller can be in. -/

namespace LinkAdaptation

def LegacyRate.isOfdm : LegacyRate → Bool
  | .dsss1 | .dsss2 | .dsss5_5 | .dsss11 => false
  | .ofdm6 | .ofdm9 | .ofdm12 | .ofdm18 | .ofdm24 | .ofdm36 | .ofdm48 | .ofdm54 => true

/-- What a device asks of a vector: a rate that it has, sent with the parameters that such a rate
goes with. -/
structure TxVector.Sendable (caps : Capabilities) (v : TxVector) : Prop where
  legacy (rate : LegacyRate) : v.rate = .legacy rate →
    rate.isOfdm = true ∧ v.width = .mhz20 ∧ v.guardNs = 800 ∧ v.antennas = 1 ∧ v.streams = 1
  ht (mcs : Nat) : v.rate = .ht mcs →
    caps.ht = true ∧ caps.vht = false ∧ v.width = caps.width ∧
      (v.streams = 1 ∧ mcs ≤ 7 ∨ v.streams = 2 ∧ 8 ≤ mcs ∧ mcs ≤ 15)
  vht (mcs : Nat) : v.rate = .vht mcs →
    caps.vht = true ∧ v.width = caps.width ∧ mcs ≤ 9 ∧ (v.width = .mhz20 → mcs ≤ 8)
  streams : v.streams = v.antennas

namespace TxVector.Sendable

variable {caps : Capabilities} {v : TxVector}

theorem of_legacy {rate : LegacyRate} (hrate : v.rate = .legacy rate) (hofdm : rate.isOfdm = true)
    (hwidth : v.width = .mhz20) (hguard : v.guardNs = 800) (hantennas : v.antennas = 1)
    (hstreams : v.streams = 1) : v.Sendable caps := by
  refine ⟨fun other h => ?_, fun mcs h => ?_, fun mcs h => ?_, hstreams.trans hantennas.symm⟩
  · obtain rfl : rate = other := by simpa [hrate] using h
    exact ⟨hofdm, hwidth, hguard, hantennas, hstreams⟩
  · simp [hrate] at h
  · simp [hrate] at h

theorem of_ht {mcs : Nat} (hrate : v.rate = .ht mcs) (hht : caps.ht = true)
    (hvht : caps.vht = false) (hwidth : v.width = caps.width)
    (hmcs : v.streams = 1 ∧ mcs ≤ 7 ∨ v.streams = 2 ∧ 8 ≤ mcs ∧ mcs ≤ 15)
    (hstreams : v.streams = v.antennas) : v.Sendable caps := by
  refine ⟨fun other h => ?_, fun other h => ?_, fun other h => ?_, hstreams⟩
  · simp [hrate] at h
  · obtain rfl : mcs = other := by simpa [hrate] using h
    exact ⟨hht, hvht, hwidth, hmcs⟩
  · simp [hrate] at h

theorem of_vht {mcs : Nat} (hrate : v.rate = .vht mcs) (hvht : caps.vht = true)
    (hwidth : v.width = caps.width) (hmcs : mcs ≤ 9) (hnarrow : v.width = .mhz20 → mcs ≤ 8)
    (hstreams : v.streams = v.antennas) : v.Sendable caps := by
  refine ⟨fun other h => ?_, fun other h => ?_, fun other h => ?_, hstreams⟩
  · simp [hrate] at h
  · simp [hrate] at h
  · obtain rfl : mcs = other := by simpa [hrate] using h
    exact ⟨hvht, hwidth, hmcs, hnarrow⟩

end TxVector.Sendable

theorem Mode.streams_eq_two_iff (m : Mode) : m.streams = 2 ↔ m = .mimo := by
  cases m <;> decide

namespace RatePoint

theorem isOfdm_legacyRate (index : Nat) : (legacyRate index).isOfdm = true := by
  by_cases h : index < 12
  · have hall : ∀ i : Fin 12, (legacyRate i).isOfdm = true := by decide
    exact hall ⟨index, h⟩
  · have hnone : LegacyRate.all[max index 4]? = none := by
      rw [List.getElem?_eq_none_iff, show LegacyRate.all.length = 12 from rfl]
      omega
    simp only [legacyRate, hnone]
    rfl

theorem streamMcs_le {m : Mode} {w : Width} {index : Nat} (hm : m.isLegacy = false)
    (h : m.hasRate w index = true) :
    streamMcs index ≤ 9 ∧ (w = .mhz20 → streamMcs index ≤ 8) := by
  cases m with
  | legacy => cases hm
  | siso | mimo =>
    simp only [Mode.hasRate, decide_eq_true_eq] at h
    unfold streamMcs
    split_ifs at h ⊢ <;> refine ⟨by omega, fun hw => ?_⟩
    all_goals first | omega | contradiction

theorem rate_of_vht {p : RatePoint} (hm : p.mode.isLegacy = false) :
    p.rate true = .vht (streamMcs p.index) := by
  cases h : p.mode with
  | legacy => simp [h, Mode.isLegacy] at hm
  | siso | mimo => simp [rate, h]

/-- The two-stream rates of HT are numbered on from the one-stream rates. -/
theorem rate_of_ht {p : RatePoint} (hm : p.mode.isLegacy = false)
    (h : p.mode.hasRate p.width p.index = true) :
    ∃ mcs, p.rate false = .ht mcs ∧
      (p.mode.streams = 1 ∧ mcs ≤ 7 ∨ p.mode.streams = 2 ∧ 8 ≤ mcs ∧ mcs ≤ 15) := by
  cases hmode : p.mode with
  | legacy => simp [hmode, Mode.isLegacy] at hm
  | siso =>
    have hr : p.rate false = .ht (min (streamMcs p.index) 7) := by simp [rate, hmode]
    exact ⟨_, hr, .inl ⟨rfl, Nat.min_le_right _ _⟩⟩
  | mimo =>
    have hr : p.rate false = .ht (min (twoStreamMcs p.index) 15) := by simp [rate, hmode]
    have hge : 8 ≤ twoStreamMcs p.index := by
      simp only [hmode, Mode.hasRate, decide_eq_true_eq] at h
      unfold twoStreamMcs
      split_ifs <;> omega
    exact ⟨_, hr, .inr ⟨rfl, Nat.le_min.mpr ⟨hge, by decide⟩, Nat.min_le_right _ _⟩⟩

theorem rate_eq_legacy_iff (p : RatePoint) (vht : Bool) :
    (∃ rate, p.rate vht = .legacy rate) ↔ p.mode.isLegacy = true := by
  cases hm : p.mode <;> cases vht <;> simp [rate, hm, Mode.isLegacy]

end RatePoint

namespace Controller

def point (c : Controller) : RatePoint where
  mode := c.column.mode
  index := c.index
  antennas := c.column.antennas.count
  guard := c.column.guard
  width := c.width
  aggregation := c.aggregation

theorem txVector_eq (c : Controller) : c.txVector = c.point.txVector c.caps.vht := rfl

theorem txVector_rate_of_legacy {c : Controller} (h : c.column.mode = .legacy) :
    c.txVector.rate = .legacy (RatePoint.legacyRate c.index) := by
  simp [txVector, RatePoint.txVector, RatePoint.rate, h]

theorem Sound.hasRate {c : Controller} (h : c.Sound) :
    c.column.mode.hasRate c.width c.index = true :=
  (CeilingTable.expected_ceiling_ne_zero (c.position.group .off) c.index).mp (h.position.rate .off)

theorem Sound.ht_of_nonLegacy {c : Controller} (h : c.Sound) (hm : c.column.mode.isLegacy = false)
    (hvht : c.caps.vht = false) : c.caps.ht = true := by
  have hnonLegacy := (h.position.nonLegacy hm).2
  simpa [Capabilities.nonLegacy, hvht] using hnonLegacy

theorem Sound.sendable_of_legacy {c : Controller} (h : c.Sound)
    (hl : c.column.mode.isLegacy = true) : c.txVector.Sendable c.caps := by
  have hantennas : c.txVector.antennas = c.txVector.streams := c.column.count_antennas
  have hguard : c.txVector.guardNs = 800 := by
    change c.column.guard.nanoseconds = 800
    rw [Column.guard_of_isLegacy hl]
    rfl
  cases hm : c.column.mode with
  | siso | mimo => simp [hm, Mode.isLegacy] at hl
  | legacy =>
    have hone : c.txVector.streams = 1 := by
      change c.column.mode.streams = 1
      rw [hm]
      rfl
    exact .of_legacy (txVector_rate_of_legacy hm) (RatePoint.isOfdm_legacyRate _)
      (h.position.legacy hl) hguard (hantennas.trans hone) hone

theorem Sound.sendable_of_nonLegacy {c : Controller} (h : c.Sound)
    (hl : c.column.mode.isLegacy = false) : c.txVector.Sendable c.caps := by
  have hantennas : c.txVector.streams = c.txVector.antennas := c.column.count_antennas.symm
  have hwidth : c.txVector.width = c.caps.width := (h.position.nonLegacy hl).1
  cases hvht : c.caps.vht with
  | true =>
    have hr : c.txVector.rate = .vht (RatePoint.streamMcs c.index) := by
      rw [txVector_eq, hvht]
      exact RatePoint.rate_of_vht (p := c.point) hl
    obtain ⟨hmcs, hnarrow⟩ := RatePoint.streamMcs_le hl h.hasRate
    exact .of_vht hr hvht hwidth hmcs hnarrow hantennas
  | false =>
    obtain ⟨mcs, hrate, hmcs⟩ := RatePoint.rate_of_ht (p := c.point) hl h.hasRate
    have hr : c.txVector.rate = .ht mcs := by
      rw [txVector_eq, hvht]
      exact hrate
    exact .of_ht hr (h.ht_of_nonLegacy hl hvht) hvht hwidth hmcs hantennas

theorem Sound.sendable {c : Controller} (h : c.Sound) : c.txVector.Sendable c.caps := by
  cases hl : c.column.mode.isLegacy with
  | true => exact h.sendable_of_legacy hl
  | false => exact h.sendable_of_nonLegacy hl

/-- Whatever has happened to a station, its device can send what the controller asks for: a rate
of its own kind, an OFDM rate at 20 MHz if a legacy one, with as many streams as chains. -/
theorem run_new_sendable (caps : Capabilities) (events : List Event) :
    let c := (new caps).run events
    c.txVector.Sendable caps ∧
      ((∃ rate, c.txVector.rate = .legacy rate) ↔ c.column.mode.isLegacy = true) ∧
      (c.txVector.antennas = 2 ↔ c.column.mode = .mimo) ∧
      c.txVector.guardNs = c.column.guard.nanoseconds ∧
      c.txVector.aggregated = c.aggregation.isOn := by
  intro c
  have hsound : c.Sound := sound_run caps events
  have hcaps : c.caps = caps := run_caps _ events
  refine ⟨hcaps ▸ hsound.sendable, RatePoint.rate_eq_legacy_iff _ _, ?_, rfl, rfl⟩
  change c.column.antennas.count = 2 ↔ c.column.mode = .mimo
  rw [c.column.count_antennas]
  exact Mode.streams_eq_two_iff _

end Controller

end LinkAdaptation
