import LinkAdaptation.Proofs.SimulationRounds
import LinkAdaptation.Proofs.SlidingWindow
import LinkAdaptation.Text.Numeral
import Mathlib.Dynamics.FixedPoints.Basic

/-! A link on which nothing arrives. If the signal-to-noise ratio is far too low
the thresholds of all rates are zero, and no draw is below that. A station that
sends single frames over such a link, by a clock that stands still, goes round
in circles: so many losses end a stay in the first column, the columns that are
tried next lose their frames as well, and the station settles where it was. Two
of these columns have rates of their own, so each lap changes the rate four
times. -/

namespace LinkAdaptation

section Losses

theorem streamSnr_le (n : Nat) : streamSnr n ≤ 31 := by
  unfold streamSnr
  split <;> decide

theorem TxVector.requiredSnr_le (tx : TxVector) : tx.requiredSnr ≤ 44 := by
  have hwidth := tx.width.ordinal_lt
  have hstreams : (if 1 < tx.streams then 3 else 0) ≤ 3 := by split_ifs <;> decide
  have hguard : (if tx.guardNs < 800 then 1 else 0) ≤ 1 := by split_ifs <;> decide
  have hlegacy (rate : LegacyRate) : rate.requiredSnr ≤ 44 := by cases rate <;> decide
  unfold requiredSnr
  cases tx.rate with
  | legacy rate => exact hlegacy rate
  | ht mcs =>
    have hmcs := streamSnr_le (mcs % 8)
    simp only
    omega
  | vht mcs =>
    have hmcs := streamSnr_le mcs
    simp only
    omega

namespace Medium

/-- The medium of the simulator, where it is written out that the exponential function grows
beyond all finite numbers. -/
def bounded : Medium KeyStream :=
  { keyed with exp := fun x => if 710.0 < x then Numeral.infinity else Float.exp x }

theorem successProbability_dead {l : Link KeyStream} (h : l.snr = -1000.0) (tx : TxVector) :
    bounded.successProbability l tx = 0.0 := by
  have hall : ∀ n < 45, 1.0 / (1.0 + bounded.exp (-1.5 * (-1000.0 - Float.ofNat n))) = 0.0 := by
    decide +kernel
  rw [successProbability, h]
  exact hall tx.requiredSnr (Nat.lt_succ_of_le tx.requiredSnr_le)

theorem transmit_dead {l : Link KeyStream} (h : l.snr = -1000.0) (tx : TxVector) (frames : Nat) :
    (bounded.transmit l tx frames).1 = ⟨0, frames⟩ := by
  have hacked : (bounded.transmit l tx frames).1.acked = 0 := by
    change
      (Delivery.send KeyStream.draw (bounded.successProbability l tx) frames l.source).1.acked = 0
    rw [successProbability_dead h, Delivery.acked_send, List.countP_eq_zero]
    intro x hx hlt
    obtain ⟨k, -, rfl⟩ := List.mem_map.mp hx
    exact KeyStream.not_draw_lt_zero _ (of_decide_eq_true hlt)
  refine Delivery.eq_of_acked hacked ?_
  rw [(bounded.transmit_account l tx frames).1, Nat.zero_add]

end Medium

end Losses

/-- The losses of a window and those that come after them are one run of losses. -/
theorem Ledger.record_lost_succ (l : Ledger) (g : RateGroup) {index : Nat}
    (h : index < ratesPerGroup) (n : Nat) :
    (l.record g index 0 n).record g index 0 1 = l.record g index 0 (n + 1) := by
  have hwindow : (((l.window g index).pushMany true 0).pushMany false n).pushMany false 1 =
      ((l.window g index).pushMany true 0).pushMany false (n + 1) := by
    simp only [Window.pushMany_eq_repeat]
    rfl
  have hrecord (l : Ledger) (n : Nat) : l.record g index 0 n =
      l.setGroup g ((l.group g).setIfInBounds index
        (((l.window g index).pushMany true 0).pushMany false n)) :=
    rfl
  rw [hrecord (l.record g index 0 n), window_record_self l g 0 n h, hrecord l n, hrecord l (n + 1),
    group_setGroup l _ rfl]
  have hnone : ∀ w : Window, w.pushMany true 0 = w := fun w => rfl
  rw [hnone (Window.pushMany _ _ _), hwindow, Vector.setIfInBounds_setIfInBounds]
  simp only [setGroup, Vector.set_set]

theorem Window.throughput?_pushMany_lost (ceiling : Nat) {n : Nat} (h : 3 ≤ n) :
    ((new ceiling).pushMany false n).throughput? = some 0 := by
  have hclean := (clean_new ceiling).pushMany false n
  have houtcomes : ((new ceiling).pushMany false n).outcomes =
      List.replicate (min windowLength n) false := by
    rw [outcomes_pushMany (clean_new ceiling), outcomes_new, List.append_nil, List.take_replicate]
  have hfailures : 3 ≤ ((new ceiling).pushMany false n).failures := by
    rw [failures_eq_count hclean, houtcomes, List.count_replicate_self, windowLength]
    omega
  have hsuccesses : ((new ceiling).pushMany false n).successes = 0 := by
    rw [successes_eq_count hclean, houtcomes, List.count_replicate]
    rfl
  cases hrate : ((new ceiling).pushMany false n).throughput? with
  | none => exact absurd (Or.inl hfailures) ((throughput?_eq_none_iff hclean).mp hrate)
  | some rate => rw [throughput?_of_no_successes hsuccesses hrate]

namespace Controller

/-- The loss of a single frame, by a clock that stands still. -/
def lose (c : Controller) : Controller := c.report ⟨0, 1, false⟩ 0

def rateAfter (c : Controller) (losses : Nat) : Rate := (lose^[losses] c).txVector.rate

theorem rateAfter_add (c : Controller) (i : Nat) :
    (fun k => c.rateAfter (i + k)) = (lose^[i] c).rateAfter := by
  funext k
  rw [rateAfter, rateAfter, Nat.add_comm, Function.iterate_add_apply]

/-- The rates before each of the next losses. -/
def ratesFrom (c : Controller) : Nat → List Rate
  | 0 => []
  | n + 1 => c.txVector.rate :: ratesFrom c.lose n

def changesAlong : List Rate → Nat
  | [] | [_] => 0
  | a :: b :: rates => changesAlong (b :: rates) + if b ≠ a then 1 else 0

theorem changesIn_rateAfter (c : Controller) (n : Nat) :
    changesIn c.rateAfter (n + 1) = changesAlong (c.ratesFrom (n + 1)) := by
  induction n generalizing c with
  | zero => rfl
  | succ n ih =>
    have hstep : changesIn c.rateAfter (n + 1 + 1) =
        changesIn c.lose.rateAfter (n + 1) + if c.rateAfter 1 ≠ c.rateAfter 0 then 1 else 0 :=
      Nat.count_succ' (fun k => c.rateAfter (k + 1) ≠ c.rateAfter k) n
    rw [hstep, ih]
    rfl

section Circle

/-- A device of full width, which can use all columns. -/
def wideCaps : Capabilities := ⟨.mhz80, true, true⟩

def legacyGroup : RateGroup := ⟨.legacy, .mhz20, .long, .off⟩

/-- What is left of the trials: three losses at the first rate of each of two columns. -/
def lostTrials : Ledger :=
  ((Ledger.new .expected).record ⟨.siso, .mhz80, .long, .off⟩ 4 0 3).record
    ⟨.mimo, .mhz80, .long, .off⟩ 4 0 3

/-- A stay in the first column, so many losses after it began. -/
def resting (losses : Nat) : Controller where
  caps := wideCaps
  phase := .staying ⟨0, losses, losses, 0⟩
  position := ⟨.initial, 0, .mhz20⟩
  aggregation := .off
  visited := .only .initial
  ledger := lostTrials.record legacyGroup 0 0 (losses + 6)

theorem window_lostTrials : lostTrials.window legacyGroup 0 = .new 7 := by
  decide +kernel

/-- The stay after a further loss, of which its age does not tell yet. -/
def counted (losses : Nat) : Controller :=
  { resting (losses + 1) with phase := .staying ⟨0, losses + 1, losses, 0⟩ }

theorem observe_resting {n : Nat} (hn : n < 160) :
    (resting n).observe ⟨0, 1, false⟩ = counted n := by
  have hphase : (resting n).phase.count 0 1 = .staying ⟨0, n + 1, n, 0⟩ := by
    have hsaturate : Stay.saturate (n + 1) = n + 1 := by
      simp only [Stay.saturate, UInt32.size]
      omega
    simp only [resting, Phase.count, Stay.count, hsaturate]
    rfl
  change ({ resting n with
    phase := (resting n).phase.count 0 1
    ledger := lostTrials.record legacyGroup 0 0 (n + 6) |>.record legacyGroup 0 0 1 } :
      Controller) = _
  rw [hphase, lostTrials.record_lost_succ legacyGroup (by decide)]
  rfl

theorem throughput?_counted (n : Nat) : (counted n).window.throughput? = some 0 := by
  have hwindow : (counted n).window = (Window.new 7).pushMany false (n + 7) := by
    change (lostTrials.record legacyGroup 0 0 (n + 7)).window legacyGroup 0 = _
    rw [Ledger.window_record_self _ _ _ _ (by decide), window_lostTrials]
    rfl
  rw [hwindow, Window.throughput?_pushMany_lost 7 (by omega)]

/-- The first rate has no slower neighbour to step to. -/
theorem step?_counted (n : Nat) : (counted n).step? 0 = none := by
  rw [step?, if_pos (Or.inr rfl)]
  rfl

theorem supervise_counted {n : Nat} (hn : n < 160) :
    (counted n).supervise 0 = resting (n + 1) := by
  have hover : Stay.isOver ⟨0, n + 1, n, 0⟩ (counted n).limits 0 = false := by
    have hlost : ¬ 160 < n + 1 := by omega
    change (decide (160 < n + 1) || decide (480 < 0) || decide (0 + Stay.duration ≤ 0)) = false
    rw [decide_eq_false hlost]
    rfl
  have hage : ¬ (counted n).limits.age < n + 1 := by
    change ¬ 160 < n + 1
    omega
  change (if Stay.isOver ⟨0, n + 1, n, 0⟩ (counted n).limits 0 then _ else
    if (counted n).limits.age < n + 1 then _ else _) = _
  rw [hover, if_neg Bool.false_ne_true, if_neg hage]
  rfl

theorem lose_resting {n : Nat} (hn : n < 160) : (resting n).lose = resting (n + 1) := by
  have htrial : (counted n).trial? = none := rfl
  rw [lose, report, observe_resting hn, act]
  simp only [throughput?_counted, htrial, step?_counted, supervise_counted hn]
  rfl

theorem iterate_lose_resting {n : Nat} (hn : n ≤ 160) : lose^[n] (resting 0) = resting n := by
  induction n with
  | zero => rfl
  | succ n ih => rw [Function.iterate_succ_apply', ih (by omega), lose_resting hn]

/-- Before the search that follows a stay, and before each loss of it. -/
theorem ratesFrom_resting : (resting 160).ratesFrom 14 =
    List.replicate 5 (Rate.legacy .ofdm6) ++ List.replicate 3 (Rate.vht 0) ++
      [Rate.legacy .ofdm6] ++ List.replicate 3 (Rate.vht 0) ++
      List.replicate 2 (Rate.legacy .ofdm6) := by
  decide +kernel

theorem iterate_lose_searching : lose^[13] (resting 160) = resting 0 := by decide +kernel

theorem lap : lose^[173] (resting 0) = resting 0 := by
  rw [show 173 = 13 + 160 from rfl, Function.iterate_add_apply, iterate_lose_resting le_rfl,
    iterate_lose_searching]

theorem changesIn_stay : changesIn (resting 0).rateAfter (160 + 1) = 0 := by
  refine Nat.count_of_forall_not fun k hk => ?_
  have hrate {n : Nat} (hn : n ≤ 160) : (resting 0).rateAfter n = .legacy .ofdm6 := by
    rw [rateAfter, iterate_lose_resting hn]
    rfl
  rw [hrate (by omega), hrate (by omega)]
  exact fun h => h rfl

theorem changesIn_lap : changesIn (resting 0).rateAfter (173 + 1) = 4 := by
  have hsearch : changesIn (resting 160).rateAfter (13 + 1) = 4 := by
    rw [changesIn_rateAfter, ratesFrom_resting]
    decide
  rw [show 173 = 160 + 13 from rfl, changesIn_add, changesIn_stay, rateAfter_add,
    iterate_lose_resting le_rfl, hsearch]

theorem changesIn_laps (q : Nat) : changesIn (resting 0).rateAfter (173 * q + 1) = 4 * q := by
  induction q with
  | zero => rfl
  | succ q ih =>
    have hlaps : lose^[173 * q] (resting 0) = resting 0 := by
      rw [Function.iterate_mul]
      exact Function.IsFixedPt.iterate lap q
    rw [Nat.mul_succ, changesIn_add, ih, rateAfter_add, hlaps, changesIn_lap, Nat.mul_succ]

/-- A new controller comes to the first column after the same trials. -/
theorem ratesFrom_new : (new wideCaps).ratesFrom 16 =
    List.replicate 7 (Rate.legacy .ofdm6) ++ List.replicate 3 (Rate.vht 0) ++
      [Rate.legacy .ofdm6] ++ List.replicate 3 (Rate.vht 0) ++
      List.replicate 2 (Rate.legacy .ofdm6) := by
  decide +kernel

theorem iterate_lose_new : lose^[15] (new wideCaps) = resting 0 := by decide +kernel

theorem changesIn_lost (q : Nat) :
    changesIn (new wideCaps).rateAfter (15 + 173 * q + 1) = 4 * (q + 1) := by
  have hfirst : changesIn (new wideCaps).rateAfter (15 + 1) = 4 := by
    rw [changesIn_rateAfter, ratesFrom_new]
    decide
  rw [changesIn_add, rateAfter_add, iterate_lose_new, changesIn_laps, hfirst]
  omega

end Circle

end Controller

namespace Simulation

/-- A station that sends single frames loses all of them, one in each round. -/
theorem controller_stationAt_dead {s : Scenario} (hsnr : s.snr = -1000.0) (hmpdus : s.mpdus = 1)
    (htick : s.tickMicros = 0) (i k : Nat) :
    (stationAt .bounded s k i).controller = Controller.lose^[k] (.new s.caps) := by
  have hsingle : s.aggregated = false := by
    rw [Scenario.aggregated, hmpdus]
    rfl
  induction k with
  | zero => simp [stationAt, enrolled, hsingle]
  | succ k ih =>
    have hlost :
        deliveryOf .bounded s (linkAt .bounded s k i) (stationAt .bounded s k i) = ⟨0, 1⟩ := by
      rw [deliveryOf, Medium.transmit_dead hsnr, hmpdus]
    have houtcome : outcomeOf s ⟨0, 1⟩ = ⟨0, 1, false⟩ := by simp [outcomeOf, hsingle]
    have hnow : (clockAt s k).now = 0 := by simp [clockAt, Clock.now, htick]
    rw [Function.iterate_succ_apply', ← ih, stationAt, served, hlost, houtcome, hnow]
    rfl

theorem rateAt_dead {s : Scenario} (hsnr : s.snr = -1000.0) (hmpdus : s.mpdus = 1)
    (htick : s.tickMicros = 0) (i : Nat) :
    rateAt .bounded s i = (Controller.new s.caps).rateAfter := by
  funext k
  rw [rateAt, controller_stationAt_dead hsnr hmpdus htick, Controller.rateAfter]

end Simulation

end LinkAdaptation
