import LinkAdaptation.Proofs.DeadLink
import LinkAdaptation.Simulation.Summary

/-! The accounts of a simulation. Whatever options are accepted, and whatever
the link draws, every frame is booked as delivered or lost, each round advances
source and clock by what it takes, and the summary tells of every station. Only
the rate changes have too narrow a counter: it wraps around when a station has
changed its rate often enough. -/

namespace LinkAdaptation

/-- The time that passes in a simulation. -/
def Options.seconds (o : Options) : Float :=
  (o.packets * o.tickMicros).toFloat / 1000000.0

/-- What some options ask for at a width. -/
def scenarioOf (o : Options) (seed : UInt64) (width : Width) : Scenario where
  caps := ⟨width, o.ht, o.vht⟩
  snr := o.snr
  mpdus := o.mpdus
  rounds := o.packets.toNat
  tickMicros := o.tickMicros.toNat
  stations := o.stations
  seed := seed

theorem exists_scenario {o : Options} (h : o.width ∈ [20, 40, 80, 160]) (seed : UInt64) :
    ∃ width, Scenario.ofOptions o seed = .ok (scenarioOf o seed width) := by
  obtain ⟨width, hwidth⟩ : ∃ w, Width.ofMhz o.width.toNat = .ok w := by
    simp only [List.mem_cons, List.not_mem_nil, or_false] at h
    rcases h with h | h | h | h
    all_goals exact h ▸ ⟨_, rfl⟩
  refine ⟨width, ?_⟩
  rw [Scenario.ofOptions, hwidth]
  rfl

namespace Simulation

variable {σ : Type}

/-- The rate at which a station is served next. -/
def rateOf (sim : Simulation σ) (a : Address) : Rate := (sim.registry.dataVector a).rate

/-- What becomes of the frames that a station sends in a round. -/
def framesOf (m : Medium σ) (o : Options) (seed : UInt64) (sims : Nat → Simulation σ) (i k : Nat) :
    Delivery :=
  let source := m.skip ((k * o.stations + i) * o.mpdus) (m.ofSeed seed)
  (m.transmit ⟨o.snr, source⟩ ((sims k).registry.dataVector (address (i + 1))) o.mpdus).1

/-- What a simulation has come to after a number of rounds. -/
structure Accounts (m : Medium σ) (o : Options) (seed : UInt64) (sims : Nat → Simulation σ)
    (k : Nat) : Prop where
  link : (sims k).link = ⟨o.snr, m.skip (k * o.stations * o.mpdus) (m.ofSeed seed)⟩
  position (position : σ → Nat) (words : Nat) (h : m.Advances position words) :
    position (sims k).link.source =
      position (m.ofSeed seed) + words * (k * o.stations * o.mpdus)
  clock : (sims k).clock.now = k * o.tickMicros.toNat * 1000
  listed : (sims k).tallies.map (·.1) = (List.range' 1 o.stations).map address
  aggregation (i : Nat) (hi : i < o.stations) :
    ∃ c, (sims k).registry.controller? (address (i + 1)) = some c ∧
      c.aggregation.isOn = decide (1 < o.mpdus.val)
  frames (i : Nat) (a : Address) (t : Tally) (h : (sims k).tallies[i]? = some (a, t)) :
    t.delivered.toNat = ((List.range k).map fun j => (framesOf m o seed sims i j).acked).sum ∧
      t.lost.toNat = ((List.range k).map fun j => (framesOf m o seed sims i j).lost).sum ∧
      t.delivered.toNat + t.lost.toNat = k * o.mpdus
  changes (i : Nat) (a : Address) (t : Tally) (h : (sims k).tallies[i]? = some (a, t)) :
    t.rateChanges.toNat = changesIn (fun j => (sims j).rateOf a) k % UInt32.size

theorem getElem?_talliesOf {x : Nat → Station} {count i : Nat} {a : Address} {t : Tally}
    (h : (talliesOf x 0 count)[i]? = some (a, t)) :
    i < count ∧ a = address (i + 1) ∧ t = (x i).tally := by
  rw [talliesOf, List.getElem?_map, Option.map_eq_some_iff] at h
  obtain ⟨j, hj, hjt⟩ := h
  obtain ⟨hi, rfl⟩ := List.getElem?_eq_some_iff.mp hj
  rw [List.length_range'] at hi
  simp only [List.getElem_range', Nat.zero_add, Nat.one_mul, Prod.mk.injEq] at hjt
  exact ⟨hi, hjt.1.symm, hjt.2.symm⟩

section Accounting

variable {m : Medium σ} {o : Options} {seed : UInt64} {width : Width} {sims : Nat → Simulation σ}

theorem rateOf_eq {s : Scenario} (hsims : ∀ k, AtRound m s k (sims k)) {i : Nat}
    (hi : i < s.stations) : (fun k => (sims k).rateOf (address (i + 1))) = rateAt m s i := by
  funext k
  rw [rateOf, Registry.dataVector_of_controller? ((hsims k).tracked i hi), rateAt]

theorem framesOf_eq (hsims : ∀ k, AtRound m (scenarioOf o seed width) k (sims k)) {i : Nat}
    (hi : i < o.stations) :
    framesOf m o seed sims i = deliveryAt m (scenarioOf o seed width) i := by
  funext k
  rw [framesOf, Registry.dataVector_of_controller? ((hsims k).tracked i hi)]
  rfl

theorem accounts_of_atRound (hsims : ∀ k, AtRound m (scenarioOf o seed width) k (sims k)) {k : Nat}
    (htime : k * o.tickMicros.toNat * 1000 < UInt64.size) (hframes : k * o.mpdus < UInt64.size) :
    Accounts m o seed sims k := by
  obtain ⟨htallies, htracked, hlink, hclock⟩ := hsims k
  have hlink' : (sims k).link = ⟨o.snr, m.skip (k * o.stations * o.mpdus) (m.ofSeed seed)⟩ := hlink
  refine ⟨hlink', fun position words h => ?_, ?_, ?_, fun i hi => ?_, fun i a t h => ?_,
    fun i a t h => ?_⟩
  · rw [hlink']
    exact h.position_skip _ _
  · rw [hclock, clockAt, Clock.now]
    exact UInt64.toNat_ofNat_of_lt' htime
  · rw [htallies, talliesOf, List.map_map]
    exact (addresses_eq (scenarioOf o seed width)).symm
  · exact ⟨_, htracked i hi, aggregation_stationAt m _ i k⟩
  · obtain ⟨hi, rfl, rfl⟩ := getElem?_talliesOf (htallies ▸ h)
    have hsum :
        ((List.range k).map fun j => (deliveryAt m (scenarioOf o seed width) i j).acked).sum +
          ((List.range k).map fun j => (deliveryAt m (scenarioOf o seed width) i j).lost).sum =
            k * o.mpdus :=
      sum_deliveryAt m (scenarioOf o seed width) i k
    rw [framesOf_eq hsims hi, delivered_stationAt, lost_stationAt,
      UInt64.toNat_ofNat_of_lt' (by omega), UInt64.toNat_ofNat_of_lt' (by omega)]
    exact ⟨rfl, rfl, hsum⟩
  · obtain ⟨hi, rfl, rfl⟩ := getElem?_talliesOf (htallies ▸ h)
    rw [rateOf_eq hsims hi, rateChanges_stationAt, UInt32.toNat_ofNat']

end Accounting

section Printing

variable {m : Medium σ} {s : Scenario} {k : Nat} {sim : Simulation σ}

theorem summary_eq (h : AtRound m s k sim) (style : Paint → String → String) :
    summary style s sim = headline style s :: (List.range' 0 s.stations).map fun i =>
      stationLine style (address (i + 1)) (stationAt m s k i).controller
        (stationAt m s k i).tally := by
  rw [summary, h.tallies, talliesOf, List.filterMap_map]
  refine congrArg _ (List.filterMap_eq_map_iff_forall_eq_some.mpr fun i hi => ?_)
  have hlt : i < s.stations := by simpa using hi
  simp only [Function.comp_apply, h.tracked i hlt, Option.map_some]

theorem headline_scenarioOf (style : Paint → String → String) (o : Options) (seed : UInt64)
    (width : Width) :
    headline style (scenarioOf o seed width) =
      style .bold s!"=== {o.packets} rounds, {oneDecimal o.seconds} s simulated ===" := by
  have hwrap : UInt64.ofNat (o.packets.toNat * o.tickMicros.toNat) = o.packets * o.tickMicros := by
    rw [UInt64.ofNat_mul, UInt64.ofNat_toNat, UInt64.ofNat_toNat]
  simp only [headline, scenarioOf, hwrap]
  rfl

end Printing

/-- A simulation accounts for every frame. Whatever the medium, with any options that a simulator
can be given, one of the four widths and a link that can exist, nothing is refused, and there are as
many rounds as were asked for. After each round the source has been drawn from once for each frame,
whatever the rates, the frames of each station are delivered or lost, and aggregation is on for
those who send several at once. The rate changes of a station are the rounds after the first that
are at another rate than the round before, as far as 32 bits can tell. The summary has a headline
and then a line for each station, in the order of the addresses, with the counts of that station. -/
theorem run_accounts (m : Medium σ) (o : Options) (seed : UInt64)
    (hwidth : o.width ∈ [20, 40, 80, 160]) (hsnr : o.snr.isFinite = true)
    (htime : o.packets.toNat * o.tickMicros.toNat * 1000 < UInt64.size)
    (hframes : o.packets.toNat * o.mpdus < UInt64.size) :
    ∃ (s : Scenario) (sims : Nat → Simulation σ),
      Scenario.ofOptions o seed = .ok s ∧ start m s = .ok (sims 0) ∧
      (∀ k, round m s (sims k) = .ok (sims (k + 1))) ∧
      run m s = .ok (sims o.packets.toNat) ∧
      (∀ k ≤ o.packets.toNat, Accounts m o seed sims k) ∧
      ((List.range' 1 o.stations).map address).Pairwise (fun a b => a.toList < b.toList) ∧
      ∀ style, ∃ lines, o.lines m style seed = .ok lines ∧ lines.length = o.stations + 1 ∧
        lines[0]? = some (style .bold
          s!"=== {o.packets} rounds, {oneDecimal o.seconds} s simulated ===") ∧
        ∀ i < o.stations.val, ∃ (c : Controller) (t : Tally),
          (sims o.packets.toNat).registry.controller? (address (i + 1)) = some c ∧
          (sims o.packets.toNat).tallies[i]? = some (address (i + 1), t) ∧
          let name := style .cyan (Address.text (address (i + 1)))
          let rate := style .bold c.txVector.rate.name
          let share := style t.paint s!"{oneDecimal t.percent}%"
          lines[i + 1]? = some (
            s!"{name}  {rate} {c.width.name}  column {c.column.name}  phase {c.phase.name}  " ++
              s!"delivered {t.delivered} ({share})  rate changes {t.rateChanges}") := by
  obtain ⟨width, hs⟩ := exists_scenario hwidth seed
  have hstations : (scenarioOf o seed width).stations < 256 := Nat.lt_succ_of_le o.stations.2.2
  obtain ⟨sims, hstart, hround, hsims⟩ :=
    exists_simulations m (s := scenarioOf o seed width) hsnr hstations
  have hrun : run m (scenarioOf o seed width) = .ok (sims o.packets.toNat) :=
    run_of_round hstart hround
  have hlast := hsims o.packets.toNat
  have hnumber (i : Nat) (hi : i < o.stations.val) :
      (List.range' 0 (scenarioOf o seed width).stations)[i]? = some i := by
    have hi' : i < (scenarioOf o seed width).stations := hi
    rw [List.getElem?_range' hi', Nat.zero_add, Nat.one_mul]
  let tallyAt (i : Nat) : Tally := (stationAt m (scenarioOf o seed width) o.packets.toNat i).tally
  have hlines (style : Paint → String → String) : o.lines m style seed =
      .ok (summary style (scenarioOf o seed width) (sims o.packets.toNat)) := by
    rw [Options.lines, hs]
    simp only [Except.mapError, bind, Except.bind, hrun]
    rfl
  refine ⟨_, sims, hs, hstart, hround, hrun, fun k hk => accounts_of_atRound hsims ?_ ?_,
    addresses_pairwise hstations, fun style => ⟨_, hlines style, ?_, ?_,
      fun i hi => ⟨_, tallyAt i, hlast.tracked i hi, ?_, ?_⟩⟩⟩
  · exact (Nat.mul_le_mul_right _ (Nat.mul_le_mul_right _ hk)).trans_lt htime
  · exact (Nat.mul_le_mul_right _ hk).trans_lt hframes
  · rw [summary_eq hlast style, List.length_cons, List.length_map, List.length_range']
    rfl
  · rw [summary_eq hlast style, List.getElem?_cons_zero, headline_scenarioOf]
  · rw [hlast.tallies, talliesOf, List.getElem?_map, hnumber i hi, Option.map_some]
  · rw [summary_eq hlast style, List.getElem?_cons_succ, List.getElem?_map, hnumber i hi,
      Option.map_some]
    rfl

/-- Two rounds of two stations that send three frames each take twelve draws, of two words each. -/
theorem two_rounds_of_two_stations :
    let o : Options :=
      { width := 40, mpdus := ⟨3, by decide⟩, packets := 2, stations := ⟨2, by decide⟩ }
    ∃ (s : Scenario) (sims : Nat → Simulation KeyStream),
      Scenario.ofOptions o 7 = .ok s ∧ run .keyed s = .ok (sims 2) ∧
      (sims 2).link.source.position = 24 ∧ (sims 2).clock.now = 2000000 ∧
      (sims 2).tallies.map (·.1) = [address 1, address 2] ∧
      (∀ (i : Nat) (a : Address) (t : Tally), (sims 2).tallies[i]? = some (a, t) →
        t.delivered.toNat + t.lost.toNat = 6 ∧
          t.rateChanges.toNat = changesIn (fun j => (sims j).rateOf a) 2 % UInt32.size) ∧
      ∃ lines, o.report 7 true = .ok lines ∧ lines.length = 3 := by
  intro o
  have hsnr : o.snr.isFinite = true := by decide +kernel +zetaReduce
  have htime : o.packets.toNat * o.tickMicros.toNat * 1000 = 2000000 := by decide
  have hframes : o.packets.toNat * o.mpdus = 6 := rfl
  obtain ⟨s, sims, hs, -, -, hrun, haccounts, -, hlines⟩ :=
    run_accounts .keyed o 7 (by decide) hsnr (by rw [htime]; decide) (by rw [hframes]; decide)
  obtain ⟨-, hposition, hclock, hlisted, -, hframes, hchanges⟩ := haccounts 2 le_rfl
  obtain ⟨lines, hreport, hlength, -⟩ := hlines (·.apply true)
  exact ⟨s, sims, hs, hrun, hposition _ _ Medium.keyed_advances, hclock.trans htime, hlisted,
    fun i a t h => ⟨(hframes i a t h).2.2, hchanges i a t h⟩, lines, hreport, hlength⟩

/-- On a link where nothing arrives the rate goes up and down for ever. After so many rounds it has
changed more often than 32 bits can tell, and the counter is where it was at the start. -/
theorem four_billion_changes_count_as_none :
    let o : Options := { snr := -1000.0, packets := 185757335395, tickMicros := 0 }
    o.width ∈ [20, 40, 80, 160] ∧ o.snr.isFinite = true ∧
      o.packets.toNat * o.tickMicros.toNat * 1000 < UInt64.size ∧
      o.packets.toNat * o.stations * o.mpdus < UInt64.size ∧
      ∃ (s : Scenario) (sims : Nat → Simulation KeyStream) (t : Tally),
        Scenario.ofOptions o 1 = .ok s ∧ start .bounded s = .ok (sims 0) ∧
        (∀ k, round .bounded s (sims k) = .ok (sims (k + 1))) ∧
        run .bounded s = .ok (sims o.packets.toNat) ∧
        (sims o.packets.toNat).tallies = [(address 1, t)] ∧
        changesIn (fun k => (sims k).rateOf (address 1)) o.packets.toNat = 4294967296 ∧
        t.rateChanges.toNat = 0 := by
  intro o
  have hsnr : o.snr.isFinite = true := by decide +kernel +zetaReduce
  let s := scenarioOf o 1 .mhz80
  obtain ⟨sims, hstart, hround, hsims⟩ :=
    exists_simulations .bounded (s := s) hsnr (by decide)
  have hchanges : changesIn (rateAt .bounded s 0) o.packets.toNat = 4294967296 := by
    rw [rateAt_dead rfl rfl rfl]
    exact Controller.changesIn_lost 1073741823
  refine ⟨by decide, hsnr, by decide, by decide, s, sims, _, rfl, hstart, hround,
    run_of_round hstart hround, (hsims o.packets.toNat).tallies, ?_, ?_⟩
  · rw [← hchanges]
    exact congrArg (changesIn · _) (rateOf_eq hsims (i := 0) (by decide))
  · rw [rateChanges_stationAt, hchanges]
    rfl

end Simulation

end LinkAdaptation
