import LinkAdaptation.Proofs.FrameDraws
import LinkAdaptation.Proofs.ReportMoves
import LinkAdaptation.Proofs.StationRefinement
import LinkAdaptation.Simulation.Run
import Mathlib.Data.Nat.Count
import Mathlib.Tactic.Ring

/-! The rounds of a simulation. All that stations share is the source of the
link, and each takes as many draws of it as it sends frames. So what becomes of
a station can be told without the others, and a simulation is what has become
of its stations. It cannot fail once it has begun, because its stations are
tracked from the start and none is removed. -/

namespace LinkAdaptation

/-- How many rounds are at another rate than the round before. -/
def changesIn (rate : Nat → Rate) (rounds : Nat) : Nat :=
  Nat.count (fun k => rate (k + 1) ≠ rate k) (rounds - 1)

theorem changesIn_succ (rate : Nat → Rate) (k : Nat) :
    changesIn rate (k + 2) = changesIn rate (k + 1) + if rate (k + 1) ≠ rate k then 1 else 0 :=
  Nat.count_succ (fun k => rate (k + 1) ≠ rate k) k

/-- The last of the first rounds is the first of the others. -/
theorem changesIn_add (rate : Nat → Rate) (i n : Nat) :
    changesIn rate (i + n + 1) =
      changesIn rate (i + 1) + changesIn (fun k => rate (i + k)) (n + 1) :=
  Nat.count_add (fun k => rate (k + 1) ≠ rate k) i n

/-- A counter holds what was added to it, cut to its width. -/
theorem eq_ofNat_sum {added : Nat → Nat} (counter : Nat → UInt64) (hzero : counter 0 = 0)
    (hsucc : ∀ k, counter (k + 1) = counter k + .ofNat (added k)) (k : Nat) :
    counter k = .ofNat ((List.range k).map added).sum := by
  induction k with
  | zero => exact hzero
  | succ k ih =>
    rw [hsucc, ih, List.range_succ, List.map_append, List.sum_append, UInt64.ofNat_add,
      List.map_singleton, List.sum_singleton]

namespace Registry

theorem dataVector_of_controller? {r : Registry} {a : Address} {c : Controller}
    (h : r.controller? a = some c) : r.dataVector a = c.txVector := by
  simp [dataVector, h]

theorem deliver_of_controller? {r : Registry} {a : Address} {c : Controller}
    (h : r.controller? a = some c) (e : Event) :
    r.deliver a e = ({ r with controllers := r.controllers.insert a (c.apply e) }, .ok ()) := by
  simp [deliver, h]

theorem controller?_insert_self (r : Registry) (a : Address) (c : Controller) :
    controller? { r with controllers := r.controllers.insert a c } a = some c := by
  rw [controller?_insert, if_pos rfl]

theorem controller?_insert_of_ne (r : Registry) {a b : Address} (h : a ≠ b) (c : Controller) :
    controller? { r with controllers := r.controllers.insert a c } b = r.controller? b := by
  rw [controller?_insert, if_neg h]

end Registry

/-- A station as a simulation knows it. -/
structure Station where
  controller : Controller
  tally : Tally

namespace Simulation

section Addresses

theorem address_lt {i j : Nat} (hij : i < j) (hj : j < 256) :
    (address i).toList < (address j).toList := by
  have hlast : UInt8.ofNat i < UInt8.ofNat j := by
    rw [UInt8.lt_iff_toNat_lt, UInt8.toNat_ofNat_of_lt' (Nat.lt_trans hij hj),
      UInt8.toNat_ofNat_of_lt' hj]
    exact hij
  have htoList (n : Nat) : (address n).toList = [2, 0, 0, 0, 0, .ofNat n] := rfl
  simp [htoList, List.cons_lt_cons_iff, hlast]

theorem address_ne {i j : Nat} (hij : i < j) (hj : j < 256) : address i ≠ address j := by
  intro h
  have hlt := address_lt hij hj
  rw [h] at hlt
  exact List.lt_irrefl _ hlt

variable (s : Scenario)

theorem addresses_eq :
    addresses s = (List.range' 0 s.stations).map fun i => address (i + 1) := by
  rw [addresses, show (1 : Nat) = 1 + 0 from rfl, ← List.map_add_range', List.map_map]
  simp only [Function.comp_def, Nat.add_comm]

variable {s}

theorem addresses_pairwise (hstations : s.stations < 256) :
    (addresses s).Pairwise fun a b => a.toList < b.toList := by
  refine List.pairwise_map.mpr ?_
  have hrange : (List.range' 1 s.stations).Pairwise (· < ·) := List.pairwise_lt_range'
  refine hrange.imp_of_mem fun {i j} _ hj hij => address_lt hij ?_
  rw [List.mem_range'_1] at hj
  omega

theorem addresses_nodup (hstations : s.stations < 256) : (addresses s).Nodup :=
  (addresses_pairwise hstations).imp fun {a b} h => by
    rintro rfl
    exact List.lt_irrefl _ h

end Addresses

section Stations

variable {σ : Type} (m : Medium σ) (s : Scenario)

/-- What is reported of a delivery. -/
def outcomeOf (d : Delivery) : Report :=
  if s.aggregated then ⟨d.acked, d.lost, true⟩
  else if 0 < d.acked then ⟨1, 0, false⟩
  else ⟨0, 1, false⟩

theorem handle_requestOf (r : Registry) (a : Address) (d : Delivery) (now : Nat) :
    r.handle a (requestOf s d) now = r.deliver a (.report (outcomeOf s d) now) := by
  unfold requestOf outcomeOf
  split_ifs
  all_goals rfl

/-- What becomes of a station's frames on a link. -/
def deliveryOf (l : Link σ) (x : Station) : Delivery :=
  (m.transmit l x.controller.txVector s.mpdus).1

/-- A station after a round. -/
def served (now : Nat) (l : Link σ) (x : Station) : Station where
  controller := x.controller.report (outcomeOf s (deliveryOf m s l x)) now
  tally := (x.tally.noteRate x.controller.txVector.rate).noteDelivery (deliveryOf m s l x)

/-- A station before the first round. -/
def enrolled : Station where
  controller :=
    if s.aggregated then (Controller.new s.caps).setAggregation .on else .new s.caps
  tally := {}

/-- The link as the i-th station finds it in the k-th round. Both are counted from 0. -/
def linkAt (k i : Nat) : Link σ :=
  ⟨s.snr, m.skip ((k * s.stations + i) * s.mpdus) (m.ofSeed s.seed)⟩

def clockAt (k : Nat) : Clock := ⟨.ofNat (k * s.tickMicros * 1000)⟩

/-- The i-th station before the k-th round. -/
def stationAt : Nat → Nat → Station
  | 0, _ => enrolled s
  | k + 1, i => served m s (clockAt s k).now (linkAt m s k i) (stationAt k i)

theorem linkAt_next (k i : Nat) :
    { linkAt m s k i with source := m.skip s.mpdus (linkAt m s k i).source } =
      linkAt m s k (i + 1) := by
  have hdraws :
      (k * s.stations + (i + 1)) * s.mpdus = (k * s.stations + i) * s.mpdus + s.mpdus := by
    ring
  simp only [linkAt, hdraws, m.skip_add]

theorem linkAt_wrap (k : Nat) : linkAt m s k s.stations = linkAt m s (k + 1) 0 := by
  have hdraws : k * s.stations + s.stations = (k + 1) * s.stations + 0 := by ring
  simp only [linkAt, hdraws]

theorem clockAt_next (k : Nat) :
    (clockAt s k).advance (1000 * s.tickMicros) = clockAt s (k + 1) := by
  have htime : (k + 1) * s.tickMicros * 1000 = k * s.tickMicros * 1000 + 1000 * s.tickMicros := by
    ring
  rw [clockAt, clockAt, htime, UInt64.ofNat_add]
  rfl

end Stations

section Serving

variable {σ : Type} (m : Medium σ) (s : Scenario)

theorem serve_ok {r : Registry} {a : Address} {x : Station}
    (h : r.controller? a = some x.controller) (now : Nat) (l : Link σ) :
    serve m s now r l a x.tally =
      .ok ({ r with controllers := r.controllers.insert a (served m s now l x).controller },
        { l with source := m.skip s.mpdus l.source }, (served m s now l x).tally) := by
  have hsent : m.transmit l x.controller.txVector s.mpdus =
      (deliveryOf m s l x, { l with source := m.skip s.mpdus l.source }) :=
    Prod.ext rfl (m.transmit_account l x.controller.txVector s.mpdus).2
  rw [serve, Registry.dataVector_of_controller? h, hsent]
  simp only [handle_requestOf, Registry.deliver_of_controller? h]
  rfl

/-- The tallies of the stations from a number on. -/
def talliesOf (x : Nat → Station) (first count : Nat) : List (Address × Tally) :=
  (List.range' first count).map fun i => (address (i + 1), (x i).tally)

/-- The stations from a number on are served in their order. Each finds the link as those before it
have left it, and leaves the others alone. -/
theorem serveAll_ok (k : Nat) {first count : Nat} (hlast : first + count < 256) {r : Registry}
    (hr : ∀ i, first ≤ i → i < first + count →
      r.controller? (address (i + 1)) = some (stationAt m s k i).controller) :
    ∃ r', serveAll m s (clockAt s k).now r (linkAt m s k first)
          (talliesOf (stationAt m s k) first count) =
        .ok (r', linkAt m s k (first + count), talliesOf (stationAt m s (k + 1)) first count) ∧
      (∀ i, first ≤ i → i < first + count →
        r'.controller? (address (i + 1)) = some (stationAt m s (k + 1) i).controller) ∧
      ∀ i < first, r'.controller? (address (i + 1)) = r.controller? (address (i + 1)) := by
  induction count generalizing first r with
  | zero => exact ⟨r, rfl, fun i hi hi' => by omega, fun _ _ => rfl⟩
  | succ count ih =>
    have hserve := serve_ok m s (hr first le_rfl (by omega)) (clockAt s k).now (linkAt m s k first)
    rw [linkAt_next] at hserve
    let r₁ : Registry := { r with
      controllers := r.controllers.insert (address (first + 1))
        (stationAt m s (k + 1) first).controller }
    have hself : r₁.controller? (address (first + 1)) =
        some (stationAt m s (k + 1) first).controller :=
      r.controller?_insert_self _ _
    have hothers (i : Nat) (hne : address (first + 1) ≠ address (i + 1)) :
        r₁.controller? (address (i + 1)) = r.controller? (address (i + 1)) :=
      r.controller?_insert_of_ne hne _
    have hrest : first + 1 + count < 256 := by omega
    obtain ⟨r₂, hall, hserved, hbefore⟩ := ih hrest (r := r₁)
      fun i hi hi' => (hothers i (address_ne (by omega) (by omega))).trans
        (hr i (by omega) (by omega))
    refine ⟨r₂, ?_, fun i hi hi' => ?_, fun i hi => ?_⟩
    · rw [talliesOf, List.range'_succ, List.map_cons, serveAll, hserve]
      change (serveAll m s (clockAt s k).now r₁ (linkAt m s k (first + 1))
        (talliesOf (stationAt m s k) (first + 1) count) >>= _) = _
      rw [hall, show first + 1 + count = first + (count + 1) by omega]
      rfl
    · rcases Nat.eq_or_lt_of_le hi with rfl | hlt
      · exact (hbefore first (Nat.lt_succ_self first)).trans hself
      · exact hserved i hlt (by omega)
    · exact (hbefore i (by omega)).trans (hothers i (address_ne (by omega) (by omega)).symm)

/-- The simulation has come to where its stations are before the k-th round. -/
structure AtRound (k : Nat) (sim : Simulation σ) : Prop where
  tallies : sim.tallies = talliesOf (stationAt m s k) 0 s.stations
  tracked : ∀ i < s.stations,
    sim.registry.controller? (address (i + 1)) = some (stationAt m s k i).controller
  link : sim.link = linkAt m s k 0
  clock : sim.clock = clockAt s k

variable {m s}

theorem AtRound.round {k : Nat} {sim : Simulation σ} (h : AtRound m s k sim)
    (hstations : s.stations < 256) :
    ∃ next, Simulation.round m s sim = .ok next ∧ AtRound m s (k + 1) next := by
  have hlast : 0 + s.stations < 256 := by omega
  obtain ⟨r, hall, hserved, -⟩ :=
    serveAll_ok m s k hlast fun i _ hi => h.tracked i (by omega)
  rw [Nat.zero_add, linkAt_wrap] at hall
  let next : Simulation σ :=
    ⟨r, linkAt m s (k + 1) 0, clockAt s (k + 1), talliesOf (stationAt m s (k + 1)) 0 s.stations⟩
  refine ⟨next, ?_, rfl, fun i hi => hserved i (Nat.zero_le i) (by omega), rfl, rfl⟩
  rw [Simulation.round, h.clock, h.link, h.tallies, hall, clockAt_next]
  rfl

end Serving

section Starting

variable {σ : Type} (m : Medium σ) (s : Scenario)

theorem enroll_ok {r : Registry} (hcaps : r.profile.caps = s.caps) {a : Address}
    (h : r.controller? a = none) :
    ∃ r', enroll s r a = .ok r' ∧ r'.profile = r.profile ∧
      r'.controller? a = some (enrolled s).controller ∧
      ∀ b, a ≠ b → r'.controller? b = r.controller? b := by
  let added : Registry := { r with controllers := r.controllers.insert a (.new s.caps) }
  have hadd : r.handle a .add 0 = (added, .ok ()) := by
    simp [Registry.handle, Registry.add, Registry.contains_eq, h, added, hcaps]
  have hnew : added.controller? a = some (.new s.caps) := r.controller?_insert_self a _
  have hothers (b : Address) (hb : a ≠ b) : added.controller? b = r.controller? b :=
    r.controller?_insert_of_ne hb _
  cases hon : s.aggregated with
  | false =>
    refine ⟨added, ?_, rfl, ?_, hothers⟩
    · simp only [enroll, hadd, hon]
      rfl
    · simp only [enrolled, hon]
      exact hnew
  | true =>
    let changed : Controller := (Controller.new s.caps).setAggregation .on
    have hset : added.handle a (.setAggregation .on) 0 =
        ({ added with controllers := added.controllers.insert a changed }, .ok ()) :=
      Registry.deliver_of_controller? hnew (.setAggregation .on)
    refine ⟨{ added with controllers := added.controllers.insert a changed }, ?_, rfl, ?_,
      fun b hb => ?_⟩
    · simp only [enroll, hadd, hon, hset]
      rfl
    · simp only [enrolled, hon]
      exact added.controller?_insert_self a _
    · rw [added.controller?_insert_of_ne hb]
      exact hothers b hb

theorem enrollAll_ok {as : List Address} (hnodup : as.Nodup) {r : Registry}
    (hcaps : r.profile.caps = s.caps) (hnew : ∀ a ∈ as, r.controller? a = none) :
    ∃ r', as.foldlM (enroll s) r = .ok r' ∧
      (∀ a ∈ as, r'.controller? a = some (enrolled s).controller) ∧
      ∀ b ∉ as, r'.controller? b = r.controller? b := by
  induction as generalizing r with
  | nil => exact ⟨r, rfl, by simp, fun _ _ => rfl⟩
  | cons a as ih =>
    obtain ⟨hnotin, hrest⟩ := List.nodup_cons.mp hnodup
    obtain ⟨r₁, henroll, hprofile, hself, hothers⟩ :=
      enroll_ok s hcaps (hnew a List.mem_cons_self)
    have hnew₁ : ∀ b ∈ as, r₁.controller? b = none := fun b hb => by
      have hne : a ≠ b := fun h => hnotin (h ▸ hb)
      rw [hothers b hne]
      exact hnew b (List.mem_cons_of_mem _ hb)
    obtain ⟨r₂, hall, hself₂, hothers₂⟩ := ih hrest (hprofile ▸ hcaps) hnew₁
    refine ⟨r₂, ?_, fun b hb => ?_, fun b hb => ?_⟩
    · rw [List.foldlM_cons, henroll]
      exact hall
    · rcases List.mem_cons.mp hb with rfl | hb
      · exact (hothers₂ b hnotin).trans hself
      · exact hself₂ b hb
    · obtain ⟨hne, hb⟩ := not_or.mp (mt List.mem_cons.mpr hb)
      exact (hothers₂ b hb).trans (hothers b (Ne.symm hne))

variable {s}

/-- A link that can exist and addresses that are distinct are all it takes to start. -/
theorem start_ok (hsnr : s.snr.isFinite = true) (hstations : s.stations < 256) :
    ∃ first, start m s = .ok first ∧ AtRound m s 0 first := by
  have hempty (a : Address) : Registry.controller? ⟨{ caps := s.caps }, ∅⟩ a = none :=
    Std.TreeMap.getElem?_emptyc
  have hlink : m.link s.snr s.seed = .ok ⟨s.snr, m.ofSeed s.seed⟩ := if_pos hsnr
  obtain ⟨r, henroll, htracked, -⟩ :=
    enrollAll_ok s (addresses_nodup hstations) (r := ⟨{ caps := s.caps }, ∅⟩) rfl
      fun a _ => hempty a
  let first : Simulation σ :=
    ⟨r, ⟨s.snr, m.ofSeed s.seed⟩, {}, (addresses s).map ((·, {}))⟩
  refine ⟨first, ?_, ?_, fun i hi => ?_, ?_, ?_⟩
  · rw [start, Registry.ofProfile_ok, hlink]
    simp only [Except.mapError, bind, Except.bind, henroll]
    rfl
  · simp only [first, addresses_eq, List.map_map]
    rfl
  · refine htracked _ ?_
    rw [addresses_eq]
    exact List.mem_map.mpr ⟨i, by simp [hi], rfl⟩
  · simp [first, linkAt, Medium.skip]
  · simp [first, clockAt]

/-- Once a simulation has begun, each round leads to the next one. -/
theorem exists_simulations (hsnr : s.snr.isFinite = true) (hstations : s.stations < 256) :
    ∃ sims : Nat → Simulation σ, start m s = .ok (sims 0) ∧
      (∀ k, round m s (sims k) = .ok (sims (k + 1))) ∧ ∀ k, AtRound m s k (sims k) := by
  obtain ⟨first, hstart, hfirst⟩ := start_ok m hsnr hstations
  -- a round that failed would leave the simulation as it is, but none does
  let advance (sim : Simulation σ) : Simulation σ :=
    match round m s sim with
    | .ok next => next
    | .error _ => sim
  have hround {k : Nat} {sim : Simulation σ} (h : AtRound m s k sim) :
      round m s sim = .ok (advance sim) ∧ AtRound m s (k + 1) (advance sim) := by
    obtain ⟨next, hnext, hat⟩ := h.round hstations
    have hadvance : advance sim = next := by simp only [advance, hnext]
    rw [hadvance]
    exact ⟨hnext, hat⟩
  let sims (k : Nat) : Simulation σ := advance^[k] first
  have hsucc (k : Nat) : sims (k + 1) = advance (sims k) := Function.iterate_succ_apply' _ _ _
  have hall (k : Nat) : AtRound m s k (sims k) := by
    induction k with
    | zero => exact hfirst
    | succ k ih => exact hsucc k ▸ (hround ih).2
  exact ⟨sims, hstart, fun k => hsucc k ▸ (hround (hall k)).1, hall⟩

variable {m}

theorem rounds_of_round {sims : Nat → Simulation σ}
    (hround : ∀ k, round m s (sims k) = .ok (sims (k + 1))) (n k : Nat) :
    rounds m s n (sims k) = .ok (sims (k + n)) := by
  induction n generalizing k with
  | zero => rfl
  | succ n ih =>
    rw [rounds, hround, Nat.add_left_comm, Nat.add_comm n]
    exact ih (k + 1)

theorem run_of_round {sims : Nat → Simulation σ} (hstart : start m s = .ok (sims 0))
    (hround : ∀ k, round m s (sims k) = .ok (sims (k + 1))) : run m s = .ok (sims s.rounds) := by
  rw [run, hstart]
  simp only [bind, Except.bind]
  rw [rounds_of_round hround, Nat.zero_add]
  rfl

end Starting

section Tallies

variable {σ : Type} (m : Medium σ) (s : Scenario) (i : Nat)

/-- The rate at which the i-th station sends in a round. -/
def rateAt (k : Nat) : Rate := (stationAt m s k i).controller.txVector.rate

/-- What becomes of the frames that the i-th station sends in a round. -/
def deliveryAt (k : Nat) : Delivery := deliveryOf m s (linkAt m s k i) (stationAt m s k i)

theorem deliveryAt_account (k : Nat) :
    (deliveryAt m s i k).acked + (deliveryAt m s i k).lost = s.mpdus :=
  (m.transmit_account (linkAt m s k i) (stationAt m s k i).controller.txVector s.mpdus).1

theorem aggregation_stationAt (k : Nat) :
    (stationAt m s k i).controller.aggregation.isOn = s.aggregated := by
  induction k with
  | zero => cases hon : s.aggregated <;> simp [stationAt, enrolled, hon] <;> rfl
  | succ k ih =>
    rw [← ih]
    exact congrArg Aggregation.isOn (Controller.report_aggregation _ _ _)

theorem delivered_stationAt (k : Nat) :
    (stationAt m s k i).tally.delivered =
      .ofNat ((List.range k).map fun j => (deliveryAt m s i j).acked).sum :=
  eq_ofNat_sum (fun k => (stationAt m s k i).tally.delivered) rfl (fun _ => rfl) k

theorem lost_stationAt (k : Nat) :
    (stationAt m s k i).tally.lost =
      .ofNat ((List.range k).map fun j => (deliveryAt m s i j).lost).sum :=
  eq_ofNat_sum (fun k => (stationAt m s k i).tally.lost) rfl (fun _ => rfl) k

theorem sum_deliveryAt (k : Nat) :
    ((List.range k).map fun j => (deliveryAt m s i j).acked).sum +
      ((List.range k).map fun j => (deliveryAt m s i j).lost).sum = k * s.mpdus := by
  induction k with
  | zero => simp
  | succ k ih =>
    have hround := deliveryAt_account m s i k
    rw [List.range_succ, Nat.succ_mul]
    simp only [List.map_append, List.map_singleton, List.sum_append, List.sum_singleton]
    omega

theorem lastRate_stationAt_succ (k : Nat) :
    (stationAt m s (k + 1) i).tally.lastRate = some (rateAt m s i k) :=
  rfl

theorem rateChanges_stationAt_succ (k : Nat) :
    (stationAt m s (k + 1) i).tally.rateChanges =
      if (stationAt m s k i).tally.lastRate.any (· != rateAt m s i k) then
        (stationAt m s k i).tally.rateChanges + 1
      else (stationAt m s k i).tally.rateChanges :=
  rfl

/-- The counter of rate changes is a true count, cut to its width. -/
theorem rateChanges_stationAt (k : Nat) :
    (stationAt m s k i).tally.rateChanges = .ofNat (changesIn (rateAt m s i) k) := by
  induction k with
  | zero => rfl
  | succ k ih =>
    rw [rateChanges_stationAt_succ, ih]
    cases k with
    | zero => rfl
    | succ k =>
      rw [lastRate_stationAt_succ, Option.any_some, changesIn_succ]
      by_cases h : rateAt m s i (k + 1) = rateAt m s i k
      · simp [h]
      · have hne : (rateAt m s i k != rateAt m s i (k + 1)) = true := by simpa using Ne.symm h
        rw [if_pos hne, if_pos h, UInt32.ofNat_add]
        rfl

end Tallies

end Simulation

end LinkAdaptation
