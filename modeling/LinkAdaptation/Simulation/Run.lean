import LinkAdaptation.Clock
import LinkAdaptation.Link
import LinkAdaptation.Registry
import LinkAdaptation.Simulation.Options

/-! A simulated network: every station gets one transmission per round over the
same lossy link, and time moves on by a tick after each round. -/

namespace LinkAdaptation

inductive SimulationFault where
  | request (fault : Fault)
  | link (fault : LinkFault)

def SimulationFault.message : SimulationFault → String
  | .request fault => fault.message
  | .link fault => fault.message

structure Scenario where
  caps : Capabilities
  snr : Float
  mpdus : Nat
  rounds : Nat
  tickMicros : Nat
  stations : Nat
  seed : UInt64

/-- The scenario of some options. Of these only the width can be out of place. -/
def Scenario.ofOptions (o : Options) (seed : UInt64) : Except Fault Scenario := do
  let width ← Width.ofMhz o.width.toNat
  return {
    caps := ⟨width, o.ht, o.vht⟩, snr := o.snr, mpdus := o.mpdus, rounds := o.packets.toNat,
    tickMicros := o.tickMicros.toNat, stations := o.stations, seed := seed }

def Scenario.aggregated (s : Scenario) : Bool := 1 < s.mpdus

/-- What became of one station's frames, and how often its rate changed. The
counts wrap around at their widths, of which the last is narrower. -/
structure Tally where
  delivered : UInt64 := 0
  lost : UInt64 := 0
  rateChanges : UInt32 := 0
  lastRate : Option Rate := none
  deriving DecidableEq, Repr

namespace Tally

/-- The first rate is not a change. -/
def noteRate (t : Tally) (rate : Rate) : Tally :=
  { t with
    rateChanges := if t.lastRate.any (· != rate) then t.rateChanges + 1 else t.rateChanges
    lastRate := some rate }

def noteDelivery (t : Tally) (d : Delivery) : Tally :=
  { t with delivered := t.delivered + .ofNat d.acked, lost := t.lost + .ofNat d.lost }

end Tally

structure Simulation (σ : Type) where
  registry : Registry
  link : Link σ
  clock : Clock
  tallies : List (Address × Tally)

namespace Simulation

/-- The address of the i-th station, which is a locally administered one. -/
def address (i : Nat) : Address := #v[2, 0, 0, 0, 0, .ofNat i]

def addresses (s : Scenario) : List Address := (List.range' 1 s.stations).map address

/-- How a delivery is reported. A single frame has no block acknowledgement. -/
def requestOf (s : Scenario) (d : Delivery) : Request :=
  if s.aggregated then .blockAck d.acked d.lost
  else if 0 < d.acked then .dataAcked
  else .dataLost

def enroll (s : Scenario) (r : Registry) (a : Address) : Except Fault Registry := do
  let (r, added) := r.handle a .add 0
  added
  if s.aggregated then
    let (r, changed) := r.handle a (.setAggregation .on) 0
    changed
    return r
  else
    return r

variable {σ : Type} (m : Medium σ) (s : Scenario)

def serve (now : Nat) (r : Registry) (l : Link σ) (a : Address) (t : Tally) :
    Except Fault (Registry × Link σ × Tally) := do
  let tx := r.dataVector a
  let (d, l) := m.transmit l tx s.mpdus
  let (r, result) := r.handle a (requestOf s d) now
  result
  return (r, l, (t.noteRate tx.rate).noteDelivery d)

def serveAll (now : Nat) (r : Registry) (l : Link σ) :
    List (Address × Tally) → Except Fault (Registry × Link σ × List (Address × Tally))
  | [] => .ok (r, l, [])
  | (a, t) :: rest => do
    let (r, l, t) ← serve m s now r l a t
    let (r, l, served) ← serveAll now r l rest
    return (r, l, (a, t) :: served)

def round (sim : Simulation σ) : Except Fault (Simulation σ) := do
  let (r, l, tallies) ← serveAll m s sim.clock.now sim.registry sim.link sim.tallies
  return ⟨r, l, sim.clock.advance (1000 * s.tickMicros), tallies⟩

def rounds : Nat → Simulation σ → Except Fault (Simulation σ)
  | 0, sim => .ok sim
  | n + 1, sim => do
    let sim ← round m s sim
    rounds n sim

/-- The network before the first round, with all stations enrolled at time 0. -/
def start : Except SimulationFault (Simulation σ) := do
  let r ← (Registry.ofProfile { caps := s.caps }).mapError .request
  let l ← (m.link s.snr s.seed).mapError .link
  let r ← ((addresses s).foldlM (enroll s) r).mapError .request
  return ⟨r, l, {}, (addresses s).map ((·, {}))⟩

def run : Except SimulationFault (Simulation σ) := do
  let sim ← start m s
  (rounds m s s.rounds sim).mapError .request

end Simulation

end LinkAdaptation
