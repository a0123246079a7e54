import LinkAdaptation.Simulation.Run
import LinkAdaptation.Text.Decimal
import LinkAdaptation.Text.Paint

/-! What the simulator prints at the end: a headline, then a line per station
in the order of their addresses. -/

namespace LinkAdaptation

/-- The share of delivered frames in percent, 0 if there were none. -/
def Tally.percent (t : Tally) : Float :=
  let total := t.delivered + t.lost
  if total = 0 then 0.0 else 100.0 * t.delivered.toFloat / total.toFloat

/-- Nine deliveries in ten are good, and one in two is fair. -/
def Tally.paint (t : Tally) : Paint :=
  if t.percent ≥ 90.0 then .green else if t.percent ≥ 50.0 then .yellow else .red

namespace Simulation

variable (style : Paint → String → String)

def headline (s : Scenario) : String :=
  let seconds := (UInt64.ofNat (s.rounds * s.tickMicros)).toFloat / 1000000.0
  style .bold s!"=== {s.rounds} rounds, {oneDecimal seconds} s simulated ==="

def stationLine (a : Address) (c : Controller) (t : Tally) : String :=
  let address := style .cyan (Address.text a)
  let rate := style .bold c.txVector.rate.name
  let share := style t.paint s!"{oneDecimal t.percent}%"
  s!"{address}  {rate} {c.width.name}  column {c.column.name}  phase {c.phase.name}  " ++
    s!"delivered {t.delivered} ({share})  rate changes {t.rateChanges}"

def summary {σ : Type} (s : Scenario) (sim : Simulation σ) : List String :=
  headline style s :: sim.tallies.filterMap fun (a, t) =>
    (sim.registry.controller? a).map fun c => stationLine style a c t

end Simulation

/-- The lines that are printed for some options, over a medium and in a style of painting. -/
def Options.lines {σ : Type} (m : Medium σ) (style : Paint → String → String) (o : Options)
    (seed : UInt64) : Except SimulationFault (List String) := do
  let scenario ← (Scenario.ofOptions o seed).mapError .request
  let sim ← Simulation.run m scenario
  return Simulation.summary style scenario sim

def Options.report (o : Options) (seed : UInt64) (colours : Bool) :
    Except SimulationFault (List String) :=
  o.lines .keyed (·.apply colours) seed

end LinkAdaptation
