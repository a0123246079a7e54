import LinkAdaptation.Rate

/-! The parameters a frame is sent with, and how a rate index of the rate space
becomes such parameters. -/

namespace LinkAdaptation

structure TxVector where
  rate : Rate
  guardNs : Nat
  antennas : Nat
  streams : Nat
  width : Width
  aggregated : Bool
  deriving DecidableEq, Repr

/-- One chain at 20 MHz, as control frames are sent. -/
def TxVector.legacy (rate : LegacyRate) : TxVector :=
  ⟨.legacy rate, GuardInterval.long.nanoseconds, 1, 1, .mhz20, false⟩

structure RatePoint where
  mode : Mode
  index : Nat
  antennas : Nat
  guard : GuardInterval
  width : Width
  aggregation : Aggregation
  deriving DecidableEq, Repr

namespace RatePoint

/-- Index 4 is the slowest rate of a stream and 5 is unused, so the others move down by five. -/
def streamMcs (index : Nat) : Nat := if index = 4 then 0 else index - 5

def twoStreamMcs (index : Nat) : Nat := if index = 4 then 8 else index + 3

/-- The legacy columns send no rate slower than 6 Mbps OFDM. -/
def legacyRate (index : Nat) : LegacyRate :=
  match LegacyRate.all[max index 4]? with
  | some rate => rate
  | none => .ofdm54

/-- Only VHT defines the fastest rates. Without it they become the fastest HT
rate of the same number of streams. -/
def rate (p : RatePoint) (vht : Bool) : Rate :=
  match p.mode with
  | .legacy => .legacy (legacyRate p.index)
  | .siso => if vht then .vht (streamMcs p.index) else .ht (min (streamMcs p.index) 7)
  | .mimo => if vht then .vht (streamMcs p.index) else .ht (min (twoStreamMcs p.index) 15)

def txVector (p : RatePoint) (vht : Bool) : TxVector where
  rate := p.rate vht
  guardNs := p.guard.nanoseconds
  antennas := p.antennas
  streams := p.mode.streams
  width := p.width
  aggregated := p.aggregation.isOn

end RatePoint

end LinkAdaptation
