import LinkAdaptation.KeyStream
import LinkAdaptation.TxVector

/-! A lossy link. Each frame is lost or not on its own, with a probability that
follows from the signal-to-noise ratio and from what the rate demands. -/

namespace LinkAdaptation

structure Delivery where
  acked : Nat
  lost : Nat
  deriving DecidableEq, Repr

namespace Delivery

def zero : Delivery := ⟨0, 0⟩

def count (d : Delivery) (acked : Bool) : Delivery :=
  if acked then { d with acked := d.acked + 1 } else { d with lost := d.lost + 1 }

def add (d e : Delivery) : Delivery := ⟨d.acked + e.acked, d.lost + e.lost⟩

/-- Sends frames over a link on which a frame arrives if its draw is below `p`.
Every frame takes one draw, whatever `p` is. -/
def send {σ : Type} (draw : σ → Float × σ) (p : Float) (frames : Nat) (source : σ) :
    Delivery × σ :=
  frames.repeat (fun (d, s) => let (x, t) := draw s; (d.count (x < p), t)) (zero, source)

end Delivery

/-- The signal-to-noise ratio in dB at which half of the 20 MHz frames arrive. -/
def LegacyRate.requiredSnr : LegacyRate → Nat
  | .dsss1 => 1
  | .dsss2 => 3
  | .dsss5_5 => 5
  | .dsss11 => 8
  | .ofdm6 => 5
  | .ofdm9 => 6
  | .ofdm12 => 8
  | .ofdm18 => 10
  | .ofdm24 => 13
  | .ofdm36 => 17
  | .ofdm48 => 21
  | .ofdm54 => 23

/-- The same for one stream of an HT or VHT rate. Faster rates than the last demand no more. -/
def streamSnr : Nat → Nat
  | 0 => 5
  | 1 => 8
  | 2 => 11
  | 3 => 14
  | 4 => 18
  | 5 => 22
  | 6 => 24
  | 7 => 25
  | 8 => 29
  | _ => 31

/-- Wider channels, a second stream and the short guard interval cost extra.
Legacy frames are sent without any of them. -/
def TxVector.requiredSnr (tx : TxVector) : Nat :=
  let extra := 3 * tx.width.ordinal + (if 1 < tx.streams then 3 else 0) +
    (if tx.guardNs < 800 then 1 else 0)
  match tx.rate with
  | .legacy rate => rate.requiredSnr
  | .ht mcs => streamSnr (mcs % 8) + extra
  | .vht mcs => streamSnr mcs + extra

structure Link (σ : Type := KeyStream) where
  snr : Float
  source : σ

inductive LinkFault where
  | snrNotFinite (snr : Float)

def LinkFault.message : LinkFault → String
  | .snrNotFinite snr =>
    let text := if snr.isNaN then "NaN" else if snr < 0 then "-inf" else "inf"
    s!"SNR must be a finite number of dB, got {text}"

/-- What a link takes from elsewhere: a source of numbers from the unit interval
for each seed, and the exponential function. -/
structure Medium (σ : Type) where
  ofSeed : UInt64 → σ
  draw : σ → Float × σ
  exp : Float → Float

namespace Medium

variable {σ : Type} (m : Medium σ)

def link (snr : Float) (seed : UInt64) : Except LinkFault (Link σ) :=
  if snr.isFinite then .ok ⟨snr, m.ofSeed seed⟩ else .error (.snrNotFinite snr)

def successProbability (l : Link σ) (tx : TxVector) : Float :=
  let margin := l.snr - Float.ofNat tx.requiredSnr
  1.0 / (1.0 + m.exp (-1.5 * margin))

def transmit (l : Link σ) (tx : TxVector) (frames : Nat) : Delivery × Link σ :=
  let (delivery, source) :=
    Delivery.send m.draw (m.successProbability l tx) frames l.source
  (delivery, { l with source := source })

/-- The medium of the simulator, which draws from a key stream. -/
def keyed : Medium KeyStream := ⟨.ofSeed, KeyStream.draw, Float.exp⟩

end Medium

namespace Link

def ofSeed (snr : Float) (seed : UInt64) : Except LinkFault Link := Medium.keyed.link snr seed

def successProbability (l : Link) (tx : TxVector) : Float := Medium.keyed.successProbability l tx

def transmit (l : Link) (tx : TxVector) (frames : Nat) : Delivery × Link :=
  Medium.keyed.transmit l tx frames

end Link

end LinkAdaptation
