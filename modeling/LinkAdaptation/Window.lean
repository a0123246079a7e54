import LinkAdaptation.Radio

/-! The outcomes last seen at one rate, kept as a window of 62 bits, and the
statistics read off it. A success ratio is in 1/128 of a percent; a throughput
is in 1/100 of the unit in which ceilings are given. -/

namespace LinkAdaptation

def windowLength : Nat := 62

/-- Ratios are fixed-point percentages with seven fractional bits. -/
def ratioOfPercent (percent : Nat) : Nat := 128 * percent

/-- The last outcomes at one rate. Bit 0 is the newest outcome, set if it was
acknowledged. The ceiling is 0 where the rate does not exist. -/
structure Window where
  bits : BitVec windowLength
  size : Nat
  ceiling : Nat
  deriving DecidableEq, Repr

namespace Window

def minFailures : Nat := 3

def minSuccesses : Nat := 8

def new (ceiling : Nat) : Window := ⟨0, 0, ceiling⟩

/-- Shifting drops the oldest outcome once the window is full. -/
def push (w : Window) (acked : Bool) : Window :=
  { w with bits := w.bits.shiftConcat acked, size := min (w.size + 1) windowLength }

/-- Equal outcomes in a row. No more than a window's length can survive. -/
def pushMany (w : Window) (acked : Bool) (count : Nat) : Window :=
  (min count windowLength).repeat (·.push acked) w

def clear (w : Window) : Window := new w.ceiling

def isEmpty (w : Window) : Bool := w.size == 0

def successes (w : Window) : Nat := w.bits.cpop.toNat

def failures (w : Window) : Nat := w.size - w.successes

def success? (w : Window) : Option Nat := if w.isEmpty then none else some w.successes

def failure? (w : Window) : Option Nat := if w.isEmpty then none else some w.failures

def ratio? (w : Window) : Option Nat :=
  if w.isEmpty then none else some (ratioOfPercent 100 * w.successes / w.size)

def isTelling (w : Window) : Bool :=
  decide (minFailures ≤ w.failures) || decide (minSuccesses ≤ w.successes)

/-- The measured throughput: the ceiling scaled by the ratio and rounded. -/
def throughput? (w : Window) : Option Nat :=
  if w.isTelling then w.ratio?.map fun r => (r * w.ceiling + 64) / 128 else none

theorem push_ceiling (w : Window) (acked : Bool) : (w.push acked).ceiling = w.ceiling := rfl

theorem clear_ceiling (w : Window) : w.clear.ceiling = w.ceiling := rfl

theorem pushMany_ceiling (w : Window) (acked : Bool) (count : Nat) :
    (w.pushMany acked count).ceiling = w.ceiling := by
  unfold pushMany
  induction min count windowLength with
  | zero => rfl
  | succ n ih => exact ih

end Window

end LinkAdaptation
