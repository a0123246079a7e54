import LinkAdaptation.Controller.Basic

/-! Staying in a column. A stay lasts until enough frames were lost or
acknowledged, or enough time has passed; then a new search cycle begins. -/

namespace LinkAdaptation

structure StayLimits where
  acked : Nat
  lost : Nat
  age : Nat
  deriving DecidableEq, Repr

def StayLimits.of : Mode → StayLimits
  | .legacy => ⟨480, 160, 160⟩
  | .siso | .mimo => ⟨4500, 400, 1500⟩

namespace Stay

/-- The time after which a stay is over, in nanoseconds. -/
def duration : Nat := 25000000000

/-- Totals stop at the largest 32-bit number. -/
def saturate (n : Nat) : Nat := min n (UInt32.size - 1)

def start (now : Nat) : Stay := ⟨0, 0, 0, now⟩

def count (s : Stay) (acked lost : Nat) : Stay :=
  { s with acked := saturate (s.acked + acked), lost := saturate (s.lost + lost) }

def isOver (s : Stay) (limits : StayLimits) (now : Nat) : Bool :=
  limits.lost < s.lost || limits.acked < s.acked || s.since + duration ≤ now

end Stay

def Phase.count (p : Phase) (acked lost : Nat) : Phase :=
  match p with
  | .staying stay => .staying (stay.count acked lost)
  | .searching _ | .ended => p

namespace Controller

def limits (c : Controller) : StayLimits := .of c.column.mode

/-- Ends a stay that is over, and otherwise lets it age. Old statistics are
thrown away whenever the age passes its limit. -/
def supervise (c : Controller) (now : Nat) : Controller :=
  match c.phase with
  | .staying stay =>
    if stay.isOver c.limits now then
      { c with phase := .searching none, visited := .only c.column }
    else if c.limits.age < stay.age + 1 then
      clearGroup { c with phase := .staying { stay with age := 0 } }
    else
      { c with phase := .staying { stay with age := stay.age + 1 } }
  | .searching _ | .ended => c

def settle (c : Controller) (now : Nat) : Controller :=
  match c.phase with
  | .ended => { c with phase := .staying (.start now), visited := .only c.column }
  | .searching _ | .staying _ => c

end Controller

end LinkAdaptation
