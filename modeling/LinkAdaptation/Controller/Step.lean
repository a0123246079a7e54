import LinkAdaptation.Controller.Basic

/-! Steps to a neighbouring rate of the same column. A rate that hardly ever
gets through is left for a slower one; otherwise a step is taken where the
neighbour has measured better, or may well do so and has not been measured. -/

namespace LinkAdaptation

structure Neighbours where
  lower : Option Nat
  upper : Option Nat
  deriving DecidableEq, Repr

namespace Neighbours

/-- The neighbours of the legacy rates. The two families of legacy rates
interleave, so the slower of two rates may have the larger index. -/
def legacy : Vector Neighbours 12 := #v[
  ⟨none, some 1⟩,
  ⟨some 0, some 2⟩,
  ⟨some 1, some 3⟩,
  ⟨some 5, some 6⟩,
  ⟨some 2, some 3⟩,
  ⟨some 4, some 3⟩,
  ⟨some 3, some 7⟩,
  ⟨some 6, some 8⟩,
  ⟨some 7, some 9⟩,
  ⟨some 8, some 10⟩,
  ⟨some 9, some 11⟩,
  ⟨some 10, none⟩
]

def within (g : RateGroup) (index : Nat) : Neighbours where
  lower := (CeilingTable.expected.rates g).reverse.find? (· < index)
  upper := (CeilingTable.expected.rates g).find? (index < ·)

def of (g : RateGroup) (index : Nat) : Neighbours :=
  if g.mode.isLegacy then legacy[index]?.getD ⟨none, none⟩ else within g index

end Neighbours

namespace Controller

/-- Up to this success ratio the rate is always lowered. -/
def hopelessRatio : Nat := ratioOfPercent 15

/-- From this success ratio on the rate is never lowered. -/
def reliableRatio : Nat := ratioOfPercent 85

def neighbours (c : Controller) : Neighbours := .of c.group c.index

def ratio (c : Controller) : Nat := c.window.ratio?.getD 0

/-- The index to step to when the current rate measures `rate`. A step up needs
a better measurement there, or none there while the lower rate is unknown or
does worse. A step down needs a better measurement there or none, and is not
taken while the current rate is reliable or beats all that the lower one could
give. A hopeless rate is left for the lower one in any case. -/
def step? (c : Controller) (rate : Nat) : Option Nat :=
  let n := c.neighbours
  let low := n.lower.bind fun i => (c.windowAt i).throughput?
  let high := n.upper.bind fun i => (c.windowAt i).throughput?
  if c.ratio ≤ hopelessRatio ∨ rate = 0 then
    n.lower
  else if (n.upper.isSome && high.isNone && low.all (· < rate)) || high.any (rate < ·) then
    n.upper
  else if low.all (rate < ·) && c.ratio < reliableRatio &&
      n.lower.any (rate ≤ c.expectedAt ·) then
    n.lower
  else
    none

def stepTo (c : Controller) (index : Nat) : Controller :=
  { c with position := { c.position with index := index } }

end Controller

end LinkAdaptation
