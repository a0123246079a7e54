import LinkAdaptation.Controller.Step

/-! The search for a better column. A column whose best rate could beat the
measured throughput is put on trial with empty statistics; it is kept if it
measures better than the column it replaced. -/

namespace LinkAdaptation

def Column.fit (c : Column) (width : Width) : Width :=
  if c.mode.isLegacy then .mhz20 else width

namespace Controller

def isPromising (c : Controller) (rate : Nat) (next : Column) : Bool :=
  !c.visited.contains next && (next.mode.isLegacy || c.caps.nonLegacy) &&
    rate < 100 * CeilingTable.expected.best (next.group (next.fit c.width) c.aggregation)

def nextColumn? (c : Controller) (rate : Nat) : Option Column :=
  c.column.next.find? (c.isPromising rate)

/-- The first rate of a group that is expected to exceed `threshold`, or the last
one where none does. -/
def startIndex (g : RateGroup) (threshold : Nat) : Nat :=
  let rates := CeilingTable.expected.rates g
  ((rates.find? (threshold < 100 * CeilingTable.expected.ceiling g ·)).or rates.getLast?).getD 0

/-- What the first rate of a new column should exceed. A reliable rate is taken
to reach all that is expected of it. -/
def threshold (c : Controller) (rate : Nat) : Nat :=
  if c.ratio ≥ reliableRatio then c.expectedAt c.index else rate

def beginTrial (c : Controller) (next : Column) (rate : Nat) : Controller :=
  let width := next.fit c.caps.width
  let index := startIndex (next.group width c.aggregation) (c.threshold rate)
  clearGroup { c with
    phase := .searching (some ⟨c.position, rate⟩)
    position := ⟨next, index, width⟩
    visited := c.visited.insert next }

def resolve (c : Controller) (trial : Trial) (rate : Nat) : Controller :=
  { c with
    phase := .searching none
    position := if trial.baseline < rate then c.position else trial.rollback }

def search (c : Controller) (rate : Nat) : Controller :=
  match c.phase with
  | .searching none =>
    match c.nextColumn? rate with
    | some next => c.beginTrial next rate
    | none => { c with phase := .ended }
  | .searching (some _) | .ended | .staying _ => c

end Controller

end LinkAdaptation
