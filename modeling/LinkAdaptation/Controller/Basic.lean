import LinkAdaptation.Column
import LinkAdaptation.ColumnSet
import LinkAdaptation.Device
import LinkAdaptation.Ledger
import LinkAdaptation.TxVector

/-! The state that picks the rate of one station: where it stands in the rate
space, what it is doing there, and what it has seen. -/

namespace LinkAdaptation

structure Position where
  column : Column
  index : Nat
  width : Width
  deriving DecidableEq, Repr

def Position.group (p : Position) (aggregation : Aggregation) : RateGroup :=
  p.column.group p.width aggregation

/-- A column on probation: where to return to, and the throughput to beat. -/
structure Trial where
  rollback : Position
  baseline : Nat
  deriving DecidableEq, Repr

/-- The account of a stay. The age counts reports since the statistics of the
column were last thrown away. -/
structure Stay where
  acked : Nat
  lost : Nat
  age : Nat
  since : Nat
  deriving DecidableEq, Repr

inductive Phase where
  /-- Columns are being tried, one of them right now if there is a trial. -/
  | searching (trial : Option Trial)
  /-- No column is left to try. The station settles before the report is over. -/
  | ended
  | staying (stay : Stay)
  deriving DecidableEq, Repr

def Phase.name : Phase → String
  | .searching _ => "SearchCycleStarted"
  | .ended => "SearchCycleEnded"
  | .staying _ => "StayInColumn"

def Phase.trial? : Phase → Option Trial
  | .searching trial => trial
  | .ended | .staying _ => none

def Phase.stay? : Phase → Option Stay
  | .staying stay => some stay
  | .searching _ | .ended => none

structure Controller where
  caps : Capabilities
  phase : Phase
  position : Position
  aggregation : Aggregation
  /-- The columns that were current since the search cycle began. -/
  visited : ColumnSet
  ledger : Ledger
  deriving DecidableEq

namespace Controller

def new (caps : Capabilities) : Controller where
  caps := caps
  phase := .searching none
  position := ⟨.initial, 0, .mhz20⟩
  aggregation := .off
  visited := .only .initial
  ledger := .new .expected

def column (c : Controller) : Column := c.position.column

def index (c : Controller) : Nat := c.position.index

def width (c : Controller) : Width := c.position.width

def trial? (c : Controller) : Option Trial := c.phase.trial?

def stay? (c : Controller) : Option Stay := c.phase.stay?

def group (c : Controller) : RateGroup := c.position.group c.aggregation

def windowAt (c : Controller) (index : Nat) : Window := c.ledger.window c.group index

def window (c : Controller) : Window := c.windowAt c.index

def expectedAt (c : Controller) (index : Nat) : Nat :=
  100 * CeilingTable.expected.ceiling c.group index

def txVector (c : Controller) : TxVector :=
  RatePoint.txVector
    { mode := c.column.mode, index := c.index, antennas := c.column.antennas.count,
      guard := c.column.guard, width := c.width, aggregation := c.aggregation }
    c.caps.vht

def clearGroup (c : Controller) : Controller := { c with ledger := c.ledger.clear c.group }

/-- Statistics gathered under the other setting say nothing, so a change starts afresh. -/
def setAggregation (c : Controller) (aggregation : Aggregation) : Controller :=
  if aggregation = c.aggregation then c else clearGroup { c with aggregation := aggregation }

end Controller

end LinkAdaptation
