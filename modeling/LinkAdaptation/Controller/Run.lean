import LinkAdaptation.Controller.Search
import LinkAdaptation.Controller.Stay

/-! What a controller does with the outcome of a transmission, and with a whole
sequence of events. A report makes at most one move: a step, the begin of a
trial, or the end of one. -/

namespace LinkAdaptation

structure Report where
  acked : Nat
  lost : Nat
  aggregated : Bool
  deriving DecidableEq, Repr

/-- A missing block acknowledgement says nothing about single frames, so it
counts as one failure. -/
def Report.failures (r : Report) : Nat :=
  if r.aggregated && r.acked == 0 then 1 else r.lost

namespace Controller

def observe (c : Controller) (r : Report) : Controller :=
  { c with
    phase := c.phase.count r.acked r.failures
    ledger := c.ledger.record c.group c.index r.acked r.failures }

def act (c : Controller) (now : Nat) : Controller :=
  match c.window.throughput? with
  | none => c.supervise now
  | some rate =>
    match c.trial? with
    | some trial => c.resolve trial rate
    | none =>
      match c.step? rate with
      | some index => (c.stepTo index).supervise now
      | none => ((c.supervise now).search rate).settle now

def report (c : Controller) (r : Report) (now : Nat) : Controller := (c.observe r).act now

end Controller

/-- What happens to a station. The clock reading of a report may be any number,
also a smaller one than before. -/
inductive Event where
  | report (outcome : Report) (now : Nat)
  | setAggregation (aggregation : Aggregation)
  deriving DecidableEq, Repr

namespace Controller

def apply (c : Controller) : Event → Controller
  | .report outcome now => c.report outcome now
  | .setAggregation aggregation => c.setAggregation aggregation

def run (c : Controller) (events : List Event) : Controller := events.foldl apply c

theorem run_append (c : Controller) (es fs : List Event) :
    c.run (es ++ fs) = (c.run es).run fs :=
  List.foldl_append

end Controller

end LinkAdaptation
