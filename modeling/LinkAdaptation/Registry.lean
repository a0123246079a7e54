import LinkAdaptation.Controller.Run
import LinkAdaptation.SearchGraph
import Std.Data.TreeMap

/-! The tracked stations, one controller each. A request that is refused leaves
the registry as it was. -/

namespace LinkAdaptation

/-- What all stations have in common. The fallback rate serves stations that
are not tracked. -/
structure Profile where
  caps : Capabilities := {}
  controlRate : LegacyRate := .ofdm6
  fallbackRate : LegacyRate := .ofdm6
  deriving DecidableEq, Repr

inductive Request where
  | add
  | remove
  | dataAcked
  | dataLost
  | blockAck (acked lost : Nat)
  | rtsAcked
  | rtsLost
  | dataAbandoned
  | setAggregation (aggregation : Aggregation)
  deriving DecidableEq, Repr

structure Registry where
  profile : Profile
  controllers : Std.TreeMap Address Controller

namespace Registry

/-- A registry without stations. It is refused if the configuration is incomplete. -/
def ofProfile (profile : Profile) : Except Fault Registry := do
  checkConfiguration
  return ⟨profile, ∅⟩

def contains (r : Registry) (a : Address) : Bool := r.controllers.contains a

def controller? (r : Registry) (a : Address) : Option Controller := r.controllers[a]?

def stations (r : Registry) : List Address := r.controllers.keys

def size (r : Registry) : Nat := r.controllers.size

def isEmpty (r : Registry) : Bool := r.controllers.isEmpty

def add (r : Registry) (a : Address) : Registry × Except Fault Unit :=
  if r.contains a then
    (r, .error .duplicateStation)
  else
    ({ r with controllers := r.controllers.insert a (.new r.profile.caps) }, .ok ())

def remove (r : Registry) (a : Address) : Registry × Except Fault Unit :=
  if r.contains a then
    ({ r with controllers := r.controllers.erase a }, .ok ())
  else
    (r, .error .unknownStation)

def deliver (r : Registry) (a : Address) (e : Event) : Registry × Except Fault Unit :=
  match r.controller? a with
  | some c => ({ r with controllers := r.controllers.insert a (c.apply e) }, .ok ())
  | none => (r, .error .unknownStation)

/-- Serves a request at a clock reading. What happens to control frames, and
that a frame was given up, has no bearing on the rate. -/
def handle (r : Registry) (a : Address) (q : Request) (now : Nat) : Registry × Except Fault Unit :=
  match q with
  | .add => r.add a
  | .remove => r.remove a
  | .dataAcked => r.deliver a (.report ⟨1, 0, false⟩ now)
  | .dataLost => r.deliver a (.report ⟨0, 1, false⟩ now)
  | .blockAck acked lost => r.deliver a (.report ⟨acked, lost, true⟩ now)
  | .setAggregation aggregation => r.deliver a (.setAggregation aggregation)
  | .rtsAcked | .rtsLost | .dataAbandoned => (r, .ok ())

def dataVector (r : Registry) (a : Address) : TxVector :=
  match r.controller? a with
  | some c => c.txVector
  | none => .legacy r.profile.fallbackRate

def controlVector (r : Registry) : TxVector := .legacy r.profile.controlRate

end Registry

end LinkAdaptation
