/-! The requests this library refuses, one constructor per cause. -/

namespace LinkAdaptation

inductive Fault where
  /-- A ceiling table or the search graph is incomplete. -/
  | configuration
  | unknownStation
  | duplicateStation
  | invalidBandwidth
  deriving DecidableEq, Repr

def Fault.name : Fault → String
  | .configuration => "Configuration"
  | .unknownStation => "UnknownStation"
  | .duplicateStation => "DuplicateStation"
  | .invalidBandwidth => "InvalidBandwidth"

/-- The wording shown to a user is the bare name of the cause. -/
def Fault.message (f : Fault) : String := f.name

end LinkAdaptation
