import LinkAdaptation.Radio

/-! What the device can do, and how stations are addressed. -/

namespace LinkAdaptation

structure Capabilities where
  width : Width := .mhz20
  ht : Bool := true
  vht : Bool := false
  deriving DecidableEq, Repr

/-- A device without HT and VHT never leaves the legacy columns. -/
def Capabilities.nonLegacy (caps : Capabilities) : Bool := caps.ht || caps.vht

/-- A hardware address. Addresses are ordered byte by byte, first byte first. -/
abbrev Address := Vector UInt8 6

private def hexPair (b : UInt8) : String :=
  String.ofList [(b.toNat / 16).digitChar, (b.toNat % 16).digitChar]

def Address.text (a : Address) : String := ":".intercalate (a.toList.map hexPair)

end LinkAdaptation
