import LinkAdaptation.Radio

/-! The rates a device transmits at: the twelve legacy rates by name, and the
HT and VHT rates by number. -/

namespace LinkAdaptation

inductive LegacyRate where
  | dsss1
  | dsss2
  | dsss5_5
  | dsss11
  | ofdm6
  | ofdm9
  | ofdm12
  | ofdm18
  | ofdm24
  | ofdm36
  | ofdm48
  | ofdm54
  deriving DecidableEq, Repr

namespace LegacyRate

def all : List LegacyRate :=
  [.dsss1, .dsss2, .dsss5_5, .dsss11, .ofdm6, .ofdm9, .ofdm12, .ofdm18, .ofdm24, .ofdm36,
    .ofdm48, .ofdm54]

def name : LegacyRate → String
  | .dsss1 => "DsssRate1Mbps"
  | .dsss2 => "DsssRate2Mbps"
  | .dsss5_5 => "DsssRate5_5Mbps"
  | .dsss11 => "DsssRate11Mbps"
  | .ofdm6 => "OfdmRate6Mbps"
  | .ofdm9 => "OfdmRate9Mbps"
  | .ofdm12 => "OfdmRate12Mbps"
  | .ofdm18 => "OfdmRate18Mbps"
  | .ofdm24 => "OfdmRate24Mbps"
  | .ofdm36 => "OfdmRate36Mbps"
  | .ofdm48 => "OfdmRate48Mbps"
  | .ofdm54 => "OfdmRate54Mbps"

def kbps : LegacyRate → Nat
  | .dsss1 => 1000
  | .dsss2 => 2000
  | .dsss5_5 => 5500
  | .dsss11 => 11000
  | .ofdm6 => 6000
  | .ofdm9 => 9000
  | .ofdm12 => 12000
  | .ofdm18 => 18000
  | .ofdm24 => 24000
  | .ofdm36 => 36000
  | .ofdm48 => 48000
  | .ofdm54 => 54000

def ofName? (s : String) : Option LegacyRate := all.find? (·.name == s)

theorem mem_all (r : LegacyRate) : r ∈ all := by
  cases r <;> decide

theorem ofName?_name (r : LegacyRate) : ofName? r.name = some r := by
  cases r <;> decide

end LegacyRate

/-- A rate as it is handed to the device. HT rates of two streams count on from 8. -/
inductive Rate where
  | legacy (rate : LegacyRate)
  | ht (mcs : Nat)
  | vht (mcs : Nat)
  deriving DecidableEq, Repr

def Rate.name : Rate → String
  | .legacy rate => rate.name
  | .ht mcs => s!"HtMcs{mcs}"
  | .vht mcs => s!"VhtMcs{mcs}"

end LinkAdaptation
