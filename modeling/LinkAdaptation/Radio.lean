import LinkAdaptation.Fault

/-! The radio vocabulary: modes, transmit chains, guard intervals, channel
widths and frame aggregation. Every quantity is a plain natural number. -/

namespace LinkAdaptation

inductive Mode where
  | legacy
  | siso
  | mimo
  deriving DecidableEq, Repr

def Mode.isLegacy : Mode → Bool
  | .legacy => true
  | .siso | .mimo => false

def Mode.streams : Mode → Nat
  | .legacy | .siso => 1
  | .mimo => 2

def Mode.name : Mode → String
  | .legacy => "LEGACY"
  | .siso => "SISO"
  | .mimo => "MIMO2"

inductive Antenna where
  | a
  | b
  | c
  deriving DecidableEq, Repr

def Antenna.all : List Antenna := [.a, .b, .c]

def Antenna.letter : Antenna → Char
  | .a => 'A'
  | .b => 'B'
  | .c => 'C'

structure AntennaSet where
  a : Bool
  b : Bool
  c : Bool
  deriving DecidableEq, Repr

namespace AntennaSet

def empty : AntennaSet := ⟨false, false, false⟩

def insert (s : AntennaSet) : Antenna → AntennaSet
  | .a => { s with a := true }
  | .b => { s with b := true }
  | .c => { s with c := true }

def single (x : Antenna) : AntennaSet := empty.insert x

def ab : AntennaSet := (single .a).insert .b

def ofList (xs : List Antenna) : AntennaSet := xs.foldl insert empty

def contains (s : AntennaSet) : Antenna → Bool
  | .a => s.a
  | .b => s.b
  | .c => s.c

def toList (s : AntennaSet) : List Antenna := Antenna.all.filter s.contains

def count (s : AntennaSet) : Nat := s.a.toNat + s.b.toNat + s.c.toNat

/-- The mask that names the chains to a device: chain A is the lowest bit. -/
def bits (s : AntennaSet) : Nat := s.a.toNat + 2 * s.b.toNat + 4 * s.c.toNat

def name (s : AntennaSet) : String := String.ofList (s.toList.map Antenna.letter)

theorem contains_insert (s : AntennaSet) (x y : Antenna) :
    (s.insert x).contains y = (y == x || s.contains y) := by
  cases x <;> cases y <;> simp [insert, contains]

theorem length_toList (s : AntennaSet) : s.toList.length = s.count := by
  obtain ⟨_ | _, _ | _, _ | _⟩ := s <;> rfl

end AntennaSet

inductive GuardInterval where
  | short
  | long
  deriving DecidableEq, Repr

def GuardInterval.nanoseconds : GuardInterval → Nat
  | .short => 400
  | .long => 800

def GuardInterval.isShort : GuardInterval → Bool
  | .short => true
  | .long => false

def GuardInterval.name : GuardInterval → String
  | .short => "SGI"
  | .long => "LGI"

inductive Width where
  | mhz20
  | mhz40
  | mhz80
  | mhz160
  deriving DecidableEq, Repr

namespace Width

def all : List Width := [.mhz20, .mhz40, .mhz80, .mhz160]

def mhz : Width → Nat
  | .mhz20 => 20
  | .mhz40 => 40
  | .mhz80 => 80
  | .mhz160 => 160

def ordinal : Width → Nat
  | .mhz20 => 0
  | .mhz40 => 1
  | .mhz80 => 2
  | .mhz160 => 3

def name (w : Width) : String := s!"{w.mhz}MHz"

/-- The width a device announces. Whatever is not a narrower width is the widest. -/
def ofDevice : Nat → Width
  | 20 => .mhz20
  | 40 => .mhz40
  | 80 => .mhz80
  | _ => .mhz160

/-- The width a user asks for. Nothing but the four widths is accepted. -/
def ofMhz (n : Nat) : Except Fault Width :=
  match all.find? (·.mhz == n) with
  | some w => .ok w
  | none => .error .invalidBandwidth

theorem ofMhz_mhz (w : Width) : ofMhz w.mhz = .ok w := by
  cases w <;> rfl

theorem ofDevice_mhz (w : Width) : ofDevice w.mhz = w := by
  cases w <;> rfl

theorem ordinal_lt (w : Width) : w.ordinal < 4 := by
  cases w <;> decide

end Width

/-- Whether data frames travel in bursts that one block acknowledgement answers. -/
inductive Aggregation where
  | off
  | on
  deriving DecidableEq, Repr, Inhabited

def Aggregation.ofBool : Bool → Aggregation
  | false => .off
  | true => .on

def Aggregation.isOn : Aggregation → Bool
  | .off => false
  | .on => true

theorem Aggregation.isOn_ofBool (b : Bool) : (ofBool b).isOn = b := by
  cases b <;> rfl

end LinkAdaptation
