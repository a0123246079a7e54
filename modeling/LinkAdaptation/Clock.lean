/-! A clock that is moved by hand. -/

namespace LinkAdaptation

/-- The reading is in nanoseconds and wraps around at 64 bits. -/
structure Clock where
  reading : UInt64 := 0
  deriving DecidableEq, Repr

namespace Clock

def now (c : Clock) : Nat := c.reading.toNat

def advance (c : Clock) (ns : Nat) : Clock := ⟨c.reading + .ofNat ns⟩

def set (_ : Clock) (ns : Nat) : Clock := ⟨.ofNat ns⟩

theorem now_advance (c : Clock) (ns : Nat) : (c.advance ns).now = (c.now + ns) % UInt64.size := by
  simp [now, advance]

theorem now_set (c : Clock) {ns : Nat} (h : ns < UInt64.size) : (c.set ns).now = ns := by
  simpa [now, set] using h

end Clock

end LinkAdaptation
