/-! Decimal text of measured quantities, rounded from their exact binary value. -/

namespace LinkAdaptation

/-- The nearest whole number to a quotient. A half goes to the even neighbour. -/
def roundDiv (num den : Nat) : Nat :=
  let q := num / den
  let twice := 2 * (num % den)
  if twice < den then q else if den < twice then q + 1 else q + q % 2

/-- The exact value of a non-negative finite number, as numerator and denominator. -/
def exactFraction (x : Float) : Nat × Nat :=
  let bits := x.toBits.toNat
  let exponent := (bits >>> 52) % 2048
  let fraction := bits % (1 <<< 52)
  if exponent = 0 then
    (fraction, 1 <<< 1074)
  else
    ((fraction + 1 <<< 52) <<< (exponent - 1075), 1 <<< (1075 - exponent))

def oneDecimal (x : Float) : String :=
  let (num, den) := exactFraction x
  let tenths := roundDiv (10 * num) den
  s!"{tenths / 10}.{tenths % 10}"

end LinkAdaptation
