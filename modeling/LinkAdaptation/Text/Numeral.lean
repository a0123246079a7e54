/-! Numbers as a user types them. -/

namespace LinkAdaptation.Numeral

def digits? (cs : List Char) : Option Nat :=
  if !cs.isEmpty && cs.all Char.isDigit then
    some (cs.foldl (fun n c => 10 * n + (c.toNat - '0'.toNat)) 0)
  else
    none

/-- Splits off a sign; the flag tells whether it is a minus. -/
def splitSign : List Char → Bool × List Char
  | '-' :: cs => (true, cs)
  | '+' :: cs => (false, cs)
  | cs => (false, cs)

def natural? (s : String) : Option Nat :=
  match splitSign s.toList with
  | (true, _) => none
  | (false, cs) => digits? cs

def signed? (cs : List Char) : Option Int :=
  match splitSign cs with
  | (true, cs) => (digits? cs).map fun n => -(n : Int)
  | (false, cs) => (digits? cs).map fun n => (n : Int)

def integer? (s : String) : Option Int := signed? s.toList

def exponent? : List Char → Option Int
  | [] => some 0
  | c :: cs => if c = 'e' ∨ c = 'E' then signed? cs else none

def splitFraction : List Char → List Char × List Char
  | '.' :: cs => cs.span Char.isDigit
  | cs => ([], cs)

def infinity : Float := 1.0 / 0.0

def notANumber : Float := 0.0 / 0.0

/-- The number closest to `significand * 10 ^ exponent`. Beyond the exponents
tested for, all numbers are infinite or zero. -/
def scale (significand : Nat) (exponent : Int) : Float :=
  let places : Int := (Nat.toDigits 10 significand).length
  if significand = 0 ∨ places + exponent < -330 then
    0.0
  else if 310 < places + exponent then
    infinity
  else
    Float.ofScientific significand (exponent < 0) exponent.natAbs

def magnitude? (cs : List Char) : Option Float :=
  let word := String.ofList (cs.map Char.toLower)
  if word = "inf" ∨ word = "infinity" then
    some infinity
  else if word = "nan" then
    some notANumber
  else
    let (whole, rest) := cs.span Char.isDigit
    let (fraction, rest) := splitFraction rest
    match digits? (whole ++ fraction), exponent? rest with
    | some significand, some exponent => some (scale significand (exponent - fraction.length))
    | _, _ => none

/-- A decimal fraction with an optional sign and exponent, or a word for
infinity or no number. There are digits before or after the point. -/
def real? (s : String) : Option Float :=
  match splitSign s.toList with
  | (true, cs) => (magnitude? cs).map Float.neg
  | (false, cs) => magnitude? cs

end LinkAdaptation.Numeral
