/-! Coloured text for terminals. -/

namespace LinkAdaptation

inductive Paint where
  | bold
  | cyan
  | green
  | yellow
  | red
  deriving DecidableEq, Repr

def Paint.code : Paint → Nat
  | .bold => 1
  | .cyan => 36
  | .green => 32
  | .yellow => 33
  | .red => 31

def Paint.apply (p : Paint) (colours : Bool) (text : String) : String :=
  if colours then s!"\x1b[{p.code}m{text}\x1b[0m" else text

end LinkAdaptation
