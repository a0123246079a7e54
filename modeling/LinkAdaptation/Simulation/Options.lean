import LinkAdaptation.Text.Numeral

/-! What the simulator is told to do, and the command line that says so. An
option takes its value from the same argument after an equals sign, or from the
next argument if that does not start with a hyphen. No option may be given
twice. -/

namespace LinkAdaptation

/-- The numbers of a range, both ends among them. -/
abbrev Between (low high : Nat) := { n : Nat // low ≤ n ∧ n ≤ high }

structure Options where
  width : UInt16 := 80
  ht : Bool := true
  vht : Bool := true
  snr : Float := 25.0
  mpdus : Between 1 64 := ⟨1, by decide⟩
  packets : UInt64 := 20000
  tickMicros : UInt64 := 1000
  stations : Between 1 255 := ⟨1, by decide⟩
  seed : Option UInt64 := none

inductive Setting where
  | width
  | noHt
  | noVht
  | snr
  | mpdus
  | packets
  | tickMicros
  | stations
  | seed
  deriving DecidableEq, Repr

namespace Setting

def all : List Setting :=
  [.width, .noHt, .noVht, .snr, .mpdus, .packets, .tickMicros, .stations, .seed]

def name : Setting → String
  | .width => "--width"
  | .noHt => "--no-ht"
  | .noVht => "--no-vht"
  | .snr => "--snr"
  | .mpdus => "--mpdus"
  | .packets => "--packets"
  | .tickMicros => "--tick-us"
  | .stations => "--stations"
  | .seed => "--seed"

def takesValue : Setting → Bool
  | .noHt | .noVht => false
  | .width | .snr | .mpdus | .packets | .tickMicros | .stations | .seed => true

def ofName? (name : String) : Option Setting := all.find? (·.name == name)

end Setting

/-- A setting and the text of its value, which is empty for a flag. -/
abbrev Assignment := Setting × String

/-- The name in an argument, and the value after an equals sign. -/
def splitArgument (arg : String) : String × Option String :=
  match arg.toList.span (· != '=') with
  | (name, _ :: value) => (String.ofList name, some (String.ofList value))
  | (_, []) => (arg, none)

/-- Reads arguments up to the end, which two hyphens may mark. -/
def readArguments : List String → Option (List Assignment)
  | [] => some []
  | ["--"] => some []
  | arg :: rest =>
    match splitArgument arg with
    | (name, value) =>
      match Setting.ofName? name, value, rest with
      | none, _, _ => none
      | some setting, some value, rest =>
        if setting.takesValue then (readArguments rest).map ((setting, value) :: ·) else none
      | some setting, none, [] => if setting.takesValue then none else some [(setting, "")]
      | some setting, none, value :: others =>
        if !setting.takesValue then
          (readArguments (value :: others)).map ((setting, "") :: ·)
        else if value.startsWith "-" then
          none
        else
          (readArguments others).map ((setting, value) :: ·)

namespace Options

def between (low high : Nat) (text : String) : Option (Between low high) :=
  match Numeral.integer? text with
  | some (.ofNat n) => if h : low ≤ n ∧ n ≤ high then some ⟨n, h⟩ else none
  | some (.negSucc _) | none => none

/-- A number of 64 bits. These are written without a minus sign, even before zero. -/
def word (text : String) : Option UInt64 := do
  let n ← Numeral.natural? text
  if n < UInt64.size then some (.ofNat n) else none

def assign (o : Options) : Assignment → Option Options
  | (.width, text) => (between 0 65535 text).map fun n => { o with width := .ofNat n.val }
  | (.noHt, _) => some { o with ht := false }
  | (.noVht, _) => some { o with vht := false }
  | (.snr, text) => (Numeral.real? text).map fun x => { o with snr := x }
  | (.mpdus, text) => (between 1 64 text).map fun n => { o with mpdus := n }
  | (.packets, text) => (word text).map fun n => { o with packets := n }
  | (.tickMicros, text) => (word text).map fun n => { o with tickMicros := n }
  | (.stations, text) => (between 1 255 text).map fun n => { o with stations := n }
  | (.seed, text) => (word text).map fun n => { o with seed := some n }

def ofArguments? (args : List String) : Option Options := do
  let assignments ← readArguments args
  if (assignments.map (·.1)).Nodup then assignments.foldlM assign {} else none

end Options

end LinkAdaptation
