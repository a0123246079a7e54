import LinkAdaptation.Simulation.Summary

/-! The simulator as a program. It prints a summary, or what is wrong with its
arguments, and picks a seed of its own unless it is given one. -/

namespace LinkAdaptation

def usage : String :=
  "usage: [--width MHZ] [--no-ht] [--no-vht] [--snr DB] [--mpdus N] [--packets N] " ++
    "[--tick-us N] [--stations N] [--seed N]"

/-- Colours are for terminals, unless the environment says otherwise. -/
def wantsColours : IO Bool := do
  let forced ← IO.getEnv "CLICOLOR_FORCE"
  let refused ← IO.getEnv "NO_COLOR"
  let wanted ← IO.getEnv "CLICOLOR"
  if forced.any (· != "0") then return true
  if refused.isSome || wanted == some "0" then return false
  (← IO.getStdout).isTty

end LinkAdaptation

open LinkAdaptation in
def main (args : List String) : IO UInt32 := do
  match Options.ofArguments? args with
  | none =>
    IO.eprintln usage
    return 2
  | some options =>
    let seed ← match options.seed with
      | some seed => pure seed
      | none => UInt64.ofNat <$> IO.rand 0 (UInt64.size - 1)
    match options.report seed (← wantsColours) with
    | .ok lines =>
      lines.forM IO.println
      return 0
    | .error fault =>
      IO.eprintln s!"Error: {fault.message}"
      return 1
