import ShipBridge.CommandLine.Program

/-!
# The command

The program as a command, on a machine whose network reaches nowhere.
-/

open ShipBridge in
def main (arguments : List String) : IO UInt32 := do
  match CommandLine.run Web.offline arguments with
  | .ended e =>
    IO.print e.output
    IO.eprint e.complaint
    return e.status.toUInt32
  | .serving .. => return 0
