import EightBit.Machine.Cycle

/-!
Running a program: cycle after cycle until the machine has halted or a fault stops it. A run may
take forever, so it is given a number of cycles that it may use. If they do not suffice its outcome
is not `ended`, and another run goes on from there.
-/

namespace EightBit.Machine

variable {size : Nat}

def tracedCycle (machine : Machine size) (room : Room) : Outcome size :=
  let outcome := machine.cycle room
  { outcome with log := .traced machine.snapshot :: outcome.log }

/-- Runs for at most `budget` cycles. A halted machine logs that and uses none. -/
def run (budget : Nat) (machine : Machine size) (room : Room) : Outcome size :=
  if machine.halted then { machine, room, log := [.halted machine.pc] }
  else
    match budget with
    | 0 => { machine, room }
    | budget + 1 => (machine.tracedCycle room).andThen (run budget)

end EightBit.Machine
