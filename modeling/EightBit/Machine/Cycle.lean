import EightBit.Machine.Effect
import EightBit.Machine.Outcome

/-!
Executing one instruction, one cycle, and a number of cycles.

An instruction takes effect, prints, and then the program counter moves on. If the number does not
fit into the output the machine stays as it was. If the program counter cannot move on, the effect
stays and only the program counter does not change. Only an instruction that got through all of this
is logged.
-/

namespace EightBit

variable {size : Nat}

namespace Effect

def goOn (effect : Effect size) (length : Nat) : Except Fault (Machine size) :=
  match effect.target with
  | some target => .ok { effect.machine with pc := target }
  | none => effect.machine.proceed length

end Effect

def Instruction.execute (instruction : Instruction) (machine : Machine size) (room : Room) :
    Outcome size :=
  match instruction.effect machine with
  | .error fault => { machine, room, fault := some fault }
  | .ok effect =>
      let delivery := room.deliver effect.text
      if delivery.complete then
        match effect.goOn instruction.length with
        | .error fault =>
            { machine := effect.machine
              room := delivery.room
              output := delivery.written
              fault := some fault }
        | .ok next =>
            { machine := next
              room := delivery.room
              output := delivery.written
              log := [.executed effect.executed] }
      else
        { machine, room := delivery.room, output := delivery.written, fault := some .outputFull }

namespace Machine

/-- Fetches and executes one instruction, on a halted machine as well. -/
def cycle (machine : Machine size) (room : Room) : Outcome size :=
  match machine.fetch with
  | .error fault => { machine, room, fault := some fault }
  | .ok instruction => instruction.execute machine room

/-- The given number of cycles, fewer only after a fault. -/
def cycles : Nat → Machine size → Room → Outcome size
  | 0, machine, room => { machine, room }
  | count + 1, machine, room => (machine.cycle room).andThen (cycles count)

/-- At most the given number of cycles: none after a fault, nor after one that leaves the machine
halted. -/
def cyclesUntilHalt : Nat → Machine size → Room → Outcome size
  | 0, machine, room => { machine, room }
  | count + 1, machine, room =>
      (machine.cycle room).andThen fun next room =>
        if next.halted then { machine := next, room } else cyclesUntilHalt count next room

end Machine

end EightBit
