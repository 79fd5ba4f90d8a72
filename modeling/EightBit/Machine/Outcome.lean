import EightBit.Machine.Event

/-!
What executing leaves behind: the machine, the room left in the output, the text printed, the log
and, if it stopped early, the fault. Outcomes follow one another until the first fault.
-/

namespace EightBit

/-- How many more characters the output takes; `none` takes them all. What is printed is ASCII, so a
character is a byte. -/
abbrev Room := Option Nat

structure Delivery where
  written : String
  room : Room
  complete : Bool
  deriving DecidableEq

def Room.deliver : Room → String → Delivery
  | none, text => { written := text, room := none, complete := true }
  | some left, text =>
      if text.length ≤ left then
        { written := text, room := some (left - text.length), complete := true }
      else
        { written := String.ofList (text.toList.take left), room := some 0, complete := false }

@[simp]
theorem Room.deliver_empty (room : Room) :
    room.deliver "" = { written := "", room, complete := true } := by
  cases room <;> simp [deliver]

theorem Room.written_of_complete {room : Room} {text : String}
    (complete : (room.deliver text).complete = true) : (room.deliver text).written = text := by
  cases room with
  | none => rfl
  | some left =>
      by_cases fits : text.length ≤ left
      · simp [deliver, fits]
      · simp [deliver, fits] at complete

theorem Room.deliver_of_incomplete {room : Room} {text : String}
    (incomplete : (room.deliver text).complete = false) :
    ∃ left, room = some left ∧ left < text.length ∧
      room.deliver text =
        { written := String.ofList (text.toList.take left), room := some 0, complete := false } := by
  cases room with
  | none => simp [deliver] at incomplete
  | some left =>
      have small : ¬ text.length ≤ left := fun fits => by simp [deliver, fits] at incomplete
      refine ⟨left, rfl, Nat.not_le.mp small, ?_⟩
      simp only [deliver, small, ↓reduceIte]

structure Outcome (size : Nat) where
  machine : Machine size
  room : Room
  output : String := ""
  log : List Machine.Event := []
  fault : Option Fault := none
  deriving DecidableEq

namespace Outcome

variable {size : Nat}

/-- Goes on with `next` where `first` ended, unless that was a fault. -/
def andThen (first : Outcome size) (next : Machine size → Room → Outcome size) : Outcome size :=
  if first.fault.isSome then first
  else
    let second := next first.machine first.room
    { second with output := first.output ++ second.output, log := first.log ++ second.log }

theorem andThen_of_fault {first : Outcome size} (faulted : first.fault.isSome)
    (next : Machine size → Room → Outcome size) : first.andThen next = first := by
  simp [andThen, faulted]

theorem andThen_of_no_fault {first : Outcome size} (passed : first.fault = none)
    (next : Machine size → Room → Outcome size) :
    first.andThen next =
      { next first.machine first.room with
        output := first.output ++ (next first.machine first.room).output
        log := first.log ++ (next first.machine first.room).log } := by
  simp [andThen, passed]

theorem andThen_rest (first : Outcome size) :
    first.andThen (fun machine room => { machine, room }) = first := by
  by_cases faulted : first.fault.isSome
  · exact andThen_of_fault faulted _
  · have passed : first.fault = none := by simpa using faulted
    rw [andThen_of_no_fault passed]
    simp [← passed]

theorem fault_andThen (first : Outcome size) (next : Machine size → Room → Outcome size) :
    (first.andThen next).fault = first.fault.or (next first.machine first.room).fault := by
  cases faulted : first.fault with
  | none => simp [andThen_of_no_fault faulted]
  | some fault => simp [andThen, faulted]

theorem andThen_congr {first : Outcome size} {next other : Machine size → Room → Outcome size}
    (same : next first.machine first.room = other first.machine first.room) :
    first.andThen next = first.andThen other := by
  simp only [andThen, same]

theorem andThen_assoc (first : Outcome size) (second third : Machine size → Room → Outcome size) :
    (first.andThen second).andThen third =
      first.andThen fun machine room => (second machine room).andThen third := by
  by_cases faulted : first.fault.isSome
  · simp [andThen, faulted]
  · by_cases later : (second first.machine first.room).fault.isSome <;>
      simp [andThen, faulted, later, String.append_assoc]

def executedCount (outcome : Outcome size) : Nat :=
  outcome.log.countP Machine.Event.isExecuted

def ended (outcome : Outcome size) : Bool :=
  outcome.fault.isSome || outcome.machine.halted

end Outcome

end EightBit
