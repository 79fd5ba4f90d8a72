import EightBit.Proofs.Failure
import EightBit.Proofs.Run

/-!
A fault is permanent on a machine of at most 256 cells. A cycle that failed may have changed general
registers or flags, but nothing that the fault depends on: the same cycle fails again with the same
fault, prints nothing and changes no address, pointer or cell. So does every run that is started on
what a failed run left behind.
-/

namespace EightBit

variable {size : Nat}

/-- What the machines before and after a cycle have in common if only general registers and flags
can have changed. -/
structure Machine.Stays (before after : Machine size) : Prop where
  pc_eq : after.pc = before.pc
  sp_eq : after.sp = before.sp
  memory_eq : after.memory = before.memory
  halted_eq : after.halted = before.halted

namespace Machine

theorem Stays.refl (machine : Machine size) : machine.Stays machine :=
  ⟨rfl, rfl, rfl, rfl⟩

theorem Stays.trans {first second third : Machine size} (earlier : first.Stays second)
    (later : second.Stays third) : first.Stays third where
  pc_eq := later.pc_eq.trans earlier.pc_eq
  sp_eq := later.sp_eq.trans earlier.sp_eq
  memory_eq := later.memory_eq.trans earlier.memory_eq
  halted_eq := later.halted_eq.trans earlier.halted_eq

theorem Stays.fetch_eq {machine other : Machine size} (stays : machine.Stays other) :
    other.fetch = machine.fetch := by
  rw [fetch, fetch, stays.pc_eq, stays.memory_eq]

end Machine

/-- Whether the operands and the stack are right depends on nothing but the stack pointer. -/
theorem Rule.exists_of_sp_eq {machine other : Machine size} {instruction : Instruction}
    {effect : Effect size} (rule : Rule machine instruction effect)
    (sameSp : other.sp = machine.sp) : ∃ again, Rule other instruction again := by
  obtain ⟨opcode, a, b, rfl⟩ := instruction.exists_opcode
  have sameFault : faultOf ((opcode.instruction a b).effect other) =
      faultOf ((opcode.instruction a b).effect machine) := by
    rw [Opcode.faultOf_effect, Opcode.faultOf_effect, Opcode.operandHazards, Opcode.operandHazards,
      sameSp]
  rw [rule.effect_eq_ok] at sameFault
  cases computed : (opcode.instruction a b).effect other with
  | error fault =>
      rw [computed] at sameFault
      cases sameFault
  | ok again => exact ⟨again, Instruction.effect_eq_ok_iff.mp computed⟩

/-- The instructions of three bytes compute: they print nothing, jump nowhere and do not touch the
stack. -/
theorem Rule.stays_of_three_bytes {machine : Machine size} {instruction : Instruction}
    {effect : Effect size} (rule : Rule machine instruction effect)
    (wide : instruction.length = 3) :
    machine.Stays effect.machine ∧ effect.text = "" ∧ effect.target = none := by
  cases rule with
  | ldi stored =>
      obtain ⟨named, rfl⟩ := Registers.set_eq_ok_iff.mp stored
      exact ⟨⟨rfl, rfl, rfl, rfl⟩, rfl, rfl⟩
  | alu applied =>
      obtain ⟨samePc, sameSp⟩ := Registers.pointers_of_apply applied
      exact ⟨⟨samePc, sameSp, rfl, rfl⟩, rfl, rfl⟩
  | _ => cases wide

namespace Machine

variable {machine : Machine size} {room : Room} {fault : Fault}

/-- A cycle that has failed fails in the same way once more, and in silence. -/
structure FailsAgain (machine : Machine size) (room : Room) (fault : Fault) : Prop where
  stays : machine.Stays (machine.cycle room).machine
  faulted : ((machine.cycle room).machine.cycle (machine.cycle room).room).fault = some fault
  silent : ((machine.cycle room).machine.cycle (machine.cycle room).room).output = ""
  room_eq : ((machine.cycle room).machine.cycle (machine.cycle room).room).room =
    (machine.cycle room).room

theorem failsAgain_of_cycles {failed again : Outcome size} (first : machine.cycle room = failed)
    (second : failed.machine.cycle failed.room = again) (stays : machine.Stays failed.machine)
    (faulted : again.fault = some fault) (silent : again.output = "")
    (room_eq : again.room = failed.room) : machine.FailsAgain room fault := by
  subst first second
  exact ⟨stays, faulted, silent, room_eq⟩

theorem failsAgain_of_unchanged
    (unchanged : machine.cycle room = { machine, room, fault := some fault }) :
    machine.FailsAgain room fault :=
  failsAgain_of_cycles unchanged unchanged (.refl machine) rfl rfl rfl

/-- Once a text has been cut off there is no room left for any part of it. -/
theorem failsAgain_of_cutOff {instruction : Instruction} {effect : Effect size}
    (fetched : machine.fetch = .ok instruction) (rule : Rule machine instruction effect)
    (incomplete : (room.deliver effect.text).complete = false) :
    machine.FailsAgain room .outputFull := by
  obtain ⟨left, rfl, small, delivered⟩ := Room.deliver_of_incomplete incomplete
  have nothing : Room.deliver (some 0) effect.text =
      { written := "", room := some 0, complete := false } := by
    have filled : ¬ effect.text.length ≤ 0 := Nat.not_le.mpr (Nat.zero_lt_of_lt small)
    simp only [Room.deliver, filled, ↓reduceIte, List.take_zero, String.ofList_nil]
  have first : machine.cycle (some left) = _ := cycle_of_fetch fetched
  rw [(Failure.cutOff rule incomplete).execute_eq, delivered] at first
  have second : machine.cycle (some 0) = _ := cycle_of_fetch fetched
  rw [(Failure.cutOff rule (congrArg Delivery.complete nothing)).execute_eq, nothing] at second
  exact failsAgain_of_cycles first second (.refl machine) rfl rfl rfl

/-- Only an instruction whose third byte is in the last of 256 cells has no address behind it: the
two bytes behind its opcode were there, so it is the third one that leads too far. -/
theorem last_of_stranded {instruction : Instruction} (small : size ≤ 256)
    (fetched : machine.fetch = .ok instruction)
    (large : 255 < machine.pc.toNat + instruction.length) :
    instruction.length = 3 ∧ size = 256 ∧ machine.pc.toNat = 253 := by
  have inside := inside_of_fetch fetched
  have atMost : instruction.length ≤ 3 := instruction.opcode.length_le
  omega

theorem failsAgain_of_stranded {instruction : Instruction} {effect : Effect size}
    (small : size ≤ 256) (fetched : machine.fetch = .ok instruction)
    (rule : Rule machine instruction effect)
    (complete : (room.deliver effect.text).complete = true) (falls : effect.target = none)
    (large : 255 < machine.pc.toNat + instruction.length) :
    machine.FailsAgain room (.outOfBounds (machine.pc.toNat + instruction.length) size) := by
  obtain ⟨wide, -, -⟩ := last_of_stranded small fetched large
  obtain ⟨stays, quiet, -⟩ := rule.stays_of_three_bytes wide
  obtain ⟨again, ruleAgain⟩ := rule.exists_of_sp_eq stays.sp_eq
  obtain ⟨-, quietAgain, fallsAgain⟩ := ruleAgain.stays_of_three_bytes wide
  have first : machine.cycle room = _ := cycle_of_fetch fetched
  rw [(Failure.stranded rule complete falls large).execute_eq, quiet, Room.deliver_empty] at first
  have second : effect.machine.cycle room = _ := cycle_of_fetch (stays.fetch_eq.trans fetched)
  rw [← stays.pc_eq] at large
  rw [(Failure.stranded ruleAgain (by simp [quietAgain]) fallsAgain large).execute_eq, quietAgain,
    Room.deliver_empty, stays.pc_eq] at second
  exact failsAgain_of_cycles first second stays rfl rfl rfl

theorem failsAgain_of_faulted (small : size ≤ 256)
    (faulted : (machine.cycle room).fault = some fault) : machine.FailsAgain room fault := by
  rcases fetch_or_failure_of_faulted faulted with
    ⟨-, unchanged⟩ | ⟨instruction, fetched, failure⟩
  · exact failsAgain_of_unchanged unchanged
  · generalize reached : machine.cycle room = outcome at faulted failure
    cases failure with
    | refused failed =>
        cases faulted
        exact failsAgain_of_unchanged reached
    | cutOff rule incomplete =>
        cases faulted
        exact failsAgain_of_cutOff fetched rule incomplete
    | stranded rule complete falls large =>
        cases faulted
        exact failsAgain_of_stranded small fetched rule complete falls large

/-- The last of a first cycle and the given number of further ones, each on what the one before it
has left behind, whether that failed or not. -/
def attempt (machine : Machine size) (room : Room) : Nat → Outcome size
  | 0 => machine.cycle room
  | n + 1 => (machine.cycle room).machine.attempt (machine.cycle room).room n

theorem attempt_succ_of_faulted (small : size ≤ 256)
    (faulted : (machine.cycle room).fault = some fault) (n : Nat) :
    (machine.attempt room (n + 1)).fault = some fault ∧
      (machine.attempt room (n + 1)).output = "" ∧
      (machine.attempt room (n + 1)).log = [] ∧
      (machine.attempt room (n + 1)).room = (machine.cycle room).room ∧
      (machine.cycle room).machine.Stays (machine.attempt room (n + 1)).machine := by
  -- A cycle leads from one failure to the next, so the induction moves the first failure on.
  induction n generalizing machine room with
  | zero =>
      have again := failsAgain_of_faulted small faulted
      exact ⟨again.faulted, again.silent, log_of_faulted again.faulted, again.room_eq,
        (failsAgain_of_faulted small again.faulted).stays⟩
  | succ n inductionHypothesis =>
      have again := failsAgain_of_faulted small faulted
      obtain ⟨sameFault, silent, unlogged, sameRoom, stays⟩ := inductionHypothesis again.faulted
      exact ⟨sameFault, silent, unlogged, sameRoom.trans again.room_eq,
        (failsAgain_of_faulted small again.faulted).stays.trans stays⟩

structure Stuck (machine : Machine size) (room : Room) (fault : Fault) : Prop where
  running : machine.halted = false
  faulted : (machine.cycle room).fault = some fault

theorem Stuck.faultsAt (stuck : machine.Stuck room fault) : machine.FaultsAt room 0 fault where
  passed := rfl
  running k atMost := by
    rw [Nat.le_zero.mp atMost]
    exact stuck.running
  faulted := stuck.faulted

theorem FaultsAt.stuck {n : Nat} (small : size ≤ 256) (faults : machine.FaultsAt room n fault) :
    (machine.faultedOutcome room n fault).machine.Stuck
      (machine.faultedOutcome room n fault).room fault := by
  have again := failsAgain_of_faulted small faults.faulted
  exact ⟨again.stays.halted_eq.trans (faults.running n (Nat.le_refl n)), again.faulted⟩

theorem RunsTo.stuck {outcome : Outcome size} (small : size ≤ 256)
    (runsTo : machine.RunsTo room outcome) (faulted : outcome.fault = some fault) :
    outcome.machine.Stuck outcome.room fault := by
  rcases runsTo_iff.mp runsTo with ⟨n, halts, rfl⟩ | ⟨n, cause, faults, rfl⟩
  · cases faulted
  · cases faulted
    exact faults.stuck small

end Machine

/-- What the last one ends with of the given number of runs, the first of which is started on what
`first` has left behind, and each further one on what the one before it has. -/
inductive Outcome.RunsAgainTo (first : Outcome size) : Nat → Outcome size → Prop where
  | start : RunsAgainTo first 0 first
  | again {n : Nat} {before outcome : Outcome size} :
      RunsAgainTo first n before →
      before.machine.RunsTo before.room outcome →
      RunsAgainTo first (n + 1) outcome

namespace Outcome

variable {first outcome : Outcome size} {fault : Fault} {n : Nat}

theorem RunsAgainTo.stuck (small : size ≤ 256) (stuck : first.machine.Stuck first.room fault)
    (faulted : first.fault = some fault) (runs : first.RunsAgainTo n outcome) :
    outcome.machine.Stuck outcome.room fault ∧ outcome.fault = some fault := by
  induction runs with
  | start => exact ⟨stuck, faulted⟩
  | again before runsTo inductionHypothesis =>
      have known := inductionHypothesis.1.faultsAt.runsTo
      rw [runsTo.unique known]
      exact ⟨known.stuck small rfl, rfl⟩

theorem exists_runsAgainTo (small : size ≤ 256) (stuck : first.machine.Stuck first.room fault)
    (faulted : first.fault = some fault) (n : Nat) : ∃ outcome, first.RunsAgainTo n outcome := by
  induction n with
  | zero => exact ⟨first, .start⟩
  | succ n inductionHypothesis =>
      obtain ⟨before, runs⟩ := inductionHypothesis
      obtain ⟨stuckBefore, -⟩ := runs.stuck small stuck faulted
      exact ⟨_, .again runs stuckBefore.faultsAt.runsTo⟩

end Outcome

/-- Where a cycle has failed each further one fails with the same fault. It prints and logs nothing
and leaves the pointers, the memory and `halted` as they are. A run that has failed can be started
again as often as one likes: each time it ends, and each time with the same fault. -/
theorem Machine.fault_is_permanent (small : size ≤ 256) (machine : Machine size) (room : Room) :
    (∀ fault, (machine.cycle room).fault = some fault → ∀ n, 1 ≤ n →
      let failed := machine.cycle room
      let retry := machine.attempt room n
      retry.fault = some fault ∧ retry.output = "" ∧ retry.log = [] ∧ retry.room = failed.room ∧
        retry.machine.pc = failed.machine.pc ∧ retry.machine.sp = failed.machine.sp ∧
        retry.machine.memory = failed.machine.memory ∧
        retry.machine.halted = failed.machine.halted) ∧
    ∀ failed fault, machine.RunsTo room failed → failed.fault = some fault → ∀ n,
      (∃ outcome, failed.RunsAgainTo n outcome) ∧
        ∀ outcome, failed.RunsAgainTo n outcome → outcome.fault = some fault := by
  constructor
  · intro fault faulted n positive
    obtain ⟨before, rfl⟩ := Nat.exists_eq_add_of_le' positive
    obtain ⟨sameFault, silent, unlogged, sameRoom, stays⟩ :=
      attempt_succ_of_faulted small faulted before
    exact ⟨sameFault, silent, unlogged, sameRoom, stays.pc_eq, stays.sp_eq, stays.memory_eq,
      stays.halted_eq⟩
  · intro failed fault runsTo faulted n
    have stuck := runsTo.stuck small faulted
    exact ⟨Outcome.exists_runsAgainTo small stuck faulted n,
      fun outcome runs => (runs.stuck small stuck faulted).2⟩

/-- Where there is room for two digits of `200` the first attempt to print it fills the room, and
each further one fails without printing anything; so do all runs that start there. -/
theorem Machine.fault_is_permanent_in_full_output :
    let machine : Machine 8 :=
      { memory := ⟨#v[0x47, 0, 1, 0, 0, 0, 0, 0]⟩, general := #v[200, 0, 0, 0, 0, 0, 0, 0] }
    8 ≤ 256 ∧ (machine.cycle (some 2)).fault = some .outputFull ∧
      (machine.cycle (some 2)).output = "20" ∧
      (machine.attempt (some 2) 5).fault = some .outputFull ∧
      (machine.attempt (some 2) 5).output = "" ∧
      (machine.run 1 (some 2)).fault = some .outputFull ∧
      ∃ outcome, (machine.run 1 (some 2)).RunsAgainTo 3 outcome ∧
        outcome.fault = some .outputFull := by
  intro machine
  have small : 8 ≤ 256 := by decide
  have faulted : (machine.cycle (some 2)).fault = some .outputFull := by decide
  have ended : machine.RunsTo (some 2) (machine.run 1 (some 2)) := ⟨1, rfl, by decide⟩
  have failed : (machine.run 1 (some 2)).fault = some .outputFull := by decide
  obtain ⟨attempts, runs⟩ := fault_is_permanent small machine (some 2)
  obtain ⟨sameFault, silent, -⟩ := attempts _ faulted 5 (by decide)
  obtain ⟨⟨outcome, reached⟩, sameRunFault⟩ := runs _ _ ended failed 3
  exact ⟨small, faulted, by decide, sameFault, silent, failed, outcome, reached,
    sameRunFault outcome reached⟩

end EightBit
