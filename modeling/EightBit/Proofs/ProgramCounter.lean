import EightBit.Proofs.StackPointer

/-!
Where execution goes on. The address behind an instruction is taken as a number, so where it is no
byte an instruction cannot go on to it and fails. A call does not go on to it but puts it on the
stack, and there it is taken as a byte: behind the last two addresses it wraps, the call does not
fail, and a return comes back to the start of memory.
-/

namespace EightBit

variable {size : Nat} {machine : Machine size} {instruction : Instruction} {room : Room}

theorem Rule.target_eq_none_iff {effect : Effect size} (rule : Rule machine instruction effect) :
    effect.target = none ↔ instruction.opcode.fallsThrough machine = true := by
  obtain ⟨opcode, a, b, rfl⟩ := instruction.exists_opcode
  rw [Opcode.opcode_instruction, ← rule.isNone_target, Option.isNone_iff_eq_none]

namespace Instruction

theorem toNat_pc_of_passed (falls : instruction.opcode.fallsThrough machine = true)
    (passed : (instruction.execute machine room).fault = none) :
    (instruction.execute machine room).machine.pc.toNat =
      machine.pc.toNat + instruction.length := by
  obtain ⟨effect, pc, rule, -, moved, reached⟩ := exists_outcome_of_passed passed
  rw [reached]
  rcases moved with jumped | ⟨-, behind⟩
  · rw [rule.target_eq_none_iff.mpr falls] at jumped
    cases jumped
  · exact behind

theorem fault_ne_none_of_large (falls : instruction.opcode.fallsThrough machine = true)
    (large : 255 < machine.pc.toNat + instruction.length) :
    (instruction.execute machine room).fault ≠ none := by
  intro passed
  have byte := (instruction.execute machine room).machine.pc.toNat_lt
  rw [toNat_pc_of_passed falls passed] at byte
  omega

/-- If nothing else is wrong with the instruction, so that it passes at address 0, it is the address
behind it that is reported. -/
theorem fault_of_large (falls : instruction.opcode.fallsThrough machine = true)
    (large : 255 < machine.pc.toNat + instruction.length)
    (sound : (instruction.execute { machine with pc := 0 } room).fault = none) :
    (instruction.execute machine room).fault =
      some (.outOfBounds (machine.pc.toNat + instruction.length) size) := by
  obtain ⟨effect, pc, rule, complete, -, -⟩ := exists_outcome_of_passed sound
  have target : effect.target = none := rule.target_eq_none_iff.mpr falls
  have here : Rule machine instruction _ := rule.at_pc target machine.pc
  rw [(Failure.stranded here complete target large).execute_eq]

end Instruction

theorem toNat_add_two_of_byte {pc : UInt8} (byte : pc.toNat + 2 ≤ 255) :
    (pc + 2).toNat = pc.toNat + 2 := by
  rw [UInt8.toNat_add]
  exact Nat.mod_eq_of_lt (Nat.lt_succ_of_le byte)

theorem toNat_add_two_of_large {pc : UInt8} (large : 255 < pc.toNat + 2) :
    (pc + 2).toNat = pc.toNat + 2 - 256 := by
  have bound := pc.toNat_lt
  have two : (2 : UInt8).toNat = 2 := rfl
  rw [UInt8.toNat_add, two]
  omega

/-- The program counter never wraps where execution goes on to the address behind an instruction: it
is at exactly that address, and where this is no byte the instruction fails, if with nothing else
then with a report of it. A call passes nevertheless. The byte it stores is the address behind it
only if that is a byte, and where it is not, a return from the call wraps. -/
theorem never_wraps_unless_called (machine : Machine size) (room : Room) :
    (∀ instruction : Instruction, instruction.opcode.fallsThrough machine = true →
      let following := machine.pc.toNat + instruction.length
      let outcome := instruction.execute machine room
      (outcome.fault = none → outcome.machine.pc.toNat = following) ∧
      (255 < following → outcome.fault ≠ none ∧
        ((instruction.execute { machine with pc := 0 } room).fault = none →
          outcome.fault = some (.outOfBounds following size)))) ∧
    (∀ register : UInt8,
      let following := machine.pc.toNat + (Instruction.call register).length
      let called := (Instruction.call register).execute machine room
      (called.fault = none ↔ register.toNat < 8 ∧ (machine.sp - 1).toNat < size) ∧
      (called.fault = none → ∃ back : UInt8,
        called.machine.memory.cells[called.machine.sp.toNat]? = some back ∧
        (following ≤ 255 → back.toNat = following) ∧
        (255 < following → back.toNat = following - 256) ∧
        ∀ returning : Machine size, returning.sp = called.machine.sp →
          returning.memory.cells[returning.sp.toNat]? = some back →
          ∀ later, (Instruction.ret.execute returning later).fault = none ∧
            (Instruction.ret.execute returning later).machine = { returning with pc := back })) := by
  constructor
  · intro instruction falls following outcome
    refine ⟨Instruction.toNat_pc_of_passed falls, fun large => ?_⟩
    exact ⟨Instruction.fault_ne_none_of_large falls large, Instruction.fault_of_large falls large⟩
  · intro register following called
    refine ⟨Stack.call_passes_iff, fun passed => ?_⟩
    have onTop := Memory.read_eq_ok_iff.mp (Stack.top_of_call passed).2
    refine ⟨machine.pc + 2, onTop, toNat_add_two_of_byte, toNat_add_two_of_large, ?_⟩
    intro returning sameSp sameCell later
    rw [Stack.execute_ret_of_top (Memory.read_eq_ok_iff.mpr sameCell)]
    exact ⟨rfl, rfl⟩

/-- Behind address 254 there is a byte for a one-byte instruction, none for a longer one, and a call
comes back to address 0. -/
theorem call_at_254_returns_to_zero :
    let machine : Machine 256 := { memory := .zero 256, pc := 254 }
    let called := (Instruction.call 0).execute machine none
    let returned := Instruction.ret.execute called.machine none
    machine.pc.toNat + (Instruction.call 0).length = 256 ∧ called.fault = none ∧
      called.machine.memory.cells[called.machine.sp.toNat]? = some 0 ∧
      returned.fault = none ∧ returned.machine.pc = 0 := by
  decide

end EightBit
