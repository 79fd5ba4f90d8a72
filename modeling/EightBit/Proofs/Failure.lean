import EightBit.Proofs.Hazard

/-!
What an instruction leaves behind that has a fault. There are three ways to fail: something is wrong
with the operands or the stack, the text does not fit into the output, or there is no address behind
the instruction to go on to. The first two leave the machine as it was. Only the third one comes
after the effect, and then nothing of the effect is missing.
-/

namespace EightBit

variable {size : Nat}

theorem faultOf_eq_some_iff {α : Type} {computation : Except Fault α} {fault : Fault} :
    faultOf computation = some fault ↔ computation = .error fault := by
  cases computation with
  | error cause => simp [faultOf]
  | ok value => simp [faultOf]

/-- The ways in which an instruction fails, each with what it leaves behind. -/
inductive Failure (machine : Machine size) (room : Room) (instruction : Instruction) :
    Outcome size → Prop where
  /-- The operands or the stack are not as the instruction needs them. -/
  | refused {fault : Fault} :
      instruction.effect machine = .error fault →
      Failure machine room instruction { machine, room, fault := some fault }
  /-- The output takes only the beginning of the text. -/
  | cutOff {effect : Effect size} :
      Rule machine instruction effect →
      (room.deliver effect.text).complete = false →
      Failure machine room instruction
        { machine
          room := (room.deliver effect.text).room
          output := (room.deliver effect.text).written
          fault := some .outputFull }
  /-- The address behind the instruction is no byte. -/
  | stranded {effect : Effect size} :
      Rule machine instruction effect →
      (room.deliver effect.text).complete = true →
      effect.target = none →
      255 < machine.pc.toNat + instruction.length →
      Failure machine room instruction
        { machine := effect.machine
          room := (room.deliver effect.text).room
          output := effect.text
          fault := some (.outOfBounds (machine.pc.toNat + instruction.length) size) }

theorem Effect.goOn_eq_error_iff {effect : Effect size} {length : Nat} {fault : Fault} :
    effect.goOn length = .error fault ↔
      effect.target = none ∧ 255 < effect.machine.pc.toNat + length ∧
        fault = .outOfBounds (effect.machine.pc.toNat + length) size := by
  rw [← faultOf_eq_some_iff, faultOf_goOn, Option.ite_none_right_eq_some, Option.some.injEq,
    Option.isNone_iff_eq_none, and_assoc, eq_comm (b := fault)]

namespace Instruction

variable {machine : Machine size} {room : Room} {instruction : Instruction} {fault : Fault}

theorem failure_of_faulted (faulted : (instruction.execute machine room).fault = some fault) :
    Failure machine room instruction (instruction.execute machine room) := by
  unfold execute at faulted ⊢
  cases computed : instruction.effect machine with
  | error cause => exact .refused computed
  | ok effect =>
      have rule := effect_eq_ok_iff.mp computed
      cases complete : (room.deliver effect.text).complete with
      | false => simpa [complete] using Failure.cutOff rule complete
      | true =>
          cases wentOn : effect.goOn instruction.length with
          | error cause =>
              obtain ⟨falls, large, rfl⟩ := Effect.goOn_eq_error_iff.mp wentOn
              rw [rule.pc_eq] at large
              simpa [complete, wentOn, rule.pc_eq, Room.written_of_complete complete] using
                Failure.stranded rule complete falls large
          | ok next => simp [computed, complete, wentOn] at faulted

end Instruction

theorem Failure.execute_eq {machine : Machine size} {room : Room} {instruction : Instruction}
    {outcome : Outcome size} (failure : Failure machine room instruction outcome) :
    instruction.execute machine room = outcome := by
  cases failure with
  | refused failed => simp [Instruction.execute, failed]
  | cutOff rule incomplete => simp [Instruction.execute, rule.effect_eq_ok, incomplete]
  | stranded rule complete falls large =>
      rw [← rule.pc_eq] at large
      have stopped := Effect.goOn_eq_error_iff.mpr ⟨falls, large, rfl⟩
      simp [Instruction.execute, rule.effect_eq_ok, complete, stopped, rule.pc_eq,
        Room.written_of_complete complete]

/-- The faults of operands and stack name a register that does not exist, or an address that is a
byte and yet too large. -/
theorem Instruction.fault_of_refused {machine : Machine size} {instruction : Instruction}
    {fault : Fault} (failed : instruction.effect machine = .error fault) :
    (∃ index : UInt8, 8 ≤ index.toNat ∧ fault = .invalidRegister index) ∨
      ∃ address : UInt8, size ≤ address.toNat ∧ fault = .outOfBounds address.toNat size := by
  obtain ⟨opcode, a, b, rfl⟩ := instruction.exists_opcode
  have first : firstFault (opcode.operandHazards a b machine) = some fault := by
    rw [← Opcode.faultOf_effect, failed]
    rfl
  obtain ⟨earlier, hazard, later, split, -, holds, rfl⟩ := firstFault_eq_some_iff.mp first
  have listed : hazard ∈ opcode.operandHazards a b machine := by simp [split]
  simp only [Opcode.operandHazards, List.mem_cons, List.not_mem_nil, or_false] at listed
  rcases listed with rfl | rfl | rfl | rfl
  · exact .inr ⟨machine.sp, (of_decide_eq_true holds).2, rfl⟩
  · exact .inl ⟨a, (of_decide_eq_true holds).2, rfl⟩
  · exact .inl ⟨b, (of_decide_eq_true holds).2, rfl⟩
  · exact .inr ⟨machine.sp - 1, (of_decide_eq_true holds).2, rfl⟩

/-- An instruction that goes on to the next address has the same effect wherever it stands. -/
theorem Rule.at_pc {machine : Machine size} {instruction : Instruction} {effect : Effect size}
    (rule : Rule machine instruction effect) (falls : effect.target = none) (pc : UInt8) :
    Rule { machine with pc } instruction
      { effect with machine := { effect.machine with pc } } := by
  cases rule with
  | hlt => exact .hlt
  | ret onTop => cases falls
  | push named written => exact .push named written
  | pop onTop stored =>
      have moved : Rule { machine with pc } (.pop _) _ :=
        .pop onTop (Registers.set_at_pc stored pc)
      exact moved
  | prn named => exact .prn named
  | call named written => cases falls
  | jmp named => cases falls
  | jeq named => exact .jeq named
  | jne named => exact .jne named
  | ldi stored => exact .ldi (Registers.set_at_pc stored pc)
  | alu applied => exact .alu (Registers.apply_at_pc applied pc)

theorem Instruction.execute_at_zero {machine : Machine size} {room : Room}
    {instruction : Instruction} {effect : Effect size}
    (rule : Rule machine instruction effect)
    (complete : (room.deliver effect.text).complete = true) (falls : effect.target = none) :
    instruction.execute { machine with pc := 0 } room =
      { machine := { effect.machine with pc := UInt8.ofNat instruction.length }
        room := (room.deliver effect.text).room
        output := effect.text
        log := [.executed effect.executed] } := by
  have short : instruction.length < 256 := Nat.lt_of_le_of_lt (Opcode.length_le _) (by decide)
  have wentOn : Effect.goOn { effect with machine := { effect.machine with pc := 0 } }
      instruction.length = .ok { effect.machine with pc := UInt8.ofNat instruction.length } :=
    Effect.goOn_eq_ok_iff.mpr ⟨_, rfl, .inr ⟨falls, by simp [UInt8.toNat_ofNat_of_lt' short]⟩⟩
  have executed := execute_of_rule (rule.at_pc falls 0) complete wentOn
  exact executed

namespace Failure

variable {machine : Machine size} {room : Room} {instruction : Instruction}
  {outcome : Outcome size}

theorem pc_eq (failure : Failure machine room instruction outcome) :
    outcome.machine.pc = machine.pc := by
  cases failure with
  | refused failed => rfl
  | cutOff rule incomplete => rfl
  | stranded rule complete falls large => exact rule.pc_eq

/-- What was fetched is an instruction, so none of its faults is that of a byte that is not. -/
theorem ne_unknownOpcode (failure : Failure machine room instruction outcome)
    (opcode pc : UInt8) : outcome.fault ≠ some (.unknownOpcode opcode pc) := by
  intro faulted
  cases failure with
  | refused failed =>
      cases faulted
      obtain ⟨index, -, ⟨⟩⟩ | ⟨address, -, ⟨⟩⟩ := Instruction.fault_of_refused failed
  | cutOff rule incomplete => cases faulted
  | stranded rule complete falls large => cases faulted

theorem eq_of_invalidRegister {index : UInt8} (failure : Failure machine room instruction outcome)
    (faulted : outcome.fault = some (.invalidRegister index)) :
    outcome = { machine, room, fault := some (.invalidRegister index) } := by
  cases failure with
  | refused failed =>
      cases faulted
      rfl
  | cutOff rule incomplete => cases faulted
  | stranded rule complete falls large => cases faulted

theorem eq_of_outOfBounds_byte {address limit : Nat} (byte : address ≤ 255)
    (failure : Failure machine room instruction outcome)
    (faulted : outcome.fault = some (.outOfBounds address limit)) :
    outcome = { machine, room, fault := some (.outOfBounds address limit) } := by
  cases failure with
  | refused failed =>
      cases faulted
      rfl
  | cutOff rule incomplete => cases faulted
  | stranded rule complete falls large =>
      cases faulted
      exact absurd large (Nat.not_lt.mpr byte)

theorem eq_of_outputFull (failure : Failure machine room instruction outcome)
    (faulted : outcome.fault = some .outputFull) :
    ∃ register value left, instruction = .prn register ∧ machine.get register = .ok value ∧
      room = some left ∧ left < (toString value.toNat ++ "\n").length ∧
      outcome =
        { machine
          room := some 0
          output := String.ofList ((toString value.toNat ++ "\n").toList.take left)
          fault := some .outputFull } := by
  cases failure with
  | refused failed =>
      cases faulted
      obtain ⟨index, -, ⟨⟩⟩ | ⟨address, -, ⟨⟩⟩ := Instruction.fault_of_refused failed
  | cutOff rule incomplete =>
      cases rule with
      | prn named =>
          obtain ⟨left, rfl, small, delivered⟩ := Room.deliver_of_incomplete incomplete
          refine ⟨_, _, left, rfl, named, rfl, small, ?_⟩
          rw [delivered]
          rfl
      | _ => simp [Effect.text] at incomplete
  | stranded rule complete falls large => cases faulted

theorem stranded_of_large {address limit : Nat} (large : 255 < address)
    (failure : Failure machine room instruction outcome)
    (faulted : outcome.fault = some (.outOfBounds address limit)) :
    ∃ effect, Rule machine instruction effect ∧ (room.deliver effect.text).complete = true ∧
      effect.target = none ∧ outcome.machine = effect.machine ∧
      outcome.room = (room.deliver effect.text).room ∧ outcome.output = effect.text := by
  cases failure with
  | refused failed =>
      cases faulted
      obtain ⟨index, -, ⟨⟩⟩ | ⟨byte, -, ⟨⟩⟩ := Instruction.fault_of_refused failed
      exact absurd byte.toNat_lt (Nat.not_lt.mpr large)
  | cutOff rule incomplete => cases faulted
  | stranded rule complete falls beyond => exact ⟨_, rule, complete, falls, rfl, rfl, rfl⟩

end Failure

/-- A cycle fails in fetching, and then nothing has happened, or as the instruction it has fetched
does. -/
theorem Machine.fetch_or_failure_of_faulted {machine : Machine size} {room : Room} {fault : Fault}
    (faulted : (machine.cycle room).fault = some fault) :
    machine.fetch = .error fault ∧ machine.cycle room = { machine, room, fault := some fault } ∨
      ∃ instruction, machine.fetch = .ok instruction ∧
        Failure machine room instruction (machine.cycle room) := by
  cases fetched : machine.fetch with
  | error cause =>
      have unchanged : machine.cycle room = { machine, room, fault := some cause } := by
        simp [cycle, fetched]
      rw [unchanged] at faulted
      cases faulted
      exact .inl ⟨rfl, unchanged⟩
  | ok instruction =>
      rw [cycle_of_fetch fetched] at faulted ⊢
      exact .inr ⟨instruction, rfl, Instruction.failure_of_faulted faulted⟩

/-- An instruction that fails has not moved the program counter and is not logged. Either it has
done nothing, but for as much of its text as the output took; or the program counter could not move
on, and then all else is as if the instruction had succeeded at address 0. -/
theorem Instruction.nothing_or_whole_effect_of_faulted (machine : Machine size) (room : Room)
    (instruction : Instruction) (fault : Fault)
    (faulted : (instruction.execute machine room).fault = some fault) :
    let outcome := instruction.execute machine room
    outcome.machine.pc = machine.pc ∧ outcome.log = [] ∧
    (∀ opcode pc, fault ≠ .unknownOpcode opcode pc) ∧
    ((∃ index, fault = .invalidRegister index) ∨
        (∃ address limit, fault = .outOfBounds address limit ∧ address ≤ 255) →
      outcome = { machine, room, fault := some fault }) ∧
    (fault = .outputFull →
      ∃ register value left, instruction = .prn register ∧ machine.get register = .ok value ∧
        room = some left ∧ left < (toString value.toNat ++ "\n").length ∧
        outcome =
          { machine
            room := some 0
            output := String.ofList ((toString value.toNat ++ "\n").toList.take left)
            fault := some .outputFull }) ∧
    (∀ address limit, fault = .outOfBounds address limit → 255 < address →
      let restarted := instruction.execute { machine with pc := 0 } room
      restarted.fault = none ∧
        outcome.machine = { restarted.machine with pc := machine.pc } ∧
        outcome.room = restarted.room ∧ outcome.output = restarted.output) := by
  intro outcome
  have failure : Failure machine room instruction outcome := failure_of_faulted faulted
  refine ⟨failure.pc_eq, log_of_faulted faulted, ?_, ?_, ?_, ?_⟩
  · rintro opcode pc rfl
    exact failure.ne_unknownOpcode opcode pc faulted
  · rintro (⟨index, rfl⟩ | ⟨address, limit, rfl, byte⟩)
    · exact failure.eq_of_invalidRegister faulted
    · exact failure.eq_of_outOfBounds_byte byte faulted
  · rintro rfl
    exact failure.eq_of_outputFull faulted
  · rintro address limit rfl large restarted
    obtain ⟨effect, rule, complete, falls, sameMachine, sameRoom, sameOutput⟩ :=
      failure.stranded_of_large large faulted
    have again : restarted = _ := execute_at_zero rule complete falls
    rw [again, sameMachine, sameRoom, sameOutput, ← rule.pc_eq]
    exact ⟨rfl, rfl, rfl, rfl⟩

/-- At the last address a halt takes effect although it cannot go on, and of `200` two digits are
printed where there is room for no more. -/
theorem Instruction.faulted_at_last_address :
    let machine : Machine 256 :=
      { memory := .zero 256, pc := 255, general := #v[200, 0, 0, 0, 0, 0, 0, 0] }
    let halting := Instruction.hlt.execute machine none
    let printing := (Instruction.prn 0).execute machine (some 2)
    (halting.fault = some (.outOfBounds 256 256) ∧ halting.log = [] ∧
      halting.machine = { machine with halted := true }) ∧
    (printing.fault = some .outputFull ∧ printing.log = [] ∧
      printing.machine = machine ∧ printing.output = "20") := by
  intro machine halting printing
  have stranded : halting.fault = some (.outOfBounds 256 256) := rfl
  have cut : printing.fault = some .outputFull := by decide
  refine ⟨⟨stranded, ?_⟩, ⟨cut, ?_⟩⟩
  · obtain ⟨-, silent, -, -, -, whole⟩ :=
      nothing_or_whole_effect_of_faulted machine none .hlt _ stranded
    obtain ⟨-, sameMachine, -⟩ := whole 256 256 rfl (by decide)
    exact ⟨silent, sameMachine⟩
  · obtain ⟨-, silent, -, -, partly, -⟩ :=
      nothing_or_whole_effect_of_faulted machine (some 2) (.prn 0) _ cut
    obtain ⟨register, value, left, ⟨⟩, named, ⟨⟩, -, outcome⟩ := partly rfl
    have printed : value = 200 := by
      cases named
      rfl
    refine ⟨silent, congrArg Outcome.machine outcome, ?_⟩
    rw [congrArg Outcome.output outcome, printed]
    decide

end EightBit
