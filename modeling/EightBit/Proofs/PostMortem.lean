import EightBit.Proofs.Permanence
import EightBit.Proofs.TraceLine

/-!
The line of a machine that a run has left failed, beside the last line that the run has logged. On at
most 256 cells both show the same program counter and the same fetched cells, so the failed machine
still points at the instruction that failed. They differ at most where an instruction of three bytes
stands in the last three of 256 cells: it takes effect, and then there is no address to go on to.
-/

namespace EightBit

variable {size : Nat}

namespace Snapshot

/-- What an instruction of three bytes makes of a snapshot before the program counter moves. -/
inductive Computes (before : Snapshot) : Opcode → UInt8 → UInt8 → Snapshot → Prop where
  | ldi {register value : UInt8} (named : register.toNat < 8) :
      Computes before .ldi register value
        { before with general := before.general.set register.toNat value }
  | add {a b x y : UInt8} (named : a.toNat < 8) :
      before.general[a.toNat]? = some x → before.general[b.toNat]? = some y →
      Computes before .add a b { before with general := before.general.set a.toNat (x + y) }
  | mul {a b x y : UInt8} (named : a.toNat < 8) :
      before.general[a.toNat]? = some x → before.general[b.toNat]? = some y →
      Computes before .mul a b { before with general := before.general.set a.toNat (x * y) }
  | cmp {a b x y : UInt8} :
      before.general[a.toNat]? = some x → before.general[b.toNat]? = some y →
      Computes before .cmp a b { before with fl := Flag.compare x y }

/-- The snapshot of a machine of 256 cells whose program counter is at the last three of them and
cannot move on. -/
structure IsHalfDone (before : Snapshot) (size : Nat) (fault : Fault) : Prop where
  size_eq : size = 256
  pc_eq : before.pc = 0xFD
  fault_eq : fault = .outOfBounds 0x100 256

end Snapshot

theorem Rule.computes {machine : Machine size} {opcode : Opcode} {a b : UInt8}
    {effect : Effect size} (rule : Rule machine (opcode.instruction a b) effect)
    (wide : opcode.length = 3) : machine.snapshot.Computes opcode a b effect.machine.snapshot := by
  cases opcode with
  | ldi =>
      cases rule with
      | ldi stored =>
          obtain ⟨named, rfl⟩ := Registers.set_eq_ok_iff.mp stored
          exact .ldi named
  | add =>
      cases rule with
      | alu applied =>
          obtain ⟨x, y, foundA, foundB, stored⟩ := Registers.apply_eq_ok_iff.mp applied
          obtain ⟨named, rfl⟩ := Registers.set_eq_ok_iff.mp stored
          exact .add named (Registers.get_eq_ok_iff.mp foundA) (Registers.get_eq_ok_iff.mp foundB)
  | mul =>
      cases rule with
      | alu applied =>
          obtain ⟨x, y, foundA, foundB, stored⟩ := Registers.apply_eq_ok_iff.mp applied
          obtain ⟨named, rfl⟩ := Registers.set_eq_ok_iff.mp stored
          exact .mul named (Registers.get_eq_ok_iff.mp foundA) (Registers.get_eq_ok_iff.mp foundB)
  | cmp =>
      cases rule with
      | alu applied =>
          obtain ⟨x, y, foundA, foundB, rfl⟩ := Registers.apply_eq_ok_iff.mp applied
          exact .cmp (Registers.get_eq_ok_iff.mp foundA) (Registers.get_eq_ok_iff.mp foundB)
  | _ => cases wide

namespace Machine

variable {machine : Machine size} {room : Room} {fault : Fault}

theorem Stays.snapshot_eq {other : Machine size} (stays : machine.Stays other) :
    other.snapshot = { machine.snapshot with fl := other.fl, general := other.general } := by
  simp only [snapshot, stays.pc_eq, stays.memory_eq]

/-- Of the ways to fail only the one behind the effect can change the machine. -/
theorem machine_eq_of_faulted (small : size ≤ 256)
    (faulted : (machine.cycle room).fault = some fault)
    (whole : ¬ machine.snapshot.IsHalfDone size fault) :
    (machine.cycle room).machine = machine := by
  rcases fetch_or_failure_of_faulted faulted with
    ⟨-, unchanged⟩ | ⟨instruction, fetched, failure⟩
  · rw [unchanged]
  · generalize machine.cycle room = outcome at faulted failure
    cases failure with
    | refused failed => rfl
    | cutOff rule incomplete => rfl
    | stranded rule complete falls large =>
        obtain ⟨wide, full, last⟩ := last_of_stranded small fetched large
        have pc_eq : machine.pc = 0xFD := UInt8.toNat_inj.mp last
        cases faulted
        have fault_eq : Fault.outOfBounds (machine.pc.toNat + instruction.length) size =
            .outOfBounds 0x100 256 := by rw [wide, last, full]
        exact absurd ⟨full, pc_eq, fault_eq⟩ whole

theorem exists_computes_of_halfDone (faulted : (machine.cycle room).fault = some fault)
    (half : machine.snapshot.IsHalfDone size fault) :
    ∃ opcode a b, machine.snapshot.opcode = some opcode.byte ∧
      machine.snapshot.operandA = some a ∧ machine.snapshot.operandB = some b ∧
      machine.snapshot.Computes opcode a b (machine.cycle room).machine.snapshot := by
  obtain ⟨full, pc_eq, rfl⟩ := half
  rcases fetch_or_failure_of_faulted faulted with
    ⟨failed, -⟩ | ⟨instruction, fetched, failure⟩
  · have last : machine.pc.toNat = 253 := congrArg UInt8.toNat pc_eq
    rcases fetch_eq_error_iff.mp failed with ⟨short, -⟩ | ⟨-, byte, -, -, ⟨⟩⟩
    omega
  · obtain ⟨opcode, a, b, first, second, third, rfl⟩ := fetch_eq_ok_iff.mp fetched
    generalize machine.cycle room = outcome at faulted failure
    refine ⟨opcode, a, b, first, second, third, ?_⟩
    cases failure with
    | refused failed =>
        -- Operands and stack only report addresses that are bytes.
        cases faulted
        obtain ⟨index, -, ⟨⟩⟩ | ⟨address, -, same⟩ := Instruction.fault_of_refused failed
        injection same with beyond
        exact absurd address.toNat_lt (Nat.not_lt.mpr (Nat.le_of_eq beyond))
    | cutOff rule incomplete => cases faulted
    | stranded rule complete falls large =>
        obtain ⟨wide, -, -⟩ := last_of_stranded (Nat.le_of_eq full) fetched large
        rw [Instruction.length, Opcode.opcode_instruction] at wide
        exact rule.computes wide

theorem snapshot_of_unknownOpcode {opcode pc : UInt8}
    (faulted : (machine.cycle room).fault = some (.unknownOpcode opcode pc)) :
    machine.snapshot.pc = pc ∧ machine.snapshot.opcode = some opcode := by
  rcases fetch_or_failure_of_faulted faulted with
    ⟨failed, -⟩ | ⟨instruction, fetched, failure⟩
  · obtain ⟨-, ⟨⟩⟩ | ⟨-, byte, atPc, -, ⟨⟩⟩ := fetch_eq_error_iff.mp failed
    exact ⟨rfl, atPc⟩
  · exact absurd faulted (failure.ne_unknownOpcode opcode pc)

theorem getLast?_traced_faultedOutcome (machine : Machine size) (n : Nat) :
    ((Log.records (some .trace) (machine.faultedOutcome room n fault).log).filter
        fun record => record.level = .trace).getLast? =
      some ⟨.trace, "ls8::processor", (machine.cycles n room).machine.snapshot.line⟩ := by
  rw [faultedOutcome, records_journal, List.filter_append]
  exact List.getLast?_concat

/-- What a failed run leaves behind shows the program counter and the three fetched cells as its
last traced line does. The two lines are the same but for one case: on 256 cells an instruction of
three bytes at the last of them cannot go on, and then its result is already shown. Where the fault
is a byte that is no opcode, that byte and its address are shown. -/
theorem stopped_line_of_last_traced (small : size ≤ 256) (machine : Machine size) (room : Room)
    (outcome : Outcome size) (fault : Fault) (runsTo : machine.RunsTo room outcome)
    (faulted : outcome.fault = some fault) :
    let stopped := outcome.machine.snapshot.line
    ∃ last, ((Log.records (some .trace) outcome.log).filter
        fun record => record.level = .trace).getLast? = some last ∧
      let before := Snapshot.ofLine last.message
      let after := Snapshot.ofLine stopped
      last.message = before.line ∧ stopped = after.line ∧
      (after.pc = before.pc ∧ after.opcode = before.opcode ∧
        after.operandA = before.operandA ∧ after.operandB = before.operandB) ∧
      (¬ before.IsHalfDone size fault → stopped = last.message) ∧
      (before.IsHalfDone size fault → ∃ opcode a b,
        before.opcode = some opcode.byte ∧ before.operandA = some a ∧ before.operandB = some b ∧
          before.Computes opcode a b after) ∧
      ∀ opcode pc, fault = .unknownOpcode opcode pc →
        after.pc = pc ∧ after.opcode = some opcode := by
  intro stopped
  rcases runsTo_iff.mp runsTo with ⟨n, halts, rfl⟩ | ⟨n, cause, faults, rfl⟩
  · cases faulted
  · cases faulted
    have failed : ((machine.cycles n room).machine.cycle (machine.cycles n room).room).fault =
        some fault := faults.faulted
    have sameCells := (failsAgain_of_faulted small failed).stays.snapshot_eq
    refine ⟨_, getLast?_traced_faultedOutcome machine n, ?_⟩
    intro before after
    have before_eq : before = (machine.cycles n room).machine.snapshot := Snapshot.ofLine_line _
    have after_eq : after = (machine.cycleAfter room n).machine.snapshot := Snapshot.ofLine_line _
    rw [before_eq, after_eq]
    refine ⟨rfl, rfl, ?_, ?_, ?_, ?_⟩
    · rw [cycleAfter, sameCells]
      exact ⟨rfl, rfl, rfl, rfl⟩
    · intro whole
      have unchanged := machine_eq_of_faulted small failed whole
      exact congrArg (fun left : Machine size => left.snapshot.line) unchanged
    · exact exists_computes_of_halfDone failed
    · rintro opcode pc rfl
      rw [cycleAfter, sameCells]
      exact snapshot_of_unknownOpcode failed

/-- In the last three of 256 cells a value is loaded and there is no address to go on to: the failed
machine shows it, as the line before does not yet. On four cells a byte that is no opcode is found
where both lines show it. -/
theorem stopped_line_of_load_at_end :
    let loading : Machine 256 :=
      { memory := (Memory.zero 256).overlay 0xFB [0x47, 0, 0x82, 1, 0x55], pc := 0xFB }
    let traced := "TRACE: FD | 00 82 01 55 | 00 00 00 00 00 00 00 00"
    let stopped := "TRACE: FD | 00 82 01 55 | 00 55 00 00 00 00 00 00"
    let lost : Machine 4 := { memory := ⟨#v[0x99, 0, 0, 0]⟩ }
    256 ≤ 256 ∧ 4 ≤ 256 ∧
    (∃ outcome, loading.RunsTo none outcome ∧ outcome.fault = some (.outOfBounds 0x100 256) ∧
      outcome.output = "0\n" ∧ outcome.machine.snapshot.line = stopped ∧
      ((Log.records (some .trace) outcome.log).filter
        fun record => record.level = .trace).getLast? = some ⟨.trace, "ls8::processor", traced⟩ ∧
      ∃ opcode, (Snapshot.ofLine traced).opcode = some opcode.byte ∧
        (Snapshot.ofLine traced).Computes opcode 1 0x55 (Snapshot.ofLine stopped)) ∧
    ∃ outcome, lost.RunsTo none outcome ∧ outcome.fault = some (.unknownOpcode 0x99 0) ∧
      ((Log.records (some .trace) outcome.log).filter
        fun record => record.level = .trace).getLast?.map Log.Record.message =
          some outcome.machine.snapshot.line ∧
      (Snapshot.ofLine outcome.machine.snapshot.line).opcode = some 0x99 := by
  intro loading traced stopped lost
  refine ⟨by decide, by decide, ?_, ?_⟩
  · obtain ⟨ended, faulted, printed, left, logged⟩ :
        (loading.run 2 none).ended = true ∧
          (loading.run 2 none).fault = some (.outOfBounds 0x100 256) ∧
          (loading.run 2 none).output = "0\n" ∧
          (loading.run 2 none).machine.snapshot.line = stopped ∧
          ((Log.records (some .trace) (loading.run 2 none).log).filter
            fun record => record.level = .trace).getLast? =
              some ⟨.trace, "ls8::processor", traced⟩ := by
      decide +kernel
    have runsTo : loading.RunsTo none (loading.run 2 none) := ⟨2, rfl, ended⟩
    obtain ⟨last, found, -, -, -, -, halfDone, -⟩ :=
      stopped_line_of_last_traced (by decide) loading none _ _ runsTo faulted
    rw [logged] at found
    cases found
    rw [left] at halfDone
    obtain ⟨pc_eq, operandA, operandB⟩ : (Snapshot.ofLine traced).pc = 0xFD ∧
        (Snapshot.ofLine traced).operandA = some 1 ∧
        (Snapshot.ofLine traced).operandB = some 0x55 := by
      decide +kernel
    obtain ⟨opcode, a, b, shown, shownA, shownB, computes⟩ := halfDone ⟨rfl, pc_eq, rfl⟩
    cases operandA.symm.trans shownA
    cases operandB.symm.trans shownB
    exact ⟨_, runsTo, faulted, printed, left, logged, opcode, shown, computes⟩
  · have runsTo : lost.RunsTo none (lost.run 1 none) := ⟨1, rfl, by decide⟩
    have faulted : (lost.run 1 none).fault = some (.unknownOpcode 0x99 0) := by decide
    obtain ⟨last, found, -, -, -, same, -, named⟩ :=
      stopped_line_of_last_traced (by decide) lost none _ _ runsTo faulted
    have unchanged := same fun half => absurd half.size_eq (by decide)
    refine ⟨_, runsTo, faulted, ?_, (named _ _ rfl).2⟩
    rw [found, unchanged]
    rfl

end Machine

end EightBit
