import EightBit.Proofs.Run

/-!
Programs without jumps. Such a program stands in memory as the bytes of its instructions, one after
another, and a halt behind them. Running it from there is executing its instructions in order, as
long as no push writes over bytes that are still to be fetched.
-/

namespace EightBit

variable {size : Nat}

namespace Memory

/-- Memory has `bytes` from `address` on. -/
def Holds (memory : Memory size) (address : Nat) (bytes : List UInt8) : Prop :=
  ∀ i < bytes.length, memory.cells[address + i]? = bytes[i]?

variable {memory next : Memory size} {address cell : Nat} {value : UInt8}
  {bytes first second : List UInt8}

theorem holds_overlay (memory : Memory size) (fits : address + bytes.length ≤ size) :
    (memory.overlay address bytes).Holds address bytes := by
  intro i inside
  have hasCell : address + i < size := by omega
  exact memory.getElem?_overlay_of_covered hasCell inside

theorem Holds.left (holds : memory.Holds address (first ++ second)) :
    memory.Holds address first := by
  intro i inside
  have within : i < (first ++ second).length := by
    rw [List.length_append]
    omega
  rw [holds i within, List.getElem?_append_left inside]

theorem Holds.right (holds : memory.Holds address (first ++ second)) :
    memory.Holds (address + first.length) second := by
  intro i inside
  have within : first.length + i < (first ++ second).length := by
    rw [List.length_append]
    omega
  rw [Nat.add_assoc, holds _ within, List.getElem?_append_right (Nat.le_add_right _ i),
    Nat.add_sub_cancel_left]

theorem Holds.of_write (holds : memory.Holds address bytes)
    (written : memory.write cell value = .ok next)
    (outside : cell < address ∨ address + bytes.length ≤ cell) : next.Holds address bytes := by
  intro i inside
  have apart : address + i ≠ cell := by omega
  rw [getElem?_write written, if_neg apart, holds i inside]

end Memory

namespace Instruction

/-- True of the instructions that compute, print or use the stack; they go on to the address behind
them. -/
def isStraight : Instruction → Bool
  | push _ | pop _ | prn _ | ldi _ _ | alu _ _ _ => true
  | _ => false

theorem instruction_opcode {instruction : Instruction} {a b : UInt8}
    (first : ∀ byte ∈ instruction.operands[0]?, byte = a)
    (second : ∀ byte ∈ instruction.operands[1]?, byte = b) :
    instruction.opcode.instruction a b = instruction := by
  cases instruction with
  | alu operation x y =>
      cases first x rfl
      cases second y rfl
      cases operation <;> rfl
  | ldi x y =>
      cases first x rfl
      cases second y rfl
      rfl
  | hlt | ret => rfl
  | push x | pop x | prn x | call x | jmp x | jeq x | jne x =>
      cases first x rfl
      rfl

end Instruction

theorem Machine.fetch_of_holds {machine : Machine size} {instruction : Instruction}
    (holds : machine.memory.Holds machine.pc.toNat instruction.encode)
    (inside : machine.pc.toNat + 2 < size) : machine.fetch = .ok instruction := by
  obtain ⟨a, cellA⟩ : ∃ a, machine.memory.cells[machine.pc.toNat + 1]? = some a :=
    ⟨_, Vector.getElem?_eq_getElem (by omega)⟩
  obtain ⟨b, cellB⟩ : ∃ b, machine.memory.cells[machine.pc.toNat + 2]? = some b :=
    ⟨_, Vector.getElem?_eq_getElem inside⟩
  have operand : ∀ i byte, byte ∈ instruction.operands[i]? →
      machine.memory.cells[machine.pc.toNat + (i + 1)]? = some byte := by
    intro i byte found
    have within : i < instruction.operands.length := (List.getElem?_eq_some_iff.mp found).1
    rw [holds (i + 1) (Nat.succ_lt_succ within)]
    exact found
  refine fetch_eq_ok_iff.mpr ⟨instruction.opcode, a, b, ?_, cellA, cellB, ?_⟩
  · exact holds 0 (Nat.zero_lt_succ _)
  · apply Instruction.instruction_opcode
    · intro byte found
      exact Option.some.inj ((operand 0 byte found).symm.trans cellA)
    · intro byte found
      exact Option.some.inj ((operand 1 byte found).symm.trans cellB)

theorem Opcode.operands_instruction (opcode : Opcode) (a b : UInt8) :
    (opcode.instruction a b).operands = [a, b].take opcode.operandCount := by
  cases opcode <;> rfl

theorem Machine.holds_of_fetch {machine : Machine size} {instruction : Instruction}
    (fetched : machine.fetch = .ok instruction) :
    machine.memory.Holds machine.pc.toNat instruction.encode := by
  obtain ⟨opcode, a, b, atPc, cellA, cellB, rfl⟩ := fetch_eq_ok_iff.mp fetched
  have whole : machine.memory.Holds machine.pc.toNat [opcode.byte, a, b] := by
    intro i inside
    match i with
    | 0 => exact atPc
    | 1 => exact cellA
    | 2 => exact cellB
  have split : [opcode.byte, a, b] =
      (opcode.instruction a b).encode ++ [a, b].drop opcode.operandCount := by
    rw [Instruction.encode, Opcode.opcode_instruction, Opcode.operands_instruction,
      List.cons_append, List.take_append_drop]
  rw [split] at whole
  exact whole.left

namespace Program

def bytes (program : List Instruction) : List UInt8 :=
  program.flatMap Instruction.encode

/-- Executes the instructions of a program one after another, up to the first fault. -/
def execute : List Instruction → Machine size → Room → Outcome size
  | [], machine, room => { machine, room }
  | instruction :: rest, machine, room => (instruction.execute machine room).andThen (execute rest)

/-- No push that the program carries out writes to an address from `first` to `last`. -/
def PushesOutside (first last : Nat) : List Instruction → Machine size → Room → Prop
  | [], _, _ => True
  | instruction :: rest, machine, room =>
      let outcome := instruction.execute machine room
      let address := (machine.sp - 1).toNat
      outcome.fault = none →
        (instruction.opcode = .push → address < first ∨ last < address) ∧
          PushesOutside first last rest outcome.machine outcome.room

instance decidablePushesOutside (first last : Nat) :
    ∀ (program : List Instruction) (machine : Machine size) (room : Room),
      Decidable (PushesOutside first last program machine room)
  | [], _, _ => isTrue trivial
  | instruction :: rest, machine, room =>
      have := decidablePushesOutside first last rest (instruction.execute machine room).machine
        (instruction.execute machine room).room
      inferInstanceAs (Decidable (_ → _ ∧ _))

end Program

/-- What a running machine needs to carry out the rest of a program, behind which a halt stands at
`last`. -/
structure Machine.Ready (first last : Nat) (program : List Instruction) (machine : Machine size) :
    Prop where
  running : machine.halted = false
  holds : machine.memory.Holds machine.pc.toNat (Program.bytes program ++ [Opcode.hlt.byte])
  first_le : first ≤ machine.pc.toNat
  last_eq : machine.pc.toNat + (Program.bytes program).length = last
  inside : last + 2 < size
  byte : last < 255

/-- The effect of an instruction that computes, prints or uses the stack: of the memory it changes at
most the cell that a push writes. -/
theorem Rule.of_straight {machine : Machine size} {instruction : Instruction}
    {effect : Effect size} (rule : Rule machine instruction effect)
    (straight : instruction.isStraight = true) :
    effect.target = none ∧ effect.machine.halted = machine.halted ∧
      (effect.machine.memory = machine.memory ∨
        instruction.opcode = .push ∧ ∃ value,
          machine.memory.write (machine.sp - 1).toNat value = .ok effect.machine.memory) := by
  cases rule with
  | push named written => exact ⟨rfl, rfl, .inr ⟨rfl, _, written⟩⟩
  | pop onTop stored => exact ⟨rfl, rfl, .inl rfl⟩
  | prn named => exact ⟨rfl, rfl, .inl rfl⟩
  | ldi stored => exact ⟨rfl, rfl, .inl rfl⟩
  | alu applied => exact ⟨rfl, rfl, .inl rfl⟩
  | _ => cases straight

namespace Machine.Ready

variable {first last : Nat} {instruction : Instruction} {rest : List Instruction}
  {machine : Machine size} {room : Room}

theorem fetch_eq (ready : machine.Ready first last (instruction :: rest)) :
    machine.fetch = .ok instruction := by
  have holds : machine.memory.Holds machine.pc.toNat
      (instruction.encode ++ (Program.bytes rest ++ [Opcode.hlt.byte])) := by
    rw [← List.append_assoc]
    exact ready.holds
  have inside := ready.inside
  have last_eq := ready.last_eq
  exact fetch_of_holds holds.left (by omega)

theorem fetch_eq_hlt (ready : machine.Ready first last []) : machine.fetch = .ok .hlt := by
  have inside := ready.inside
  have last_eq := ready.last_eq
  exact fetch_of_holds ready.holds (by omega)

/-- A machine that has carried out an instruction is ready for the ones behind it. -/
theorem next (ready : machine.Ready first last (instruction :: rest))
    (straight : instruction.isStraight = true)
    (passed : (instruction.execute machine room).fault = none)
    (outside : instruction.opcode = .push →
      (machine.sp - 1).toNat < first ∨ last < (machine.sp - 1).toNat) :
    (instruction.execute machine room).machine.Ready first last rest := by
  obtain ⟨effect, pc, rule, -, moved, reached⟩ := Instruction.exists_outcome_of_passed passed
  rw [reached]
  obtain ⟨falls, sameHalted, change⟩ := rule.of_straight straight
  rcases moved with jumped | ⟨-, behind⟩
  · rw [falls] at jumped
    cases jumped
  · rw [← instruction.length_encode] at behind
    have first_le := ready.first_le
    have last_eq : machine.pc.toNat +
        (instruction.encode.length + (Program.bytes rest).length) = last := by
      rw [← List.length_append]
      exact ready.last_eq
    have holds : machine.memory.Holds pc.toNat (Program.bytes rest ++ [Opcode.hlt.byte]) := by
      rw [behind]
      apply Memory.Holds.right
      rw [← List.append_assoc]
      exact ready.holds
    refine ⟨sameHalted.trans ready.running, ?_, ?_, ?_, ready.inside, ready.byte⟩
    · rcases change with same | ⟨isPush, value, written⟩
      · rw [same]
        exact holds
      · refine holds.of_write written ((outside isPush).imp ?_ ?_)
        · intro before
          show (machine.sp - 1).toNat < pc.toNat
          omega
        · intro farther
          show pc.toNat + (Program.bytes rest ++ [Opcode.hlt.byte]).length ≤ (machine.sp - 1).toNat
          rw [List.length_append, List.length_singleton]
          omega
    · show first ≤ pc.toNat
      omega
    · show pc.toNat + (Program.bytes rest).length = last
      omega

/-- Cycle by cycle a machine that is ready executes the instructions in order, and stays ready for
those that are left. -/
theorem cycles_eq_execute {program : List Instruction}
    (ready : machine.Ready first last program)
    (straight : ∀ instruction ∈ program, instruction.isStraight = true)
    (outside : Program.PushesOutside first last program machine room)
    {n : Nat} (atMost : n ≤ program.length) :
    machine.cycles n room = Program.execute (program.take n) machine room ∧
      ((machine.cycles n room).fault = none →
        (machine.cycles n room).machine.Ready first last (program.drop n)) := by
  induction program generalizing machine room n with
  | nil =>
      cases Nat.le_zero.mp atMost
      exact ⟨rfl, fun _ => ready⟩
  | cons instruction rest inductionHypothesis =>
      cases n with
      | zero => exact ⟨rfl, fun _ => ready⟩
      | succ n =>
          have fetched : machine.cycle room = instruction.execute machine room :=
            cycle_of_fetch ready.fetch_eq
          rw [cycles, fetched, List.take_succ_cons, Program.execute, List.drop_succ_cons]
          cases passed : (instruction.execute machine room).fault with
          | some fault =>
              have faulted : (instruction.execute machine room).fault.isSome := by simp [passed]
              rw [Outcome.andThen_of_fault faulted, Outcome.andThen_of_fault faulted]
              exact ⟨rfl, fun impossible => by rw [passed] at impossible; cases impossible⟩
          | none =>
              obtain ⟨outsideHere, outsideRest⟩ := outside passed
              have readyRest :=
                ready.next (straight instruction List.mem_cons_self) passed outsideHere
              obtain ⟨same, stillReady⟩ := inductionHypothesis readyRest
                (fun other among => straight other (List.mem_cons_of_mem _ among)) outsideRest
                (Nat.le_of_succ_le_succ atMost)
              rw [Outcome.andThen_of_no_fault passed, Outcome.andThen_of_no_fault passed, same]
              exact ⟨rfl, fun passedRest => same ▸ stillReady (same ▸ passedRest)⟩

theorem cycle_eq_halt (ready : machine.Ready first last []) :
    machine.cycle room =
      { machine := { machine with halted := true, pc := UInt8.ofNat (last + 1) }
        room
        log := [.executed .hlt] } := by
  have last_eq : machine.pc.toNat = last := ready.last_eq
  have byte : last + 1 < 256 := Nat.succ_lt_succ ready.byte
  have wentOn : Effect.goOn { machine := { machine with halted := true }, executed := .hlt }
      Instruction.hlt.length =
        .ok { machine with halted := true, pc := UInt8.ofNat (last + 1) } := by
    refine Effect.goOn_eq_ok_iff.mpr ⟨UInt8.ofNat (last + 1), rfl, .inr ⟨rfl, ?_⟩⟩
    rw [UInt8.toNat_ofNat_of_lt' byte, ← last_eq]
    rfl
  rw [cycle_of_fetch ready.fetch_eq_hlt,
    Instruction.execute_of_rule .hlt (by simp [Effect.text]) wentOn]
  simp [Effect.text]

section

variable {program : List Instruction} (ready : machine.Ready first last program)
  (straight : ∀ instruction ∈ program, instruction.isStraight = true)
  (outside : Program.PushesOutside first last program machine room)

include ready straight outside

theorem cycles_length_eq_execute :
    machine.cycles program.length room = Program.execute program machine room := by
  have same := (ready.cycles_eq_execute straight outside (Nat.le_refl program.length)).1
  rwa [List.take_length] at same

theorem running_of_passed {n : Nat} (atMost : n ≤ program.length)
    (passed : (machine.cycles n room).fault = none) :
    (machine.cycles n room).machine.halted = false :=
  ((ready.cycles_eq_execute straight outside atMost).2 passed).running

theorem exists_faultsAt_of_execute {fault : Fault}
    (faulted : (Program.execute program machine room).fault = some fault) :
    ∃ n, machine.FaultsAt room n fault ∧
      machine.cycles (n + 1) room = Program.execute program machine room := by
  have same := cycles_length_eq_execute ready straight outside
  rw [← same] at faulted
  obtain ⟨n, faults, last⟩ := exists_faultsAt faulted fun k below passed =>
    running_of_passed ready straight outside (Nat.le_of_lt below) passed
  exact ⟨n, faults, last.symm.trans same⟩

theorem cycles_succ_length_of_execute
    (passed : (Program.execute program machine room).fault = none) :
    machine.cycles (program.length + 1) room =
      { Program.execute program machine room with
        machine := { (Program.execute program machine room).machine with
          halted := true, pc := UInt8.ofNat (last + 1) }
        log := (Program.execute program machine room).log ++ [.executed .hlt] } := by
  have same := cycles_length_eq_execute ready straight outside
  have readyToHalt := (ready.cycles_eq_execute straight outside (Nat.le_refl program.length)).2
  rw [List.drop_length, same] at readyToHalt
  rw [← same] at passed
  rw [cycles_succ_of_passed passed, cycleAfter, same, (readyToHalt (same ▸ passed)).cycle_eq_halt]
  simp [← same, passed]

theorem haltsAt_of_execute (passed : (Program.execute program machine room).fault = none) :
    machine.HaltsAt room (program.length + 1) := by
  have halted := cycles_succ_length_of_execute ready straight outside passed
  refine ⟨?_, ?_, ?_⟩
  · rw [halted]
    exact passed
  · intro k below
    have atMost : k ≤ program.length := Nat.le_of_lt_succ below
    rw [← cycles_length_eq_execute ready straight outside] at passed
    exact running_of_passed ready straight outside atMost (passed_of_le passed atMost)
  · rw [halted]

end

end Machine.Ready

namespace Program

variable {program : List Instruction}

theorem ready_of_overlay {machine : Machine size} {base : UInt8}
    (running : machine.halted = false)
    (inside : base.toNat + (bytes program).length + 2 < size)
    (byte : base.toNat + (bytes program).length + 1 ≤ 255) :
    Machine.Ready base.toNat (base.toNat + (bytes program).length) program
      { machine with
        memory := machine.memory.overlay base.toNat (bytes program ++ [Opcode.hlt.byte])
        pc := base } where
  running := running
  holds := by
    apply Memory.holds_overlay
    rw [List.length_append, List.length_singleton]
    omega
  first_le := Nat.le_refl _
  last_eq := rfl
  inside := inside
  byte := byte

/-- A program without jumps is put into memory with a halt behind it. If none of its pushes reaches
these bytes, a run ends as the execution of its instructions in order does: with the same fault, or
else halted behind the program after one cycle for each instruction and one for the halt. -/
theorem run_eq_execute (machine : Machine size) (room : Room) (base : UInt8)
    (program : List Instruction)
    (straight : ∀ instruction ∈ program, instruction.isStraight = true)
    (running : machine.halted = false)
    (inside : base.toNat + (bytes program).length + 2 < size)
    (byte : base.toNat + (bytes program).length + 1 ≤ 255) :
    ∃ memory, machine.memory.writeBlock base.toNat (bytes program ++ [Opcode.hlt.byte]) =
        .ok memory ∧
      let start : Machine size := { machine with memory, pc := base }
      let last := base.toNat + (bytes program).length
      let folded := execute program start room
      PushesOutside base.toNat last program start room →
        (∀ fault, folded.fault = some fault → ∃ outcome, start.RunsTo room outcome ∧
          outcome.fault = some fault ∧ outcome.machine = folded.machine ∧
          outcome.room = folded.room ∧ outcome.output = folded.output ∧
          Log.records (some .debug) outcome.log = Log.records (some .debug) folded.log) ∧
        (folded.fault = none → start.HaltsAt room (program.length + 1) ∧
          ∃ outcome, start.RunsTo room outcome ∧
            outcome.fault = none ∧
            outcome.machine =
              { folded.machine with halted := true, pc := UInt8.ofNat (last + 1) } ∧
            outcome.room = folded.room ∧ outcome.output = folded.output ∧
            Log.records (some .debug) outcome.log =
              Log.records (some .debug) folded.log ++
                [⟨.debug, "ls8::processor", "HLT"⟩, ⟨.info, "ls8::processor",
                  "Program halted at 0x" ++ Text.hex (last + 1)⟩]) := by
  have fits : base.toNat + (bytes program ++ [Opcode.hlt.byte]).length ≤ size := by
    rw [List.length_append, List.length_singleton]
    omega
  refine ⟨machine.memory.overlay base.toNat (bytes program ++ [Opcode.hlt.byte]),
    Memory.writeBlock_eq_ok_iff.mpr ⟨fits, rfl⟩, ?_⟩
  intro start last folded outside
  have ready : start.Ready base.toNat last program := ready_of_overlay running inside byte
  constructor
  · intro fault faulted
    obtain ⟨n, faults, same⟩ := ready.exists_faultsAt_of_execute straight outside faulted
    refine ⟨_, faults.runsTo, ?_⟩
    rw [faults.records_debug, faults.outcome_eq, same]
    exact ⟨faulted, rfl, rfl, rfl, rfl⟩
  · intro passed
    have halts := ready.haltsAt_of_execute straight outside passed
    have reached := ready.cycles_succ_length_of_execute straight outside passed
    have last_byte : (UInt8.ofNat (last + 1)).toNat = last + 1 :=
      UInt8.toNat_ofNat_of_lt' (Nat.lt_succ_of_le byte)
    refine ⟨halts, _, halts.runsTo, ?_⟩
    rw [halts.records_debug, halts.outcome_eq, reached, Log.records_append, last_byte,
      List.append_assoc]
    exact ⟨passed, rfl, rfl, rfl, rfl⟩

/-- A number goes through the stack, whose cells lie behind the program. -/
theorem run_eq_execute_push_pop :
    let machine : Machine 32 := { memory := .zero 32, sp := 20 }
    let base : UInt8 := 3
    let program : List Instruction := [.ldi 0 200, .push 0, .pop 1, .prn 1]
    let last := base.toNat + (bytes program).length
    (∀ instruction ∈ program, instruction.isStraight = true) ∧ machine.halted = false ∧
      last + 2 < 32 ∧ last + 1 ≤ 255 ∧
      ∃ memory, machine.memory.writeBlock base.toNat (bytes program ++ [Opcode.hlt.byte]) =
          .ok memory ∧
        let start : Machine 32 := { machine with memory, pc := base }
        PushesOutside base.toNat last program start none ∧
          (execute program start none).fault = none ∧ start.HaltsAt none 5 ∧
          ∃ outcome, start.RunsTo none outcome ∧ outcome.output = "200\n" := by
  intro machine base program last
  have straight : ∀ instruction ∈ program, instruction.isStraight = true := by decide
  have inside : last + 2 < 32 := by decide
  have byte : last + 1 ≤ 255 := by decide
  obtain ⟨memory, written, runs⟩ :=
    run_eq_execute machine none base program straight rfl inside byte
  have laid := (Memory.writeBlock_eq_ok_iff.mp written).2
  refine ⟨straight, rfl, inside, byte, memory, written, ?_⟩
  subst laid
  intro start
  have outside : PushesOutside base.toNat last program start none := by decide +kernel
  have passed : (execute program start none).fault = none := by decide +kernel
  obtain ⟨halts, outcome, runsTo, -, -, -, sameOutput, -⟩ := (runs outside).2 passed
  have printed : (execute program start none).output = "200\n" := by decide +kernel
  exact ⟨outside, passed, halts, outcome, runsTo, sameOutput.trans printed⟩

end Program

end EightBit
