import EightBit.Proofs.Footprint

/-!
More memory. Cycles that succeed on a machine succeed in the same way on one that has further cells
behind the same memory. All they depend on and all they write lies in the smaller memory, so the
further cells are neither looked at nor changed. Only a fault can tell the two machines apart.
-/

namespace EightBit.Machine

variable {size other : Nat} {machine : Machine size} {memory : Memory other} {room : Room} {n : Nat}

/-- Where an instruction can be fetched, its line shows no cell that a larger memory adds. -/
theorem snapshot_withMemory {instruction : Instruction} (fetched : machine.fetch = .ok instruction)
    (agree : ∀ address < size, memory.cells[address]? = machine.memory.cells[address]?) :
    (machine.withMemory memory).snapshot = machine.snapshot := by
  have inside := inside_of_fetch fetched
  have opcode : memory.cells[machine.pc.toNat]? = machine.memory.cells[machine.pc.toNat]? :=
    agree _ (by omega)
  have operandA : memory.cells[machine.pc.toNat + 1]? = machine.memory.cells[machine.pc.toNat + 1]? :=
    agree _ (by omega)
  have operandB : memory.cells[machine.pc.toNat + 2]? = machine.memory.cells[machine.pc.toNat + 2]? :=
    agree _ inside
  simp only [snapshot, withMemory, opcode, operandA, operandB]

theorem snapshot_withMemory_of_passed (passed : (machine.cycle room).fault = none)
    (agree : ∀ address < size, memory.cells[address]? = machine.memory.cells[address]?) :
    (machine.withMemory memory).snapshot = machine.snapshot := by
  obtain ⟨instruction, fetched, -⟩ := exists_fetched_of_passed passed
  exact snapshot_withMemory fetched agree

theorem exists_cycles_of_larger (le : size ≤ other) (passed : (machine.cycles n room).fault = none)
    (agree : ∀ address < size, memory.cells[address]? = machine.memory.cells[address]?) :
    ∃ later, (machine.withMemory memory).cycles n room =
        (machine.cycles n room).withMemory later ∧
      (∀ address < size,
        later.cells[address]? = (machine.cycles n room).machine.memory.cells[address]?) ∧
      ∀ address, size ≤ address → later.cells[address]? = memory.cells[address]? := by
  obtain ⟨later, same, known, untouched⟩ := exists_cycles_withMemory le passed
    fun address among => agree address (lt_of_mem_consumedIn passed among)
  refine ⟨later, same, fun address inside => known address (.inl (agree address inside)), ?_⟩
  intro address behind
  apply untouched
  intro written
  exact absurd (lt_of_mem_writtenIn passed written) (Nat.not_lt.mpr behind)

/-- Cycles that succeed do not depend on how much memory lies behind theirs. With the same registers
and further cells behind the same memory as many cycles succeed, with the same output, the same log and
before each of them the same line, and after each of them all is the same in what the memories have in
common. The further cells never change. -/
theorem cycles_eq_of_larger_memory (small : Machine size) (large : Machine other) (room : Room)
    (n : Nat) (le : size ≤ other)
    (passed : (small.cycles n room).fault = none)
    (sameRegisters : large.toRegisters = small.toRegisters)
    (sameHalted : large.halted = small.halted)
    (agree : ∀ address < size,
      large.memory.cells[address]? = small.memory.cells[address]?) :
    ∀ k ≤ n,
      let known := small.cycles k room
      let reached := large.cycles k room
      reached.fault = none ∧ reached.output = known.output ∧ reached.room = known.room ∧
        reached.log = known.log ∧
        (k < n → reached.machine.snapshot.line = known.machine.snapshot.line) ∧
        reached.machine.toRegisters = known.machine.toRegisters ∧
        reached.machine.halted = known.machine.halted ∧
        (∀ address < size,
          reached.machine.memory.cells[address]? = known.machine.memory.cells[address]?) ∧
        ∀ address, size ≤ address →
          reached.machine.memory.cells[address]? = large.memory.cells[address]? := by
  intro k atMost known reached
  have passedSoFar := passed_of_le passed atMost
  obtain ⟨later, same, agreeLater, untouched⟩ := exists_cycles_of_larger le passedSoFar agree
  rw [← eq_withMemory sameRegisters sameHalted] at same
  have reached_eq : reached = known.withMemory later := same
  rw [reached_eq]
  refine ⟨passedSoFar, rfl, rfl, rfl, ?_, rfl, rfl, agreeLater, untouched⟩
  intro below
  have passedNext : (known.machine.cycle known.room).fault = none := passed_of_lt passed below
  exact congrArg Snapshot.line (snapshot_withMemory_of_passed passedNext agreeLater)

/-- A push that writes the last of six cells, and a halt, also run where two more cells follow. -/
theorem cycles_eq_of_larger_memory_push :
    let small : Machine 6 := { memory := ⟨#v[0x45, 0, 1, 0, 0, 0]⟩, sp := 6 }
    let large : Machine 8 := { memory := ⟨#v[0x45, 0, 1, 0, 0, 0, 0x45, 7]⟩, sp := 6 }
    6 ≤ 8 ∧ (small.cycles 2 none).fault = none ∧
      (large.cycles 2 none).fault = none ∧ (large.cycles 2 none).machine.halted = true ∧
      (large.cycles 2 none).machine.memory.cells[7]? = some 7 := by
  intro small large
  have le : 6 ≤ 8 := by decide
  have passed : (small.cycles 2 none).fault = none := by decide
  have agree : ∀ address < 6, large.memory.cells[address]? = small.memory.cells[address]? := by
    decide
  obtain ⟨passedToo, -, -, -, -, -, sameHalted, -, untouched⟩ :=
    cycles_eq_of_larger_memory small large none 2 le passed rfl rfl agree 2 (Nat.le_refl 2)
  refine ⟨le, passed, passedToo, sameHalted.trans ?_, (untouched 7 (by decide)).trans ?_⟩
  · decide
  · decide

end EightBit.Machine
