import EightBit.Proofs.Program

/-!
The footprint of a run: the bytes of memory that its instructions depend on, and the cells they
write. A machine with another memory, of the same size or a larger one, goes through the same cycles
if it has the same bytes where the run depends on them. What stands elsewhere makes no difference,
not even where it is fetched along with an instruction that has no use for it.
-/

namespace EightBit

variable {size other : Nat}

namespace Memory

/-- The memory with a byte put into it, or as it is if there is none to put. -/
def put (memory : Memory size) : Option (Nat × UInt8) → Except Fault (Memory size)
  | none => .ok memory
  | some (address, value) => memory.write address value

variable {first firstNext : Memory size} {second secondNext : Memory other}
  {store : Option (Nat × UInt8)} {address : Nat}

theorem exists_put_of_le (le : size ≤ other) (stored : first.put store = .ok firstNext)
    (second : Memory other) : ∃ secondNext, second.put store = .ok secondNext := by
  cases store with
  | none => exact ⟨second, rfl⟩
  | some byte =>
      obtain ⟨inside, -⟩ := write_eq_ok_iff.mp stored
      exact ⟨_, write_eq_ok_iff.mpr ⟨Nat.lt_of_lt_of_le inside le, rfl⟩⟩

theorem lt_of_put (stored : first.put store = .ok firstNext)
    (written : address ∈ store.map Prod.fst) : address < size := by
  obtain ⟨byte, rfl, rfl⟩ := Option.map_eq_some_iff.mp written
  exact (write_eq_ok_iff.mp stored).1

theorem getElem?_put_of_not_mem (stored : first.put store = .ok firstNext)
    (apart : address ∉ store.map Prod.fst) : firstNext.cells[address]? = first.cells[address]? := by
  cases store with
  | none =>
      cases stored
      rfl
  | some byte =>
      have elsewhere : address ≠ byte.1 := fun same => apart (by simp [same])
      rw [getElem?_write stored, if_neg elsewhere]

theorem getElem?_put_congr (firstStored : first.put store = .ok firstNext)
    (secondStored : second.put store = .ok secondNext)
    (known : second.cells[address]? = first.cells[address]? ∨ address ∈ store.map Prod.fst) :
    secondNext.cells[address]? = firstNext.cells[address]? := by
  by_cases written : address ∈ store.map Prod.fst
  · obtain ⟨byte, rfl, rfl⟩ := Option.map_eq_some_iff.mp written
    rw [getElem?_write firstStored, getElem?_write secondStored, if_pos rfl, if_pos rfl]
  · rw [getElem?_put_of_not_mem firstStored written, getElem?_put_of_not_mem secondStored written]
    exact known.resolve_right written

end Memory

namespace Instruction

def taken (instruction : Instruction) (registers : Registers) : List Nat :=
  match instruction with
  | pop _ | ret => [registers.sp.toNat]
  | _ => []

/-- The addresses of all bytes that an instruction depends on: its own, and the one it takes from
the stack. -/
def consumed (instruction : Instruction) (registers : Registers) : List Nat :=
  List.range' registers.pc.toNat instruction.length ++ instruction.taken registers

/-- The byte that an instruction puts into memory, and where: a push its register, a call the
address behind it. -/
def store? (instruction : Instruction) (registers : Registers) : Option (Nat × UInt8) :=
  match instruction with
  | push register =>
      registers.general[register.toNat]?.map fun value => ((registers.sp - 1).toNat, value)
  | call _ => some ((registers.sp - 1).toNat, registers.pc + 2)
  | _ => none

end Instruction

def Machine.withMemory (machine : Machine size) (memory : Memory other) : Machine other where
  toRegisters := machine.toRegisters
  memory := memory
  halted := machine.halted

def Effect.withMemory (effect : Effect size) (memory : Memory other) : Effect other where
  machine := effect.machine.withMemory memory
  executed := effect.executed
  printed := effect.printed
  target := effect.target

def Outcome.withMemory (outcome : Outcome size) (memory : Memory other) : Outcome other where
  machine := outcome.machine.withMemory memory
  room := outcome.room
  output := outcome.output
  log := outcome.log
  fault := outcome.fault

namespace Rule

variable {machine : Machine size} {instruction : Instruction} {effect : Effect size}

theorem put_store? (rule : Rule machine instruction effect) :
    machine.memory.put (instruction.store? machine.toRegisters) = .ok effect.machine.memory := by
  cases rule with
  | push named written =>
      rw [Instruction.store?, Registers.get_eq_ok_iff.mp named]
      exact written
  | call named written => exact written
  | _ => rfl

theorem lt_of_mem_taken {address : Nat} (rule : Rule machine instruction effect)
    (among : address ∈ instruction.taken machine.toRegisters) : address < size := by
  cases rule with
  | ret onTop | pop onTop _ =>
      cases List.mem_singleton.mp among
      exact (Vector.getElem?_eq_some_iff.mp (Memory.read_eq_ok_iff.mp onTop)).1
  | _ => cases among

/-- Of memory an effect only depends on the byte taken from the stack. -/
theorem withMemory {memory later : Memory other} (rule : Rule machine instruction effect)
    (agree : ∀ address ∈ instruction.taken machine.toRegisters,
      memory.cells[address]? = machine.memory.cells[address]?)
    (stored : memory.put (instruction.store? machine.toRegisters) = .ok later) :
    Rule (machine.withMemory memory) instruction (effect.withMemory later) := by
  cases rule with
  | push named written =>
      rw [Instruction.store?, Registers.get_eq_ok_iff.mp named] at stored
      exact .push named stored
  | call named written => exact .call named stored
  | ret onTop =>
      cases stored
      have same := agree _ (List.mem_singleton.mpr rfl)
      exact .ret (Memory.read_eq_ok_iff.mpr (same.trans (Memory.read_eq_ok_iff.mp onTop)))
  | pop onTop registers =>
      cases stored
      have same := agree _ (List.mem_singleton.mpr rfl)
      exact .pop (Memory.read_eq_ok_iff.mpr (same.trans (Memory.read_eq_ok_iff.mp onTop))) registers
  | hlt =>
      cases stored
      exact .hlt
  | prn named =>
      cases stored
      exact .prn named
  | jmp named =>
      cases stored
      exact .jmp named
  | jeq named =>
      cases stored
      exact .jeq named
  | jne named =>
      cases stored
      exact .jne named
  | ldi registers =>
      cases stored
      exact .ldi registers
  | alu applied =>
      cases stored
      exact .alu applied

end Rule

theorem Instruction.execute_withMemory {machine : Machine size} {instruction : Instruction}
    {room : Room} {memory later : Memory other}
    (passed : (instruction.execute machine room).fault = none)
    (agree : ∀ address ∈ instruction.taken machine.toRegisters,
      memory.cells[address]? = machine.memory.cells[address]?)
    (stored : memory.put (instruction.store? machine.toRegisters) = .ok later) :
    instruction.execute (machine.withMemory memory) room =
      (instruction.execute machine room).withMemory later := by
  obtain ⟨effect, next, rule, complete, wentOn⟩ := exists_rule_of_passed passed
  have wentOnToo : (effect.withMemory later).goOn instruction.length =
      .ok (next.withMemory later) := by
    obtain ⟨pc, rfl, moved⟩ := Effect.goOn_eq_ok_iff.mp wentOn
    exact Effect.goOn_eq_ok_iff.mpr ⟨pc, rfl, moved⟩
  rw [execute_of_rule rule complete wentOn,
    execute_of_rule (rule.withMemory agree stored) complete wentOnToo]
  rfl

namespace Machine

variable {machine : Machine size} {memory : Memory other} {room : Room} {n : Nat}

def consumed (machine : Machine size) : List Nat :=
  match machine.fetch with
  | .ok instruction => instruction.consumed machine.toRegisters
  | .error _ => []

def store? (machine : Machine size) : Option (Nat × UInt8) :=
  match machine.fetch with
  | .ok instruction => instruction.store? machine.toRegisters
  | .error _ => none

/-- The addresses of the bytes that the first `n` cycles depend on. -/
def consumedIn (machine : Machine size) (room : Room) (n : Nat) : List Nat :=
  (List.range n).flatMap fun k => (machine.cycles k room).machine.consumed

/-- The addresses that pushes and calls write in the first `n` cycles. -/
def writtenIn (machine : Machine size) (room : Room) (n : Nat) : List Nat :=
  (List.range n).flatMap fun k =>
    ((machine.cycles k room).machine.store?.map Prod.fst).toList

theorem consumedIn_succ (machine : Machine size) (room : Room) (n : Nat) :
    machine.consumedIn room (n + 1) =
      machine.consumedIn room n ++ (machine.cycles n room).machine.consumed := by
  simp [consumedIn, List.range_succ]

theorem consumedIn_subset {k : Nat} (atMost : k ≤ n) :
    machine.consumedIn room k ⊆ machine.consumedIn room n := by
  intro address among
  obtain ⟨j, below, consumed⟩ := List.mem_flatMap.mp among
  have within : j < n := Nat.lt_of_lt_of_le (List.mem_range.mp below) atMost
  exact List.mem_flatMap.mpr ⟨j, List.mem_range.mpr within, consumed⟩

theorem mem_writtenIn_succ {address : Nat} :
    address ∈ machine.writtenIn room (n + 1) ↔
      address ∈ machine.writtenIn room n ∨
        address ∈ (machine.cycles n room).machine.store?.map Prod.fst := by
  simp [writtenIn, List.range_succ]

theorem put_store? (passed : (machine.cycle room).fault = none) :
    machine.memory.put machine.store? = .ok (machine.cycle room).machine.memory := by
  obtain ⟨instruction, effect, pc, fetched, rule, -, reached⟩ := exists_outcome_of_passed passed
  rw [reached, store?, fetched]
  exact rule.put_store?

theorem lt_of_mem_consumed (passed : (machine.cycle room).fault = none) {address : Nat}
    (among : address ∈ machine.consumed) : address < size := by
  obtain ⟨instruction, effect, pc, fetched, rule, -, -⟩ := exists_outcome_of_passed passed
  simp only [consumed, fetched, Instruction.consumed, List.mem_append, List.mem_range'_1] at among
  rcases among with ⟨-, own⟩ | taken
  · have inside := inside_of_fetch fetched
    have atMost : instruction.length ≤ 3 := instruction.opcode.length_le
    omega
  · exact rule.lt_of_mem_taken taken

theorem fetch_withMemory {instruction : Instruction} (le : size ≤ other)
    (fetched : machine.fetch = .ok instruction)
    (agree : ∀ address ∈ List.range' machine.pc.toNat instruction.length,
      memory.cells[address]? = machine.memory.cells[address]?) :
    (machine.withMemory memory).fetch = .ok instruction := by
  apply fetch_of_holds
  · intro i inside
    have own : machine.pc.toNat + i ∈ List.range' machine.pc.toNat instruction.length := by
      rw [instruction.length_encode] at inside
      rw [List.mem_range'_1]
      omega
    exact (agree _ own).trans (holds_of_fetch fetched i inside)
  · have inside := inside_of_fetch fetched
    exact Nat.lt_of_lt_of_le inside le

/-- A cycle goes the same way with any memory that has the bytes it depends on. -/
theorem exists_cycle_withMemory (le : size ≤ other) (passed : (machine.cycle room).fault = none)
    (agree : ∀ address ∈ machine.consumed,
      memory.cells[address]? = machine.memory.cells[address]?) :
    ∃ later, memory.put machine.store? = .ok later ∧
      (machine.withMemory memory).cycle room = (machine.cycle room).withMemory later := by
  obtain ⟨later, stored⟩ := Memory.exists_put_of_le le (put_store? passed) memory
  refine ⟨later, stored, ?_⟩
  obtain ⟨instruction, fetched, passed⟩ := exists_fetched_of_passed passed
  rw [store?, fetched] at stored
  rw [consumed, fetched] at agree
  obtain ⟨own, taken⟩ := List.forall_mem_append.mp agree
  rw [cycle_of_fetch fetched, cycle_of_fetch (fetch_withMemory le fetched own)]
  exact Instruction.execute_withMemory passed taken stored

theorem lt_of_mem_writtenIn (passed : (machine.cycles n room).fault = none) {address : Nat}
    (among : address ∈ machine.writtenIn room n) : address < size := by
  obtain ⟨k, below, written⟩ := List.mem_flatMap.mp among
  have stored := put_store? (passed_of_lt passed (List.mem_range.mp below))
  exact Memory.lt_of_put stored (Option.mem_toList.mp written)

theorem lt_of_mem_consumedIn (passed : (machine.cycles n room).fault = none) {address : Nat}
    (among : address ∈ machine.consumedIn room n) : address < size := by
  obtain ⟨k, below, consumed⟩ := List.mem_flatMap.mp among
  exact lt_of_mem_consumed (passed_of_lt passed (List.mem_range.mp below)) consumed

/-- Cycles go the same way with any memory that has the bytes they depend on. Both memories change
in the same cells, and to the same bytes. -/
theorem exists_cycles_withMemory (le : size ≤ other)
    (passed : (machine.cycles n room).fault = none)
    (agree : ∀ address ∈ machine.consumedIn room n,
      memory.cells[address]? = machine.memory.cells[address]?) :
    ∃ later, (machine.withMemory memory).cycles n room =
        (machine.cycles n room).withMemory later ∧
      (∀ address, memory.cells[address]? = machine.memory.cells[address]? ∨
          address ∈ machine.writtenIn room n →
        later.cells[address]? = (machine.cycles n room).machine.memory.cells[address]?) ∧
      ∀ address, address ∉ machine.writtenIn room n →
        later.cells[address]? = memory.cells[address]? := by
  induction n with
  | zero =>
      refine ⟨memory, rfl, fun address known => ?_, fun _ _ => rfl⟩
      exact known.resolve_right (by simp [writtenIn])
  | succ n inductionHypothesis =>
      obtain ⟨before, last⟩ := passed_of_succ passed
      rw [consumedIn_succ] at agree
      obtain ⟨agreeBefore, agreeLast⟩ := List.forall_mem_append.mp agree
      obtain ⟨later, same, known, untouched⟩ := inductionHypothesis before agreeBefore
      -- The bytes that the last cycle depends on have agreed from the start, so they still do.
      obtain ⟨latest, stored, sameLast⟩ := exists_cycle_withMemory le last
        fun address among => known address (.inl (agreeLast address among))
      refine ⟨latest, ?_, ?_, ?_⟩
      · have passedToo : ((machine.withMemory memory).cycles n room).fault = none := by
          rw [same]
          exact before
        rw [cycles_succ_of_passed before, cycles_succ_of_passed passedToo, cycleAfter, same]
        exact congrArg (fun outcome : Outcome other => { outcome with
          output := (machine.cycles n room).output ++ outcome.output
          log := (machine.cycles n room).log ++ outcome.log }) sameLast
      · intro address knownFirst
        rw [mem_writtenIn_succ, ← or_assoc] at knownFirst
        rw [cycles_succ_of_passed before]
        exact Memory.getElem?_put_congr (put_store? last) stored
          (knownFirst.imp_left (known address))
      · intro address apart
        rw [mem_writtenIn_succ, not_or] at apart
        rw [Memory.getElem?_put_of_not_mem stored apart.2, untouched address apart.1]

theorem eq_withMemory {first : Machine size} {second : Machine other}
    (sameRegisters : second.toRegisters = first.toRegisters)
    (sameHalted : second.halted = first.halted) : second = first.withMemory second.memory := by
  rw [withMemory, ← sameRegisters, ← sameHalted]

/-- Cells that the instructions of a run neither consist of nor take from the stack make no difference
to it. On machines that differ in such cells only, as many cycles succeed, with the same output and
the same log, and after each of them all but the memories is the same. The memories agree where they
did at the start and wherever a push or a call has written. -/
theorem cycles_eq_of_agree_on_consumed (first second : Machine size) (room : Room) (n : Nat)
    (passed : (first.cycles n room).fault = none)
    (sameRegisters : second.toRegisters = first.toRegisters)
    (sameHalted : second.halted = first.halted)
    (agree : ∀ address ∈ first.consumedIn room n,
      second.memory.cells[address]? = first.memory.cells[address]?) :
    ∀ k ≤ n,
      let known := first.cycles k room
      let reached := second.cycles k room
      reached.fault = none ∧ reached.output = known.output ∧ reached.room = known.room ∧
        reached.log = known.log ∧
        reached.machine.toRegisters = known.machine.toRegisters ∧
        reached.machine.halted = known.machine.halted ∧
        ∀ address, second.memory.cells[address]? = first.memory.cells[address]? ∨
            address ∈ first.writtenIn room k →
          reached.machine.memory.cells[address]? = known.machine.memory.cells[address]? := by
  intro k atMost known reached
  have passedSoFar := passed_of_le passed atMost
  have agreeSoFar : ∀ address ∈ first.consumedIn room k,
      second.memory.cells[address]? = first.memory.cells[address]? :=
    fun address among => agree address (consumedIn_subset atMost among)
  obtain ⟨later, same, agreeLater, -⟩ :=
    exists_cycles_withMemory (Nat.le_refl size) passedSoFar agreeSoFar
  rw [← eq_withMemory sameRegisters sameHalted] at same
  have reached_eq : reached = known.withMemory later := same
  rw [reached_eq]
  exact ⟨passedSoFar, rfl, rfl, rfl, rfl, rfl, agreeLater⟩

/-- A number is printed and then pushed, and is the halt executed next. The three bytes behind it are
fetched, two of them with the halt, and differ. -/
theorem cycles_eq_of_agree_on_consumed_pushed_halt :
    let first : Machine 8 :=
      { memory := ⟨#v[0x47, 0, 0x45, 0, 0, 1, 2, 3]⟩, general := #v[1, 0, 0, 0, 0, 0, 0, 0], sp := 5 }
    let second : Machine 8 := { first with memory := ⟨#v[0x47, 0, 0x45, 0, 0, 4, 5, 6]⟩ }
    (first.cycles 3 none).fault = none ∧
      first.consumedIn none 3 = [0, 1, 2, 3, 4] ∧ first.writtenIn none 3 = [4] ∧
      (second.cycles 3 none).fault = none ∧ (second.cycles 3 none).output = "1\n" ∧
      (second.cycles 3 none).machine.halted = true ∧
      (second.cycles 3 none).machine.memory.cells[4]? = some Opcode.hlt.byte := by
  intro first second
  have passed : (first.cycles 3 none).fault = none := by decide
  have consumed : first.consumedIn none 3 = [0, 1, 2, 3, 4] := by decide
  have written : first.writtenIn none 3 = [4] := by decide
  have agree : ∀ address ∈ first.consumedIn none 3,
      second.memory.cells[address]? = first.memory.cells[address]? := by
    rw [consumed]
    decide
  obtain ⟨passedToo, sameOutput, -, -, -, sameHalted, agreeLater⟩ :=
    cycles_eq_of_agree_on_consumed first second none 3 passed rfl rfl agree 3 (Nat.le_refl 3)
  refine ⟨passed, consumed, written, passedToo, sameOutput.trans ?_, sameHalted.trans ?_, ?_⟩
  · decide
  · decide
  · rw [agreeLater 4 (.inr (by rw [written]; decide))]
    decide

end Machine

end EightBit
