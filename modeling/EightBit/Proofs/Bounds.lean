import EightBit.Proofs.Failure
import EightBit.Proofs.Image
import EightBit.Proofs.Run

/-!
Which addresses are reported as missing. Whatever reads or writes memory only names addresses that
the memory does not have. Going on to the next instruction is different: the program counter ends
with the last byte and not with the last cell. So in a memory of more than 256 cells an instruction
that cannot go on reports an address that is there, and this is the only report that is not true.
-/

namespace EightBit

variable {size : Nat}

/-- No address is reported as missing but from a memory of `size` cells, which does not have it. -/
def Truthful (size : Nat) (fault : Option Fault) : Prop :=
  ∀ address limit, fault = some (.outOfBounds address limit) → limit = size ∧ size ≤ address

theorem truthful_none : Truthful size none := by
  intro address limit impossible
  cases impossible

theorem truthful_outOfBounds_iff {address : Nat} :
    Truthful size (some (.outOfBounds address size)) ↔ size ≤ address := by
  constructor
  · intro truthful
    exact (truthful address size rfl).2
  · rintro outside _ _ ⟨⟩
    exact ⟨rfl, outside⟩

theorem truthful_of_error_iff {α : Type} {computation : Except Fault α} {fails : Prop}
    {address : Nat} (outside : fails → size ≤ address)
    (error_iff : ∀ fault, computation = .error fault ↔
      fails ∧ fault = .outOfBounds address size) :
    Truthful size (faultOf computation) := by
  cases computed : computation with
  | ok value => exact truthful_none
  | error fault =>
      obtain ⟨failed, rfl⟩ := (error_iff fault).mp computed
      exact truthful_outOfBounds_iff.mpr (outside failed)

namespace Memory

variable (memory : Memory size) (address : Nat)

theorem truthful_read : Truthful size (faultOf (memory.read address)) := by
  apply truthful_of_error_iff id
  intro fault
  exact read_eq_error_iff

theorem truthful_write (value : UInt8) :
    Truthful size (faultOf (memory.write address value)) := by
  apply truthful_of_error_iff id
  intro fault
  exact write_eq_error_iff

theorem truthful_writeBlock (bytes : List UInt8) :
    Truthful size (faultOf (memory.writeBlock address bytes)) := by
  have outside : size < address + bytes.length → size ≤ address + bytes.length - 1 :=
    Nat.le_sub_one_of_lt
  apply truthful_of_error_iff outside
  intro fault
  exact writeBlock_eq_error_iff

end Memory

theorem Image.truthful_parseInto (base : Memory size) (text : String) :
    Truthful size (faultOf (parseInto base text).result) := by
  have outside : size < (bytes (Text.lines text.toList)).length → size ≤ size :=
    fun _ => Nat.le_refl size
  apply truthful_of_error_iff outside
  intro fault
  exact parseInto_eq_error_iff

/-- The instruction takes effect and prints, but the address behind it is no byte, although there is
a cell at it. -/
def Instruction.StrandsInside (instruction : Instruction) (machine : Machine size)
    (room : Room) : Prop :=
  ∃ effect, Rule machine instruction effect ∧ (room.deliver effect.text).complete = true ∧
    effect.target = none ∧ 255 < machine.pc.toNat + instruction.length ∧
    machine.pc.toNat + instruction.length < size

theorem Failure.truthful_or_strandsInside {machine : Machine size} {room : Room}
    {instruction : Instruction} {outcome : Outcome size}
    (failure : Failure machine room instruction outcome) :
    Truthful size outcome.fault ∨ instruction.StrandsInside machine room := by
  cases failure with
  | refused failed =>
      left
      rcases Instruction.fault_of_refused failed with ⟨index, -, rfl⟩ | ⟨address, outside, rfl⟩
      · rintro address limit ⟨⟩
      · exact truthful_outOfBounds_iff.mpr outside
  | cutOff rule incomplete =>
      left
      rintro address limit ⟨⟩
  | stranded rule complete falls large =>
      rcases Nat.lt_or_ge (machine.pc.toNat + instruction.length) size with inside | outside
      · exact .inr ⟨_, rule, complete, falls, large, inside⟩
      · exact .inl (truthful_outOfBounds_iff.mpr outside)

namespace Instruction

variable {instruction : Instruction} {machine : Machine size} {room : Room}

theorem StrandsInside.fault_eq (strands : instruction.StrandsInside machine room) :
    (instruction.execute machine room).fault =
      some (.outOfBounds (machine.pc.toNat + instruction.length) size) := by
  obtain ⟨effect, rule, complete, falls, large, inside⟩ := strands
  have failure : Failure machine room instruction _ := .stranded rule complete falls large
  rw [failure.execute_eq]

theorem not_truthful_execute_iff :
    ¬ Truthful size (instruction.execute machine room).fault ↔
      instruction.StrandsInside machine room := by
  constructor
  · intro untruthful
    cases faulted : (instruction.execute machine room).fault with
    | none =>
        rw [faulted] at untruthful
        exact absurd truthful_none untruthful
    | some fault =>
        have failure := failure_of_faulted faulted
        exact failure.truthful_or_strandsInside.resolve_left untruthful
  · intro strands truthful
    rw [strands.fault_eq, truthful_outOfBounds_iff] at truthful
    obtain ⟨effect, -, -, -, -, inside⟩ := strands
    exact absurd inside (Nat.not_lt.mpr truthful)

/-- Where there are no more cells than bytes, no instruction strands inside. -/
theorem StrandsInside.large_memory (strands : instruction.StrandsInside machine room) :
    256 < size := by
  obtain ⟨effect, -, -, -, large, inside⟩ := strands
  exact Nat.lt_of_le_of_lt large inside

end Instruction

namespace Machine

variable {machine : Machine size} {room : Room}

theorem truthful_fetch (machine : Machine size) : Truthful size (faultOf machine.fetch) := by
  intro address limit faulted
  rcases fetch_eq_error_iff.mp (faultOf_eq_some_iff.mp faulted) with
    ⟨-, ⟨⟩⟩ | ⟨-, byte, -, -, ⟨⟩⟩
  exact ⟨rfl, Nat.le_max_right _ _⟩

theorem not_truthful_cycle_iff :
    ¬ Truthful size (machine.cycle room).fault ↔
      ∃ instruction, machine.fetch = .ok instruction ∧
        instruction.StrandsInside machine room := by
  cases fetched : machine.fetch with
  | error fault =>
      have truthful : Truthful size (some fault) := by
        have reported := machine.truthful_fetch
        rwa [fetched] at reported
      simpa [cycle, fetched] using truthful
  | ok instruction =>
      rw [cycle_of_fetch fetched, Instruction.not_truthful_execute_iff]
      simp

/-- A run reports what the cycle reports that ends it. -/
theorem not_truthful_run_iff {budget : Nat} :
    ¬ Truthful size (machine.run budget room).fault ↔
      ∃ n < budget, machine.RunsOn room n ∧
        ¬ Truthful size (machine.cycleAfter room n).fault := by
  constructor
  · intro untruthful
    rcases machine.halts_faults_or_runs room budget with
      ⟨n, enough, halts⟩ | ⟨n, enough, fault, faults⟩ | runs
    · rw [halts.run_eq enough] at untruthful
      exact absurd truthful_none untruthful
    · rw [faults.run_eq enough] at untruthful
      refine ⟨n, enough, ⟨faults.passed, faults.running⟩, ?_⟩
      rwa [faults.faulted]
    · have unended := runs.not_ended
      simp only [Outcome.ended, Bool.or_eq_false_iff, Option.isSome_eq_false_iff,
        Option.isNone_iff_eq_none] at unended
      rw [unended.1] at untruthful
      exact absurd truthful_none untruthful
  · rintro ⟨n, enough, runs, untruthful⟩
    cases faulted : (machine.cycleAfter room n).fault with
    | none =>
        rw [faulted] at untruthful
        exact absurd truthful_none untruthful
    | some fault =>
        have faults : machine.FaultsAt room n fault := ⟨runs.passed, runs.running, faulted⟩
        rw [faults.run_eq enough]
        rwa [faulted] at untruthful

/-- Reading and writing memory and reading an image report only addresses that are missing. What
executes instructions does so too, except exactly if an instruction strands inside, which needs a
memory of more than 256 cells. -/
theorem reports_truthful_unless_stranded (size : Nat) :
    (∀ (memory : Memory size) address value bytes,
      Truthful size (faultOf (memory.read address)) ∧
      Truthful size (faultOf (memory.write address value)) ∧
      Truthful size (faultOf (memory.writeBlock address bytes))) ∧
    (∀ (machine : Machine size) program, Truthful size (faultOf (machine.load program))) ∧
    (∀ (base : Memory size) text, Truthful size (faultOf (Image.parseInto base text).result)) ∧
    (∀ (machine : Machine size) room,
      (∀ instruction : Instruction, ¬ Truthful size (instruction.execute machine room).fault ↔
        instruction.StrandsInside machine room) ∧
      (¬ Truthful size (machine.cycle room).fault ↔
        ∃ instruction, machine.fetch = .ok instruction ∧
          instruction.StrandsInside machine room) ∧
      (∀ budget, ¬ Truthful size (machine.run budget room).fault ↔
        ∃ n < budget, machine.RunsOn room n ∧
          let reached := machine.cycles n room
          ∃ instruction, reached.machine.fetch = .ok instruction ∧
            instruction.StrandsInside reached.machine reached.room)) ∧
    (size ≤ 256 → ∀ (machine : Machine size) room,
      (∀ instruction : Instruction, Truthful size (instruction.execute machine room).fault) ∧
      Truthful size (machine.cycle room).fault ∧
      ∀ budget, Truthful size (machine.run budget room).fault) := by
  have execute_iff (machine : Machine size) (room : Room) (instruction : Instruction) :
      ¬ Truthful size (instruction.execute machine room).fault ↔
        instruction.StrandsInside machine room := Instruction.not_truthful_execute_iff
  refine ⟨?_, ?_, Image.truthful_parseInto, ?_, ?_⟩
  · intro memory address value bytes
    exact ⟨memory.truthful_read address, memory.truthful_write address value,
      memory.truthful_writeBlock address bytes⟩
  · intro machine program
    rw [load, faultOf_bind_ok]
    exact machine.memory.truthful_writeBlock 0 program
  · intro machine room
    refine ⟨execute_iff machine room, not_truthful_cycle_iff, fun budget => ?_⟩
    rw [not_truthful_run_iff]
    simp only [cycleAfter, not_truthful_cycle_iff]
  · intro small machine room
    have never (reached : Machine size) (left : Room) (instruction : Instruction) :
        ¬ instruction.StrandsInside reached left :=
      fun strands => absurd strands.large_memory (Nat.not_lt.mpr small)
    have cycle_truthful (reached : Machine size) (left : Room) :
        Truthful size (reached.cycle left).fault := by
      apply Classical.byContradiction
      intro untruthful
      obtain ⟨instruction, -, strands⟩ := not_truthful_cycle_iff.mp untruthful
      exact never reached left instruction strands
    refine ⟨fun instruction => ?_, cycle_truthful machine room, fun budget => ?_⟩
    · apply Classical.byContradiction
      intro untruthful
      exact never machine room instruction ((execute_iff machine room instruction).mp untruthful)
    · apply Classical.byContradiction
      intro untruthful
      obtain ⟨n, -, -, last⟩ := not_truthful_run_iff.mp untruthful
      exact last (cycle_truthful _ _)

/-- At address 255 of a memory of 300 cells a halt reports the address 256 as missing. -/
theorem halt_reports_present_address :
    let machine : Machine 300 := { memory := .zero 300, pc := 255 }
    let outcome := Instruction.hlt.execute machine none
    outcome.fault = some (.outOfBounds 256 300) ∧ ¬ Truthful 300 outcome.fault := by
  intro machine outcome
  have faulted : outcome.fault = some (.outOfBounds 256 300) := rfl
  refine ⟨faulted, ?_⟩
  rw [faulted, truthful_outOfBounds_iff]
  decide

end Machine

end EightBit
