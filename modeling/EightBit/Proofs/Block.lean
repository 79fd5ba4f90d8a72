import EightBit.Memory

/-!
Storing a block and storing its bytes one by one. Where the block fits, both leave the same memory.
Where it does not, storing byte by byte ends at the first byte without a cell, and those before it
stay in memory; storing the block leaves memory as it was.
-/

namespace EightBit.Memory

variable {size : Nat}

/-- Stores the bytes one by one from `address` on, and ends at the first that cannot be stored. -/
def storeEach (memory : Memory size) (address : Nat) : List UInt8 → Attempt (Memory size)
  | [] => { state := memory }
  | value :: rest =>
      let first := memory.store address value
      if first.fault.isSome then first else first.state.storeEach (address + 1) rest

variable {memory : Memory size} {address cell : Nat} {bytes : List UInt8}

theorem storeEach_cons_of_write {next : Memory size} {value : UInt8}
    (written : memory.write address value = .ok next) (rest : List UInt8) :
    memory.storeEach address (value :: rest) = next.storeEach (address + 1) rest := by
  obtain ⟨passed, rfl⟩ := Attempt.result_eq_ok_iff.mp written
  simp only [storeEach, passed, Option.isSome_none, Bool.false_eq_true, if_false]

theorem storeEach_of_fits (memory : Memory size) (address : Nat) (bytes : List UInt8)
    (fits : address + bytes.length ≤ size) :
    memory.storeEach address bytes = { state := memory.overlay address bytes } := by
  induction bytes generalizing memory address with
  | nil => rw [storeEach, overlay_nil]
  | cons value rest inductionHypothesis =>
      rw [List.length_cons] at fits
      have inside : address < size := by omega
      obtain ⟨next, written⟩ := memory.exists_write inside value
      rw [storeEach_cons_of_write written, inductionHypothesis next (address + 1) (by omega),
        overlay_cons written]

/-- The bytes that have cells are in memory when the first without one is met. -/
theorem storeEach_of_short (memory : Memory size) (address : Nat) (bytes : List UInt8)
    (filled : bytes ≠ []) (short : size < address + bytes.length) :
    memory.storeEach address bytes =
      { state := memory.overlay address (bytes.take (size - address))
        fault := some (.outOfBounds (max address size) size) } := by
  induction bytes generalizing memory address with
  | nil => contradiction
  | cons value rest inductionHypothesis =>
      rw [List.length_cons] at short
      rcases Nat.lt_or_ge address size with inside | outside
      · obtain ⟨next, written⟩ := memory.exists_write inside value
        have more : rest ≠ [] := by
          rintro rfl
          rw [List.length_nil] at short
          omega
        -- One of the cells that are left takes the first byte.
        have cells : size - address = size - (address + 1) + 1 := by omega
        rw [storeEach_cons_of_write written,
          inductionHypothesis next (address + 1) more (by omega), cells, List.take_succ_cons,
          overlay_cons written, Nat.max_eq_right inside, Nat.max_eq_right (Nat.le_of_lt inside)]
      · rw [storeEach, store_of_outside outside, Nat.sub_eq_zero_of_le outside, List.take_zero,
          overlay_nil, Nat.max_eq_left outside]
        rfl

theorem read_overlay_of_covered (fits : address + bytes.length ≤ size) {i : Nat}
    (inside : i < bytes.length) :
    (memory.overlay address bytes).read (address + i) = .ok bytes[i] := by
  have hasCell : address + i < size := by omega
  rw [read_eq_ok_iff, memory.getElem?_overlay_of_covered hasCell inside,
    List.getElem?_eq_getElem inside]

theorem read_overlay_of_not_covered
    (outside : cell < address ∨ address + bytes.length ≤ cell) :
    (memory.overlay address bytes).read cell = memory.read cell := by
  by_cases hasCell : cell < size
  · rw [read_of_inside _ hasCell, read_of_inside _ hasCell,
      memory.getElem?_overlay_of_not_covered outside]
  · simp [read, hasCell]

theorem isSome_fault_store_iff {value : UInt8} :
    (memory.store address value).fault.isSome ↔ size ≤ address := by
  rcases Nat.lt_or_ge address size with inside | outside
  · simp [store_of_inside inside, Nat.not_le.mpr inside]
  · simp [store_of_outside outside, outside]

theorem isSome_fault_storeBlock_iff :
    (memory.storeBlock address bytes).fault.isSome ↔ size < address + bytes.length := by
  rw [Option.isSome_iff_ne_none, Ne, fault_storeBlock_eq_none_iff, Nat.not_le]

theorem exists_store_fault_iff (filled : bytes ≠ []) :
    (∃ i, ∃ inside : i < bytes.length,
      (memory.store (address + i) bytes[i]).fault.isSome) ↔ size < address + bytes.length := by
  simp only [isSome_fault_store_iff]
  constructor
  · rintro ⟨i, inside, outside⟩
    omega
  · intro short
    have counted : 0 < bytes.length := List.length_pos_iff.mpr filled
    exact ⟨bytes.length - 1, by omega, by omega⟩

theorem isSome_fault_storeEach_iff (filled : bytes ≠ []) :
    (memory.storeEach address bytes).fault.isSome ↔ size < address + bytes.length := by
  rcases Nat.lt_or_ge size (address + bytes.length) with short | fits
  · simp [storeEach_of_short memory address bytes filled short, short]
  · simp [storeEach_of_fits memory address bytes fits, Nat.not_lt.mpr fits]

/-- Storing a block does all that storing its bytes one by one does, or nothing at all. It fails
where a byte has no cell, names the address of the last byte, and leaves memory as it was, while
byte by byte the first part of the block would be there. An empty block changes nothing, and fails
if there is no place for it. -/
theorem storeBlock_all_or_nothing (memory : Memory size) (address : Nat) (bytes : List UInt8) :
    let block := memory.storeBlock address bytes
    let singly := memory.storeEach address bytes
    (block.fault = none ↔ address + bytes.length ≤ size) ∧
    (block.fault = none →
      singly = block ∧
      (∀ i (inside : i < bytes.length), block.state.read (address + i) = .ok bytes[i]) ∧
      ∀ cell, cell < address ∨ address + bytes.length ≤ cell →
        block.state.read cell = memory.read cell) ∧
    (∀ fault, block.fault = some fault →
      fault = .outOfBounds (address + bytes.length - 1) size ∧ block.state = memory) ∧
    (bytes ≠ [] →
      (block.fault.isSome ↔ ∃ i, ∃ inside : i < bytes.length,
        (memory.store (address + i) bytes[i]).fault.isSome) ∧
      (block.fault.isSome ↔ singly.fault.isSome) ∧
      (block.fault.isSome →
        singly.state = memory.overlay address (bytes.take (size - address)))) ∧
    (bytes = [] →
      block.state = memory ∧ (block.fault.isSome ↔ size < address)) := by
  intro block singly
  have fails_iff : block.fault.isSome ↔ size < address + bytes.length := isSome_fault_storeBlock_iff
  refine ⟨fault_storeBlock_eq_none_iff, ?_, ?_, ?_, ?_⟩
  · intro passed
    have fits := fault_storeBlock_eq_none_iff.mp passed
    have laid : block = { state := memory.overlay address bytes } := storeBlock_of_fits fits
    rw [laid]
    refine ⟨storeEach_of_fits memory address bytes fits, ?_, ?_⟩
    · intro i inside
      exact read_overlay_of_covered fits inside
    · intro cell outside
      exact read_overlay_of_not_covered outside
  · intro fault failed
    have short : size < address + bytes.length := by
      rw [← fails_iff, failed]
      rfl
    have kept : block = { state := memory, fault := some _ } := storeBlock_of_short short
    rw [kept, Option.some.injEq] at failed
    exact ⟨failed.symm, by rw [kept]⟩
  · intro filled
    refine ⟨fails_iff.trans (exists_store_fault_iff filled).symm,
      fails_iff.trans (isSome_fault_storeEach_iff filled).symm, ?_⟩
    intro failed
    simp only [singly, storeEach_of_short memory address bytes filled (fails_iff.mp failed)]
  · rintro rfl
    refine ⟨?_, fails_iff⟩
    rcases Nat.lt_or_ge size address with short | fits
    · exact congrArg Attempt.state (storeBlock_of_short short)
    · exact (congrArg Attempt.state (storeBlock_of_fits fits)).trans (overlay_nil memory address)

end EightBit.Memory
