import EightBit.Proofs.Failure
import EightBit.Proofs.Stack

/-!
Where the stack pointer wraps. It is a byte, so it goes round a ring of 256 addresses, whatever the
size of the memory is. A smaller memory is no ring: below its first cell lies the address 255, which
it does not have, and above its last cell an address it does not have either. Everywhere else the two
rings agree.
-/

namespace EightBit.Stack

variable {size : Nat}

/-- The address below `address` on a ring of `size` addresses. -/
def below (size address : Nat) : Nat :=
  (address + size - 1) % size

def above (size address : Nat) : Nat :=
  (address + 1) % size

theorem below_of_pos {address : Nat} (pos : 0 < address) (inside : address < size) :
    below size address = address - 1 := by
  have split : address + size - 1 = address - 1 + size := by omega
  rw [below, split, Nat.add_mod_right, Nat.mod_eq_of_lt (by omega)]

theorem below_zero (pos : 0 < size) : below size 0 = size - 1 := by
  rw [below, Nat.zero_add, Nat.mod_eq_of_lt (by omega)]

theorem above_of_lt {address : Nat} (inside : address + 1 < size) :
    above size address = address + 1 :=
  Nat.mod_eq_of_lt inside

theorem above_last {address : Nat} (last : address + 1 = size) : above size address = 0 := by
  rw [above, last, Nat.mod_self]

theorem toNat_sub_one (sp : UInt8) : (sp - 1).toNat = below 256 sp.toNat := by
  rw [UInt8.toNat_sub, UInt8.toNat_one, below]
  congr 1
  omega

theorem toNat_add_one (sp : UInt8) : (sp + 1).toNat = above 256 sp.toNat :=
  UInt8.toNat_add sp 1

theorem toNat_sub_ofNat {sp : UInt8} {n : Nat} (atMost : n ≤ sp.toNat) :
    (sp - UInt8.ofNat n).toNat = sp.toNat - n := by
  have byte : n < UInt8.size := Nat.lt_of_le_of_lt atMost sp.toNat_lt
  have value : (UInt8.ofNat n).toNat = n := UInt8.toNat_ofNat_of_lt' byte
  have le : UInt8.ofNat n ≤ sp := UInt8.le_iff_toNat_le.mpr (by rwa [value])
  rw [UInt8.toNat_sub_of_le _ _ le, value]

theorem toNat_sub_one_eq_below_iff {sp : UInt8} (small : size ≤ 256) (inside : sp.toNat < size) :
    (sp - 1).toNat = below size sp.toNat ↔ size = 256 ∨ sp ≠ 0 := by
  rw [toNat_sub_one]
  by_cases first : sp = 0
  · subst first
    rw [UInt8.toNat_zero, below_zero (by decide), below_zero (by omega)]
    simp
    omega
  · have pos : 0 < sp.toNat := Nat.pos_of_ne_zero fun zero => first (UInt8.toNat_inj.mp zero)
    rw [below_of_pos pos sp.toNat_lt, below_of_pos pos inside]
    simp [first]

theorem toNat_add_one_eq_above_iff {sp : UInt8} (small : size ≤ 256) (inside : sp.toNat < size) :
    (sp + 1).toNat = above size sp.toNat ↔ size = 256 ∨ sp.toNat + 1 ≠ size := by
  rw [toNat_add_one]
  by_cases last : sp.toNat + 1 = size
  · rw [above_last last]
    rcases Nat.eq_or_lt_of_le small with rfl | smaller
    · simp [above_last last]
    · rw [above_of_lt (by omega)]
      simp
      omega
  · rw [above_of_lt (by omega), above_of_lt (by omega)]
    simp [last]

/-- What an instruction puts on the stack that has a register to look up. -/
inductive Puts (machine : Machine size) : Instruction → UInt8 → Prop where
  | push {register value : UInt8} :
      machine.get register = .ok value → Puts machine (.push register) value
  | call {register target : UInt8} :
      machine.get register = .ok target → Puts machine (.call register) (machine.pc + 2)

/-- The value goes to the address below, on the ring that the memory is, and the pointer as well. -/
structure PutsOnRing (machine : Machine size) (value : UInt8) (outcome : Outcome size) : Prop where
  passed : outcome.fault = none
  stored : machine.memory.write (below size machine.sp.toNat) value = .ok outcome.machine.memory
  sp_eq : outcome.machine.sp.toNat = below size machine.sp.toNat

/-- The register gets the value on top, and the pointer goes to the address above, on the ring that
the memory is. -/
structure TakesOnRing (machine : Machine size) (register : UInt8) (outcome : Outcome size) :
    Prop where
  passed : outcome.fault = none
  taken : outcome.machine.get register = machine.memory.read machine.sp.toNat
  sp_eq : outcome.machine.sp.toNat = above size machine.sp.toNat

theorem execute_call {machine : Machine size} {register target : UInt8} {memory : Memory size}
    (named : machine.get register = .ok target)
    (written : machine.memory.write (machine.sp - 1).toNat (machine.pc + 2) = .ok memory)
    (room : Room) :
    (Instruction.call register).execute machine room =
      { machine := { machine with memory, sp := machine.sp - 1, pc := target }
        room
        log := [.executed (.call register target (machine.pc + 2))] } := by
  rw [Instruction.execute_of_rule (.call named written) (by simp [Effect.text]) rfl]
  simp [Effect.text]

theorem call_passes_iff {machine : Machine size} {register : UInt8} {room : Room} :
    ((Instruction.call register).execute machine room).fault = none ↔
      register.toNat < 8 ∧ (machine.sp - 1).toNat < size := by
  constructor
  · intro passed
    obtain ⟨effect, pc, rule, -, -, -⟩ := Instruction.exists_outcome_of_passed passed
    cases rule with
    | call named written =>
        exact ⟨Registers.named_of_get named, (Memory.write_eq_ok_iff.mp written).1⟩
  · rintro ⟨named, inside⟩
    obtain ⟨memory, written⟩ := machine.memory.exists_write inside (machine.pc + 2)
    rw [execute_call (machine.toRegisters.get_of_named named) written]

namespace Puts

variable {machine : Machine size} {instruction : Instruction} {value : UInt8}

theorem execute_of_inside (puts : Puts machine instruction value)
    (inside : (machine.sp - 1).toNat < size) (early : machine.pc.toNat + 2 ≤ 255) (room : Room) :
    (instruction.execute machine room).fault = none ∧
      machine.memory.write (machine.sp - 1).toNat value =
        .ok (instruction.execute machine room).machine.memory ∧
      (instruction.execute machine room).machine.sp = machine.sp - 1 := by
  obtain ⟨memory, written⟩ := machine.memory.exists_write inside value
  cases puts with
  | push named =>
      obtain ⟨pc, -, reached⟩ :=
        Instruction.exists_outcome_of_falls (.push named written) (by simp [Effect.text]) rfl early
      rw [reached]
      exact ⟨rfl, written, rfl⟩
  | call named =>
      rw [execute_call named written]
      exact ⟨rfl, written, rfl⟩

theorem execute_of_outside (puts : Puts machine instruction value)
    (outside : size ≤ (machine.sp - 1).toNat) (room : Room) :
    instruction.execute machine room =
      { machine, room, fault := some (.outOfBounds (machine.sp - 1).toNat size) } := by
  have unwritten (stored : UInt8) : machine.push stored =
      .error (.outOfBounds (machine.sp - 1).toNat size) := by
    rw [Machine.push, Memory.write_eq_error_iff.mpr ⟨outside, rfl⟩]
    rfl
  apply Failure.execute_eq
  apply Failure.refused
  cases puts with
  | push named => simp [Instruction.effect, named, unwritten, bind, Except.bind]
  | call named => simp [Instruction.effect, named, unwritten, bind, Except.bind]

end Puts

theorem execute_pop {machine : Machine size} {register : UInt8} (named : register.toNat < 8)
    (inside : machine.sp.toNat < size) (early : machine.pc.toNat + 2 ≤ 255) (room : Room) :
    ((Instruction.pop register).execute machine room).fault = none ∧
      ((Instruction.pop register).execute machine room).machine.get register =
        machine.memory.read machine.sp.toNat ∧
      ((Instruction.pop register).execute machine room).machine.sp = machine.sp + 1 := by
  obtain ⟨value, onTop⟩ : ∃ value, machine.memory.read machine.sp.toNat = .ok value :=
    ⟨_, Memory.read_of_inside machine.memory inside⟩
  have rule := Rule.pop onTop (Registers.set_eq_ok_iff.mpr ⟨named, rfl⟩)
  have complete : (room.deliver "").complete = true := by simp
  obtain ⟨pc, -, reached⟩ := Instruction.exists_outcome_of_falls rule complete rfl early
  rw [reached, onTop]
  exact ⟨rfl, Registers.get_eq_ok_iff.mpr (by simp [named]), rfl⟩

/-- The stack pointer moves down to cells that exist, and up without looking. -/
theorem sp_of_rule {machine : Machine size} {instruction : Instruction} {effect : Effect size}
    (rule : Rule machine instruction effect) :
    effect.machine.sp = machine.sp ∨
      effect.machine.sp = machine.sp - 1 ∧ (machine.sp - 1).toNat < size ∨
      effect.machine.sp = machine.sp + 1 ∧ ∃ register, instruction = .pop register := by
  cases rule with
  | push named written | call named written =>
      exact .inr (.inl ⟨rfl, (Memory.write_eq_ok_iff.mp written).1⟩)
  | pop onTop stored =>
      obtain ⟨named, rfl⟩ := Registers.set_eq_ok_iff.mp stored
      exact .inr (.inr ⟨rfl, _, rfl⟩)
  | ldi stored =>
      obtain ⟨named, rfl⟩ := Registers.set_eq_ok_iff.mp stored
      exact .inl rfl
  | alu applied => exact .inl (Registers.pointers_of_apply applied).2
  | _ => exact .inl rfl

theorem sp_of_failure {machine : Machine size} {room : Room} {instruction : Instruction}
    {outcome : Outcome size} (failure : Failure machine room instruction outcome) :
    outcome.machine.sp = machine.sp ∨
      ∃ effect, Rule machine instruction effect ∧ outcome.machine.sp = effect.machine.sp := by
  cases failure with
  | refused failed => exact .inl rfl
  | cutOff rule incomplete => exact .inl rfl
  | stranded rule complete falls large => exact .inr ⟨_, rule, rfl⟩

theorem sp_of_execute (machine : Machine size) (room : Room) (instruction : Instruction) :
    (instruction.execute machine room).machine.sp = machine.sp ∨
      ∃ effect, Rule machine instruction effect ∧
        (instruction.execute machine room).machine.sp = effect.machine.sp := by
  cases faulted : (instruction.execute machine room).fault with
  | none =>
      obtain ⟨effect, pc, rule, -, -, reached⟩ := Instruction.exists_outcome_of_passed faulted
      rw [reached]
      exact .inr ⟨effect, rule, rfl⟩
  | some fault => exact sp_of_failure (Instruction.failure_of_faulted faulted)

/-- The stack pointer stays inside the memory, but for a pop of the last cell of a memory that is not
the whole ring. -/
theorem sp_inside_or_pop_last {machine : Machine size} (small : size ≤ 256)
    (inside : machine.sp.toNat < size) (room : Room) (instruction : Instruction) :
    (instruction.execute machine room).machine.sp.toNat < size ∨
      (∃ register, instruction = .pop register) ∧ size < 256 ∧ machine.sp.toNat + 1 = size := by
  rcases sp_of_execute machine room instruction with kept | ⟨effect, rule, moved⟩
  · rw [kept]
    exact .inl inside
  · rw [moved]
    rcases sp_of_rule rule with kept | ⟨down, hasCell⟩ | ⟨up, popping⟩
    · rw [kept]
      exact .inl inside
    · rw [down]
      exact .inl hasCell
    · by_cases crossing : size = 256 ∨ machine.sp.toNat + 1 ≠ size
      · rw [up, (toNat_add_one_eq_above_iff small inside).mpr crossing]
        exact .inl (Nat.mod_lt _ (Nat.zero_lt_of_lt inside))
      · simp only [not_or, ne_eq, Decidable.not_not] at crossing
        exact .inr ⟨popping, Nat.lt_of_le_of_ne small crossing.1, crossing.2⟩

variable {start machine : Machine size} {calls : List Instruction} {stack longer : List UInt8}
  {deepest : Nat} {instruction : Instruction} {room : Room}

theorem length_of_passed (passed : (instruction.execute machine room).fault = none)
    (followed : after machine stack instruction = some longer) :
    longer.length ≤ stack.length ∨
      longer.length = stack.length + 1 ∧ (machine.sp - 1).toNat < size := by
  obtain ⟨effect, pc, rule, -, -, -⟩ := Instruction.exists_outcome_of_passed passed
  cases rule with
  | push named written =>
      cases (after_push named).symm.trans followed
      exact .inr ⟨rfl, (Memory.write_eq_ok_iff.mp written).1⟩
  | call named written =>
      cases followed
      exact .inr ⟨rfl, (Memory.write_eq_ok_iff.mp written).1⟩
  | pop onTop stored =>
      cases stack with
      | nil => cases followed
      | cons front rest =>
          cases followed
          exact .inl (Nat.le_succ _)
  | ret onTop =>
      cases stack with
      | nil => cases followed
      | cons front rest =>
          cases followed
          exact .inl (Nat.le_refl _)
  | _ =>
      cases followed
      exact .inl (Nat.le_refl _)

theorem Refines.toNat_sp (refines : Refines start stack deepest machine)
    (atMost : stack.length ≤ start.sp.toNat) :
    machine.sp.toNat = start.sp.toNat - stack.length := by
  rw [refines.sp_eq, toNat_sub_ofNat atMost]

/-- In a memory that is not the whole ring a stack has only the cells below its start. -/
theorem Run.deepest_le (run : Run start calls machine stack deepest) (smaller : size < 256) :
    deepest ≤ start.sp.toNat := by
  induction run with
  | start => exact Nat.zero_le _
  | @next calls machine stack longer deepest instruction room before passed followed bounded
      inductionHypothesis =>
      have refines := before.refines
      apply Nat.max_le.mpr
      refine ⟨inductionHypothesis, ?_⟩
      have atMost : stack.length ≤ start.sp.toNat :=
        Nat.le_trans refines.length_le inductionHypothesis
      rcases length_of_passed passed followed with shorter | ⟨grown, hasCell⟩
      · exact Nat.le_trans shorter atMost
      · -- At address 0 the cell below would be the one at 255, which is not there.
        have positive : machine.sp ≠ 0 := by
          intro zero
          rw [zero] at hasCell
          exact absurd hasCell (Nat.not_lt.mpr (Nat.le_of_lt_succ smaller))
        have pos : 0 < machine.sp.toNat :=
          Nat.pos_of_ne_zero fun zero => positive (UInt8.toNat_inj.mp zero)
        rw [refines.toNat_sp atMost] at pos
        rw [grown]
        omega

/-- Calls alone reach every depth that the ring, or the part of it below the start, has cells for. -/
theorem exists_run (inside : start.sp.toNat < size) {n : Nat}
    (enough : n ≤ if size = 256 then 256 else start.sp.toNat) :
    ∃ machine stack, Run start (List.replicate n (.call 0)) machine stack n ∧ stack.length = n := by
  induction n with
  | zero => exact ⟨start, [], .start, rfl⟩
  | succ n inductionHypothesis =>
      obtain ⟨machine, stack, run, length⟩ := inductionHypothesis (Nat.le_of_succ_le enough)
      have hasCell : (machine.sp - 1).toNat < size := by
        by_cases whole : size = 256
        · exact Nat.lt_of_lt_of_eq (machine.sp - 1).toNat_lt whole.symm
        · rw [if_neg whole] at enough
          have atMost : stack.length ≤ start.sp.toNat := by omega
          have sp := run.refines.toNat_sp atMost
          rw [toNat_sub_one, below_of_pos (by omega) machine.sp.toNat_lt]
          omega
      have passed : ((Instruction.call 0).execute machine none).fault = none :=
        call_passes_iff.mpr ⟨by decide, hasCell⟩
      have grown : ((machine.pc + 2) :: stack).length = n + 1 := by rw [List.length_cons, length]
      have bounded : n + 1 ≤ 256 := by
        split at enough
        · exact enough
        · exact Nat.le_trans enough (Nat.le_of_lt start.sp.toNat_lt)
      have longer := Run.next none run passed rfl (Nat.le_trans (Nat.le_of_eq grown) bounded)
      rw [grown, Nat.max_eq_right (Nat.le_succ n), ← List.replicate_succ'] at longer
      exact ⟨_, _, longer, grown⟩

namespace Puts

variable {value : UInt8}

theorem execute_at_first (puts : Puts machine instruction value) (smaller : size < 256)
    (first : machine.sp = 0) (room : Room) :
    instruction.execute machine room =
      { machine, room, fault := some (.outOfBounds 255 size) } := by
  have address : (machine.sp - 1).toNat = 255 := by rw [first]; rfl
  have outside : size ≤ (machine.sp - 1).toNat := by
    rw [address]
    exact Nat.le_of_lt_succ smaller
  rw [puts.execute_of_outside outside, address]

/-- What is put on the stack goes round the ring that the memory is, unless that is not the whole
ring of bytes and the pointer is at its first cell. -/
theorem putsOnRing_iff (puts : Puts machine instruction value) (small : size ≤ 256)
    (inside : machine.sp.toNat < size) (early : machine.pc.toNat + 2 ≤ 255) :
    PutsOnRing machine value (instruction.execute machine room) ↔
      size = 256 ∨ machine.sp ≠ 0 := by
  constructor
  · intro onRing
    rcases Nat.eq_or_lt_of_le small with whole | smaller
    · exact .inl whole
    · right
      intro first
      have passed := onRing.passed
      rw [puts.execute_at_first smaller first] at passed
      cases passed
  · intro together
    have address := (toNat_sub_one_eq_below_iff small inside).mpr together
    have hasCell : (machine.sp - 1).toNat < size := by
      rw [address]
      exact Nat.mod_lt _ (Nat.zero_lt_of_lt inside)
    obtain ⟨passed, stored, moved⟩ := puts.execute_of_inside hasCell early room
    rw [address] at stored
    rw [← moved] at address
    exact ⟨passed, stored, address⟩

end Puts

theorem takesOnRing_iff {register : UInt8} (named : register.toNat < 8) (small : size ≤ 256)
    (inside : machine.sp.toNat < size) (early : machine.pc.toNat + 2 ≤ 255) :
    TakesOnRing machine register ((Instruction.pop register).execute machine room) ↔
      size = 256 ∨ machine.sp.toNat + 1 ≠ size := by
  obtain ⟨passed, taken, moved⟩ := execute_pop named inside early room
  rw [← toNat_add_one_eq_above_iff small inside, ← moved]
  exact ⟨TakesOnRing.sp_eq, fun address => ⟨passed, taken, address⟩⟩

/-- The stack pointer goes round the ring that the memory is, except for two moves over the end of a
memory of fewer than 256 cells: what is to be put below its first cell is refused, and a pop of its
last cell leaves the pointer behind it, which no other instruction does. So in a memory of 256 cells
a stack can have them all, and in a smaller one only those below its start. -/
theorem wraps_unless_over_end (machine : Machine size) (room : Room) (small : size ≤ 256)
    (inside : machine.sp.toNat < size) (early : machine.pc.toNat + 2 ≤ 255) :
    (∀ register : UInt8, ∀ named : register.toNat < 8,
      let pushed := (Instruction.push register).execute machine room
      let called := (Instruction.call register).execute machine room
      let popped := (Instruction.pop register).execute machine room
      (PutsOnRing machine machine.general[register.toNat] pushed ↔
        size = 256 ∨ machine.sp ≠ 0) ∧
      (PutsOnRing machine (machine.pc + 2) called ↔ size = 256 ∨ machine.sp ≠ 0) ∧
      (size < 256 → machine.sp = 0 → ∀ outcome ∈ [pushed, called],
        outcome = { machine, room, fault := some (.outOfBounds 255 size) }) ∧
      (TakesOnRing machine register popped ↔ size = 256 ∨ machine.sp.toNat + 1 ≠ size) ∧
      (size < 256 → machine.sp.toNat + 1 = size →
        popped.fault = none ∧ popped.machine.sp.toNat = size)) ∧
    (∀ instruction : Instruction, (instruction.execute machine room).machine.sp.toNat < size ∨
      (∃ register, instruction = .pop register) ∧ size < 256 ∧ machine.sp.toNat + 1 = size) ∧
    (∀ n, (∃ calls reached stack, Run machine calls reached stack n) ↔
      n ≤ if size = 256 then 256 else machine.sp.toNat) := by
  refine ⟨?_, sp_inside_or_pop_last small inside room, ?_⟩
  · intro register named pushed called popped
    have found := machine.toRegisters.get_of_named named
    have push : Puts machine (.push register) machine.general[register.toNat] := .push found
    have call : Puts machine (.call register) (machine.pc + 2) := .call found
    refine ⟨push.putsOnRing_iff small inside early, call.putsOnRing_iff small inside early, ?_,
      takesOnRing_iff named small inside early, ?_⟩
    · intro smaller first
      simp only [List.forall_mem_cons, List.not_mem_nil, false_imp_iff, implies_true, and_true]
      exact ⟨push.execute_at_first smaller first room, call.execute_at_first smaller first room⟩
    · intro smaller last
      obtain ⟨passed, -, moved⟩ := execute_pop named inside early room
      refine ⟨passed, ?_⟩
      rw [moved, toNat_add_one, above_of_lt (by omega), last]
  · intro n
    constructor
    · rintro ⟨calls, reached, stack, run⟩
      by_cases whole : size = 256
      · rw [if_pos whole]
        exact run.refines.deepest_le
      · rw [if_neg whole]
        exact run.deepest_le (Nat.lt_of_le_of_ne small whole)
    · intro enough
      obtain ⟨reached, stack, run, -⟩ := exists_run inside enough
      exact ⟨_, reached, stack, run⟩

/-- In sixteen cells, with the pointer at the last of them: a push goes to the cell below, a pop leaves
the memory, and no stack from here has sixteen bytes. -/
theorem wraps_unless_over_end_of_sixteen :
    let machine : Machine 16 :=
      { memory := .zero 16, general := #v[7, 0, 0, 0, 0, 0, 0, 0], sp := 15 }
    let pushed := (Instruction.push 0).execute machine none
    let popped := (Instruction.pop 0).execute machine none
    16 ≤ 256 ∧ machine.sp.toNat < 16 ∧ machine.pc.toNat + 2 ≤ 255 ∧
      PutsOnRing machine 7 pushed ∧ below 16 15 = 14 ∧
      popped.fault = none ∧ popped.machine.sp.toNat = 16 ∧
      ¬ ∃ calls reached stack, Run machine calls reached stack 16 := by
  intro machine pushed popped
  have small : 16 ≤ 256 := by decide
  have inside : machine.sp.toNat < 16 := by decide
  have early : machine.pc.toNat + 2 ≤ 255 := by decide
  obtain ⟨moves, -, depths⟩ := wraps_unless_over_end machine none small inside early
  obtain ⟨push, -, -, -, pop⟩ := moves 0 (by decide)
  obtain ⟨passed, left⟩ := pop (by decide) rfl
  refine ⟨small, inside, early, push.mpr (.inr (by decide)), rfl, passed, left, ?_⟩
  rw [depths]
  decide

/-- At the first of sixteen cells a push does not go round to the last one. It is refused. -/
theorem push_at_first_of_sixteen :
    let machine : Machine 16 := { memory := .zero 16, general := #v[7, 0, 0, 0, 0, 0, 0, 0] }
    let pushed := (Instruction.push 0).execute machine none
    machine.sp.toNat < 16 ∧ machine.pc.toNat + 2 ≤ 255 ∧ below 16 machine.sp.toNat = 15 ∧
      pushed.fault = some (.outOfBounds 255 16) ∧ ¬ PutsOnRing machine 7 pushed := by
  intro machine pushed
  have refused : pushed.fault = some (.outOfBounds 255 16) := by decide
  refine ⟨by decide, by decide, by decide, refused, ?_⟩
  intro onRing
  have passed := onRing.passed
  rw [refused] at passed
  cases passed

end EightBit.Stack
