import EightBit.Proofs.Rule

/-!
The stack in memory refines a list. A run keeps the list beside the machine: pushes and calls put a
byte on its front, a pop removes the front, a return only looks at it. As long as the list is never
asked for a byte that it does not have, and never longer than the 256 cells that the stack pointer
reaches, its bytes are those in memory from the stack pointer on, with addresses that wrap at 256.
-/

namespace EightBit.Stack

variable {size : Nat}

/-- The list behind an instruction that `machine` executes; `none` where the instruction wants a
byte of an empty list. -/
def after (machine : Machine size) (stack : List UInt8) : Instruction → Option (List UInt8)
  | .push register => machine.general[register.toNat]?.map (· :: stack)
  | .call _ => some ((machine.pc + 2) :: stack)
  | .pop _ => stack.tail?
  | .ret => if stack.isEmpty then none else some stack
  | _ => some stack

theorem after_push {machine : Machine size} {stack : List UInt8} {register value : UInt8}
    (named : machine.get register = .ok value) :
    after machine stack (.push register) = some (value :: stack) :=
  congrArg (Option.map (· :: stack)) (Registers.get_eq_ok_iff.mp named)

/-- Instructions executed one after another without a fault, whatever the output of each of them
takes: the machine they lead to, the list beside it, and the greatest length the list has had. -/
inductive Run (start : Machine size) :
    List Instruction → Machine size → List UInt8 → Nat → Prop where
  | start : Run start [] start [] 0
  | next {calls : List Instruction} {machine : Machine size} {stack longer : List UInt8}
      {deepest : Nat} {instruction : Instruction} (room : Room) :
      Run start calls machine stack deepest →
      (instruction.execute machine room).fault = none →
      after machine stack instruction = some longer →
      longer.length ≤ 256 →
      Run start (calls ++ [instruction]) (instruction.execute machine room).machine longer
        (max deepest longer.length)

/-- What a machine and the list beside it have in common at every moment of a run. -/
structure Refines (start : Machine size) (stack : List UInt8) (deepest : Nat)
    (machine : Machine size) : Prop where
  length_le : stack.length ≤ deepest
  deepest_le : deepest ≤ 256
  sp_eq : machine.sp = start.sp - UInt8.ofNat stack.length
  cells_eq : ∀ i < stack.length,
    machine.memory.cells[(machine.sp + UInt8.ofNat i).toNat]? = stack[i]?
  /-- Only cells that the stack has reached can have changed. -/
  frame : ∀ address, (∀ j, 1 ≤ j → j ≤ deepest → address ≠ (start.sp - UInt8.ofNat j).toNat) →
    machine.memory.cells[address]? = start.memory.cells[address]?

/-- Addresses are bytes, so going down and up again by a number of cells is arithmetic modulo 256. -/
theorem sub_ofNat_succ (sp : UInt8) (n : Nat) :
    sp - UInt8.ofNat (n + 1) = sp - UInt8.ofNat n - 1 := by
  rw [UInt8.ofNat_add]
  grind

theorem add_ofNat_succ (sp : UInt8) (n : Nat) :
    sp + UInt8.ofNat (n + 1) = sp + 1 + UInt8.ofNat n := by
  rw [UInt8.ofNat_add]
  grind

theorem toNat_add_ofNat_ne {n : Nat} (near : n + 1 < 256) (sp : UInt8) :
    (sp + UInt8.ofNat n).toNat ≠ (sp - 1).toNat := by
  intro same
  simp only [UInt8.toNat_add, UInt8.toNat_sub, UInt8.toNat_ofNat', UInt8.toNat_ofNat] at same
  omega

namespace Refines

variable {start machine other : Machine size} {stack : List UInt8} {deepest : Nat}

theorem refl (start : Machine size) : Refines start [] 0 start where
  length_le := Nat.le_refl 0
  deepest_le := Nat.zero_le 256
  sp_eq := by simp
  cells_eq := by simp
  frame _ _ := rfl

theorem of_same (refines : Refines start stack deepest machine)
    (sameSp : other.sp = machine.sp) (sameMemory : other.memory = machine.memory) :
    Refines start stack deepest other where
  length_le := refines.length_le
  deepest_le := refines.deepest_le
  sp_eq := by rw [sameSp, refines.sp_eq]
  cells_eq := by rw [sameSp, sameMemory]; exact refines.cells_eq
  frame := by rw [sameMemory]; exact refines.frame

theorem push {memory : Memory size} {value : UInt8}
    (refines : Refines start stack deepest machine) (bounded : stack.length + 1 ≤ 256)
    (written : machine.memory.write (machine.sp - 1).toNat value = .ok memory)
    (movedSp : other.sp = machine.sp - 1) (sameMemory : other.memory = memory) :
    Refines start (value :: stack) (max deepest (stack.length + 1)) other where
  length_le := Nat.le_max_right _ _
  deepest_le := Nat.max_le.mpr ⟨refines.deepest_le, bounded⟩
  sp_eq := by rw [movedSp, refines.sp_eq, List.length_cons, sub_ofNat_succ]
  cells_eq := by
    intro i inside
    rw [movedSp, sameMemory, Memory.getElem?_write written]
    cases i with
    | zero => simp
    | succ i =>
        have inStack : i < stack.length := by simpa using inside
        have address : machine.sp - 1 + UInt8.ofNat (i + 1) = machine.sp + UInt8.ofNat i := by
          rw [add_ofNat_succ]
          grind
        have apart := toNat_add_ofNat_ne (n := i) (by omega) machine.sp
        rw [address, if_neg apart, refines.cells_eq i inStack, List.getElem?_cons_succ]
  frame := by
    intro address untouched
    -- The cell written is the one that the longer list reaches first.
    have apart : address ≠ (machine.sp - 1).toNat := by
      rw [refines.sp_eq, ← sub_ofNat_succ]
      exact untouched (stack.length + 1) (by omega) (Nat.le_max_right _ _)
    rw [sameMemory, Memory.getElem?_write written, if_neg apart]
    exact refines.frame address fun j atLeast atMost =>
      untouched j atLeast (Nat.le_trans atMost (Nat.le_max_left _ _))

theorem pop {front : UInt8} (refines : Refines start (front :: stack) deepest machine)
    (movedSp : other.sp = machine.sp + 1) (sameMemory : other.memory = machine.memory) :
    Refines start stack deepest other where
  length_le := Nat.le_of_succ_le refines.length_le
  deepest_le := refines.deepest_le
  sp_eq := by
    rw [movedSp, refines.sp_eq, List.length_cons, sub_ofNat_succ]
    grind
  cells_eq := by
    intro i inside
    rw [movedSp, sameMemory, ← add_ofNat_succ]
    exact refines.cells_eq (i + 1) (Nat.succ_lt_succ inside)
  frame := by rw [sameMemory]; exact refines.frame

theorem top_eq {front : UInt8} (refines : Refines start (front :: stack) deepest machine) :
    machine.top = .ok front := by
  have onTop := refines.cells_eq 0 (Nat.zero_lt_succ _)
  exact Memory.read_eq_ok_iff.mpr (by simpa using onTop)

theorem step {instruction : Instruction} {room : Room} {following : List UInt8}
    (refines : Refines start stack deepest machine)
    (passed : (instruction.execute machine room).fault = none)
    (followed : after machine stack instruction = some following)
    (bounded : following.length ≤ 256) :
    Refines start following (max deepest following.length)
      (instruction.execute machine room).machine := by
  obtain ⟨effect, pc, rule, -, -, reached⟩ := Instruction.exists_outcome_of_passed passed
  rw [reached]
  have unchanged : max deepest stack.length = deepest := Nat.max_eq_left refines.length_le
  cases rule with
  | push named written =>
      cases (after_push named).symm.trans followed
      exact refines.push bounded written rfl rfl
  | call named written =>
      cases followed
      exact refines.push bounded written rfl rfl
  | pop onTop stored =>
      obtain ⟨named, rfl⟩ := Registers.set_eq_ok_iff.mp stored
      cases stack with
      | nil => cases followed
      | cons front rest =>
          cases followed
          have shorter : max deepest following.length = deepest :=
            Nat.max_eq_left (Nat.le_of_succ_le refines.length_le)
          rw [shorter]
          exact refines.pop rfl rfl
  | ret onTop =>
      cases stack with
      | nil => cases followed
      | cons front rest =>
          cases followed
          rw [unchanged]
          exact refines.of_same rfl rfl
  | ldi stored =>
      cases followed
      obtain ⟨named, rfl⟩ := Registers.set_eq_ok_iff.mp stored
      rw [unchanged]
      exact refines.of_same rfl rfl
  | alu applied =>
      cases followed
      rw [unchanged]
      exact refines.of_same (Registers.pointers_of_apply applied).2 rfl
  | hlt | prn named | jmp named | jeq named | jne named =>
      cases followed
      rw [unchanged]
      exact refines.of_same rfl rfl

end Refines

theorem Run.refines {start machine : Machine size} {calls : List Instruction}
    {stack : List UInt8} {deepest : Nat} (run : Run start calls machine stack deepest) :
    Refines start stack deepest machine := by
  induction run with
  | start => exact .refl start
  | next room before passed followed bounded inductionHypothesis =>
      exact inductionHypothesis.step passed followed bounded

variable {start machine : Machine size} {calls : List Instruction} {stack : List UInt8}
  {deepest : Nat} {front : UInt8}

theorem Refines.get_of_pop {register : UInt8} {room : Room}
    (refines : Refines start (front :: stack) deepest machine)
    (passed : ((Instruction.pop register).execute machine room).fault = none) :
    ((Instruction.pop register).execute machine room).machine.get register = .ok front := by
  obtain ⟨effect, pc, rule, -, -, reached⟩ := Instruction.exists_outcome_of_passed passed
  rw [reached]
  cases rule with
  | pop onTop stored =>
      cases onTop.symm.trans refines.top_eq
      obtain ⟨named, rfl⟩ := Registers.set_eq_ok_iff.mp stored
      exact Registers.get_eq_ok_iff.mpr (by simp [named])

theorem execute_ret_of_top (onTop : machine.top = .ok front) (room : Room) :
    Instruction.ret.execute machine room =
      { machine := { machine with pc := front }, room, log := [.executed (.ret front)] } := by
  have wentOn : Effect.goOn { machine, executed := .ret front, target := some front }
      Instruction.ret.length = .ok { machine with pc := front } := rfl
  rw [Instruction.execute_of_rule (.ret onTop) (by simp [Effect.text]) wentOn]
  simp [Effect.text]

theorem top_of_call {register : UInt8} {room : Room}
    (passed : ((Instruction.call register).execute machine room).fault = none) :
    ((Instruction.call register).execute machine room).machine.sp = machine.sp - 1 ∧
      ((Instruction.call register).execute machine room).machine.top = .ok (machine.pc + 2) := by
  obtain ⟨effect, pc, rule, -, -, reached⟩ := Instruction.exists_outcome_of_passed passed
  rw [reached]
  cases rule with
  | call named written =>
      refine ⟨rfl, Memory.read_eq_ok_iff.mpr ?_⟩
      simp [Memory.getElem?_write written]

/-- A body that popped all it pushed leaves the byte alone that its stack began below, unless the
stack went all the way round to it. -/
theorem Refines.top_of_balanced (balanced : Refines start [] deepest machine)
    (shallow : deepest < 256) (onTop : start.top = .ok front) :
    machine.sp = start.sp ∧ machine.top = .ok front := by
  have sameSp : machine.sp = start.sp := by simpa using balanced.sp_eq
  have untouched : machine.memory.cells[start.sp.toNat]? = start.memory.cells[start.sp.toNat]? := by
    apply balanced.frame
    intro j atLeast atMost same
    have byte := start.sp.toNat_lt
    simp only [UInt8.toNat_sub, UInt8.toNat_ofNat'] at same
    omega
  refine ⟨sameSp, Memory.read_eq_ok_iff.mpr ?_⟩
  rw [sameSp, untouched]
  exact Memory.read_eq_ok_iff.mp onTop

/-- At every moment of a run the bytes of the list lie in memory from the stack pointer on, which
stands as many cells below its start as there are bytes, and cells that the stack has not reached
are as they were. A pop takes the front of the list, a return goes to it: behind the call whose body
popped all it pushed, with the stack pointer left one below where the call found it. -/
theorem run_refines_list (run : Run start calls machine stack deepest) :
    machine.sp = start.sp - UInt8.ofNat stack.length ∧
    (∀ i < stack.length,
      machine.memory.cells[(machine.sp + UInt8.ofNat i).toNat]? = stack[i]?) ∧
    (∀ address,
      (∀ j, 1 ≤ j → j ≤ deepest → address ≠ (start.sp - UInt8.ofNat j).toNat) →
      machine.memory.cells[address]? = start.memory.cells[address]?) ∧
    (∀ front rest, stack = front :: rest →
      (∀ register room, ((Instruction.pop register).execute machine room).fault = none →
        ((Instruction.pop register).execute machine room).machine.get register = .ok front) ∧
      (∀ room, (Instruction.ret.execute machine room).fault = none ∧
        (Instruction.ret.execute machine room).machine = { machine with pc := front })) ∧
    (∀ register room body returning depth,
      ((Instruction.call register).execute machine room).fault = none →
      Run ((Instruction.call register).execute machine room).machine body returning [] depth →
      depth < 256 →
      ∀ room, (Instruction.ret.execute returning room).fault = none ∧
        (Instruction.ret.execute returning room).machine =
          { returning with pc := machine.pc + 2, sp := machine.sp - 1 }) := by
  have refines := run.refines
  refine ⟨refines.sp_eq, refines.cells_eq, refines.frame, ?_, ?_⟩
  · rintro front rest rfl
    refine ⟨fun register room passed => refines.get_of_pop passed, fun room => ?_⟩
    rw [execute_ret_of_top refines.top_eq]
    exact ⟨rfl, rfl⟩
  · intro register room body returning depth passed balanced shallow later
    obtain ⟨calledSp, calledTop⟩ := top_of_call passed
    obtain ⟨sameSp, sameTop⟩ := balanced.refines.top_of_balanced shallow calledTop
    rw [execute_ret_of_top sameTop, ← calledSp, ← sameSp]
    exact ⟨rfl, rfl⟩

/-- A push and a call from address 0 wrap to the last two cells. The return leads behind the call. -/
theorem run_refines_list_around_zero :
    let start : Machine 256 := { memory := .zero 256, general := #v[7, 16, 0, 0, 0, 0, 0, 0] }
    ∃ machine, Run start [.push 0, .call 1] machine [4, 7] 2 ∧
      machine.sp = 254 ∧
      machine.memory.cells[254]? = some 4 ∧ machine.memory.cells[255]? = some 7 ∧
      (Instruction.ret.execute machine none).machine = { machine with pc := 4 } := by
  intro start
  have pushed : Run start ([] ++ [.push 0]) _ [7] 1 :=
    .next none .start (by decide) rfl (by decide)
  obtain ⟨machine, called⟩ : ∃ machine, Run start ([.push 0] ++ [.call 1]) machine [4, 7] 2 :=
    ⟨_, .next none pushed (by decide) rfl (by decide)⟩
  obtain ⟨pointer, cells, -, onTop, -⟩ := run_refines_list called
  have wrapped : machine.sp = 254 := pointer
  rw [wrapped] at cells
  refine ⟨machine, called, wrapped, cells 0 (by decide), cells 1 (by decide), ?_⟩
  exact ((onTop 4 [7] rfl).2 none).2

end EightBit.Stack
