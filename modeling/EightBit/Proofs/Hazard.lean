import EightBit.Proofs.Rule

/-!
What can stop a cycle, in the order in which it is looked for. A cycle has the fault of the first
hazard in this list that holds, and no fault if none of them does.
-/

namespace EightBit

variable {size : Nat}

/-- Something that may be wrong, and the fault that it leads to. -/
structure Hazard where
  holds : Bool
  fault : Fault

def Hazard.fault? (hazard : Hazard) : Option Fault :=
  if hazard.holds then some hazard.fault else none

def firstFault (hazards : List Hazard) : Option Fault :=
  hazards.findSome? Hazard.fault?

@[simp]
theorem firstFault_nil : firstFault [] = none := rfl

@[simp]
theorem firstFault_cons (hazard : Hazard) (rest : List Hazard) :
    firstFault (hazard :: rest) = hazard.fault?.or (firstFault rest) := by
  rw [firstFault, List.findSome?_cons]
  cases hazard.fault? <;> rfl

@[simp]
theorem firstFault_append (first second : List Hazard) :
    firstFault (first ++ second) = (firstFault first).or (firstFault second) :=
  List.findSome?_append

/-- True unless the instruction goes to an address of its own, which for a conditional jump the
lowest bit of the flags decides. -/
def Opcode.fallsThrough (opcode : Opcode) (machine : Machine size) : Bool :=
  match opcode with
  | call | ret | jmp => false
  | jeq => machine.fl &&& 1 = 0
  | jne => machine.fl &&& 1 ≠ 0
  | _ => true

def Room.isTooSmall (room : Room) (text : String) : Bool :=
  room.any fun left => left < text.length

/-- The line that printing a register gives, one that does not exist being taken for 0. -/
def Registers.printedLine (registers : Registers) (index : UInt8) : String :=
  toString (registers.general[index.toNat]?.getD 0).toNat ++ "\n"

def Opcode.operandHazards (opcode : Opcode) (a b : UInt8) (machine : Machine size) : List Hazard :=
  [ ⟨opcode ∈ [pop, ret] ∧ size ≤ machine.sp.toNat, .outOfBounds machine.sp.toNat size⟩,
    ⟨opcode ∉ [hlt, ret] ∧ 8 ≤ a.toNat, .invalidRegister a⟩,
    ⟨opcode ∈ [add, mul, cmp] ∧ 8 ≤ b.toNat, .invalidRegister b⟩,
    ⟨opcode ∈ [push, call] ∧ size ≤ (machine.sp - 1).toNat,
      .outOfBounds (machine.sp - 1).toNat size⟩ ]

/-- What can be wrong with an instruction once its operands are all right: its text does not fit
into the output, or the address behind it is no byte. -/
def Opcode.exitHazards (opcode : Opcode) (a : UInt8) (machine : Machine size) (room : Room) :
    List Hazard :=
  [ ⟨opcode = prn ∧ room.isTooSmall (machine.printedLine a), .outputFull⟩,
    ⟨opcode.fallsThrough machine ∧ 255 < machine.pc.toNat + 1 + opcode.operandCount,
      .outOfBounds (machine.pc.toNat + 1 + opcode.operandCount) size⟩ ]

/-- What can stop the cycle of an instruction with the given opcode, or of a byte that is none. -/
def Machine.hazards (machine : Machine size) (room : Room) (opcode? : Option Opcode) :
    List Hazard :=
  let pc := machine.pc.toNat
  let byte := machine.memory.cells[pc]?.getD 0
  let a := machine.memory.cells[pc + 1]?.getD 0
  let b := machine.memory.cells[pc + 2]?.getD 0
  ⟨size ≤ pc + 2, .outOfBounds (max pc size) size⟩ ::
    match opcode? with
    | none => [⟨true, .unknownOpcode byte machine.pc⟩]
    | some opcode => opcode.operandHazards a b machine ++ opcode.exitHazards a machine room

def faultOf {α : Type} : Except Fault α → Option Fault
  | .ok _ => none
  | .error fault => some fault

theorem faultOf_result {State : Type} (attempt : Attempt State) :
    faultOf attempt.result = attempt.fault := by
  cases faulted : attempt.fault <;> simp [Attempt.result, faulted, faultOf]

theorem faultOf_bind {α β : Type} {first : Except Fault α} {next : α → Except Fault β}
    (rest : Option Fault) (later : ∀ value, first = .ok value → faultOf (next value) = rest) :
    faultOf (first >>= next) = (faultOf first).or rest := by
  cases first with
  | error fault => rfl
  | ok value => exact later value rfl

theorem faultOf_bind_ok {α β : Type} (first : Except Fault α) (finish : α → β) :
    faultOf (first >>= fun value => .ok (finish value)) = faultOf first := by
  rw [faultOf_bind none (fun _ _ => rfl), Option.or_none]

theorem faultOf_bind_bind_ok {α β γ : Type} (first : Except Fault α)
    (second : α → Except Fault β) (finish : α → β → γ) {rest : Option Fault}
    (later : ∀ value, faultOf (second value) = rest) :
    faultOf (first >>= fun value => second value >>= fun result => .ok (finish value result)) =
      (faultOf first).or rest :=
  faultOf_bind rest fun value _ => (faultOf_bind_ok (second value) _).trans (later value)

theorem faultOf_of_error_iff {α : Type} {computation : Except Fault α} {fails : Prop}
    [Decidable fails] {cause : Fault}
    (error_iff : ∀ fault, computation = .error fault ↔ fails ∧ fault = cause) :
    faultOf computation = if fails then some cause else none := by
  cases computation with
  | error fault =>
      obtain ⟨failed, rfl⟩ := (error_iff fault).mp rfl
      rw [if_pos failed]
      rfl
  | ok value =>
      have passed : ¬ fails := fun failed => by
        have impossible := (error_iff cause).mpr ⟨failed, rfl⟩
        contradiction
      rw [if_neg passed]
      rfl

theorem faultOf_get (registers : Registers) (index : UInt8) :
    faultOf (registers.get index) =
      if 8 ≤ index.toNat then some (.invalidRegister index) else none :=
  faultOf_of_error_iff fun _ => Registers.get_eq_error_iff

theorem faultOf_set (registers : Registers) (index value : UInt8) :
    faultOf (registers.set index value) =
      if 8 ≤ index.toNat then some (.invalidRegister index) else none :=
  faultOf_of_error_iff fun _ => Registers.set_eq_error_iff

theorem faultOf_top (machine : Machine size) :
    faultOf machine.top = if size ≤ machine.sp.toNat then
      some (.outOfBounds machine.sp.toNat size) else none :=
  faultOf_of_error_iff fun _ => Memory.read_eq_error_iff

theorem faultOf_push (machine : Machine size) (value : UInt8) :
    faultOf (machine.push value) = if size ≤ (machine.sp - 1).toNat then
      some (.outOfBounds (machine.sp - 1).toNat size) else none := by
  rw [Machine.push, faultOf_bind_ok]
  exact faultOf_of_error_iff fun _ => Memory.write_eq_error_iff

theorem faultOf_apply (registers : Registers) (operation : Operation) (a b : UInt8) :
    faultOf (registers.apply operation a b) =
      (faultOf (registers.get a)).or (faultOf (registers.get b)) := by
  rw [Registers.apply_eq]
  apply faultOf_bind
  intro x foundA
  have named : ¬ 8 ≤ a.toNat := Nat.not_le.mpr (Registers.named_of_get foundA)
  rw [faultOf_bind none, Option.or_none]
  intro y foundB
  cases operation with
  | add | mul => rw [faultOf_set, if_neg named]
  | cmp => rfl

namespace Opcode

variable (opcode : Opcode) (a b : UInt8) (machine : Machine size) (room : Room)

theorem faultOf_effect :
    faultOf ((opcode.instruction a b).effect machine) =
      firstFault (opcode.operandHazards a b machine) := by
  cases opcode with
  | hlt => simp [instruction, Instruction.effect, operandHazards, Hazard.fault?, faultOf]
  | ret =>
      refine (faultOf_bind_ok machine.top _).trans ?_
      simp [faultOf_top, operandHazards, Hazard.fault?]
  | push =>
      refine (faultOf_bind_bind_ok (machine.get a) _ _ (faultOf_push machine)).trans ?_
      simp [faultOf_get, operandHazards, Hazard.fault?]
  | pop =>
      refine (faultOf_bind_bind_ok machine.top _ _ (faultOf_set _ a)).trans ?_
      simp [faultOf_top, operandHazards, Hazard.fault?]
  | call =>
      have stored := fun _ : UInt8 => faultOf_push machine (machine.pc + 2)
      refine (faultOf_bind_bind_ok (machine.get a) _ _ stored).trans ?_
      simp [faultOf_get, operandHazards, Hazard.fault?]
  | prn | jmp | jeq | jne =>
      refine (faultOf_bind_ok (machine.get a) _).trans ?_
      simp [faultOf_get, operandHazards, Hazard.fault?]
  | ldi =>
      refine (faultOf_bind_ok (machine.set a b) _).trans ?_
      simp [faultOf_set, operandHazards, Hazard.fault?]
  | add | mul | cmp =>
      refine (faultOf_bind_ok (machine.apply _ a b) _).trans ?_
      simp [faultOf_apply, faultOf_get, operandHazards, Hazard.fault?]

end Opcode

theorem Room.complete_deliver (room : Room) (text : String) :
    (room.deliver text).complete = !room.isTooSmall text := by
  cases room with
  | none => rfl
  | some left =>
      by_cases fits : text.length ≤ left
      · simp [deliver, isTooSmall, fits]
      · simp [deliver, isTooSmall, fits, Nat.not_le.mp fits]

theorem Room.isTooSmall_empty (room : Room) : room.isTooSmall "" = false := by
  cases room with
  | none => rfl
  | some left => simp [isTooSmall]

theorem Effect.faultOf_goOn (effect : Effect size) (length : Nat) :
    faultOf (effect.goOn length) =
      if effect.target.isNone ∧ 255 < effect.machine.pc.toNat + length then
        some (.outOfBounds (effect.machine.pc.toNat + length) size) else none := by
  cases jumps : effect.target with
  | some target => simp [goOn, jumps, faultOf]
  | none =>
      by_cases byte : effect.machine.pc.toNat + length < 256
      · have small : ¬ 255 < effect.machine.pc.toNat + length := by omega
        simp [goOn, jumps, Machine.proceed, byte, small, faultOf]
      · have large : 255 < effect.machine.pc.toNat + length := by omega
        simp [goOn, jumps, Machine.proceed, byte, large, faultOf]

namespace Rule

variable {opcode : Opcode} {a b : UInt8} {machine : Machine size} {effect : Effect size}

theorem isNone_target (rule : Rule machine (opcode.instruction a b) effect) :
    effect.target.isNone = opcode.fallsThrough machine := by
  cases opcode with
  | jeq | jne =>
      cases rule with
      | _ => by_cases unequal : machine.fl &&& 1 = 0 <;>
          simp [Opcode.fallsThrough, Registers.equal, Flag.equal, unequal]
  | _ =>
      cases rule with
      | _ => rfl

theorem text_eq (rule : Rule machine (opcode.instruction a b) effect) :
    effect.text = if opcode = .prn then machine.printedLine a else "" := by
  cases opcode with
  | prn =>
      cases rule with
      | prn named => simp [Effect.text, Registers.printedLine, Registers.get_eq_ok_iff.mp named]
  | _ =>
      cases rule with
      | _ => rfl

end Rule

/-- An instruction has the fault of its effect, and failing that a fault on the way out. -/
theorem Instruction.fault_execute {instruction : Instruction} {machine : Machine size} {room : Room}
    (exit : Option Fault)
    (later : ∀ effect, Rule machine instruction effect →
      (if (room.deliver effect.text).complete then faultOf (effect.goOn instruction.length)
        else some .outputFull) = exit) :
    (instruction.execute machine room).fault = (faultOf (instruction.effect machine)).or exit := by
  cases computed : instruction.effect machine with
  | error fault => simp [execute, computed, faultOf]
  | ok effect =>
      have onTheWay := later effect (effect_eq_ok_iff.mp computed)
      unfold execute
      cases complete : (room.deliver effect.text).complete with
      | false => simpa [computed, complete, faultOf] using onTheWay
      | true =>
          cases wentOn : effect.goOn instruction.length with
          | error fault => simpa [computed, complete, wentOn, faultOf] using onTheWay
          | ok next => simpa [computed, complete, wentOn, faultOf] using onTheWay

theorem Opcode.fault_execute (opcode : Opcode) (a b : UInt8) (machine : Machine size)
    (room : Room) :
    ((opcode.instruction a b).execute machine room).fault =
      firstFault (opcode.operandHazards a b machine ++ opcode.exitHazards a machine room) := by
  rw [Instruction.fault_execute (firstFault (opcode.exitHazards a machine room)),
    faultOf_effect, firstFault_append]
  intro effect rule
  rw [Effect.faultOf_goOn, rule.isNone_target, rule.pc_eq, Room.complete_deliver, rule.text_eq]
  have length : (opcode.instruction a b).length = 1 + opcode.operandCount := by
    rw [Instruction.length, opcode_instruction, Opcode.length]
  rw [length, ← Nat.add_assoc]
  by_cases prints : opcode = .prn
  · cases full : room.isTooSmall (machine.printedLine a) with
    | true => simp [prints, full, exitHazards, Hazard.fault?]
    | false => simp [prints, full, exitHazards, Hazard.fault?]
  · simp [prints, Room.isTooSmall_empty, exitHazards, Hazard.fault?]

namespace Machine

variable {machine : Machine size}

theorem fetch_of_short (short : size ≤ machine.pc.toNat + 2) :
    machine.fetch = .error (.outOfBounds (max machine.pc.toNat size) size) := by
  by_cases first : machine.pc.toNat < size
  · rw [Nat.max_eq_right (Nat.le_of_lt first)]
    by_cases second : machine.pc.toNat + 1 < size
    · have third : machine.pc.toNat + 2 = size := by omega
      simp [fetch, Memory.read, bind, Except.bind, first, second, third]
    · have last : machine.pc.toNat + 1 = size := by omega
      simp [fetch, Memory.read, bind, Except.bind, first, last]
  · rw [Nat.max_eq_left (Nat.not_lt.mp first)]
    simp [fetch, Memory.read, bind, Except.bind, first]

theorem fetch_of_inside (inside : machine.pc.toNat + 2 < size) :
    machine.fetch =
      let byte := machine.memory.cells[machine.pc.toNat]?.getD 0
      match Opcode.ofByte? byte with
      | some opcode => .ok (opcode.instruction
          (machine.memory.cells[machine.pc.toNat + 1]?.getD 0)
          (machine.memory.cells[machine.pc.toNat + 2]?.getD 0))
      | none => .error (.unknownOpcode byte machine.pc) := by
  have first : machine.pc.toNat < size := by omega
  have second : machine.pc.toNat + 1 < size := by omega
  rw [fetch, Memory.read_of_inside _ first, Memory.read_of_inside _ second,
    Memory.read_of_inside _ inside]
  rfl

theorem fetch_eq_error_iff {fault : Fault} :
    machine.fetch = .error fault ↔
      size ≤ machine.pc.toNat + 2 ∧ fault = .outOfBounds (max machine.pc.toNat size) size ∨
      machine.pc.toNat + 2 < size ∧ ∃ byte, machine.memory.cells[machine.pc.toNat]? = some byte ∧
        Opcode.ofByte? byte = none ∧ fault = .unknownOpcode byte machine.pc := by
  rcases Nat.lt_or_ge (machine.pc.toNat + 2) size with inside | short
  · have first : machine.pc.toNat < size := by omega
    rw [fetch_of_inside inside, Vector.getElem?_eq_getElem first]
    cases found : Opcode.ofByte? machine.memory.cells[machine.pc.toNat] with
    | none => simp [found, inside, Nat.not_le.mpr inside, eq_comm]
    | some opcode => simp [found, inside, Nat.not_le.mpr inside]
  · simp [fetch_of_short short, short, Nat.not_lt.mpr short, eq_comm]

theorem fault_cycle (machine : Machine size) (room : Room) :
    (machine.cycle room).fault = firstFault (machine.hazards room
      (Opcode.ofByte? (machine.memory.cells[machine.pc.toNat]?.getD 0))) := by
  by_cases short : size ≤ machine.pc.toNat + 2
  · simp [cycle, fetch_of_short short, hazards, short, Hazard.fault?]
  · unfold cycle
    rw [fetch_of_inside (Nat.not_le.mp short)]
    cases found : Opcode.ofByte? (machine.memory.cells[machine.pc.toNat]?.getD 0) with
    | none => simp [found, hazards, short, Hazard.fault?]
    | some opcode => simp [found, hazards, short, Hazard.fault?, Opcode.fault_execute]

end Machine

theorem firstFault_eq_none_iff {hazards : List Hazard} :
    firstFault hazards = none ↔ ∀ hazard ∈ hazards, hazard.holds = false := by
  simp [firstFault, Hazard.fault?]

theorem firstFault_eq_some_iff {hazards : List Hazard} {fault : Fault} :
    firstFault hazards = some fault ↔
      ∃ earlier hazard later, hazards = earlier ++ hazard :: later ∧
        (∀ missed ∈ earlier, missed.holds = false) ∧
        hazard.holds = true ∧ hazard.fault = fault := by
  rw [firstFault, List.findSome?_eq_some_iff]
  constructor
  · rintro ⟨earlier, hazard, later, split, found, missed⟩
    have holds : hazard.holds = true ∧ hazard.fault = fault := by simpa [Hazard.fault?] using found
    exact ⟨earlier, hazard, later, split, by simpa [Hazard.fault?] using missed, holds⟩
  · rintro ⟨earlier, hazard, later, split, missed, holds, rfl⟩
    exact ⟨earlier, hazard, later, split, by simp [Hazard.fault?, holds],
      by simpa [Hazard.fault?] using missed⟩

/-- The fault is that of the first hazard that holds, and there is none if no hazard holds. -/
def IsFirstFault (hazards : List Hazard) (fault? : Option Fault) : Prop :=
  (fault? = none ↔ ∀ hazard ∈ hazards, hazard.holds = false) ∧
  ∀ fault, fault? = some fault ↔
    ∃ earlier hazard later, hazards = earlier ++ hazard :: later ∧
      (∀ missed ∈ earlier, missed.holds = false) ∧
      hazard.holds = true ∧ hazard.fault = fault

theorem isFirstFault_firstFault (hazards : List Hazard) :
    IsFirstFault hazards (firstFault hazards) :=
  ⟨firstFault_eq_none_iff, fun _ => firstFault_eq_some_iff⟩

/-- A cycle fails if one of its hazards holds, and then with the fault of the first one that does.
Which they are is decided by the opcode that has the byte at the program counter, if there is one. -/
theorem Machine.fault_cycle_iff_hazards (machine : Machine size) (room : Room) :
    let byte := machine.memory.cells[machine.pc.toNat]?.getD 0
    (∀ opcode : Opcode, opcode.byte = byte →
      IsFirstFault (machine.hazards room (some opcode)) (machine.cycle room).fault) ∧
    ((∀ opcode : Opcode, opcode.byte ≠ byte) →
      IsFirstFault (machine.hazards room none) (machine.cycle room).fault) := by
  intro byte
  rw [fault_cycle]
  constructor
  · intro opcode here
    have decoded : Opcode.ofByte? byte = some opcode := by rw [← here, Opcode.ofByte?_byte]
    rw [decoded]
    exact isFirstFault_firstFault _
  · intro stray
    have unknown : Opcode.ofByte? byte = none := Opcode.ofByte?_eq_none_iff.mpr stray
    rw [unknown]
    exact isFirstFault_firstFault _

end EightBit
