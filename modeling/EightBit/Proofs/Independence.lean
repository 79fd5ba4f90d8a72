import EightBit.Proofs.Rule

/-!
Instructions that have nothing to do with each other can change places. What an instruction reads and
writes is listed by resources, its own way through the program left aside: the general registers, the
flags, the mark of having halted, the output, and the stack, which is the stack pointer with all of
memory. An instruction changes no resource that it does not write, and what it writes depends on
nothing but the resources it reads. So two instructions of which neither writes what the other one
reads or writes lead to the same machine in both orders.
-/

namespace EightBit

variable {size : Nat}

inductive Resource where
  | register (index : Fin 8)
  | flags
  | halted
  | output
  /-- The stack pointer and the memory. -/
  | stack
  deriving DecidableEq, Repr

def Resource.named (index : UInt8) : List Resource :=
  if h : index.toNat < 8 then [.register ⟨index.toNat, h⟩] else []

theorem Resource.mem_named {index : UInt8} {resource : Resource} :
    resource ∈ named index ↔ ∃ h : index.toNat < 8, resource = .register ⟨index.toNat, h⟩ := by
  by_cases h : index.toNat < 8
  · simp [named, h]
  · simp [named, h]

namespace Instruction

/-- What an instruction depends on, besides the program counter. -/
def reads : Instruction → List Resource
  | hlt | ldi _ _ => []
  | ret | pop _ => [.stack]
  | push register | call register => .stack :: Resource.named register
  | prn register | jmp register => Resource.named register
  | jeq register | jne register => .flags :: Resource.named register
  | alu _ a b => Resource.named a ++ Resource.named b

/-- What an instruction may change, besides the program counter. -/
def writes : Instruction → List Resource
  | hlt => [.halted]
  | ret | jmp _ | jeq _ | jne _ => []
  | push _ | call _ => [.stack]
  | pop register => .stack :: Resource.named register
  | prn _ => [.output]
  | ldi register _ => Resource.named register
  | alu .cmp _ _ => [.flags]
  | alu .add a _ | alu .mul a _ => Resource.named a

/-- True of the instructions that have nothing to do with the program counter but to go on behind
them. -/
def isPlain : Instruction → Bool
  | ret | call _ | jmp _ | jeq _ | jne _ => false
  | _ => true

/-- Neither of two instructions writes what the other one reads or writes. -/
structure Independent (first second : Instruction) : Prop where
  forth : ∀ resource ∈ first.writes, resource ∉ second.reads ∧ resource ∉ second.writes
  back : ∀ resource ∈ second.writes, resource ∉ first.reads ∧ resource ∉ first.writes

theorem Independent.symm {first second : Instruction} (independent : Independent first second) :
    Independent second first :=
  ⟨independent.back, independent.forth⟩

end Instruction

inductive Content (size : Nat) where
  | byte (value : UInt8)
  | mark (set : Bool)
  | stack (pointer : UInt8) (memory : Memory size)
  /-- The output is not a part of the machine. -/
  | outside

namespace Machine

def content (machine : Machine size) : Resource → Content size
  | .register ⟨index, _⟩ => .byte machine.general[index]
  | .flags => .byte machine.fl
  | .halted => .mark machine.halted
  | .output => .outside
  | .stack => .stack machine.sp machine.memory

/-- There is nothing more to a machine than its resources and its program counter. -/
theorem eq_of_content {first second : Machine size} (samePc : first.pc = second.pc)
    (same : ∀ resource, first.content resource = second.content resource) : first = second := by
  obtain ⟨⟨general, pc, sp, fl⟩, memory, halted⟩ := first
  obtain ⟨⟨otherGeneral, otherPc, otherSp, otherFl⟩, otherMemory, otherHalted⟩ := second
  cases samePc
  cases same .flags
  cases same .halted
  cases same .stack
  have sameGeneral : general = otherGeneral := by
    apply Vector.ext
    intro i inside
    have sameByte := same (.register ⟨i, inside⟩)
    simpa [content] using sameByte
  rw [sameGeneral]

variable {machine other : Machine size} {registers : Registers} {register value : UInt8}

theorem content_at_pc (machine : Machine size) (pc : UInt8) (resource : Resource) :
    content { machine with pc } resource = machine.content resource := by
  cases resource <;> rfl

theorem get_of_agree (found : machine.get register = .ok value)
    (agree : ∀ resource ∈ Resource.named register,
      other.content resource = machine.content resource) :
    other.get register = .ok value := by
  have named := Registers.named_of_get found
  have same := agree _ (Resource.mem_named.mpr ⟨named, rfl⟩)
  rw [Registers.get_of_named _ named] at found ⊢
  cases found
  simpa [content] using same

theorem content_of_set (stored : machine.set register value = .ok registers)
    (resource : Resource) :
    content { machine with toRegisters := registers } resource =
      if resource ∈ Resource.named register then .byte value else machine.content resource := by
  obtain ⟨named, rfl⟩ := Registers.set_eq_ok_iff.mp stored
  cases resource with
  | register index =>
      obtain ⟨index, inside⟩ := index
      by_cases own : index = register.toNat
      · simp [content, Resource.mem_named, own, named]
      · simp [content, Resource.mem_named, own, Ne.symm own]
  | _ => simp [content, Resource.mem_named]

theorem exists_set_alike (stored : machine.set register value = .ok registers)
    (other : Machine size) :
    ∃ next, other.set register value = .ok next ∧
      ∀ resource ∈ Resource.named register,
        content { other with toRegisters := next } resource =
          content { machine with toRegisters := registers } resource := by
  obtain ⟨next, storedToo⟩ := other.toRegisters.exists_set (Registers.named_of_set stored) value
  refine ⟨next, storedToo, fun resource own => ?_⟩
  rw [content_of_set storedToo, content_of_set stored, if_pos own, if_pos own]

theorem content_of_stack (memory : Memory size) (sp : UInt8) (resource : Resource) :
    content { machine with memory, sp } resource =
      if resource = .stack then .stack sp memory else machine.content resource := by
  cases resource <;> rfl

theorem content_of_flags (fl : UInt8) (resource : Resource) :
    content { machine with fl } resource =
      if resource = .flags then .byte fl else machine.content resource := by
  cases resource <;> rfl

theorem content_of_halted (halted : Bool) (resource : Resource) :
    content { machine with halted } resource =
      if resource = .halted then .mark halted else machine.content resource := by
  cases resource <;> rfl

theorem content_of_pop (stored : machine.set register value = .ok registers)
    (resource : Resource) :
    content { machine with toRegisters := { registers with sp := registers.sp + 1 } } resource =
      if resource = .stack then .stack (machine.sp + 1) machine.memory
      else if resource ∈ Resource.named register then .byte value
      else machine.content resource := by
  rw [← content_of_set stored]
  obtain ⟨named, rfl⟩ := Registers.set_eq_ok_iff.mp stored
  cases resource <;> rfl

end Machine

namespace Rule

variable {machine other : Machine size} {instruction : Instruction} {effect : Effect size}
  {resource : Resource}

/-- What an instruction does not write stays as it is. -/
theorem content_eq (rule : Rule machine instruction effect)
    (untouched : resource ∉ instruction.writes) :
    effect.machine.content resource = machine.content resource := by
  cases rule with
  | hlt =>
      have apart : resource ≠ .halted := List.ne_of_not_mem_cons untouched
      rw [Machine.content_of_halted, if_neg apart]
  | push named written | call named written =>
      have apart : resource ≠ .stack := List.ne_of_not_mem_cons untouched
      rw [Machine.content_of_stack, if_neg apart]
  | pop onTop stored =>
      rw [Instruction.writes, List.mem_cons, not_or] at untouched
      obtain ⟨apart, beside⟩ := untouched
      rw [Machine.content_of_pop stored, if_neg apart, if_neg beside]
  | ldi stored =>
      rw [Machine.content_of_set stored]
      exact if_neg untouched
  | @alu operation a b registers applied =>
      obtain ⟨x, y, -, -, applied⟩ := Registers.apply_eq_ok_iff.mp applied
      cases operation with
      | add | mul =>
          rw [Machine.content_of_set applied]
          exact if_neg untouched
      | cmp =>
          cases applied
          have apart : resource ≠ .flags := List.ne_of_not_mem_cons untouched
          rw [Machine.content_of_flags, if_neg apart]
  | _ => rfl

/-- What a plain instruction does depends on nothing but what it reads: on another machine with the
same there it does the same. -/
theorem exists_of_agree (rule : Rule machine instruction effect)
    (plain : instruction.isPlain = true)
    (agree : ∀ resource ∈ instruction.reads,
      other.content resource = machine.content resource) :
    ∃ same, Rule other instruction { effect with machine := same } ∧
      ∀ resource ∈ instruction.writes,
        same.content resource = effect.machine.content resource := by
  cases rule with
  | hlt =>
      refine ⟨_, .hlt, fun resource among => ?_⟩
      cases List.mem_singleton.mp among
      rfl
  | push named written =>
      obtain ⟨agreeStack, agreeNamed⟩ := List.forall_mem_cons.mp agree
      obtain ⟨sameSp, sameMemory⟩ := Content.stack.inj agreeStack
      rw [← sameSp, ← sameMemory] at written
      refine ⟨_, .push (Machine.get_of_agree named agreeNamed) written, fun resource among => ?_⟩
      cases List.mem_singleton.mp among
      exact congrArg (fun sp => Content.stack (sp - 1) _) sameSp
  | pop onTop stored =>
      obtain ⟨sameSp, sameMemory⟩ :=
        Content.stack.inj (agree .stack (List.mem_singleton.mpr rfl))
      obtain ⟨next, storedToo, -⟩ := Machine.exists_set_alike stored other
      rw [Machine.top, ← sameSp, ← sameMemory] at onTop
      refine ⟨_, .pop onTop storedToo, fun resource among => ?_⟩
      rw [Machine.content_of_pop storedToo, Machine.content_of_pop stored, sameSp, sameMemory]
      by_cases moved : resource = .stack
      · rw [if_pos moved, if_pos moved]
      · have own := List.mem_of_ne_of_mem moved among
        rw [if_neg moved, if_neg moved, if_pos own, if_pos own]
  | prn named =>
      refine ⟨_, .prn (Machine.get_of_agree named agree), fun resource among => ?_⟩
      cases List.mem_singleton.mp among
      rfl
  | ldi stored =>
      obtain ⟨next, storedToo, same⟩ := Machine.exists_set_alike stored other
      exact ⟨_, .ldi storedToo, same⟩
  | @alu operation a b registers applied =>
      obtain ⟨x, y, foundA, foundB, applied⟩ := Registers.apply_eq_ok_iff.mp applied
      obtain ⟨agreeA, agreeB⟩ := List.forall_mem_append.mp agree
      have foundAToo := Machine.get_of_agree foundA agreeA
      have foundBToo := Machine.get_of_agree foundB agreeB
      cases operation with
      | add =>
          obtain ⟨next, storedToo, same⟩ := Machine.exists_set_alike applied other
          have appliedToo : other.apply .add a b = .ok next :=
            Registers.apply_eq_ok_iff.mpr ⟨x, y, foundAToo, foundBToo, storedToo⟩
          exact ⟨_, .alu appliedToo, same⟩
      | mul =>
          obtain ⟨next, storedToo, same⟩ := Machine.exists_set_alike applied other
          have appliedToo : other.apply .mul a b = .ok next :=
            Registers.apply_eq_ok_iff.mpr ⟨x, y, foundAToo, foundBToo, storedToo⟩
          exact ⟨_, .alu appliedToo, same⟩
      | cmp =>
          cases applied
          have appliedToo : other.apply .cmp a b =
              .ok { other.toRegisters with fl := Flag.compare x y } :=
            Registers.apply_eq_ok_iff.mpr ⟨x, y, foundAToo, foundBToo, rfl⟩
          refine ⟨{ other with fl := Flag.compare x y }, .alu appliedToo, fun resource among => ?_⟩
          cases List.mem_singleton.mp among
          rfl
  | _ => cases plain

theorem target_eq_none (rule : Rule machine instruction effect)
    (plain : instruction.isPlain = true) : effect.target = none := by
  cases rule with
  | ret | call | jmp | jeq | jne => cases plain
  | _ => rfl

theorem text_eq_empty (rule : Rule machine instruction effect)
    (silent : .output ∉ instruction.writes) : effect.text = "" := by
  cases rule with
  | prn => exact absurd (List.mem_singleton.mpr rfl) silent
  | _ => rfl

/-- Two independent instructions that take effect one after the other also do so in the other order,
and both orders leave the same in every resource. -/
theorem exists_swapped {first second : Instruction} {ofFirst ofSecond : Effect size}
    {between : UInt8} (ruleFirst : Rule machine first ofFirst)
    (ruleSecond : Rule { ofFirst.machine with pc := between } second ofSecond)
    (plainFirst : first.isPlain = true) (plainSecond : second.isPlain = true)
    (independent : first.Independent second) :
    ∃ early, Rule machine second { ofSecond with machine := early } ∧
      ∀ pc, ∃ late, Rule { early with pc } first { ofFirst with machine := late } ∧
        ∀ resource, late.content resource = ofSecond.machine.content resource := by
  have afterFirst : ∀ resource ∉ first.writes,
      Machine.content { ofFirst.machine with pc := between } resource =
        machine.content resource := by
    intro resource untouched
    exact (Machine.content_at_pc _ _ _).trans (ruleFirst.content_eq untouched)
  obtain ⟨early, ruleEarly, ofEarly⟩ := ruleSecond.exists_of_agree plainSecond
    fun resource read =>
      (afterFirst resource fun written => (independent.forth resource written).1 read).symm
  refine ⟨early, ruleEarly, fun pc => ?_⟩
  have afterSecond : ∀ resource ∉ second.writes,
      Machine.content { early with pc } resource = machine.content resource := by
    intro resource untouched
    exact (Machine.content_at_pc _ _ _).trans (ruleEarly.content_eq untouched)
  obtain ⟨late, ruleLate, ofLate⟩ := ruleFirst.exists_of_agree plainFirst
    fun resource read =>
      afterSecond resource fun written => (independent.back resource written).1 read
  refine ⟨late, ruleLate, fun resource => ?_⟩
  by_cases byFirst : resource ∈ first.writes
  · -- Written before the second instruction in one order and last in the other.
    rw [ofLate resource byFirst, ruleSecond.content_eq (independent.forth resource byFirst).2]
    exact (Machine.content_at_pc _ _ _).symm
  · have keptLate : late.content resource = Machine.content { early with pc } resource :=
      ruleLate.content_eq byFirst
    rw [keptLate, Machine.content_at_pc]
    by_cases bySecond : resource ∈ second.writes
    · exact ofEarly resource bySecond
    · rw [ruleSecond.content_eq bySecond, afterFirst resource byFirst]
      exact ruleEarly.content_eq bySecond

end Rule

theorem Outcome.andThen_of_passed {first : Outcome size} {next : Machine size → Room → Outcome size}
    {middle last : Machine size} {room left : Room} {output more : String}
    {log rest : List Machine.Event}
    (reached : first = { machine := middle, room, output, log })
    (wentOn : next middle room = { machine := last, room := left, output := more, log := rest }) :
    first.andThen next =
      { machine := last, room := left, output := output ++ more, log := log ++ rest } := by
  subst reached
  rw [andThen_of_no_fault rfl, wentOn]

theorem Room.deliver_swap {room : Room} {first second : String} (alone : first = "" ∨ second = "")
    (completeFirst : (room.deliver first).complete = true)
    (completeSecond : ((room.deliver first).room.deliver second).complete = true) :
    (room.deliver second).complete = true ∧
      ((room.deliver second).room.deliver first).complete = true ∧
      ((room.deliver second).room.deliver first).room =
        ((room.deliver first).room.deliver second).room ∧
      second ++ first = first ++ second := by
  rcases alone with rfl | rfl
  · simpa using completeSecond
  · simpa using completeFirst

namespace Instruction

variable {machine : Machine size} {room : Room} {first second : Instruction}

theorem exists_outcome_of_plain (plain : first.isPlain = true)
    (passed : (first.execute machine room).fault = none) :
    ∃ effect pc, Rule machine first effect ∧ (room.deliver effect.text).complete = true ∧
      pc.toNat = machine.pc.toNat + first.length ∧
      first.execute machine room =
        { machine := { effect.machine with pc }
          room := (room.deliver effect.text).room
          output := effect.text
          log := [.executed effect.executed] } := by
  obtain ⟨effect, pc, rule, complete, moved, reached⟩ := exists_outcome_of_passed passed
  rw [rule.target_eq_none plain] at moved
  rcases moved with ⟨⟨⟩⟩ | ⟨-, behind⟩
  exact ⟨effect, pc, rule, complete, behind, reached⟩

theorem exists_swapped_of_passed (plainFirst : first.isPlain = true)
    (plainSecond : second.isPlain = true) (independent : first.Independent second)
    (passed : ((first.execute machine room).andThen second.execute).fault = none) :
    ∃ last left output ofFirst ofSecond,
      (first.execute machine room).andThen second.execute =
        { machine := last, room := left, output, log := [ofFirst, ofSecond] } ∧
      (second.execute machine room).andThen first.execute =
        { machine := last, room := left, output, log := [ofSecond, ofFirst] } ∧
      (first.execute machine room).log = [ofFirst] ∧
      (second.execute machine room).log = [ofSecond] := by
  rw [Outcome.fault_andThen, Option.or_eq_none_iff] at passed
  obtain ⟨passedFirst, passedSecond⟩ := passed
  obtain ⟨ofFirst, between, ruleFirst, completeFirst, behindFirst, reachedFirst⟩ :=
    exists_outcome_of_plain plainFirst passedFirst
  replace passedSecond : (second.execute { ofFirst.machine with pc := between }
      (room.deliver ofFirst.text).room).fault = none := by
    rwa [reachedFirst] at passedSecond
  obtain ⟨ofSecond, last, ruleSecond, completeSecond, behindSecond, reachedSecond⟩ :=
    exists_outcome_of_plain plainSecond passedSecond
  obtain ⟨early, ruleEarly, swapped⟩ :=
    ruleFirst.exists_swapped ruleSecond plainFirst plainSecond independent
  have alone : ofFirst.text = "" ∨ ofSecond.text = "" := by
    by_cases prints : .output ∈ first.writes
    · exact .inr (ruleSecond.text_eq_empty (independent.forth _ prints).2)
    · exact .inl (ruleFirst.text_eq_empty prints)
  obtain ⟨completeEarly, completeLate, sameRoom, sameText⟩ :=
    Room.deliver_swap alone completeFirst completeSecond
  -- The program counter passes through another address, but ends at the same one.
  have inside : machine.pc.toNat + first.length + second.length ≤ 255 := by
    rw [← behindFirst, ← behindSecond]
    exact Nat.le_of_lt_succ last.toNat_lt
  obtain ⟨middle, behindEarly, reachedEarly⟩ :=
    exists_outcome_of_falls ruleEarly completeEarly (ruleSecond.target_eq_none plainSecond)
      (by omega)
  obtain ⟨late, ruleLate, same⟩ := swapped middle
  obtain ⟨lastToo, behindLate, reachedLate⟩ :=
    exists_outcome_of_falls ruleLate completeLate (ruleFirst.target_eq_none plainFirst)
      (by simp only [behindEarly]; omega)
  have samePc : lastToo = last := UInt8.toNat_inj.mp (by simp only [*]; omega)
  have sameMachine : ({ late with pc := lastToo } : Machine size) =
      { ofSecond.machine with pc := last } := by
    refine Machine.eq_of_content samePc fun resource => ?_
    rw [Machine.content_at_pc, same]
    exact (Machine.content_at_pc _ _ _).symm
  refine ⟨{ ofSecond.machine with pc := last },
    ((room.deliver ofFirst.text).room.deliver ofSecond.text).room, ofFirst.text ++ ofSecond.text,
    .executed ofFirst.executed, .executed ofSecond.executed, ?_, ?_,
    congrArg Outcome.log reachedFirst, congrArg Outcome.log reachedEarly⟩
  · exact Outcome.andThen_of_passed reachedFirst reachedSecond
  · rw [← sameMachine, ← sameRoom, ← sameText]
    exact Outcome.andThen_of_passed reachedEarly reachedLate

/-- Independent instructions commute: one order passes just if the other one does, and then both end
with the same machine, the same room left and the same output, and log the same two records, each
order in its own. -/
theorem execute_comm_of_independent (machine : Machine size) (room : Room)
    (first second : Instruction) (plainFirst : first.isPlain = true)
    (plainSecond : second.isPlain = true) (independent : first.Independent second) :
    let forth := (first.execute machine room).andThen second.execute
    let back := (second.execute machine room).andThen first.execute
    (forth.fault = none ↔ back.fault = none) ∧
      (forth.fault = none →
        back.machine = forth.machine ∧ back.room = forth.room ∧ back.output = forth.output ∧
        ∃ ofFirst ofSecond,
          (first.execute machine room).log = [ofFirst] ∧
          (second.execute machine room).log = [ofSecond] ∧
          forth.log = [ofFirst, ofSecond] ∧ back.log = [ofSecond, ofFirst]) := by
  intro forth back
  refine ⟨⟨fun passed => ?_, fun passed => ?_⟩, fun passed => ?_⟩
  · obtain ⟨last, left, output, ofFirst, ofSecond, -, backward, -, -⟩ :=
      exists_swapped_of_passed plainFirst plainSecond independent passed
    exact congrArg Outcome.fault backward
  · obtain ⟨last, left, output, ofSecond, ofFirst, -, forward, -, -⟩ :=
      exists_swapped_of_passed plainSecond plainFirst independent.symm passed
    exact congrArg Outcome.fault forward
  · obtain ⟨last, left, output, ofFirst, ofSecond, forward, backward, logFirst, logSecond⟩ :=
      exists_swapped_of_passed plainFirst plainSecond independent passed
    change forth = _ at forward
    change back = _ at backward
    rw [forward, backward]
    exact ⟨rfl, rfl, rfl, ofFirst, ofSecond, logFirst, logSecond, rfl, rfl⟩

/-- A comparison and a push of one of the compared registers. -/
theorem execute_comm_of_cmp_push :
    let machine : Machine 4 :=
      { memory := .zero 4, general := #v[7, 5, 0, 0, 0, 0, 0, 0], sp := 4 }
    let forth := ((alu .cmp 0 1).execute machine none).andThen (push 1).execute
    let back := ((push 1).execute machine none).andThen (alu .cmp 0 1).execute
    (alu .cmp 0 1).isPlain = true ∧ (push 1).isPlain = true ∧
      Independent (alu .cmp 0 1) (push 1) ∧ back.fault = none ∧ back.machine = forth.machine ∧
      forth.machine.fl = Flag.greater ∧ forth.machine.memory = ⟨#v[0, 0, 0, 5]⟩ := by
  intro machine forth back
  have independent : Independent (alu .cmp 0 1) (push 1) := ⟨by decide, by decide⟩
  have passed : forth.fault = none := by decide
  obtain ⟨both, same⟩ := execute_comm_of_independent machine none _ _ rfl rfl independent
  exact ⟨rfl, rfl, independent, both.mp passed, (same passed).1, by decide, by decide⟩

end Instruction

end EightBit
