import EightBit.Proofs.Run

/-!
The flags remember the latest comparison. Nothing but a comparison changes them, so a conditional
jump depends on the values that were compared last, whatever has become of them since.
-/

namespace EightBit

variable {size : Nat}

theorem Registers.fl_of_apply {registers next : Registers} {operation : Operation} {a b : UInt8}
    (applied : registers.apply operation a b = .ok next) (arithmetic : operation ≠ .cmp) :
    next.fl = registers.fl := by
  obtain ⟨x, y, -, -, applied⟩ := apply_eq_ok_iff.mp applied
  cases operation with
  | add | mul =>
      obtain ⟨named, rfl⟩ := set_eq_ok_iff.mp applied
      rfl
  | cmp => contradiction

theorem Rule.fl_eq {machine : Machine size} {instruction : Instruction} {effect : Effect size}
    (rule : Rule machine instruction effect) (other : ∀ a b, instruction ≠ .alu .cmp a b) :
    effect.machine.fl = machine.fl := by
  cases rule with
  | pop onTop stored =>
      obtain ⟨named, rfl⟩ := Registers.set_eq_ok_iff.mp stored
      rfl
  | ldi stored =>
      obtain ⟨named, rfl⟩ := Registers.set_eq_ok_iff.mp stored
      rfl
  | @alu operation a b _ applied =>
      apply Registers.fl_of_apply applied
      rintro rfl
      exact other a b rfl
  | _ => rfl

/-- Cycles without a fault lead from `start` to a machine, each with an output of its own. Beside the
machine stand the values that were compared last, as they were when they were compared. -/
inductive Compared (start : Machine size) : Machine size → Option (UInt8 × UInt8) → Prop where
  | start : Compared start start none
  | compare {machine : Machine size} {latest : Option (UInt8 × UInt8)} {a b x y : UInt8}
      (room : Room) :
      Compared start machine latest →
      machine.fetch = .ok (.alu .cmp a b) →
      machine.get a = .ok x →
      machine.get b = .ok y →
      (machine.cycle room).fault = none →
      Compared start (machine.cycle room).machine (some (x, y))
  | other {machine : Machine size} {latest : Option (UInt8 × UInt8)} (room : Room) :
      Compared start machine latest →
      (∀ a b, machine.fetch ≠ .ok (.alu .cmp a b)) →
      (machine.cycle room).fault = none →
      Compared start (machine.cycle room).machine latest

namespace Compared

variable {start machine : Machine size} {latest : Option (UInt8 × UInt8)}

theorem exists_next (compared : Compared start machine latest) {room : Room}
    (passed : (machine.cycle room).fault = none) :
    ∃ next, Compared start (machine.cycle room).machine next := by
  by_cases comparing : ∃ a b, machine.fetch = .ok (.alu .cmp a b)
  · obtain ⟨a, b, fetched⟩ := comparing
    obtain ⟨instruction, effect, pc, fetchedToo, rule, -, -⟩ :=
      Machine.exists_outcome_of_passed passed
    cases fetched.symm.trans fetchedToo
    cases rule with
    | alu applied =>
        obtain ⟨x, y, foundA, foundB, -⟩ := Registers.apply_eq_ok_iff.mp applied
        exact ⟨some (x, y), .compare room compared fetched foundA foundB passed⟩
  · refine ⟨latest, .other room compared ?_ passed⟩
    intro a b fetched
    exact comparing ⟨a, b, fetched⟩

theorem exists_of_cycles {room : Room} {n : Nat} (passed : (start.cycles n room).fault = none) :
    ∃ latest, Compared start (start.cycles n room).machine latest := by
  induction n with
  | zero => exact ⟨none, .start⟩
  | succ n inductionHypothesis =>
      obtain ⟨before, last⟩ := Machine.passed_of_succ passed
      obtain ⟨latest, compared⟩ := inductionHypothesis before
      rw [Machine.cycles_succ_of_passed before]
      exact compared.exists_next last

/-- The flags are those of the latest comparison, or still those of the start. -/
theorem fl_eq (compared : Compared start machine latest) :
    machine.fl = (latest.map fun (x, y) => Flag.compare x y).getD start.fl := by
  induction compared with
  | start => rfl
  | compare room before fetched foundA foundB passed inductionHypothesis =>
      obtain ⟨instruction, effect, pc, fetchedToo, rule, -, reached⟩ :=
        Machine.exists_outcome_of_passed passed
      cases fetched.symm.trans fetchedToo
      rw [reached]
      cases rule with
      | alu applied =>
          obtain ⟨x, y, foundAToo, foundBToo, rfl⟩ := Registers.apply_eq_ok_iff.mp applied
          cases foundA.symm.trans foundAToo
          cases foundB.symm.trans foundBToo
          rfl
  | other room before others passed inductionHypothesis =>
      obtain ⟨instruction, effect, pc, fetched, rule, -, reached⟩ :=
        Machine.exists_outcome_of_passed passed
      rw [← inductionHypothesis, reached]
      apply rule.fl_eq
      rintro a b rfl
      exact others a b fetched

end Compared

theorem Flag.compare_cases (x y : UInt8) :
    x = y ∧ compare x y = equal ∨ x < y ∧ compare x y = less ∨ y < x ∧ compare x y = greater := by
  unfold compare
  by_cases same : x = y
  · exact .inl ⟨same, if_pos same⟩
  · rw [if_neg same]
    by_cases below : x < y
    · exact .inr (.inl ⟨below, if_pos below⟩)
    · have above : y < x := UInt8.lt_of_le_of_ne (UInt8.not_lt.mp below) (Ne.symm same)
      exact .inr (.inr ⟨above, if_neg below⟩)

theorem Flag.compare_spec (x y : UInt8) :
    (∃ bit < 8, (compare x y).toNat = 1 <<< bit) ∧
    (compare x y = equal ↔ x = y) ∧ (compare x y = less ↔ x < y) ∧
    (compare x y = greater ↔ y < x) := by
  rcases compare_cases x y with ⟨rfl, flag⟩ | ⟨below, flag⟩ | ⟨above, flag⟩
  · have irreflexive := UInt8.lt_irrefl x
    rw [flag]
    exact ⟨⟨0, by decide⟩, by simp [irreflexive, equal, less, greater]⟩
  · have differ := UInt8.ne_of_lt below
    have notAbove := UInt8.lt_asymm below
    rw [flag]
    exact ⟨⟨2, by decide⟩, by simp [below, differ, notAbove, equal, less, greater]⟩
  · have differ := (UInt8.ne_of_lt above).symm
    have notBelow := UInt8.lt_asymm above
    rw [flag]
    exact ⟨⟨1, by decide⟩, by simp [above, differ, notBelow, equal, less, greater]⟩

theorem Flag.compare_and_equal (x y : UInt8) :
    compare x y &&& equal ≠ 0 ↔ x = y := by
  rw [← (compare_spec x y).2.1]
  rcases compare_cases x y with ⟨-, flag⟩ | ⟨-, flag⟩ | ⟨-, flag⟩ <;> rw [flag] <;> decide

theorem Compared.equal_iff {start machine : Machine size} {latest : Option (UInt8 × UInt8)}
    (compared : Compared start machine latest) (clear : start.fl = 0) :
    machine.equal = true ↔ ∃ x, latest = some (x, x) := by
  rw [Registers.equal, compared.fl_eq, clear, bne_iff_ne]
  cases latest with
  | none => simp
  | some values =>
      obtain ⟨x, y⟩ := values
      rw [Option.map_some, Option.getD_some, Flag.compare_and_equal]
      grind

def Instruction.jumps (instruction : Instruction) (machine : Machine size) : Bool :=
  match instruction.effect machine with
  | .ok effect => effect.target.isSome
  | .error _ => false

namespace Instruction

variable {machine : Machine size} {register target : UInt8}

theorem jumps_jeq (named : machine.get register = .ok target) :
    (jeq register).jumps machine = machine.equal := by
  rw [jumps, (Rule.jeq named).effect_eq_ok]
  cases machine.equal <;> rfl

theorem jumps_jne (named : machine.get register = .ok target) :
    (jne register).jumps machine = !machine.equal := by
  rw [jumps, (Rule.jne named).effect_eq_ok]
  cases machine.equal <;> rfl

/-- A conditional jump does nothing but move the program counter: to the address in its register if
it is taken, and else to the address behind its two bytes. -/
theorem execute_conditional {instruction : Instruction}
    (conditional : instruction ∈ [jeq register, jne register])
    (named : machine.get register = .ok target) (room : Room) :
    (instruction.jumps machine = true →
      (instruction.execute machine room).fault = none ∧
        (instruction.execute machine room).machine = { machine with pc := target }) ∧
    (instruction.jumps machine = false → (instruction.execute machine room).fault = none →
      ∃ pc, pc.toNat = machine.pc.toNat + 2 ∧
        (instruction.execute machine room).machine = { machine with pc }) := by
  obtain ⟨effect, rule, same, silent, length, goesTo⟩ : ∃ effect : Effect size,
      Rule machine instruction effect ∧ effect.machine = machine ∧ effect.text = "" ∧
        instruction.length = 2 ∧
        effect.target = if instruction.jumps machine then some target else none := by
    simp only [List.mem_cons, List.not_mem_nil, or_false] at conditional
    rcases conditional with rfl | rfl
    · rw [jumps_jeq named]
      exact ⟨_, .jeq named, rfl, rfl, rfl, rfl⟩
    · rw [jumps_jne named]
      exact ⟨_, .jne named, rfl, rfl, rfl, rfl⟩
  constructor
  · intro taken
    rw [if_pos taken] at goesTo
    have complete : (room.deliver effect.text).complete = true := by simp [silent]
    have wentOn : effect.goOn instruction.length = .ok { effect.machine with pc := target } :=
      Effect.goOn_eq_ok_iff.mpr ⟨target, rfl, .inl goesTo⟩
    rw [execute_of_rule rule complete wentOn, same]
    exact ⟨rfl, rfl⟩
  · intro untaken passed
    obtain ⟨effectToo, pc, ruleToo, -, moved, reached⟩ := exists_outcome_of_passed passed
    cases rule.effect_eq_ok.symm.trans ruleToo.effect_eq_ok
    rw [reached]
    rcases moved with jumped | ⟨-, behind⟩
    · simp [goesTo, untaken] at jumped
    · refine ⟨pc, ?_, by rw [same]⟩
      rwa [length] at behind

end Instruction

/-- From cleared flags on the flags are clear until the first comparison, and from then on say how
the values of the latest comparison related. So a jump if equal is taken exactly if there was a
comparison and the latest one found equal values, and a jump if not equal exactly if not. -/
theorem flags_remember_latest_comparison {start : Machine size} (clear : start.fl = 0) :
    (∀ room n, (start.cycles n room).fault = none →
      ∃ latest, Compared start (start.cycles n room).machine latest) ∧
    ∀ machine latest, Compared start machine latest →
      (latest = none → machine.fl = 0) ∧
      (∀ x y, latest = some (x, y) →
        (∃ bit < 8, machine.fl.toNat = 1 <<< bit) ∧
        (machine.fl = Flag.equal ↔ x = y) ∧ (machine.fl = Flag.less ↔ x < y) ∧
        (machine.fl = Flag.greater ↔ y < x)) ∧
      (∀ register target, machine.get register = .ok target →
        ((Instruction.jeq register).jumps machine = true ↔ ∃ x, latest = some (x, x)) ∧
        ((Instruction.jne register).jumps machine = true ↔ ¬ ∃ x, latest = some (x, x)) ∧
        (Instruction.jeq register).jumps machine = !(Instruction.jne register).jumps machine ∧
        ∀ instruction ∈ [Instruction.jeq register, .jne register], ∀ room,
          (machine.fetch = .ok instruction →
            machine.cycle room = instruction.execute machine room) ∧
          (instruction.jumps machine = true →
            (instruction.execute machine room).fault = none ∧
              (instruction.execute machine room).machine = { machine with pc := target }) ∧
          (instruction.jumps machine = false →
            (instruction.execute machine room).fault = none →
            ∃ pc, pc.toNat = machine.pc.toNat + 2 ∧
              (instruction.execute machine room).machine = { machine with pc })) := by
  refine ⟨fun room n passed => Compared.exists_of_cycles passed, ?_⟩
  intro machine latest compared
  have flags := compared.fl_eq
  refine ⟨?_, ?_, ?_⟩
  · rintro rfl
    exact flags.trans clear
  · rintro x y rfl
    rw [flags]
    exact Flag.compare_spec x y
  · intro register target named
    rw [Instruction.jumps_jeq named, Instruction.jumps_jne named, Bool.not_not,
      ← compared.equal_iff clear]
    refine ⟨Iff.rfl, by simp, rfl, fun instruction conditional room => ?_⟩
    exact ⟨Machine.cycle_of_fetch, Instruction.execute_conditional conditional named room⟩

/-- Equal values are compared, and one of them is overwritten. The jump is still taken. -/
theorem flags_remember_overwritten_value :
    let start : Machine 16 :=
      { memory := ⟨#v[0xA7, 0, 1, 0x82, 0, 9, 0x55, 2, 1, 0, 0, 0, 0, 0, 0, 0]⟩
        general := #v[7, 7, 12, 0, 0, 0, 0, 0] }
    let behind := (start.cycle none).machine
    let machine := (behind.cycle none).machine
    start.fl = 0 ∧ Compared start machine (some (7, 7)) ∧ machine.general[0] = 9 ∧
      machine.fl = Flag.equal ∧ (Instruction.jeq 2).jumps machine = true ∧
      (machine.cycle none).machine = { machine with pc := 12 } ∧
      (Instruction.jne 2).jumps machine = false := by
  intro start behind machine
  have comparing : start.fetch = .ok (.alu .cmp 0 1) :=
    Machine.fetch_eq_ok_iff.mpr ⟨.cmp, 0, 1, by decide⟩
  have loading : behind.fetch = .ok (.ldi 0 9) :=
    Machine.fetch_eq_ok_iff.mpr ⟨.ldi, 0, 9, by decide⟩
  have jumping : machine.fetch = .ok (.jeq 2) :=
    Machine.fetch_eq_ok_iff.mpr ⟨.jeq, 2, 1, by decide⟩
  have target : machine.get 2 = .ok 12 := Registers.get_eq_ok_iff.mpr (by decide)
  have compared : Compared start machine (some (7, 7)) := by
    refine .other none (.compare none .start comparing rfl rfl (by decide)) ?_ (by decide)
    intro a b fetched
    cases loading.symm.trans fetched
  have cleared : start.fl = 0 := rfl
  obtain ⟨-, always⟩ := flags_remember_latest_comparison cleared
  obtain ⟨-, flags, jumps⟩ := always machine _ compared
  obtain ⟨jumpsIfEqual, -, opposite, outcomes⟩ := jumps 2 12 target
  have taken : (Instruction.jeq 2).jumps machine = true := jumpsIfEqual.mpr ⟨7, rfl⟩
  obtain ⟨fetches, jumped, -⟩ := outcomes (.jeq 2) List.mem_cons_self none
  refine ⟨cleared, compared, by decide, (flags 7 7 rfl).2.1.mpr rfl, taken, ?_, ?_⟩
  · rw [fetches jumping]
    exact (jumped taken).2
  · rw [taken] at opposite
    simpa using opposite.symm

end EightBit
