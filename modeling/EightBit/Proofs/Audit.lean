import EightBit.Proofs.Run

/-!
The log as an account of a run. Cycles that succeed leave one record each. What these records say in
their texts is enough to find out what was printed, where the stack pointer has moved, and whether the
machine has halted.
-/

namespace EightBit

variable {size : Nat}

namespace Log.Record

def firstWord (record : Record) : String :=
  String.ofList (record.message.toList.takeWhile (· ≠ ' '))

def behindColon (record : Record) : String :=
  String.ofList ((record.message.toList.dropWhile (· ≠ ':')).drop 2)

def isAbout (record : Record) (opcode : Opcode) : Bool :=
  record.firstWord = opcode.mnemonic

theorem behindColon_eq {record : Record} {before value : String}
    (message : record.message = before ++ ": " ++ value) (noColon : ':' ∉ before.toList) :
    record.behindColon = value := by
  have passedOver : ∀ c ∈ before.toList, decide (c ≠ ':') = true := by
    intro c among
    apply decide_eq_true
    rintro rfl
    exact noColon among
  rw [behindColon, message, String.toList_append, String.toList_append, List.append_assoc,
    List.dropWhile_append_of_pos passedOver]
  exact String.ofList_toList

end Log.Record

def Opcode.countIn (opcode : Opcode) (records : List Log.Record) : Nat :=
  records.countP (·.isAbout opcode)

/-- The numbers that records of printing name, each as a line. -/
def Log.printedText (records : List Log.Record) : String :=
  String.join ((records.filter (·.isAbout .prn)).map fun record => record.behindColon ++ "\n")

/-- The records tell how a machine has got on from `start`, and what it has printed meanwhile. -/
structure Log.AccountsFor (records : List Log.Record) (start machine : Machine size)
    (output : String) : Prop where
  output_eq : output = Log.printedText records
  sp_eq : machine.sp = start.sp + UInt8.ofNat (Opcode.pop.countIn records) -
    UInt8.ofNat (Opcode.push.countIn records) - UInt8.ofNat (Opcode.call.countIn records)
  halted_iff : machine.halted = true ↔
    start.halted = true ∨ ∃ record ∈ records, record.isAbout .hlt = true

theorem Opcode.mnemonic_injective {first second : Opcode}
    (same : first.mnemonic = second.mnemonic) : first = second := by
  have found : ∀ opcode : Opcode, ofMnemonic? opcode.mnemonic = some opcode := by
    intro opcode
    cases opcode <;> rfl
  exact Option.some.inj ((found first).symm.trans (same ▸ found second))

theorem Opcode.blank_not_mem_mnemonic (opcode : Opcode) : ' ' ∉ opcode.mnemonic.toList := by
  cases opcode <;> decide

namespace Executed

def text : Executed → String
  | prn _ value => toString value.toNat ++ "\n"
  | _ => ""

def record (executed : Executed) : Log.Record :=
  Log.record (Machine.Event.executed executed)

theorem head?_details (executed : Executed) : ∀ c ∈ executed.details.toList.head?, c = ' ' := by
  cases executed <;> simp [details, registerText]

theorem firstWord_record (executed : Executed) :
    executed.record.firstWord = executed.opcode.mnemonic := by
  have message : executed.record.message.toList =
      executed.opcode.mnemonic.toList ++ executed.details.toList := String.toList_append
  have details : executed.details.toList.takeWhile (· ≠ ' ') = [] := by
    cases split : executed.details.toList with
    | nil => rfl
    | cons c rest =>
        have blank : c = ' ' := executed.head?_details c (by rw [split]; rfl)
        simp [blank]
  rw [Log.Record.firstWord, message, List.takeWhile_append_of_pos, details, List.append_nil,
    String.ofList_toList]
  intro c among
  apply decide_eq_true
  rintro rfl
  exact executed.opcode.blank_not_mem_mnemonic among

theorem isAbout_record (executed : Executed) (opcode : Opcode) :
    executed.record.isAbout opcode = decide (executed.opcode = opcode) := by
  rw [Log.Record.isAbout, firstWord_record]
  exact decide_eq_decide.mpr ⟨Opcode.mnemonic_injective, congrArg Opcode.mnemonic⟩

theorem behindColon_record (register value : UInt8) :
    (prn register value).record.behindColon = toString value.toNat := by
  have message : (prn register value).record.message =
      "PRN R" ++ toString register.toNat ++ ": " ++ toString value.toNat := by
    show "PRN" ++ (" R" ++ toString register.toNat ++ ": " ++ toString value.toNat) = _
    rw [← String.append_assoc, ← String.append_assoc, ← String.append_assoc]
    rfl
  refine Log.Record.behindColon_eq message ?_
  rw [String.toList_append, List.mem_append]
  rintro (inName | inDigits)
  · revert inName
    decide
  · have isDigit := Text.isDigit_of_mem_toString inDigits
    contradiction

end Executed

def Opcode.stackStep : Opcode → UInt8
  | pop => 1
  | push | call => -1
  | _ => 0

namespace Rule

variable {machine : Machine size} {instruction : Instruction} {effect : Effect size}

theorem opcode_executed (rule : Rule machine instruction effect) :
    effect.executed.opcode = instruction.opcode := by
  cases rule with
  | @alu operation => cases operation <;> rfl
  | _ => rfl

theorem text_executed (rule : Rule machine instruction effect) :
    effect.text = effect.executed.text := by
  cases rule with
  | @alu operation => cases operation <;> rfl
  | _ => rfl

theorem sp_eq (rule : Rule machine instruction effect) :
    effect.machine.sp = machine.sp + instruction.opcode.stackStep := by
  cases rule with
  | push | call => exact UInt8.sub_eq_add_neg _ _
  | pop onTop stored =>
      obtain ⟨named, rfl⟩ := Registers.set_eq_ok_iff.mp stored
      rfl
  | ldi stored =>
      obtain ⟨named, rfl⟩ := Registers.set_eq_ok_iff.mp stored
      exact (UInt8.add_zero _).symm
  | @alu operation _ _ _ applied =>
      have unmoved : operation.opcode.stackStep = 0 := by cases operation <;> rfl
      rw [Instruction.opcode, unmoved, UInt8.add_zero]
      exact (Registers.pointers_of_apply applied).2
  | _ => exact (UInt8.add_zero _).symm

theorem halted_iff (rule : Rule machine instruction effect) :
    effect.machine.halted = true ↔ machine.halted = true ∨ instruction.opcode = .hlt := by
  cases rule with
  | @alu operation => cases operation <;> simp [Instruction.opcode, Operation.opcode]
  | _ => simp [Instruction.opcode]

end Rule

/-- What a cycle has done, and that its entry in the log tells it. -/
structure Machine.Did (machine : Machine size) (executed : Executed) (outcome : Outcome size) :
    Prop where
  log_eq : outcome.log = [.executed executed]
  opcode_eq : machine.memory.cells[machine.pc.toNat]? = some executed.opcode.byte
  output_eq : outcome.output = executed.text
  sp_eq : outcome.machine.sp = machine.sp + executed.opcode.stackStep
  halted_iff : outcome.machine.halted = true ↔
    machine.halted = true ∨ executed.opcode = .hlt

theorem Machine.exists_did {machine : Machine size} {room : Room}
    (passed : (machine.cycle room).fault = none) :
    ∃ executed, machine.Did executed (machine.cycle room) := by
  obtain ⟨instruction, effect, pc, fetched, rule, -, reached⟩ := exists_outcome_of_passed passed
  obtain ⟨opcode, a, b, atPc, -, -, rfl⟩ := fetch_eq_ok_iff.mp fetched
  rw [← Opcode.opcode_instruction opcode a b, ← rule.opcode_executed] at atPc
  rw [reached]
  refine ⟨effect.executed, rfl, atPc, rule.text_executed, ?_, ?_⟩
  · rw [rule.opcode_executed]
    exact rule.sp_eq
  · rw [rule.opcode_executed]
    exact rule.halted_iff

theorem Opcode.countIn_append_record (opcode : Opcode) (records : List Log.Record)
    (executed : Executed) :
    opcode.countIn (records ++ [executed.record]) =
      opcode.countIn records + if executed.opcode = opcode then 1 else 0 := by
  rw [countIn, List.countP_append, List.countP_singleton, executed.isAbout_record]
  simp [countIn]

theorem Log.printedText_append_record (records : List Log.Record) (executed : Executed) :
    printedText (records ++ [executed.record]) = printedText records ++ executed.text := by
  rw [printedText, List.filter_append, List.map_append, String.join_append, ← printedText]
  apply congrArg (printedText records ++ ·)
  cases executed with
  | prn register value =>
      simp [Executed.isAbout_record, Executed.opcode, Executed.behindColon_record, Executed.text]
  | _ => simp [Executed.isAbout_record, Executed.opcode, Executed.text]

namespace Log.AccountsFor

variable {start machine : Machine size} {records : List Log.Record} {output : String}

theorem refl (machine : Machine size) : AccountsFor [] machine machine "" where
  output_eq := rfl
  sp_eq := by simp [Opcode.countIn]
  halted_iff := by simp

/-- The record of one more cycle keeps the account right. -/
theorem next {executed : Executed} {outcome : Outcome size}
    (account : AccountsFor records start machine output) (did : machine.Did executed outcome) :
    AccountsFor (records ++ [executed.record]) start outcome.machine
      (output ++ outcome.output) where
  output_eq := by
    rw [account.output_eq, did.output_eq, printedText_append_record]
  sp_eq := by
    rw [did.sp_eq, account.sp_eq, Opcode.countIn_append_record, Opcode.countIn_append_record,
      Opcode.countIn_append_record, UInt8.ofNat_add, UInt8.ofNat_add, UInt8.ofNat_add]
    cases executed.opcode with
    | pop | push | call =>
        simp only [Opcode.stackStep, ↓reduceIte, reduceCtorEq]
        grind
    | _ => simp [Opcode.stackStep]
  halted_iff := by
    rw [did.halted_iff, account.halted_iff, or_assoc]
    simp [or_and_right, exists_or, executed.isAbout_record]

end Log.AccountsFor

namespace Machine

variable {machine : Machine size} {room : Room} {n : Nat}

theorem exists_record_succ (passed : (machine.cycles (n + 1) room).fault = none) :
    ∃ executed, (machine.cycles n room).machine.Did executed (machine.cycleAfter room n) ∧
      Log.records (some .debug) (machine.cycles (n + 1) room).log =
        Log.records (some .debug) (machine.cycles n room).log ++ [executed.record] := by
  obtain ⟨before, last⟩ := passed_of_succ passed
  obtain ⟨executed, did⟩ := exists_did last
  refine ⟨executed, did, ?_⟩
  have logged : (machine.cycleAfter room n).log = [.executed executed] := did.log_eq
  rw [cycles_succ_of_passed before, Log.records_append, logged]
  rfl

theorem length_records (passed : (machine.cycles n room).fault = none) :
    (Log.records (some .debug) (machine.cycles n room).log).length = n := by
  induction n with
  | zero => rfl
  | succ n inductionHypothesis =>
      obtain ⟨executed, -, extended⟩ := exists_record_succ passed
      rw [extended, List.length_append, inductionHypothesis (passed_of_succ passed).1]
      rfl

theorem getElem?_records (passed : (machine.cycles n room).fault = none) {k : Nat}
    (below : k < n) :
    ∃ executed, (machine.cycles k room).machine.Did executed (machine.cycleAfter room k) ∧
      (Log.records (some .debug) (machine.cycles n room).log)[k]? = some executed.record := by
  induction n with
  | zero => contradiction
  | succ n inductionHypothesis =>
      have before := (passed_of_succ passed).1
      have length := length_records before
      obtain ⟨last, did, extended⟩ := exists_record_succ passed
      rcases Nat.lt_succ_iff_lt_or_eq.mp below with earlier | rfl
      · obtain ⟨executed, didEarlier, found⟩ := inductionHypothesis before earlier
        refine ⟨executed, didEarlier, ?_⟩
        rw [extended, List.getElem?_append_left (by rwa [length]), found]
      · refine ⟨last, did, ?_⟩
        rw [extended, List.getElem?_append_right (Nat.le_of_eq length), length, Nat.sub_self]
        rfl

theorem accountsFor_cycles (passed : (machine.cycles n room).fault = none) :
    Log.AccountsFor (Log.records (some .debug) (machine.cycles n room).log) machine
      (machine.cycles n room).machine (machine.cycles n room).output := by
  induction n with
  | zero => exact .refl machine
  | succ n inductionHypothesis =>
      have before := (passed_of_succ passed).1
      obtain ⟨executed, did, extended⟩ := exists_record_succ passed
      rw [extended, cycles_succ_of_passed before]
      exact (inductionHypothesis before).next did

/-- At the debug level `n` cycles that succeed leave `n` records, one for each in order, whose first
word is the name of the opcode at the program counter. What was printed are the numbers in the
records of printing, a line for each. Each pop has moved the stack pointer up by one, each push and
each call down, and nothing else has. The machine has halted if it had before or a record says so. -/
theorem records_account_for_cycles (machine : Machine size) (room : Room) (n : Nat)
    (passed : (machine.cycles n room).fault = none) :
    let reached := (machine.cycles n room).machine
    let records := Log.records (some .debug) (machine.cycles n room).log
    records.length = n ∧
    (∀ k < n, ∃ (opcode : Opcode) (record : Log.Record),
      let before := (machine.cycles k room).machine
      before.memory.cells[before.pc.toNat]? = some opcode.byte ∧ records[k]? = some record ∧
        record.level = .debug ∧ record.firstWord = opcode.mnemonic) ∧
    (machine.cycles n room).output = Log.printedText records ∧
    reached.sp = machine.sp + UInt8.ofNat (Opcode.pop.countIn records) -
      UInt8.ofNat (Opcode.push.countIn records) - UInt8.ofNat (Opcode.call.countIn records) ∧
    (reached.halted = true ↔
      machine.halted = true ∨ ∃ record ∈ records, record.isAbout .hlt = true) := by
  intro reached records
  have account : Log.AccountsFor records machine reached _ := accountsFor_cycles passed
  refine ⟨length_records passed, ?_, account.output_eq, account.sp_eq, account.halted_iff⟩
  intro k below
  obtain ⟨executed, did, found⟩ := getElem?_records passed below
  exact ⟨executed.opcode, executed.record, did.opcode_eq, found, rfl, executed.firstWord_record⟩

/-- A number is printed, and a call returns and its address is popped: one record moves the stack
pointer down, one up, and that of the return leaves it. -/
theorem records_account_for_call :
    let machine : Machine 16 :=
      { memory := ⟨#v[0x47, 0, 0x50, 1, 0x46, 2, 1, 0, 0x11, 0, 0, 0, 0, 0, 0, 0]⟩
        general := #v[7, 8, 0, 0, 0, 0, 0, 0]
        sp := 15 }
    let reached := (machine.cycles 5 none).machine
    let records := Log.records (some .debug) (machine.cycles 5 none).log
    (machine.cycles 5 none).fault = none ∧
      records.map (·.message) = ["PRN R0: 7", "CALL R1: 0x08 (return to 0x04)", "RET 0x04",
        "POP R2: 4", "HLT"] ∧
      records.length = 5 ∧ (machine.cycles 5 none).output = "7\n" ∧ reached.sp = 15 ∧
      reached.halted = true := by
  intro machine reached records
  have passed : (machine.cycles 5 none).fault = none := by decide
  have messages : records.map (·.message) = ["PRN R0: 7", "CALL R1: 0x08 (return to 0x04)",
      "RET 0x04", "POP R2: 4", "HLT"] := by decide +kernel
  have lastRecord : ∃ record ∈ records, record.isAbout .hlt = true := by decide +kernel
  obtain ⟨length, -, printed, moved, halted⟩ := records_account_for_cycles machine none 5 passed
  refine ⟨passed, messages, length, printed.trans ?_, moved.trans ?_, halted.mpr (.inr lastRecord)⟩
  · decide +kernel
  · decide +kernel

end Machine

end EightBit
