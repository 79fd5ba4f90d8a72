import EightBit.CommandLine.Session
import EightBit.Proofs.Arguments
import EightBit.Proofs.Failure
import EightBit.Proofs.Image
import EightBit.Proofs.LimitedRoom

/-!
What an invocation comes to. Its image may be no text, or too large; otherwise the machine runs, and
if the run ends the result tells how. The log is that of loading, of listing the rows and of running,
one after the other, as far as the verbosity shows their levels.
-/

namespace EightBit

namespace Log

/-- The verbosity from which on records of a level are shown. -/
def Level.shownFrom : Level → Nat
  | error | warn => 0
  | info => 1
  | debug => 2
  | trace => 3

def shown (verbosity : Nat) (records : List Record) : List Record :=
  records.filter fun record => record.level.shownFrom ≤ verbosity

theorem shown_append (verbosity : Nat) (first second : List Record) :
    shown verbosity (first ++ second) = shown verbosity first ++ shown verbosity second :=
  List.filter_append first second

theorem admits_threshold (verbosity : Nat) (level : Level) :
    (CommandLine.Request.threshold verbosity).admits level = decide (level.shownFrom ≤ verbosity) := by
  match verbosity with
  | 0 | 1 | 2 => cases level <;> rfl
  | n + 3 => cases level <;> simp [Threshold.admits, CommandLine.Request.threshold, Level.rank,
      Level.shownFrom]

theorem records_threshold {α : Type} [Entry α] (verbosity : Nat) (entries : List α) :
    records (CommandLine.Request.threshold verbosity) entries =
      shown verbosity (entries.map record) := by
  rw [records, shown, List.filter_map]
  simp only [admits_threshold]
  rfl

end Log

namespace Machine

variable {size : Nat} {machine : Machine size} {room : Room}

theorem fault_cycle_ne_outputFull (machine : Machine size) :
    (machine.cycle none).fault ≠ some .outputFull := by
  intro full
  rcases fetch_or_failure_of_faulted full with ⟨failed, -⟩ | ⟨instruction, -, failure⟩
  · rcases fetch_eq_error_iff.mp failed with ⟨-, ⟨⟩⟩ | ⟨-, byte, -, -, ⟨⟩⟩
  · obtain ⟨register, value, left, -, -, limited, -⟩ := failure.eq_of_outputFull full
    cases limited

/-- So what lies behind the fault of a run is in its message. -/
theorem RunsTo.cause?_eq_none {outcome : Outcome size} {fault : Fault}
    (runsTo : machine.RunsTo none outcome) (faulted : outcome.fault = some fault) :
    fault.cause? = none := by
  rcases runsTo_iff.mp runsTo with ⟨n, halts, rfl⟩ | ⟨n, cause, faults, rfl⟩
  · cases faulted
  · cases faulted
    have notFull := (machine.cycles n none).machine.fault_cycle_ne_outputFull
    rw [← cycleAfter_unlimited, faults.faulted] at notFull
    cases fault with
    | outputFull => contradiction
    | _ => rfl

end Machine

theorem Image.decode_toUTF8 (text : String) : decode (.ok text.toUTF8) = .ok text := by
  have read : String.fromUTF8? text.toUTF8 = some text := dif_pos text.isValidUTF8
  simp only [decode, bind, Except.bind, read]

theorem Image.decode_of_not_valid {content : ByteArray} (invalid : ¬ content.IsValidUTF8) :
    decode (.ok content) = .error .notText := by
  have unread : String.fromUTF8? content = none := dif_neg invalid
  simp only [decode, bind, Except.bind, unread]

namespace CommandLine.Session

/-- The session ends with `result` if its machine may use enough cycles. -/
def EndsWith (session : Session) (result : Result) : Prop :=
  ∃ budget, session.result? budget = some result

theorem over_endsWith_iff {ended result : Result} :
    (Session.over ended).EndsWith result ↔ result = ended := by
  simp [EndsWith, result?, eq_comm]

theorem ready_endsWith_iff {threshold : Log.Threshold} {log : List Log.Record}
    {machine : Machine memorySize} {result : Result} :
    (ready threshold log machine).EndsWith result ↔
      ∃ outcome, machine.RunsTo none outcome ∧ result = finish threshold log outcome := by
  constructor
  · rintro ⟨budget, ended⟩
    simp only [result?, Option.ite_none_right_eq_some, Option.some.injEq] at ended
    exact ⟨_, ⟨budget, rfl, ended.1⟩, ended.2.symm⟩
  · rintro ⟨outcome, ⟨budget, rfl, ended⟩, rfl⟩
    exact ⟨budget, by simp [result?, ended]⟩

theorem EndsWith.unique {session : Session} {first second : Result}
    (endsWithFirst : session.EndsWith first) (endsWithSecond : session.EndsWith second) :
    first = second := by
  match session with
  | .over _ => rw [over_endsWith_iff.mp endsWithFirst, over_endsWith_iff.mp endsWithSecond]
  | .ready _ _ _ =>
      obtain ⟨outcome, runsTo, rfl⟩ := ready_endsWith_iff.mp endsWithFirst
      obtain ⟨other, runsToOther, rfl⟩ := ready_endsWith_iff.mp endsWithSecond
      rw [runsTo.unique runsToOther]

variable {program : String} {verbosity : Nat} {content : ByteArray} {text : String}
  {result : Result}

theorem load_of_not_valid (invalid : ¬ content.IsValidUTF8) :
    load program (Request.threshold verbosity) (.ok content) =
      .over {
        status := 1
        failure := ["Failed to load `" ++ program ++ "`", "failed to read program: " ++ program,
          "stream did not contain valid UTF-8"] } := by
  simp only [load, Image.load, Image.decode_of_not_valid invalid]
  rfl

def loadingRecord (program : String) : Log.Record :=
  ⟨.info, "ls8::memory::parse", "Loading program `" ++ program ++ "`"⟩

theorem load_of_overflow (overflow : 256 < (Image.bytes (Text.lines text.toList)).length) :
    ∃ earlier line later, Text.lines text.toList = earlier ++ line :: later ∧
      (Image.bytes earlier).length = 256 ∧ (Image.literal? (Image.code line)).isSome ∧
      load program (Request.threshold verbosity) (.ok text.toUTF8) =
        .over {
          status := 1
          log := Log.shown verbosity (loadingRecord program :: Image.warnings earlier)
          failure := ["Failed to load `" ++ program ++ "`",
            "memory has no address `0x100` (size 256)"] } := by
  obtain ⟨earlier, line, later, split, full, valid, placed⟩ :=
    Image.place_of_overflow 0 0 (Memory.zero 256) (Text.lines text.toList) (Nat.zero_le 256)
      (by rwa [Nat.zero_add])
  rw [Nat.zero_add] at full
  refine ⟨earlier, line, later, split, full, valid, ?_⟩
  have parsed : Image.parse memorySize text = _ := placed
  simp only [load, Image.load, Image.decode_toUTF8, parsed, Nat.zero_add,
    Log.records_threshold, List.map_cons, Image.map_record_skipped]
  rfl

/-- What loading and listing an image that fits tell the log. -/
def loadedRecords (program : String) (lines : List (List Char)) : List Log.Record :=
  loadingRecord program :: Image.warnings lines ++
    [⟨.debug, "ls8::memory::parse", "Loaded " ++ toString (Image.bytes lines).length ++
      " bytes from " ++ toString lines.length ++ " lines"⟩] ++
    ((Memory.zero memorySize).overlay 0 (Image.bytes lines)).dump.map Log.record

theorem load_of_fits (fits : (Image.bytes (Text.lines text.toList)).length ≤ 256) :
    load program (Request.threshold verbosity) (.ok text.toUTF8) =
      .ready (Request.threshold verbosity)
        (Log.shown verbosity (loadedRecords program (Text.lines text.toList)))
        (Machine.ofMemory
          ((Memory.zero memorySize).overlay 0 (Image.bytes (Text.lines text.toList)))) := by
  have parsed : Image.parse memorySize text = _ :=
    Image.place_of_fits 0 0 (Memory.zero memorySize) (Text.lines text.toList)
      (by rwa [Nat.zero_add])
  simp only [load, Image.load, Image.decode_toUTF8, parsed, Nat.zero_add,
    Log.records_threshold, List.map_cons, List.map_append, Image.map_record_skipped,
    ← Log.shown_append]
  rfl

theorem result_of_run {log : List Log.Record} {machine : Machine memorySize} :
    (ready (Request.threshold verbosity) (Log.shown verbosity log) machine).EndsWith result ↔
      ∃ outcome, machine.RunsTo none outcome ∧
        result.stdout = outcome.output ∧
        result.log = Log.shown verbosity (log ++ outcome.log.map Log.record) ∧
        (outcome.fault = none ∧ result.status = 0 ∧ result.failure = [] ∨
          ∃ fault, outcome.fault = some fault ∧ result.status = 1 ∧
            result.failure =
              ["Machine stopped: " ++ outcome.machine.snapshot.line, fault.message]) := by
  rw [ready_endsWith_iff]
  have finished (outcome : Outcome memorySize) (runsTo : machine.RunsTo none outcome) :
      finish (Request.threshold verbosity) (Log.shown verbosity log) outcome =
        { status := if outcome.fault.isSome then 1 else 0
          stdout := outcome.output
          log := Log.shown verbosity (log ++ outcome.log.map Log.record)
          failure := outcome.fault.elim [] fun fault =>
            ["Machine stopped: " ++ outcome.machine.snapshot.line, fault.message] } := by
    simp only [finish, Log.records_threshold, ← Log.shown_append, failure]
    cases faulted : outcome.fault with
    | none => rfl
    | some fault => simp [runFailure, runsTo.cause?_eq_none faulted]
  constructor
  · rintro ⟨outcome, runsTo, rfl⟩
    rw [finished outcome runsTo]
    refine ⟨outcome, runsTo, rfl, rfl, ?_⟩
    cases outcome.fault with
    | none => exact .inl ⟨rfl, rfl, rfl⟩
    | some fault => exact .inr ⟨fault, rfl, rfl, rfl⟩
  · rintro ⟨outcome, runsTo, stdout, logged, reported⟩
    refine ⟨outcome, runsTo, ?_⟩
    rw [finished outcome runsTo]
    cases result with
    | mk status stdout log failure =>
        rcases reported with ⟨passed, rfl, rfl⟩ | ⟨fault, faulted, rfl, rfl⟩
        · simp_all
        · simp_all

/-- The output and the log of a run can be written in parts, as the run brings them. -/
theorem finish_run_add {threshold : Log.Threshold} {log : List Log.Record}
    {machine : Machine memorySize} {burst : Nat}
    (unfinished : (machine.run burst none).ended = false) (more : Nat) :
    let written := finish threshold log (machine.run burst none)
    let rest := finish threshold [] ((machine.run burst none).machine.run more none)
    written.failure = [] ∧
      finish threshold log (machine.run (burst + more) none) =
        { rest with stdout := written.stdout ++ rest.stdout, log := written.log ++ rest.log } := by
  have runs := Machine.runsOn_of_not_ended unfinished
  have passed : (machine.run burst none).fault = none := by
    rw [runs.run_eq]
    exact runs.passed
  have unlimited : (machine.run burst none).room = none := by
    rw [runs.run_eq]
    exact machine.room_of_cycles_unlimited burst
  constructor
  · simp only [finish, failure, passed]
  · rw [Machine.run_add_of_not_ended unfinished, Outcome.andThen_of_no_fault passed, unlimited]
    simp only [finish, failure, Log.records_append, List.nil_append, List.append_assoc]

/-- To run the program in a file is to load the file, to list what was loaded, and to run it. The file
may not be text, or hold more bytes than memory has cells. Otherwise the session ends if the run does:
well if it halts, and with the fault and the machine it has left if there is one. What was printed
before a fault is kept. Nothing is missing in the log but what the verbosity does not show. -/
theorem session_loads_lists_and_runs {read : String → Except ReadError ByteArray}
    {arguments : List String} {program : String} {verbosity : Nat} {content : ByteArray}
    (asked : Request.ofArguments? arguments = some (.run program verbosity))
    (found : read program = .ok content) :
    let session := start read arguments
    (¬ content.IsValidUTF8 → ∀ result, session.EndsWith result ↔
      result = {
        status := 1
        failure := ["Failed to load `" ++ program ++ "`", "failed to read program: " ++ program,
          "stream did not contain valid UTF-8"] }) ∧
    (∀ text : String, content = text.toUTF8 →
      let lines := Text.lines text.toList
      (256 < (Image.bytes lines).length →
        ∃ earlier line later, lines = earlier ++ line :: later ∧
          (Image.bytes earlier).length = 256 ∧ (Image.literal? (Image.code line)).isSome ∧
          ∀ result, session.EndsWith result ↔
            result = {
              status := 1
              log := Log.shown verbosity (loadingRecord program :: Image.warnings earlier)
              failure := ["Failed to load `" ++ program ++ "`",
                "memory has no address `0x100` (size 256)"] }) ∧
      ((Image.bytes lines).length ≤ 256 →
        let machine := Machine.ofMemory ((Memory.zero memorySize).overlay 0 (Image.bytes lines))
        ∀ result, session.EndsWith result ↔
          ∃ outcome, machine.RunsTo none outcome ∧
            result.stdout = outcome.output ∧
            result.log = Log.shown verbosity
              (loadedRecords program lines ++ outcome.log.map Log.record) ∧
            (outcome.fault = none ∧ result.status = 0 ∧ result.failure = [] ∨
              ∃ fault, outcome.fault = some fault ∧ result.status = 1 ∧
                result.failure =
                  ["Machine stopped: " ++ outcome.machine.snapshot.line, fault.message]))) ∧
    (content.IsValidUTF8 ↔ ∃ text : String, content = text.toUTF8) := by
  intro session
  have loads : session = load program (Request.threshold verbosity) (.ok content) := by
    simp only [session, start, asked, found]
  refine ⟨?_, ?_, ?_⟩
  · intro invalid result
    rw [loads, load_of_not_valid invalid, over_endsWith_iff]
  · rintro text rfl lines
    constructor
    · intro overflow
      obtain ⟨earlier, line, later, split, full, valid, loadsOver⟩ := load_of_overflow overflow
      refine ⟨earlier, line, later, split, full, valid, fun result => ?_⟩
      rw [loads, loadsOver, over_endsWith_iff]
    · intro fits machine result
      rw [loads, load_of_fits fits, result_of_run]
  · constructor
    · intro valid
      exact ⟨String.fromUTF8 content valid, rfl⟩
    · rintro ⟨text, rfl⟩
      exact text.isValidUTF8

/-- The program prints a number and runs into a byte that is no opcode. -/
theorem session_prints_and_stops :
    let text := "10000010\n0\n101010 # 42\n2\n1000111\n0\n"
    ∃ result, (start (fun _ => .ok text.toUTF8) ["-v", "p"]).EndsWith result ∧
      result.status = 1 ∧ result.stdout = "42\n" ∧
      result.failure = ["Machine stopped: TRACE: 05 | 00 00 00 00 | 2A 00 00 00 00 00 00 00",
        "unknown command: 0 (0x00) at 0x05"] ∧
      (result.log.take 2).map (·.message) =
        ["Loading program `p`", "[4] Skipping malformed line `2`"] := by
  intro text
  let lines := Text.lines text.toList
  let machine := Machine.ofMemory ((Memory.zero memorySize).overlay 0 (Image.bytes lines))
  obtain ⟨outcome, runsTo, faulted, printed, left, logged⟩ :
      ∃ outcome, machine.RunsTo none outcome ∧
        outcome.fault = some (.unknownOpcode 0 5) ∧ outcome.output = "42\n" ∧
        outcome.machine.snapshot.line = "TRACE: 05 | 00 00 00 00 | 2A 00 00 00 00 00 00 00" ∧
        ((Log.shown 1 (loadedRecords "p" lines ++ outcome.log.map Log.record)).take 2).map
          (·.message) = ["Loading program `p`", "[4] Skipping malformed line `2`"] := by
    refine ⟨machine.run 3 none, ⟨3, rfl, ?_⟩, ?_, ?_, ?_, ?_⟩ <;> decide +kernel
  let read : String → Except ReadError ByteArray := fun _ => .ok text.toUTF8
  have asked : Request.ofArguments? ["-v", "p"] = some (.run "p" 1) := by decide +kernel
  have found : read "p" = .ok text.toUTF8 := rfl
  have fits : (Image.bytes lines).length ≤ 256 := by decide +kernel
  obtain ⟨-, fromText, -⟩ := session_loads_lists_and_runs asked found
  obtain ⟨-, endsWith_iff⟩ := fromText text rfl
  let result : Result := {
    status := 1
    stdout := outcome.output
    log := Log.shown 1 (loadedRecords "p" lines ++ outcome.log.map Log.record)
    failure := ["Machine stopped: " ++ outcome.machine.snapshot.line,
      (Fault.unknownOpcode 0 5).message] }
  have ends : (start read ["-v", "p"]).EndsWith result :=
    (endsWith_iff fits result).mpr ⟨outcome, runsTo, rfl, rfl, .inr ⟨_, faulted, rfl, rfl⟩⟩
  refine ⟨result, ends, rfl, printed, ?_, logged⟩
  have message : (Fault.unknownOpcode 0 5).message = "unknown command: 0 (0x00) at 0x05" := by
    decide +kernel
  simp only [result, left, message]
  rfl

end CommandLine.Session

end EightBit
