import EightBit.Machine.Run
import EightBit.Proofs.Rule

/-!
A run is the iteration of cycles up to the first halt or the first fault. What the first `n` cycles
leave behind is put together from the single cycles: the machine they reach, all that they print,
and for each of them a snapshot and its own entry in the log.
-/

namespace EightBit

variable {size : Nat}

/-- The outcome with nothing but instructions in its log. -/
def Outcome.executedOnly (outcome : Outcome size) : Outcome size :=
  { outcome with log := outcome.log.filter Machine.Event.isExecuted }

theorem Outcome.executedOnly_andThen (first : Outcome size)
    (next : Machine size → Room → Outcome size) :
    (first.andThen next).executedOnly =
      first.executedOnly.andThen fun machine room => (next machine room).executedOnly := by
  cases faulted : first.fault <;> simp [andThen, executedOnly, faulted]

namespace Machine

variable {machine : Machine size} {room : Room} {n budget : Nat} {fault : Fault}

theorem cycles_succ_last (machine : Machine size) (room : Room) (n : Nat) :
    machine.cycles (n + 1) room = (machine.cycles n room).andThen cycle := by
  induction n generalizing machine room with
  | zero =>
      calc
        (machine.cycle room).andThen (cycles 0) = machine.cycle room :=
          Outcome.andThen_rest _
        _ = (machine.cycles 0 room).andThen cycle := by simp [cycles, Outcome.andThen]
  | succ n inductionHypothesis =>
      have pushedBack : cycles (n + 1) = fun (machine : Machine size) room =>
          (machine.cycles n room).andThen cycle := by
        funext machine room
        exact inductionHypothesis machine room
      calc
        (machine.cycle room).andThen (cycles (n + 1)) =
            (machine.cycle room).andThen fun machine room =>
              (machine.cycles n room).andThen cycle := by rw [pushedBack]
        _ = (machine.cycles (n + 1) room).andThen cycle :=
          (Outcome.andThen_assoc _ _ _).symm

def cycleAfter (machine : Machine size) (room : Room) (n : Nat) : Outcome size :=
  (machine.cycles n room).machine.cycle (machine.cycles n room).room

theorem cycles_fault_succ (machine : Machine size) (room : Room) (n : Nat) :
    (machine.cycles (n + 1) room).fault =
      (machine.cycles n room).fault.or (machine.cycleAfter room n).fault := by
  rw [cycles_succ_last, Outcome.fault_andThen, cycleAfter]

def printed (machine : Machine size) (room : Room) (n : Nat) : String :=
  String.join ((List.range n).map fun k => (machine.cycleAfter room k).output)

def journal (machine : Machine size) (room : Room) (n : Nat) : List Event :=
  (List.range n).flatMap fun k =>
    .traced (machine.cycles k room).machine.snapshot :: (machine.cycleAfter room k).log

theorem printed_succ (machine : Machine size) (room : Room) (n : Nat) :
    machine.printed room (n + 1) =
      machine.printed room n ++ (machine.cycleAfter room n).output := by
  simp [printed, List.range_succ]

theorem journal_succ (machine : Machine size) (room : Room) (n : Nat) :
    machine.journal room (n + 1) = machine.journal room n ++
      .traced (machine.cycles n room).machine.snapshot :: (machine.cycleAfter room n).log := by
  simp [journal, List.range_succ]

theorem passed_of_succ (passed : (machine.cycles (n + 1) room).fault = none) :
    (machine.cycles n room).fault = none ∧ (machine.cycleAfter room n).fault = none := by
  simpa [cycles_fault_succ] using passed

theorem passed_of_lt (passed : (machine.cycles n room).fault = none) {k : Nat} (below : k < n) :
    (machine.cycleAfter room k).fault = none := by
  induction n with
  | zero => contradiction
  | succ n inductionHypothesis =>
      obtain ⟨before, last⟩ := passed_of_succ passed
      rcases Nat.lt_succ_iff_lt_or_eq.mp below with earlier | rfl
      · exact inductionHypothesis before earlier
      · exact last

theorem passed_of_le (passed : (machine.cycles n room).fault = none) {k : Nat} (atMost : k ≤ n) :
    (machine.cycles k room).fault = none := by
  induction atMost with
  | refl => exact passed
  | step _ inductionHypothesis => exact inductionHypothesis (passed_of_succ passed).1

theorem cycles_succ_of_passed (passed : (machine.cycles n room).fault = none) :
    machine.cycles (n + 1) room =
      { machine.cycleAfter room n with
        output := (machine.cycles n room).output ++ (machine.cycleAfter room n).output
        log := (machine.cycles n room).log ++ (machine.cycleAfter room n).log } := by
  rw [cycles_succ_last, Outcome.andThen_of_no_fault passed, cycleAfter]

theorem output_of_passed (passed : (machine.cycles n room).fault = none) :
    (machine.cycles n room).output = machine.printed room n := by
  induction n with
  | zero => rfl
  | succ n inductionHypothesis =>
      have before := (passed_of_succ passed).1
      rw [cycles_succ_of_passed before, inductionHypothesis before, printed_succ]

theorem records_debug_journal (passed : (machine.cycles n room).fault = none) :
    Log.records (some .debug) (machine.journal room n) =
      Log.records (some .debug) (machine.cycles n room).log := by
  induction n with
  | zero => rfl
  | succ n inductionHypothesis =>
      have before := (passed_of_succ passed).1
      rw [journal_succ, cycles_succ_of_passed before, Log.records_append, Log.records_append,
        inductionHypothesis before]
      rfl

def tracedCycles (machine : Machine size) (room : Room) (n : Nat) : Outcome size :=
  { machine.cycles n room with log := machine.journal room n }

theorem tracedCycles_succ (passed : (machine.cycles n room).fault = none) :
    machine.tracedCycles room (n + 1) = (machine.tracedCycles room n).andThen tracedCycle := by
  have traced : (machine.tracedCycles room n).fault = none := passed
  rw [Outcome.andThen_of_no_fault traced, tracedCycles, cycles_succ_of_passed passed, journal_succ]
  rfl

theorem run_of_halted (halted : machine.halted = true) :
    machine.run budget room = { machine, room, log := [.halted machine.pc] } := by
  unfold run
  simp [halted]

theorem run_succ_of_running (running : machine.halted = false) :
    machine.run (budget + 1) room = (machine.tracedCycle room).andThen (run budget) := by
  rw [run]
  simp [running]

theorem executedOnly_tracedCycle (machine : Machine size) (room : Room) :
    (machine.tracedCycle room).executedOnly = machine.cycle room := by
  have kept : (machine.cycle room).log.filter Event.isExecuted = (machine.cycle room).log := by
    cases faulted : (machine.cycle room).fault with
    | none =>
        obtain ⟨executed, logged⟩ := log_of_passed faulted
        simp [logged, Event.isExecuted]
    | some fault => rw [log_of_faulted faulted, List.filter_nil]
  simp [tracedCycle, Outcome.executedOnly, Event.isExecuted, kept]

/-- Within its budget a running machine does what cycles up to the next halt do: a run only logs
more than they do. -/
theorem executedOnly_run (running : machine.halted = false) :
    (machine.run budget room).executedOnly = machine.cyclesUntilHalt budget room := by
  induction budget generalizing machine room with
  | zero => simp [run, running, cyclesUntilHalt, Outcome.executedOnly]
  | succ budget inductionHypothesis =>
      rw [run_succ_of_running running, Outcome.executedOnly_andThen, executedOnly_tracedCycle,
        cyclesUntilHalt]
      apply Outcome.andThen_congr
      cases halted : (machine.cycle room).machine.halted with
      | true => simp [run_of_halted halted, Outcome.executedOnly, Event.isExecuted]
      | false => simp [inductionHypothesis halted]

theorem run_add (passed : (machine.cycles n room).fault = none)
    (running : ∀ k < n, (machine.cycles k room).machine.halted = false) :
    machine.run (n + budget) room = (machine.tracedCycles room n).andThen (run budget) := by
  -- The last of the `n` cycles is taken from what the budget leaves behind the others.
  induction n generalizing budget with
  | zero =>
      have traced : (machine.tracedCycles room 0).fault = none := passed
      rw [Nat.zero_add, Outcome.andThen_of_no_fault traced]
      simp [tracedCycles, cycles, journal]
  | succ n inductionHypothesis =>
      have before := (passed_of_succ passed).1
      have earlier : ∀ k < n, (machine.cycles k room).machine.halted = false :=
        fun k behind => running k (Nat.lt_succ_of_lt behind)
      calc
        machine.run (n + 1 + budget) room = machine.run (n + (budget + 1)) room := by
          rw [Nat.add_right_comm, Nat.add_assoc]
        _ = (machine.tracedCycles room n).andThen (run (budget + 1)) :=
          inductionHypothesis before earlier
        _ = (machine.tracedCycles room n).andThen fun machine room =>
              (machine.tracedCycle room).andThen (run budget) :=
          Outcome.andThen_congr (run_succ_of_running (running n (Nat.lt_succ_self n)))
        _ = (machine.tracedCycles room (n + 1)).andThen (run budget) := by
          rw [← Outcome.andThen_assoc, tracedCycles_succ before]

theorem executedCount_of_passed (passed : (machine.cycles n room).fault = none) :
    (machine.cycles n room).executedCount = n := by
  induction n with
  | zero => rfl
  | succ n inductionHypothesis =>
      obtain ⟨before, last⟩ := passed_of_succ passed
      obtain ⟨executed, logged⟩ := log_of_passed last
      have counted := inductionHypothesis before
      rw [Outcome.executedCount] at counted ⊢
      rw [cycles_succ_of_passed before, List.countP_append, counted]
      simp [cycleAfter, logged, Event.isExecuted]

/-- The first `n` cycles pass, and it is the last of them that leaves the machine halted. -/
structure HaltsAt (machine : Machine size) (room : Room) (n : Nat) : Prop where
  passed : (machine.cycles n room).fault = none
  running : ∀ k < n, (machine.cycles k room).machine.halted = false
  halted : (machine.cycles n room).machine.halted = true

/-- The first `n` cycles pass on a running machine, and the next one has a fault. -/
structure FaultsAt (machine : Machine size) (room : Room) (n : Nat) (fault : Fault) : Prop where
  passed : (machine.cycles n room).fault = none
  running : ∀ k ≤ n, (machine.cycles k room).machine.halted = false
  faulted : (machine.cycleAfter room n).fault = some fault

structure RunsOn (machine : Machine size) (room : Room) (n : Nat) : Prop where
  passed : (machine.cycles n room).fault = none
  running : ∀ k ≤ n, (machine.cycles k room).machine.halted = false

theorem halts_faults_or_runs (machine : Machine size) (room : Room) (budget : Nat) :
    (∃ n ≤ budget, machine.HaltsAt room n) ∨
      (∃ n < budget, ∃ fault, machine.FaultsAt room n fault) ∨ machine.RunsOn room budget := by
  induction budget with
  | zero =>
      cases halted : machine.halted with
      | true => exact .inl ⟨0, Nat.le_refl 0, ⟨rfl, by simp, halted⟩⟩
      | false =>
          refine .inr (.inr ⟨rfl, fun k atMost => ?_⟩)
          rw [Nat.le_zero.mp atMost]
          exact halted
  | succ budget inductionHypothesis =>
      rcases inductionHypothesis with ⟨n, atMost, halts⟩ | ⟨n, below, fault, faults⟩ | runs
      · exact .inl ⟨n, Nat.le_succ_of_le atMost, halts⟩
      · exact .inr (.inl ⟨n, Nat.lt_succ_of_lt below, fault, faults⟩)
      · cases next : (machine.cycleAfter room budget).fault with
        | some fault =>
            exact .inr (.inl
              ⟨budget, Nat.lt_succ_self budget, fault, runs.passed, runs.running, next⟩)
        | none =>
            have passed : (machine.cycles (budget + 1) room).fault = none := by
              rw [cycles_fault_succ, runs.passed, next]
              rfl
            cases halted : (machine.cycles (budget + 1) room).machine.halted with
            | true =>
                exact .inl ⟨budget + 1, Nat.le_refl _, passed,
                  fun k below => runs.running k (Nat.le_of_lt_succ below), halted⟩
            | false =>
                refine .inr (.inr ⟨passed, fun k atMost => ?_⟩)
                rcases Nat.le_succ_iff.mp atMost with earlier | rfl
                · exact runs.running k earlier
                · exact halted

theorem exists_faultsAt (faulted : (machine.cycles n room).fault = some fault)
    (running : ∀ k < n, (machine.cycles k room).fault = none →
      (machine.cycles k room).machine.halted = false) :
    ∃ k, machine.FaultsAt room k fault ∧ machine.cycles n room = machine.cycles (k + 1) room := by
  induction n with
  | zero => cases faulted
  | succ n inductionHypothesis =>
      cases before : (machine.cycles n room).fault with
      | none =>
          rw [cycles_fault_succ, before, Option.none_or] at faulted
          refine ⟨n, ⟨before, fun k atMost => ?_, faulted⟩, rfl⟩
          exact running k (Nat.lt_succ_of_le atMost) (passed_of_le before atMost)
      | some cause =>
          have ended : machine.cycles (n + 1) room = machine.cycles n room := by
            rw [cycles_succ_last, Outcome.andThen_of_fault (by simp [before])]
          rw [ended] at faulted ⊢
          exact inductionHypothesis faulted fun k below => running k (Nat.lt_succ_of_lt below)

/-- What a run leaves behind that halts with its first `n` cycles. -/
def haltedOutcome (machine : Machine size) (room : Room) (n : Nat) : Outcome size where
  machine := (machine.cycles n room).machine
  room := (machine.cycles n room).room
  output := machine.printed room n
  log := machine.journal room n ++ [.halted (machine.cycles n room).machine.pc]

/-- What a run leaves behind that `fault` stops in the cycle behind the first `n` ones. -/
def faultedOutcome (machine : Machine size) (room : Room) (n : Nat) (fault : Fault) :
    Outcome size where
  machine := (machine.cycleAfter room n).machine
  room := (machine.cycleAfter room n).room
  output := machine.printed room (n + 1)
  log := machine.journal room n ++ [.traced (machine.cycles n room).machine.snapshot]
  fault := some fault

theorem HaltsAt.outcome_eq (halts : machine.HaltsAt room n) :
    machine.haltedOutcome room n =
      { machine.cycles n room with log := (machine.haltedOutcome room n).log } := by
  simp only [haltedOutcome, output_of_passed halts.passed, halts.passed]

theorem FaultsAt.outcome_eq (faults : machine.FaultsAt room n fault) :
    machine.faultedOutcome room n fault =
      { machine.cycles (n + 1) room with log := (machine.faultedOutcome room n fault).log } := by
  simp only [faultedOutcome, cycles_succ_of_passed faults.passed, output_of_passed faults.passed,
    ← printed_succ, faults.faulted]

theorem HaltsAt.records_debug (halts : machine.HaltsAt room n) :
    Log.records (some .debug) (machine.haltedOutcome room n).log =
      Log.records (some .debug) (machine.cycles n room).log ++ [⟨.info, "ls8::processor",
        "Program halted at 0x" ++ Text.hex (machine.cycles n room).machine.pc.toNat⟩] := by
  rw [haltedOutcome, Log.records_append, records_debug_journal halts.passed]
  rfl

theorem FaultsAt.records_debug (faults : machine.FaultsAt room n fault) :
    Log.records (some .debug) (machine.faultedOutcome room n fault).log =
      Log.records (some .debug) (machine.cycles (n + 1) room).log := by
  have silent : (machine.cycleAfter room n).log = [] := log_of_faulted faults.faulted
  rw [faultedOutcome, Log.records_append, records_debug_journal faults.passed,
    cycles_succ_of_passed faults.passed, Log.records_append, silent]
  rfl

theorem HaltsAt.run_eq (halts : machine.HaltsAt room n) (enough : n ≤ budget) :
    machine.run budget room = machine.haltedOutcome room n := by
  obtain ⟨left, rfl⟩ := Nat.exists_eq_add_of_le enough
  have traced : (machine.tracedCycles room n).fault = none := halts.passed
  rw [run_add halts.passed halts.running, Outcome.andThen_of_no_fault traced]
  simp [tracedCycles, run_of_halted halts.halted, output_of_passed halts.passed, haltedOutcome]

theorem FaultsAt.run_eq (faults : machine.FaultsAt room n fault) (enough : n < budget) :
    machine.run budget room = machine.faultedOutcome room n fault := by
  obtain ⟨left, rfl⟩ := Nat.exists_eq_add_of_lt enough
  have traced : (machine.tracedCycles room n).fault = none := faults.passed
  have running : ∀ k < n, (machine.cycles k room).machine.halted = false :=
    fun k below => faults.running k (Nat.le_of_lt below)
  have faulted : ((machine.cycles n room).machine.tracedCycle (machine.cycles n room).room).fault =
      some fault := faults.faulted
  have silent : (machine.cycleAfter room n).log = [] := log_of_faulted faults.faulted
  have last : ((machine.cycles n room).machine.tracedCycle (machine.cycles n room).room).andThen
      (run left) = { machine.cycleAfter room n with
        log := [.traced (machine.cycles n room).machine.snapshot] } := by
    rw [Outcome.andThen_of_fault (by simp [faulted]), ← silent]
    rfl
  rw [Nat.add_assoc, run_add faults.passed running, Outcome.andThen_of_no_fault traced,
    tracedCycles, run_succ_of_running (faults.running n (Nat.le_refl n)), last,
    output_of_passed faults.passed, ← printed_succ]
  simp only [faultedOutcome, faults.faulted]

theorem RunsOn.run_eq (runs : machine.RunsOn room budget) :
    machine.run budget room = machine.tracedCycles room budget := by
  have running : ∀ k < budget, (machine.cycles k room).machine.halted = false :=
    fun k below => runs.running k (Nat.le_of_lt below)
  have still := runs.running budget (Nat.le_refl budget)
  have exhausted : (machine.cycles budget room).machine.run 0 (machine.cycles budget room).room =
      { machine := (machine.cycles budget room).machine
        room := (machine.cycles budget room).room } := by
    simp [run, still]
  calc
    machine.run (budget + 0) room = (machine.tracedCycles room budget).andThen (run 0) :=
      run_add runs.passed running
    _ = (machine.tracedCycles room budget).andThen fun machine room => { machine, room } :=
      Outcome.andThen_congr exhausted
    _ = machine.tracedCycles room budget := Outcome.andThen_rest _

theorem RunsOn.not_ended (runs : machine.RunsOn room budget) :
    (machine.run budget room).ended = false := by
  have still := runs.running budget (Nat.le_refl budget)
  rw [runs.run_eq]
  simp [Outcome.ended, tracedCycles, runs.passed, still]

theorem runsOn_of_not_ended (unfinished : (machine.run budget room).ended = false) :
    machine.RunsOn room budget := by
  rcases machine.halts_faults_or_runs room budget with
    ⟨n, enough, halts⟩ | ⟨n, enough, fault, faults⟩ | runs
  · simp [halts.run_eq enough, Outcome.ended, haltedOutcome, halts.halted] at unfinished
  · simp [faults.run_eq enough, Outcome.ended, faultedOutcome] at unfinished
  · exact runs

/-- A run can be cut anywhere before its end: the rest goes on where the budget of the first part has
left off. -/
theorem run_add_of_not_ended (unfinished : (machine.run budget room).ended = false) (more : Nat) :
    machine.run (budget + more) room = (machine.run budget room).andThen (run more) := by
  have runs := runsOn_of_not_ended unfinished
  rw [runs.run_eq]
  exact run_add runs.passed fun k below => runs.running k (Nat.le_of_lt below)

/-- A run that is given enough cycles ends with `outcome`. -/
def RunsTo (machine : Machine size) (room : Room) (outcome : Outcome size) : Prop :=
  ∃ budget, machine.run budget room = outcome ∧ outcome.ended = true

theorem HaltsAt.runsTo (halts : machine.HaltsAt room n) :
    machine.RunsTo room (machine.haltedOutcome room n) :=
  ⟨n, halts.run_eq (Nat.le_refl n), by simp [Outcome.ended, haltedOutcome, halts.halted]⟩

theorem FaultsAt.runsTo (faults : machine.FaultsAt room n fault) :
    machine.RunsTo room (machine.faultedOutcome room n fault) :=
  ⟨n + 1, faults.run_eq (Nat.lt_succ_self n), by simp [Outcome.ended, faultedOutcome]⟩

theorem runsTo_iff {outcome : Outcome size} :
    machine.RunsTo room outcome ↔
      (∃ n, machine.HaltsAt room n ∧ outcome = machine.haltedOutcome room n) ∨
      ∃ n fault, machine.FaultsAt room n fault ∧
        outcome = machine.faultedOutcome room n fault := by
  constructor
  · rintro ⟨budget, rfl, ended⟩
    rcases machine.halts_faults_or_runs room budget with
      ⟨n, enough, halts⟩ | ⟨n, enough, fault, faults⟩ | runs
    · exact .inl ⟨n, halts, halts.run_eq enough⟩
    · exact .inr ⟨n, fault, faults, faults.run_eq enough⟩
    · rw [runs.not_ended] at ended
      contradiction
  · rintro (⟨n, halts, rfl⟩ | ⟨n, fault, faults, rfl⟩)
    · exact halts.runsTo
    · exact faults.runsTo

theorem RunsTo.stable {outcome : Outcome size} (runsTo : machine.RunsTo room outcome) :
    ∃ enough, ∀ budget, enough ≤ budget → machine.run budget room = outcome := by
  rcases runsTo_iff.mp runsTo with ⟨n, halts, rfl⟩ | ⟨n, fault, faults, rfl⟩
  · exact ⟨n, fun _ enough => halts.run_eq enough⟩
  · exact ⟨n + 1, fun _ enough => faults.run_eq enough⟩

/-- More cycles than a run needs change nothing, so it has at most one outcome. -/
theorem RunsTo.unique {first second : Outcome size} (runsToFirst : machine.RunsTo room first)
    (runsToSecond : machine.RunsTo room second) : first = second := by
  obtain ⟨few, stableFirst⟩ := runsToFirst.stable
  obtain ⟨many, stableSecond⟩ := runsToSecond.stable
  rw [← stableFirst (max few many) (Nat.le_max_left few many),
    stableSecond (max few many) (Nat.le_max_right few many)]

def journalRecords (machine : Machine size) (room : Room) (n : Nat) : List Log.Record :=
  (List.range n).flatMap fun k =>
    ⟨.trace, "ls8::processor", (machine.cycles k room).machine.snapshot.line⟩ ::
      Log.records (some .trace) (machine.cycleAfter room k).log

theorem records_journal (machine : Machine size) (room : Room) (n : Nat) (last : Event) :
    Log.records (some .trace) (machine.journal room n ++ [last]) =
      machine.journalRecords room n ++ [Log.record last] := by
  simp only [Log.records_trace, journal, journalRecords, List.map_append, List.map_flatMap,
    List.map_cons, List.map_nil]
  rfl

/-- The machine that a halt leaves behind: the byte before its program counter is still the opcode
that halted it, and nothing else happened in the last cycle. -/
theorem HaltsAt.machine_eq (halts : machine.HaltsAt room (n + 1)) :
    ∃ pc, (machine.cycles (n + 1) room).machine =
        { (machine.cycles n room).machine with halted := true, pc } ∧
      pc.toNat = (machine.cycles n room).machine.pc.toNat + 1 ∧
      (machine.cycles n room).machine.memory.cells[pc.toNat - 1]? = some Opcode.hlt.byte := by
  obtain ⟨before, passed⟩ := passed_of_succ halts.passed
  have reached := congrArg Outcome.machine (cycles_succ_of_passed before)
  have running := halts.running n (Nat.lt_succ_self n)
  obtain ⟨atPc, pc, unchanged, moved⟩ :=
    halt_of_cycle passed running (by rw [← halts.halted, reached, cycleAfter])
  refine ⟨pc, reached.trans unchanged, moved, ?_⟩
  rw [moved]
  exact atPc

/-- A run iterates cycles up to the first halt or the first fault, and goes on forever if there is
neither. What it leaves behind, prints and logs is put together from these cycles. -/
theorem run_iterates_cycles (machine : Machine size) (room : Room) :
    (∀ outcome, machine.RunsTo room outcome ∧ outcome.fault = none ↔
      ∃ n, machine.HaltsAt room n ∧ outcome = machine.haltedOutcome room n) ∧
    (∀ outcome fault, machine.RunsTo room outcome ∧ outcome.fault = some fault ↔
      ∃ n, machine.FaultsAt room n fault ∧ outcome = machine.faultedOutcome room n fault) ∧
    ((∀ outcome, ¬ machine.RunsTo room outcome) ↔
      (∀ n, ¬ machine.HaltsAt room n) ∧ ∀ n fault, ¬ machine.FaultsAt room n fault) ∧
    (∀ first second, machine.RunsTo room first → machine.RunsTo room second → first = second) ∧
    (∀ n, Log.records (some .trace) (machine.haltedOutcome room n).log =
      machine.journalRecords room n ++ [⟨.info, "ls8::processor",
        "Program halted at 0x" ++ Text.hex (machine.cycles n room).machine.pc.toNat⟩]) ∧
    (∀ n fault, Log.records (some .trace) (machine.faultedOutcome room n fault).log =
      machine.journalRecords room n ++ [⟨.trace, "ls8::processor",
        (machine.cycles n room).machine.snapshot.line⟩]) ∧
    (∀ n, (machine.cycles n room).fault = none → ∀ k < n, ∃ executed : Executed,
      Log.records (some .trace) (machine.cycleAfter room k).log =
        [⟨.debug, "ls8::processor", executed.message⟩]) ∧
    (∀ n, machine.HaltsAt room (n + 1) → ∃ pc,
      (machine.cycles (n + 1) room).machine =
        { (machine.cycles n room).machine with halted := true, pc } ∧
      pc.toNat = (machine.cycles n room).machine.pc.toNat + 1 ∧
      (machine.cycles n room).machine.memory.cells[pc.toNat - 1]? = some Opcode.hlt.byte) := by
  refine ⟨?_, ?_, ?_, fun _ _ => RunsTo.unique, fun n => records_journal machine room n _,
    fun n fault => records_journal machine room n _, ?_, fun n => HaltsAt.machine_eq⟩
  · intro outcome
    rw [runsTo_iff]
    constructor
    · rintro ⟨halts | ⟨n, fault, faults, rfl⟩, passed⟩
      · exact halts
      · cases passed
    · rintro ⟨n, halts, rfl⟩
      exact ⟨.inl ⟨n, halts, rfl⟩, rfl⟩
  · intro outcome fault
    rw [runsTo_iff]
    constructor
    · rintro ⟨⟨n, halts, rfl⟩ | ⟨n, cause, faults, rfl⟩, faulted⟩
      · cases faulted
      · cases faulted
        exact ⟨n, faults, rfl⟩
    · rintro ⟨n, faults, rfl⟩
      exact ⟨.inr ⟨n, fault, faults, rfl⟩, rfl⟩
  · constructor
    · intro never
      exact ⟨fun n halts => never _ halts.runsTo, fun n fault faults => never _ faults.runsTo⟩
    · rintro ⟨neverHalts, neverFaults⟩ outcome runsTo
      rcases runsTo_iff.mp runsTo with ⟨n, halts, -⟩ | ⟨n, fault, faults, -⟩
      · exact neverHalts n halts
      · exact neverFaults n fault faults
  · intro n passed k below
    obtain ⟨executed, logged⟩ := log_of_passed (passed_of_lt passed below)
    refine ⟨executed, ?_⟩
    rw [cycleAfter, logged, Log.records_trace]
    rfl

end Machine

end EightBit
