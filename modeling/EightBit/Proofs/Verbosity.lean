import EightBit.Proofs.Session

/-!
What the verbosity of an invocation decides. There is one full result, that of the highest verbosity,
and every other verbosity shows the same result with some of its log left out. So two invocations that
differ in their verbosity alone differ in their logs alone, and the log of the one is part of the log
of the other.
-/

namespace EightBit

namespace Log

theorem shown_shown {less more : Nat} (le : less ≤ more) (records : List Record) :
    shown less (shown more records) = shown less records := by
  rw [shown, shown, List.filter_filter]
  apply List.filter_congr
  intro record _
  have kept : record.level.shownFrom ≤ less → record.level.shownFrom ≤ more :=
    fun early => Nat.le_trans early le
  simpa using kept

end Log

namespace CommandLine

variable {verbosity : Nat}

theorem Request.threshold_of_le (le : 3 ≤ verbosity) : threshold verbosity = some .trace := by
  match verbosity, le with
  | _ + 3, _ => rfl

/-- Verbosities above 3 add nothing, so it does not matter that the flags are counted in a byte. -/
theorem Request.threshold_min {limit : Nat} (le : 3 ≤ limit) (verbosity : Nat) :
    threshold (min limit verbosity) = threshold verbosity := by
  rcases Nat.le_total verbosity limit with below | above
  · rw [Nat.min_eq_right below]
  · rw [Nat.min_eq_left above, threshold_of_le le, threshold_of_le (Nat.le_trans le above)]

def Result.shown (verbosity : Nat) (result : Result) : Result :=
  { result with log := Log.shown verbosity result.log }

namespace Session

theorem finish_shown (log : List Log.Record) (outcome : Outcome memorySize) :
    finish (Request.threshold verbosity) (Log.shown verbosity log) outcome =
      (finish (some .trace) log outcome).shown verbosity := by
  simp only [finish, Result.shown, Log.records_threshold, Log.records_trace, Log.shown_append]

variable {program : String} {content : Except ReadError ByteArray}

/-- Every verbosity shows the one full result, that of the highest. -/
theorem load_endsWith_iff {result : Result} :
    (load program (Request.threshold verbosity) content).EndsWith result ↔
      ∃ full, (load program (some .trace) content).EndsWith full ∧
        result = full.shown verbosity := by
  simp only [load, Log.records_threshold, Log.records_trace, ← Log.shown_append]
  cases (Image.load memorySize program content).result with
  | error failure =>
      simp only [over_endsWith_iff, exists_eq_left]
      rfl
  | ok memory =>
      simp only [ready_endsWith_iff, finish_shown]
      constructor
      · rintro ⟨outcome, runsTo, rfl⟩
        exact ⟨_, ⟨outcome, runsTo, rfl⟩, rfl⟩
      · rintro ⟨_, ⟨outcome, runsTo, rfl⟩, rfl⟩
        exact ⟨outcome, runsTo, rfl⟩

theorem load_ends_iff :
    (∃ result, (load program (Request.threshold verbosity) content).EndsWith result) ↔
      ∃ full, (load program (some .trace) content).EndsWith full := by
  constructor
  · rintro ⟨result, ended⟩
    obtain ⟨full, ends, -⟩ := load_endsWith_iff.mp ended
    exact ⟨full, ends⟩
  · rintro ⟨full, ends⟩
    exact ⟨full.shown verbosity, load_endsWith_iff.mpr ⟨full, ends, rfl⟩⟩

/-- Two invocations run one program, the second with a verbosity of its own. If one ends so does the
other, and they can be told apart by their logs only. Verbosities from 3 on give the same log, and the
log of the lower verbosity is what it shows of the other log. -/
theorem verbosity_selects_records (read : String → Except ReadError ByteArray) {less more : Nat}
    {first second : List String}
    (named : program ≠ "") (noOption : program.toList.head? ≠ some '-')
    (invokes : Invokes program less first) (invokesToo : Invokes program more second) :
    ((∃ result, (start read first).EndsWith result) ↔
      ∃ result, (start read second).EndsWith result) ∧
    ∀ one other, (start read first).EndsWith one → (start read second).EndsWith other →
      one.status = other.status ∧ one.stdout = other.stdout ∧ one.failure = other.failure ∧
      (min 3 less = min 3 more → one.log = other.log) ∧
      (less ≤ more →
        one.log = other.log.filter fun record => record.level.shownFrom ≤ less) := by
  have startsLess : start read first =
      load program (Request.threshold less) (read program) := by
    simp only [start, Request.ofArguments?_of_invokes named noOption invokes,
      Request.threshold_min (by decide : 3 ≤ 255)]
  have startsMore : start read second =
      load program (Request.threshold more) (read program) := by
    simp only [start, Request.ofArguments?_of_invokes named noOption invokesToo,
      Request.threshold_min (by decide : 3 ≤ 255)]
  rw [startsLess, startsMore]
  constructor
  · exact load_ends_iff.trans load_ends_iff.symm
  · intro one other ended endedToo
    obtain ⟨full, ends, rfl⟩ := load_endsWith_iff.mp ended
    obtain ⟨fullToo, endsToo, rfl⟩ := load_endsWith_iff.mp endedToo
    cases ends.unique endsToo
    refine ⟨rfl, rfl, rfl, ?_, ?_⟩
    · intro same
      have threshold_eq : Request.threshold less = Request.threshold more := by
        rw [← Request.threshold_min (Nat.le_refl 3) less, same,
          Request.threshold_min (Nat.le_refl 3) more]
      rw [threshold_eq] at ended
      rw [ended.unique endedToo]
    · intro le
      exact (Log.shown_shown le full.log).symm

/-- A line of the image is malformed, and its other line stops the machine. -/
theorem verbosity_selects_warning :
    let read : String → Except ReadError ByteArray := fun _ => .ok "2\n1\n".toUTF8
    ∃ one other, (start read ["p"]).EndsWith one ∧
      (start read ["-vv", "p", "--verbose"]).EndsWith other ∧
      one.status = other.status ∧
      other.log.head?.map (·.message) = some "Loading program `p`" ∧
      one.log.head?.map (·.message) = some "[1] Skipping malformed line `2`" ∧
      one.log = other.log.filter fun record => record.level.shownFrom ≤ 0 := by
  intro read
  have quiet : ((start read ["p"]).result? 1).bind (·.log.head?.map (·.message)) =
      some "[1] Skipping malformed line `2`" := by decide +kernel
  have full : ((start read ["-vv", "p", "--verbose"]).result? 1).bind
      (·.log.head?.map (·.message)) = some "Loading program `p`" := by decide +kernel
  obtain ⟨one, ended, warned⟩ := Option.bind_eq_some_iff.mp quiet
  obtain ⟨other, endedToo, loading⟩ := Option.bind_eq_some_iff.mp full
  have invokes : Invokes "p" 0 ["p"] := .intro .nil .nil
  have invokesToo : Invokes "p" 3 ["-vv", "p", "--verbose"] :=
    .intro (.letters 1 .nil) (.word .nil)
  obtain ⟨-, selects⟩ :=
    verbosity_selects_records read (by decide) (by decide) invokes invokesToo
  obtain ⟨status, -, -, -, filtered⟩ := selects one other ⟨1, ended⟩ ⟨1, endedToo⟩
  exact ⟨one, other, ⟨1, ended⟩, ⟨1, endedToo⟩, status, loading, warned, filtered (by decide)⟩

end Session

end CommandLine

end EightBit
