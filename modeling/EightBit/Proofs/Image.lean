import EightBit.Proofs.Line

/-!
What reading an image makes of its lines: the bytes of the valid ones go to memory in order, from
address 0 on, and the malformed ones are reported by number. If there are more bytes than cells,
reading stops at the first byte that has no cell, and reports only what came before.
-/

namespace EightBit

namespace Image

/-- A line that holds something, but no literal. -/
def isMalformed (line : List Char) : Bool :=
  !(code line).isEmpty && (literal? (code line)).isNone

def bytes (lines : List (List Char)) : List UInt8 :=
  lines.filterMap fun line => literal? (code line)

def skipped (first : Nat) (lines : List (List Char)) : List Notice :=
  ((lines.zipIdx first).filter fun line => isMalformed line.1).map fun line =>
    .skipped line.2 (String.ofList (Text.trim line.1))

theorem literal?_nil : literal? [] = none := rfl

theorem bytes_cons (line : List Char) (rest : List (List Char)) :
    bytes (line :: rest) = (literal? (code line)).toList ++ bytes rest := by
  cases found : literal? (code line) <;> simp [bytes, found]

theorem ofLine_of_byte {line : List Char} {value : UInt8}
    (found : literal? (code line) = some value) : Reading.ofLine line = .byte value := by
  have filled : code line ≠ [] := by
    intro empty
    rw [empty, literal?_nil] at found
    contradiction
  simp [Reading.ofLine, filled, found]

theorem skipped_cons (first : Nat) (line : List Char) (rest : List (List Char)) :
    skipped first (line :: rest) = skipped first [line] ++ skipped (first + 1) rest := by
  simp only [skipped, List.zipIdx_cons, List.zipIdx_nil, ← List.map_append, ← List.filter_append,
    List.cons_append, List.nil_append]

theorem skipped_of_byte {line : List Char} {value : UInt8}
    (found : literal? (code line) = some value) (first : Nat) : skipped first [line] = [] := by
  simp [skipped, isMalformed, found]

variable {size : Nat} {line : List Char} {value : UInt8} {before address : Nat}
  {memory next : Memory size}

/-- A line without a byte takes no address, whether it is blank or malformed. -/
theorem place_of_no_byte (noByte : literal? (code line) = none) (rest : List (List Char)) :
    place before address memory (line :: rest) =
      { place (before + 1) address memory rest with
        notices := skipped (before + 1) [line] ++
          (place (before + 1) address memory rest).notices } := by
  by_cases empty : code line = []
  · have blank : Reading.ofLine line = .blank := by simp [Reading.ofLine, empty]
    simp [place, blank, skipped, isMalformed, empty]
  · have malformed : Reading.ofLine line = .malformed (String.ofList (Text.trim line)) := by
      simp [Reading.ofLine, empty, noByte]
    simp [place, malformed, skipped, isMalformed, empty, noByte]

theorem place_of_byte (found : literal? (code line) = some value)
    (written : memory.write address value = .ok next) (rest : List (List Char)) :
    place before address memory (line :: rest) = place (before + 1) (address + 1) next rest := by
  simp only [place, ofLine_of_byte found, written]

theorem place_of_full (found : literal? (code line) = some value) (full : size ≤ address)
    (rest : List (List Char)) :
    place before address memory (line :: rest) =
      { result := .error (.outOfBounds address size), notices := [] } := by
  have failed : memory.write address value = .error (.outOfBounds address size) :=
    Memory.write_eq_error_iff.mpr ⟨full, rfl⟩
  simp only [place, ofLine_of_byte found, failed]

/-- The lines are placed one by one, the numbers of lines and of bytes before them at hand. -/
theorem place_of_fits (before address : Nat) (memory : Memory size) (lines : List (List Char))
    (fits : address + (bytes lines).length ≤ size) :
    place before address memory lines =
      { result := .ok (memory.overlay address (bytes lines))
        notices := skipped (before + 1) lines ++
          [.loaded (address + (bytes lines).length) (before + lines.length)] } := by
  induction lines generalizing before address memory with
  | nil => simp [place, bytes, skipped, Memory.overlay_nil]
  | cons line rest inductionHypothesis =>
      have total : before + 1 + rest.length = before + (line :: rest).length := by
        rw [List.length_cons, Nat.add_right_comm, Nat.add_assoc]
      rw [bytes_cons] at fits ⊢
      cases found : literal? (code line) with
      | none =>
          rw [found, Option.toList_none, List.nil_append] at fits
          rw [place_of_no_byte found, inductionHypothesis (before + 1) address memory fits, total,
            skipped_cons _ line rest, List.append_assoc, Option.toList_none, List.nil_append]
      | some value =>
          rw [found, Option.toList_some, List.singleton_append, List.length_cons] at fits
          have inside : address < size := by omega
          obtain ⟨next, written⟩ := memory.exists_write inside value
          have behind : address + 1 + (bytes rest).length =
              address + (value :: bytes rest).length := by
            rw [List.length_cons, Nat.add_right_comm, Nat.add_assoc]
          rw [place_of_byte found written,
            inductionHypothesis (before + 1) (address + 1) next (by omega), total, behind,
            skipped_cons _ line rest, skipped_of_byte found, List.nil_append, Option.toList_some,
            List.singleton_append, Memory.overlay_cons written]

/-- Where the bytes do not fit, the first one without a cell ends the reading. -/
theorem place_of_overflow (before address : Nat) (memory : Memory size) (lines : List (List Char))
    (inside : address ≤ size) (overflow : size < address + (bytes lines).length) :
    ∃ earlier line later, lines = earlier ++ line :: later ∧
      address + (bytes earlier).length = size ∧ (literal? (code line)).isSome ∧
      place before address memory lines =
        { result := .error (.outOfBounds size size), notices := skipped (before + 1) earlier } := by
  induction lines generalizing before address memory with
  | nil => exact absurd overflow (Nat.not_lt.mpr inside)
  | cons line rest inductionHypothesis =>
      rw [bytes_cons] at overflow
      cases found : literal? (code line) with
      | none =>
          rw [found, Option.toList_none, List.nil_append] at overflow
          obtain ⟨earlier, last, later, split, full, valid, placed⟩ :=
            inductionHypothesis (before + 1) address memory inside overflow
          refine ⟨line :: earlier, last, later, by rw [split, List.cons_append], ?_, valid, ?_⟩
          · rwa [bytes_cons, found, Option.toList_none, List.nil_append]
          · rw [place_of_no_byte found, placed, skipped_cons _ line earlier]
      | some value =>
          rw [found, Option.toList_some, List.singleton_append, List.length_cons] at overflow
          rcases Nat.lt_or_eq_of_le inside with room | rfl
          · obtain ⟨next, written⟩ := memory.exists_write room value
            obtain ⟨earlier, last, later, split, full, valid, placed⟩ :=
              inductionHypothesis (before + 1) (address + 1) next room (by omega)
            refine ⟨line :: earlier, last, later, by rw [split, List.cons_append], ?_, valid, ?_⟩
            · rw [bytes_cons, found, Option.toList_some, List.singleton_append, List.length_cons]
              omega
            · rw [place_of_byte found written, placed, skipped_cons _ line earlier,
                skipped_of_byte found, List.nil_append]
          · exact ⟨[], line, rest, rfl, rfl, by rw [found]; rfl,
              place_of_full found (Nat.le_refl _) rest⟩

theorem parseInto_eq_ok_iff {base memory : Memory size} {text : String} :
    (parseInto base text).result = .ok memory ↔
      (bytes (Text.lines text.toList)).length ≤ size ∧
        memory = base.overlay 0 (bytes (Text.lines text.toList)) := by
  rcases Nat.lt_or_ge size (bytes (Text.lines text.toList)).length with overflow | fits
  · obtain ⟨_, _, _, -, -, -, stopped⟩ := place_of_overflow 0 0 base
      (Text.lines text.toList) (Nat.zero_le size) (by rwa [Nat.zero_add])
    simp [parseInto, stopped, Nat.not_le.mpr overflow]
  · rw [parseInto, place_of_fits 0 0 base (Text.lines text.toList) (by rwa [Nat.zero_add])]
    simp [fits, eq_comm]

theorem parseInto_eq_error_iff {base : Memory size} {text : String} {fault : Fault} :
    (parseInto base text).result = .error fault ↔
      size < (bytes (Text.lines text.toList)).length ∧ fault = .outOfBounds size size := by
  rcases Nat.lt_or_ge size (bytes (Text.lines text.toList)).length with overflow | fits
  · obtain ⟨_, _, _, -, -, -, stopped⟩ := place_of_overflow 0 0 base
      (Text.lines text.toList) (Nat.zero_le size) (by rwa [Nat.zero_add])
    simp [parseInto, stopped, overflow, eq_comm]
  · rw [parseInto, place_of_fits 0 0 base (Text.lines text.toList) (by rwa [Nat.zero_add])]
    simp [Nat.not_lt.mpr fits]

/-- The records of the malformed lines of an image, by number. -/
def warnings (lines : List (List Char)) : List Log.Record :=
  ((lines.zipIdx 1).filter fun line => isMalformed line.1).map fun line =>
    ⟨.warn, "ls8::memory::parse", "[" ++ toString line.2 ++ "] Skipping malformed line `" ++
      String.ofList (Text.trim line.1) ++ "`"⟩

theorem map_record_skipped (lines : List (List Char)) :
    (skipped 1 lines).map Log.record = warnings lines := by
  simp only [skipped, warnings, List.map_map]
  rfl

/-- An image puts the bytes of its valid lines into memory from address 0 on, leaves the cells
behind them alone, and reports its malformed lines. If the bytes do not fit, the first one without a
cell is the end of it, and only what stands before it is reported. What counts in a line is its
literal, which ends before the first `#` and has no blanks at its ends. -/
theorem parseInto_eq_bytes (base : Memory size) (text : String) :
    let lines := Text.lines text.toList
    let loaded := parseInto base text
    ((bytes lines).length ≤ size →
      ∃ memory, loaded.result = .ok memory ∧
        (∀ i, i < (bytes lines).length → memory.cells[i]? = (bytes lines)[i]?) ∧
        (∀ i, (bytes lines).length ≤ i → memory.cells[i]? = base.cells[i]?) ∧
        loaded.notices.map Log.record = warnings lines ++ [⟨.debug, "ls8::memory::parse",
          "Loaded " ++ toString (bytes lines).length ++ " bytes from " ++
            toString lines.length ++ " lines"⟩]) ∧
    (size < (bytes lines).length →
      ∃ earlier line later, lines = earlier ++ line :: later ∧
        (bytes earlier).length = size ∧ (literal? (code line)).isSome ∧
        loaded.result = .error (.outOfBounds size size) ∧
        loaded.notices.map Log.record = warnings earlier) ∧
    parse size text = parseInto (.zero size) text ∧
    (∀ i < size, (Memory.zero size).cells[i]? = some 0) ∧
    (∀ line literal, code line = literal ↔ LiteralOf line literal) ∧
    ∀ line core, Text.trim line = core ↔ Text.Trimmed line core := by
  intro lines loaded
  refine ⟨fun fits => ?_, fun overflow => ?_, rfl, fun i inside => ?_, fun _ _ => code_eq_iff,
    fun _ _ => Text.trim_eq_iff⟩
  · have placed : loaded = _ := place_of_fits 0 0 base lines (by rwa [Nat.zero_add])
    refine ⟨_, by rw [placed], fun i covered => ?_, fun i behind => ?_, ?_⟩
    · exact base.getElem?_overlay_zero_of_lt (Nat.lt_of_lt_of_le covered fits) covered
    · exact base.getElem?_overlay_zero_of_le behind
    · rw [placed, List.map_append, map_record_skipped, Nat.zero_add, Nat.zero_add]
      rfl
  · obtain ⟨earlier, line, later, split, full, valid, placed⟩ :=
      place_of_overflow 0 0 base lines (Nat.zero_le size) (by rwa [Nat.zero_add])
    have stopped : loaded = _ := placed
    refine ⟨earlier, line, later, split, by rwa [Nat.zero_add] at full, valid, by rw [stopped], ?_⟩
    rw [stopped, map_record_skipped]
  · simp [Memory.zero, inside]

end Image

end EightBit
