import EightBit.Machine
import EightBit.Proofs.Image
import EightBit.Proofs.Line
import EightBit.Proofs.Literal

/-!
The texts that write a program down: each of its bytes stands on a line of its own, in any of its
spellings, with blanks around it and a remark behind it, and among these lines there are others that
hold no literal. All such texts give the memory that loading the bytes themselves gives.
-/

namespace EightBit.Image

open Text (Blank)

/-- The rows of digits for a byte. Its eight digits, behind any others, or what is left of the eight
without some of the zeros in front. -/
inductive Writes (value : UInt8) : List Char → Prop where
  | wide {extra : List Char} (binary : ∀ c ∈ extra, c = '0' ∨ c = '1') :
      Writes value (extra ++ octet value)
  | short {zeros digits : List Char} (whole : zeros ++ digits = octet value)
      (zero : ∀ c ∈ zeros, c = '0') (filled : digits ≠ []) : Writes value digits

inductive ByteLine (value : UInt8) : List Char → Prop where
  | intro {before literal digits after line : List Char} (oneLine : '\n' ∉ line)
      (remarked : Remarked (before ++ literal ++ after) line)
      (blankBefore : Blank before) (blankAfter : Blank after)
      (writes : Writes value digits) (radix : literal = digits ∨ literal = '0' :: 'b' :: digits) :
      ByteLine value line

/-- A line that holds no byte: nothing before its remark, or something other than a literal. -/
inductive FillerLine : List Char → Prop where
  | intro {body line : List Char} (oneLine : '\n' ∉ line)
      (remarked : Remarked body line) (noMark : '#' ∉ body)
      (noByte : Blank body ∨ ∀ digits, ¬ Spells (Text.trim body) digits) : FillerLine line

inductive Renders : List UInt8 → List (List Char) → Prop where
  | nil : Renders [] []
  | byte {value : UInt8} {line : List Char} {program : List UInt8} {rest : List (List Char)}
      (holds : ByteLine value line) (others : Renders program rest) :
      Renders (value :: program) (line :: rest)
  | filler {line : List Char} {program : List UInt8} {rest : List (List Char)}
      (holds : FillerLine line) (others : Renders program rest) : Renders program (line :: rest)

/-- The text consists of the lines, each with its end, which the last one may lack. -/
inductive Joined : List (List Char) → List Char → Prop where
  | nil : Joined [] []
  | unended (line : List Char) : Joined [line] line
  | lineFeed (line : List Char) {rest : List (List Char)} {text : List Char}
      (others : Joined rest text) : Joined (line :: rest) (line ++ '\n' :: text)
  | carriageReturn (line : List Char) {rest : List (List Char)} {text : List Char}
      (others : Joined rest text) : Joined (line :: rest) (line ++ '\r' :: '\n' :: text)

variable {value : UInt8} {line digits literal : List Char} {lines : List (List Char)}
  {program : List UInt8} {text : List Char}

theorem Writes.isBinary (writes : Writes value digits) : IsBinary digits := by
  cases writes with
  | @wide extra binary =>
      constructor
      · intro empty
        have noDigits := List.append_eq_nil_iff.mp empty
        have eight := length_octet value
        rw [noDigits.2] at eight
        contradiction
      · exact List.forall_mem_append.mpr ⟨binary, binary_octet value⟩
  | short whole zero filled =>
      refine ⟨filled, fun c among => binary_octet value c ?_⟩
      rw [← whole]
      exact List.mem_append_right _ among

theorem Writes.binaryValue_eq (writes : Writes value digits) : binaryValue digits = value := by
  have row := writes.isBinary
  cases writes with
  | wide binary =>
      rw [binaryValue_append_of_wide row.binary (Nat.le_of_eq (length_octet value).symm),
        binaryValue_octet]
  | short whole zero filled =>
      rw [← binaryValue_append_of_zeros zero digits, whole, binaryValue_octet]

theorem printed_of_spells (spells : Spells literal digits) :
    ∀ c ∈ literal, Text.isBlank c = false ∧ c ≠ '#' := by
  have printedDigit : ∀ c ∈ digits, Text.isBlank c = false ∧ c ≠ '#' := by
    intro c among
    rcases spells.1.binary c among with rfl | rfl <;> decide
  rcases spells.2 with rfl | rfl
  · exact printedDigit
  · intro c among
    rcases List.mem_cons.mp among with rfl | afterZero
    · decide
    rcases List.mem_cons.mp afterZero with rfl | inDigits
    · decide
    exact printedDigit c inDigits

theorem ByteLine.literal?_eq (holds : ByteLine value line) :
    literal? (code line) = some value := by
  obtain @⟨before, literal, digits, after, line, -, remarked, blankBefore, blankAfter, writes,
    radix⟩ := holds
  have spells : Spells literal digits := ⟨writes.isBinary, radix⟩
  have printed := printed_of_spells spells
  have noMark : '#' ∉ before ++ literal ++ after := by
    have unmarked : '#' ∉ literal := fun among => (printed '#' among).2 rfl
    exact List.not_mem_append (List.not_mem_append (blankBefore.not_mem (by decide)) unmarked)
      (blankAfter.not_mem (by decide))
  have trimmed : Text.trim (before ++ literal ++ after) = literal := by
    rw [Text.trim_between blankBefore blankAfter,
      Text.trim_of_not_blank fun c among => (printed c among).1]
  rw [remarked.code_eq noMark, trimmed, literal?_of_spells spells, writes.binaryValue_eq]

theorem FillerLine.literal?_eq (holds : FillerLine line) : literal? (code line) = none := by
  obtain @⟨body, line, -, remarked, noMark, noByte⟩ := holds
  rw [remarked.code_eq noMark]
  rcases noByte with blank | noLiteral
  · rw [Text.trim_of_blank blank, literal?_nil]
  · exact literal?_eq_none_iff.mpr noLiteral

theorem Renders.bytes_eq (renders : Renders program lines) : bytes lines = program := by
  induction renders with
  | nil => rfl
  | byte holds _ inductionHypothesis =>
      rw [bytes_cons, holds.literal?_eq, inductionHypothesis, Option.toList_some,
        List.singleton_append]
  | filler holds _ inductionHypothesis =>
      rw [bytes_cons, holds.literal?_eq, inductionHypothesis, Option.toList_none, List.nil_append]

theorem Renders.oneLine (renders : Renders program lines) : ∀ line ∈ lines, '\n' ∉ line := by
  induction renders with
  | nil => exact fun line among => absurd among List.not_mem_nil
  | byte holds _ inductionHypothesis =>
      obtain ⟨oneLine, -⟩ := holds
      exact List.forall_mem_cons.mpr ⟨oneLine, inductionHypothesis⟩
  | filler holds _ inductionHypothesis =>
      obtain ⟨oneLine, -⟩ := holds
      exact List.forall_mem_cons.mpr ⟨oneLine, inductionHypothesis⟩

theorem bytes_lines_lineFeed (oneLine : '\n' ∉ line) (rest : List Char) :
    bytes (Text.lines (line ++ '\n' :: rest)) =
      (literal? (code line)).toList ++ bytes (Text.lines rest) := by
  rw [Text.lines_append_lineFeed oneLine, bytes_cons, code_endLine, List.reverse_reverse]

/-- However the lines end, the text has the bytes of its lines. -/
theorem Joined.bytes_eq (joined : Joined lines text) (oneLine : ∀ line ∈ lines, '\n' ∉ line) :
    bytes (Text.lines text) = bytes lines := by
  induction joined with
  | nil => rfl
  | unended line =>
      rw [Text.lines_of_oneLine (oneLine line List.mem_cons_self)]
      -- An empty line without an end is not even a line, and neither has a byte.
      split
      next empty =>
        rw [List.isEmpty_iff.mp empty]
        rfl
      next => rfl
  | lineFeed line _ inductionHypothesis =>
      obtain ⟨here, others⟩ := List.forall_mem_cons.mp oneLine
      rw [bytes_lines_lineFeed here, inductionHypothesis others, bytes_cons]
  | @carriageReturn line rest text _ inductionHypothesis =>
      obtain ⟨here, others⟩ := List.forall_mem_cons.mp oneLine
      have longer : '\n' ∉ line ++ ['\r'] := List.not_mem_append here (by decide)
      have regrouped : line ++ '\r' :: '\n' :: text = line ++ ['\r'] ++ '\n' :: text := by
        rw [List.append_assoc, List.singleton_append]
      rw [regrouped, bytes_lines_lineFeed longer, code_append_blank Text.blank_carriageReturn,
        inductionHypothesis others, bytes_cons]

theorem bytes_of_rendering (renders : Renders program lines) (joined : Joined lines text) :
    bytes (Text.lines text) = program := by
  rw [joined.bytes_eq renders.oneLine, renders.bytes_eq]

/-- A text that writes a program down can be read into a memory if and only if the program fits,
that is, if it can be loaded as bytes; and both ways lead to the program with zeros behind it. -/
theorem parse_rendering_iff_load (size : Nat) {text : String} (renders : Renders program lines)
    (joined : Joined lines text.toList) :
    let start : Machine size := .ofMemory (.zero size)
    ((∃ memory, (parse size text).result = .ok memory) ↔ program.length ≤ size) ∧
      (program.length ≤ size ↔ ∃ machine, start.load program = .ok machine) ∧
      ∀ memory machine, (parse size text).result = .ok memory →
        start.load program = .ok machine →
        memory = machine.memory ∧ ∀ i < size, memory.cells[i]? = some (program.getD i 0) := by
  intro start
  simp only [parse, parseInto_eq_ok_iff, bytes_of_rendering renders joined, Machine.load_eq_ok_iff]
  refine ⟨by simp, by simp, ?_⟩
  rintro memory machine ⟨fits, rfl⟩ ⟨-, rfl⟩
  refine ⟨rfl, fun i inside => ?_⟩
  rcases Nat.lt_or_ge i program.length with covered | behind
  · rw [Memory.getElem?_overlay_zero_of_lt _ inside covered, List.getD_eq_getElem?_getD,
      List.getElem?_eq_getElem covered, Option.getD_some]
  · rw [Memory.getElem?_overlay_zero_of_le _ behind, List.getD_eq_getElem?_getD,
      List.getElem?_eq_none behind, Option.getD_none]
    simp [Memory.zero, inside]

/-- Lines of every kind and with every end. -/
theorem parse_rendering_iff_load_mixed :
    let lines := ["\u2003 0b1 # one", "not binary", "# 00000001", "\t1100000010"].map String.toList
    let text := "\u2003 0b1 # one\r\nnot binary\n# 00000001\n\t1100000010"
    Renders [1, 2] lines ∧ Joined lines text.toList ∧
      (∃ memory, (parse 4 text).result = .ok memory ∧
        ∀ i < 4, memory.cells[i]? = some ([1, 2].getD i 0)) ∧
      ¬ ∃ memory, (parse 1 text).result = .ok memory := by
  intro lines text
  have one : ByteLine 1 "\u2003 0b1 # one".toList := by
    have remarked : Remarked (['\u2003', ' '] ++ ['0', 'b', '1'] ++ [' '])
        "\u2003 0b1 # one".toList := .remark " one".toList
    have whole : List.replicate 7 '0' ++ ['1'] = octet 1 := by decide
    exact .intro (by decide) remarked (by decide) (by decide)
      (.short whole (fun c among => List.eq_of_mem_replicate among) (by decide)) (.inr rfl)
  have two : ByteLine 2 "\t1100000010".toList := by
    have remarked : Remarked (['\t'] ++ (['1', '1'] ++ octet 2) ++ [])
        "\t1100000010".toList := .bare
    exact .intro (by decide) remarked (by decide) (by decide) (.wide (by simp)) (.inl rfl)
  have renders : Renders [1, 2] lines := by
    refine .byte one (.filler ?_ (.filler ?_ (.byte two .nil)))
    · exact .intro (by decide) .bare (by decide) (.inr (literal?_eq_none_iff.mp (by decide)))
    · have remarked : Remarked [] "# 00000001".toList := .remark " 00000001".toList
      exact .intro (by decide) remarked (by decide) (.inl (by decide))
  have joined : Joined lines text.toList := by
    have ends : text.toList = "\u2003 0b1 # one".toList ++ '\r' :: '\n' ::
        ("not binary".toList ++ '\n' :: ("# 00000001".toList ++ '\n' ::
          "\t1100000010".toList)) := by decide
    rw [ends]
    exact .carriageReturn _ (.lineFeed _ (.lineFeed _ (.unended _)))
  obtain ⟨fits, loads, same⟩ := parse_rendering_iff_load 4 renders joined
  obtain ⟨memory, read⟩ := fits.mpr (by decide)
  obtain ⟨machine, loaded⟩ := loads.mp (by decide)
  refine ⟨renders, joined, ⟨memory, read, (same memory machine read loaded).2⟩, ?_⟩
  exact fun some => absurd ((parse_rendering_iff_load 1 renders joined).1.mp some) (by decide)

end EightBit.Image
