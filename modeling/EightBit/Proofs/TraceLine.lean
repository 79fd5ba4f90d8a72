import EightBit.Proofs.Hazard
import EightBit.Proofs.Hexadecimal

/-!
The line that shows a machine, read back. Its words are the program counter, the flags, the three
cells that the next cycle fetches, with dashes for those that do not exist, and the general
registers. So the line tells all of these and nothing else, and what the next cycle fetches, or why
it cannot, is told by the line alone.
-/

namespace EightBit

namespace Text

variable {words : List (List Char)}

theorem infix_intercalate {word : List Char} (among : word ∈ words) (separator : List Char) :
    word <:+: separator.intercalate words := by
  obtain ⟨i, found⟩ := List.mem_iff_getElem?.mp among
  have kept : (words.intersperse separator)[2 * i]? = some word := by
    rw [List.getElem?_intersperse_two_mul, found]
  exact List.infix_of_mem_flatten (List.mem_of_getElem? kept)

theorem mem_of_mem_intercalate {separator : List Char} {c : Char}
    (among : c ∈ separator.intercalate words) : c ∈ separator ∨ ∃ word ∈ words, c ∈ word := by
  obtain ⟨part, inParts, inPart⟩ := List.mem_flatten.mp among
  obtain ⟨i, found⟩ := List.mem_iff_getElem?.mp inParts
  rw [List.getElem?_intersperse] at found
  split at found
  next => exact .inr ⟨part, List.mem_of_getElem? found, inPart⟩
  next =>
    split at found
    next =>
      cases found
      exact .inl inPart
    next => contradiction

end Text

namespace Snapshot

variable {snapshot : Snapshot} {size : Nat}

/-- The cells at the program counter and behind it, as far as they exist. -/
def cells (snapshot : Snapshot) : List (Option UInt8) :=
  [snapshot.opcode, snapshot.operandA, snapshot.operandB]

def missing : List Char := ['-', '-']

def wordsOfLine (line : String) : List (List Char) :=
  line.toList.splitOn ' '

def words (snapshot : Snapshot) : List (List Char) :=
  ["TRACE:".toList, (byteText snapshot.pc).toList, ['|'], (byteText snapshot.fl).toList] ++
    (snapshot.cells.map fun cell => (cellText cell).toList) ++
    ['|'] :: snapshot.general.toList.map fun byte => (byteText byte).toList

theorem toList_line (snapshot : Snapshot) :
    snapshot.line.toList = [' '].intercalate snapshot.words := by
  have registers : (snapshot.general.toList.map fun byte => (byteText byte).toList) ≠ [] := by
    intro empty
    have eight := congrArg List.length empty
    simp at eight
  simp [line, words, cells, String.toList_intercalate, List.intercalate_cons_of_ne_nil registers,
    Function.comp_def]

theorem dash_mem_cellText_iff {cell : Option UInt8} :
    '-' ∈ (cellText cell).toList ↔ cell = none := by
  cases cell with
  | none => decide
  | some byte => exact iff_of_false (Text.dash_not_mem_hex byte.toNat) (Option.some_ne_none byte)

theorem byteText_ne_missing (byte : UInt8) : (byteText byte).toList ≠ missing := by
  intro same
  have dash : '-' ∈ (byteText byte).toList := by
    rw [same]
    exact List.mem_cons_self
  exact Text.dash_not_mem_hex byte.toNat dash

theorem cellText_eq_missing_iff {cell : Option UInt8} :
    (cellText cell).toList = missing ↔ cell = none := by
  cases cell with
  | none => exact iff_of_true rfl rfl
  | some byte => exact iff_of_false (byteText_ne_missing byte) (Option.some_ne_none byte)

theorem eq_of_mem_words {word : List Char} (among : word ∈ snapshot.words) :
    word = "TRACE:".toList ∨ word = ['|'] ∨ (∃ byte, word = (byteText byte).toList) ∨
      ∃ cell ∈ snapshot.cells, word = (cellText cell).toList := by
  simp only [words, List.mem_append, List.mem_cons, List.mem_map, List.not_mem_nil,
    or_false] at among
  rcases among with ((rfl | rfl | rfl | rfl) | ⟨cell, shown, rfl⟩) | rfl | ⟨byte, -, rfl⟩
  · exact .inl rfl
  · exact .inr (.inr (.inl ⟨_, rfl⟩))
  · exact .inr (.inl rfl)
  · exact .inr (.inr (.inl ⟨_, rfl⟩))
  · exact .inr (.inr (.inr ⟨cell, shown, rfl⟩))
  · exact .inr (.inl rfl)
  · exact .inr (.inr (.inl ⟨byte, rfl⟩))

theorem blank_not_mem_words : ∀ word ∈ snapshot.words, ' ' ∉ word := by
  intro word among
  rcases eq_of_mem_words among with rfl | rfl | ⟨byte, rfl⟩ | ⟨cell, -, rfl⟩
  · decide
  · decide
  · exact Text.blank_not_mem_hex byte.toNat
  · cases cell with
    | none => decide
    | some byte => exact Text.blank_not_mem_hex byte.toNat

theorem wordsOfLine_line (snapshot : Snapshot) : wordsOfLine snapshot.line = snapshot.words := by
  rw [wordsOfLine, toList_line]
  exact List.splitOn_intercalate ' ' blank_not_mem_words (by simp [words])

def byteOfWord (word : List Char) : UInt8 :=
  UInt8.ofNat (Text.readHex word)

def cellOfWord (word : List Char) : Option UInt8 :=
  if word = missing then none else some (byteOfWord word)

theorem byteOfWord_byteText (byte : UInt8) : byteOfWord (byteText byte).toList = byte := by
  rw [byteOfWord, byteText, Text.readHex_hex, UInt8.ofNat_toNat]

theorem cellOfWord_cellText (cell : Option UInt8) : cellOfWord (cellText cell).toList = cell := by
  cases cell with
  | none => rfl
  | some byte =>
      rw [cellText, cellOfWord, if_neg (byteText_ne_missing byte), byteOfWord_byteText]

def ofLine (line : String) : Snapshot :=
  let word (i : Nat) := (wordsOfLine line).getD i []
  { pc := byteOfWord (word 1)
    fl := byteOfWord (word 3)
    opcode := cellOfWord (word 4)
    operandA := cellOfWord (word 5)
    operandB := cellOfWord (word 6)
    general := Vector.ofFn fun register => byteOfWord (word (8 + register)) }

theorem ofLine_line (snapshot : Snapshot) : ofLine snapshot.line = snapshot := by
  have registers : (ofLine snapshot.line).general = snapshot.general := by
    apply Vector.ext
    intro register named
    have word : snapshot.words[8 + register]? = some (byteText snapshot.general[register]).toList := by
      rw [words, List.getElem?_append_right (by simp [cells]; omega)]
      have behind : 8 + register - 7 = register + 1 := by omega
      simp [cells, behind, named]
    simp [ofLine, wordsOfLine_line, word, byteOfWord_byteText]
  have others : ofLine snapshot.line =
      { snapshot with general := (ofLine snapshot.line).general } := by
    simp [ofLine, wordsOfLine_line, words, cells, byteOfWord_byteText, cellOfWord_cellText]
  rw [others, registers]

example : ofLine "TRACE: FF | 04 82 -- -- | 00 00 00 00 00 00 00 AB" =
    { pc := 0xFF, fl := 4, opcode := some 0x82, operandA := none, operandB := none,
      general := #v[0, 0, 0, 0, 0, 0, 0, 0xAB] } := by
  decide

theorem line_injective : Function.Injective line := by
  intro first second same
  rw [← ofLine_line first, same, ofLine_line]

theorem missing_infix_line_iff : missing <:+: snapshot.line.toList ↔ none ∈ snapshot.cells := by
  rw [toList_line]
  constructor
  · intro shown
    have dash : '-' ∈ missing := List.mem_cons_self
    rcases Text.mem_of_mem_intercalate (shown.subset dash) with blank | ⟨word, among, inWord⟩
    · exact absurd blank (by decide)
    · rcases eq_of_mem_words among with rfl | rfl | ⟨byte, rfl⟩ | ⟨cell, listed, rfl⟩
      · exact absurd inWord (by decide)
      · exact absurd inWord (by decide)
      · exact absurd inWord (Text.dash_not_mem_hex byte.toNat)
      · rwa [← dash_mem_cellText_iff.mp inWord]
  · intro absent
    apply Text.infix_intercalate
    have among : missing ∈ snapshot.cells.map fun cell => (cellText cell).toList :=
      List.mem_map.mpr ⟨none, absent, rfl⟩
    simp only [words, List.mem_append, among, or_true, true_or]

theorem getElem?_words {i : Nat} (cell : i < 3) :
    snapshot.words[4 + i]? = snapshot.cells[i]?.map fun cell => (cellText cell).toList := by
  match i with
  | 0 | 1 | 2 => rfl

theorem idxOf_missing_map (cells : List (Option UInt8)) :
    (cells.map fun cell => (cellText cell).toList).idxOf missing = cells.idxOf none := by
  induction cells with
  | nil => rfl
  | cons cell rest inductionHypothesis =>
      rw [List.map_cons, List.idxOf_cons, List.idxOf_cons, inductionHypothesis]
      cases cell with
      | none => rfl
      | some byte =>
          rw [cellText, beq_false_of_ne (byteText_ne_missing byte)]
          rfl

/-- The first dashes stand for the first cell that does not exist. -/
theorem idxOf_missing (absent : none ∈ snapshot.cells) :
    snapshot.words.idxOf missing = 4 + snapshot.cells.idxOf none := by
  have notBefore : missing ∉ ["TRACE:".toList, (byteText snapshot.pc).toList, ['|'],
      (byteText snapshot.fl).toList] := by
    have noLabel : missing ≠ "TRACE:".toList ∧ missing ≠ ['|'] := by decide
    have noByte (byte : UInt8) : missing ≠ (byteText byte).toList := (byteText_ne_missing byte).symm
    simp only [List.mem_cons, List.not_mem_nil, noLabel, noByte, or_self, not_false_eq_true]
  have shown : missing ∈ snapshot.cells.map fun cell => (cellText cell).toList :=
    List.mem_map.mpr ⟨none, absent, rfl⟩
  rw [words, List.append_assoc, List.idxOf_append, if_neg notBefore, List.idxOf_append,
    if_pos shown, idxOf_missing_map, Nat.add_comm]
  rfl

/-- The instruction that a snapshot of a machine with `size` cells shows, or what is wrong with it. -/
def fetch (size : Nat) (snapshot : Snapshot) : Except Fault Instruction :=
  match snapshot.opcode, snapshot.operandA, snapshot.operandB with
  | some byte, some a, some b =>
      match Opcode.ofByte? byte with
      | some opcode => .ok (opcode.instruction a b)
      | none => .error (.unknownOpcode byte snapshot.pc)
  | _, _, _ => .error (.outOfBounds (max snapshot.pc.toNat size) size)

end Snapshot

namespace Machine

variable {size : Nat} {machine : Machine size}

theorem getElem?_cells_snapshot {i : Nat} (cell : i < 3) :
    machine.snapshot.cells[i]? = some machine.memory.cells[machine.pc.toNat + i]? := by
  match i with
  | 0 | 1 | 2 => rfl

theorem fetch_eq (machine : Machine size) : machine.fetch = machine.snapshot.fetch size := by
  by_cases inside : machine.pc.toNat + 2 < size
  · rw [fetch_of_inside inside]
    have first : machine.pc.toNat < size := by omega
    have second : machine.pc.toNat + 1 < size := by omega
    cases found : Opcode.ofByte? machine.memory.cells[machine.pc.toNat] with
    | none => simp [Snapshot.fetch, snapshot, first, second, inside, found]
    | some opcode => simp [Snapshot.fetch, snapshot, first, second, inside, found]
  · rw [fetch_of_short (Nat.not_lt.mp inside)]
    simp [Snapshot.fetch, snapshot, inside]

theorem none_mem_cells_snapshot_iff :
    none ∈ machine.snapshot.cells ↔ size ≤ machine.pc.toNat + 2 := by
  simp only [Snapshot.cells, snapshot, List.mem_cons, List.not_mem_nil, or_false,
    eq_comm (a := none), Vector.getElem?_eq_none_iff]
  omega

theorem idxOf_none_cells_snapshot (short : size ≤ machine.pc.toNat + 2) :
    machine.snapshot.cells.idxOf none = max machine.pc.toNat size - machine.pc.toNat := by
  rcases Nat.lt_or_ge machine.pc.toNat size with first | before
  · rcases Nat.lt_or_ge (machine.pc.toNat + 1) size with second | before
    · have distance : max machine.pc.toNat size - machine.pc.toNat = 2 := by omega
      rw [distance, Snapshot.cells, snapshot, Vector.getElem?_eq_getElem first,
        Vector.getElem?_eq_getElem second, Vector.getElem?_eq_none short]
      rfl
    · have distance : max machine.pc.toNat size - machine.pc.toNat = 1 := by omega
      rw [distance, Snapshot.cells, snapshot, Vector.getElem?_eq_getElem first,
        Vector.getElem?_eq_none before]
      rfl
  · rw [Nat.max_eq_left before, Nat.sub_self, Snapshot.cells, snapshot,
      Vector.getElem?_eq_none before]
    rfl

theorem fetch_eq_outOfBounds_iff {address limit : Nat} :
    machine.fetch = .error (.outOfBounds address limit) ↔
      size ≤ machine.pc.toNat + 2 ∧ address = max machine.pc.toNat size ∧ limit = size := by
  simp [fetch_eq_error_iff]

theorem snapshot_eq_iff {other : Machine size} :
    other.snapshot = machine.snapshot ↔
      other.pc = machine.pc ∧ other.fl = machine.fl ∧ other.general = machine.general ∧
        ∀ i < 3, other.memory.cells[machine.pc.toNat + i]? =
          machine.memory.cells[machine.pc.toNat + i]? := by
  constructor
  · intro same
    have samePc : other.pc = machine.pc := congrArg Snapshot.pc same
    refine ⟨samePc, congrArg Snapshot.fl same, congrArg Snapshot.general same, fun i cell => ?_⟩
    have shown := other.getElem?_cells_snapshot cell
    rw [same, getElem?_cells_snapshot cell, samePc] at shown
    exact (Option.some.inj shown).symm
  · rintro ⟨samePc, sameFlags, sameRegisters, sameCells⟩
    have sameOpcode : other.memory.cells[machine.pc.toNat]? =
        machine.memory.cells[machine.pc.toNat]? := sameCells 0 (by decide)
    rw [snapshot, snapshot, samePc, sameFlags, sameRegisters, sameOpcode,
      sameCells 1 (by decide), sameCells 2 (by decide)]

/-- The line shows the three cells that the next cycle fetches, with dashes for those that do not
exist, and what the cycle fetches is what the line shows. There are dashes in the line just if the
cycle fails for want of a cell, and the first ones stand for the address that its fault names. Two
machines of one size have the same line just if they have the same program counter, flags and
general registers and the same cells there. -/
theorem line_shows_fetched_cells (machine : Machine size) :
    let line := machine.snapshot.line
    let words := Snapshot.wordsOfLine line
    let fails := fun address limit => machine.fetch = .error (.outOfBounds address limit)
    (∀ i < 3, words[4 + i]? =
      some (Snapshot.cellText machine.memory.cells[machine.pc.toNat + i]?).toList) ∧
    (∀ i < 3, words[4 + i]? = some Snapshot.missing ↔ size ≤ machine.pc.toNat + i) ∧
    machine.fetch = (Snapshot.ofLine line).fetch size ∧
    (Snapshot.missing <:+: line.toList ↔ ∃ address limit, fails address limit) ∧
    (∀ address limit, fails address limit →
      address = max machine.pc.toNat size ∧ limit = size ∧
        words.idxOf Snapshot.missing = 4 + (address - machine.pc.toNat) ∧
        ∀ room, machine.cycle room =
          { machine, room, fault := some (.outOfBounds address limit) }) ∧
    ∀ other : Machine size, other.snapshot.line = line ↔
      other.pc = machine.pc ∧ other.fl = machine.fl ∧ other.general = machine.general ∧
        ∀ i < 3, other.memory.cells[machine.pc.toNat + i]? =
          machine.memory.cells[machine.pc.toNat + i]? := by
  intro line words fails
  have words_eq : words = machine.snapshot.words := Snapshot.wordsOfLine_line machine.snapshot
  have shown (i : Nat) (cell : i < 3) : words[4 + i]? =
      some (Snapshot.cellText machine.memory.cells[machine.pc.toNat + i]?).toList := by
    rw [words_eq, Snapshot.getElem?_words cell, getElem?_cells_snapshot cell, Option.map_some]
  refine ⟨shown, ?_, ?_, ?_, ?_, ?_⟩
  · intro i cell
    rw [shown i cell, Option.some.injEq, Snapshot.cellText_eq_missing_iff,
      Vector.getElem?_eq_none_iff]
  · rw [Snapshot.ofLine_line]
    exact machine.fetch_eq
  · rw [Snapshot.missing_infix_line_iff, none_mem_cells_snapshot_iff]
    simp [fails, fetch_eq_outOfBounds_iff]
  · intro address limit failed
    obtain ⟨short, rfl, rfl⟩ := fetch_eq_outOfBounds_iff.mp failed
    refine ⟨rfl, rfl, ?_, fun room => ?_⟩
    · rw [words_eq, Snapshot.idxOf_missing (none_mem_cells_snapshot_iff.mpr short),
        idxOf_none_cells_snapshot short]
    · simp [cycle, fetch_of_short short]
  · intro other
    rw [Snapshot.line_injective.eq_iff, snapshot_eq_iff]

end Machine

end EightBit
