import EightBit.Memory.Row
import EightBit.Proofs.Hexadecimal

/-!
The dump as an account of the whole memory. It lists the rows that hold something, by address. Each
line can be read back as its row, and a cell that no line shows holds 0; so the memory can be put
together again from the log of its dump.
-/

namespace EightBit.Memory

variable {size : Nat} {memory : Memory size} {row : Row} {cell : Nat} {value : UInt8}

namespace Row

theorem ext_bytes {first second : Row} (address : first.address = second.address)
    (bytes : ∀ i : Nat, first.bytes[i]? = second.bytes[i]?) : first = second := by
  obtain ⟨address, bytes⟩ := first
  obtain ⟨other, others⟩ := second
  congr
  exact List.ext_getElem? bytes

/-- Reads a row from its line: the first word, without the colon behind it, is the address, and the
others are the bytes. -/
def ofMessage (message : String) : Row :=
  let words := message.toList.splitOn ' '
  { address := Text.readHex (words.headD []).dropLast
    bytes := words.tail.map fun word => UInt8.ofNat (Text.readHex word) }

def words (row : Row) : List (List Char) :=
  ((Text.hex row.address).toList ++ [':']) ::
    row.bytes.map fun byte => (Text.hex byte.toNat).toList

theorem toList_message (filled : row.bytes ≠ []) :
    row.message.toList = [' '].intercalate row.words := by
  have others : row.bytes.map (fun byte => (Text.hex byte.toNat).toList) ≠ [] := by
    simpa using filled
  rw [words, List.intercalate_cons_of_ne_nil others, message, String.toList_append,
    String.toList_append, String.toList_intercalate, List.map_map, List.append_assoc _ [':']]
  rfl

theorem blank_not_mem_words : ∀ word ∈ row.words, ' ' ∉ word := by
  intro word among
  rcases List.mem_cons.mp among with rfl | byteWord
  · exact List.not_mem_append (Text.blank_not_mem_hex row.address) (by decide)
  · obtain ⟨byte, -, rfl⟩ := List.mem_map.mp byteWord
    exact Text.blank_not_mem_hex byte.toNat

theorem ofMessage_message (filled : row.bytes ≠ []) : ofMessage row.message = row := by
  have split : row.message.toList.splitOn ' ' = row.words := by
    rw [toList_message filled]
    exact List.splitOn_intercalate ' ' blank_not_mem_words (List.cons_ne_nil _ _)
  simp only [ofMessage, split, words, List.headD_cons, List.tail_cons, List.dropLast_concat,
    Text.readHex_hex, List.map_map, Function.comp_def, UInt8.ofNat_toNat, List.map_id']

example : ofMessage "120: 00 7F" = { address := 0x120, bytes := [0, 0x7F] } := by
  decide

def byteAt? (row : Row) (cell : Nat) : Option UInt8 :=
  if row.address ≤ cell then row.bytes[cell - row.address]? else none

theorem mem_bytes_of_byteAt? (shown : row.byteAt? cell = some value) : value ∈ row.bytes := by
  unfold byteAt? at shown
  split at shown
  next => exact List.mem_of_getElem? shown
  next => contradiction

theorem isZero_eq_false_iff : row.isZero = false ↔ ∃ byte ∈ row.bytes, byte ≠ 0 := by
  simp [isZero]

end Row

theorem getElem?_row (memory : Memory size) (start i : Nat) :
    ((memory.cells.toList.drop start).take Row.width)[i]? =
      if i < 16 then memory.cells[start + i]? else none := by
  rw [List.getElem?_take, List.getElem?_drop, Vector.getElem?_toList, Row.width]

theorem mem_rows_iff : row ∈ memory.rows ↔
    16 ∣ row.address ∧ row.address < size ∧
      ∀ i, row.bytes[i]? = if i < 16 then memory.cells[row.address + i]? else none := by
  have inRange_iff (k : Nat) : k ∈ List.range ((size + Row.width - 1) / Row.width) ↔
      16 * k < size := by
    rw [List.mem_range, Row.width]
    omega
  constructor
  · intro among
    obtain ⟨k, inRange, rfl⟩ := List.mem_map.mp among
    exact ⟨Nat.dvd_mul_right 16 k, (inRange_iff k).mp inRange, memory.getElem?_row (16 * k)⟩
  · rintro ⟨⟨k, start⟩, begun, bytes⟩
    rw [start] at begun
    apply List.mem_map.mpr
    refine ⟨k, (inRange_iff k).mpr begun, Row.ext_bytes start.symm fun i => ?_⟩
    rw [bytes i, start]
    exact memory.getElem?_row (16 * k) i

theorem mem_dump_iff :
    row ∈ memory.dump ↔ row ∈ memory.rows ∧ ∃ byte ∈ row.bytes, byte ≠ 0 := by
  rw [dump, List.mem_filter, Bool.not_eq_true', Row.isZero_eq_false_iff]

/-- The rows of a dump are in the order of their addresses, so none is there twice. -/
theorem pairwise_dump (memory : Memory size) :
    memory.dump.Pairwise fun first second => first.address < second.address := by
  apply List.Pairwise.filter
  apply List.pairwise_map.mpr
  apply List.pairwise_lt_range.imp
  intro first second before
  exact Nat.mul_lt_mul_of_pos_left before (by decide)

theorem cells_of_byteAt? (among : row ∈ memory.rows) (shown : row.byteAt? cell = some value) :
    memory.cells[cell]? = some value := by
  obtain ⟨-, -, bytes⟩ := mem_rows_iff.mp among
  unfold Row.byteAt? at shown
  split at shown
  next reached =>
    rw [bytes, Nat.add_sub_cancel' reached] at shown
    split at shown
    · exact shown
    · contradiction
  next => contradiction

/-- A cell is shown by the row that begins at the last multiple of sixteen up to it. -/
theorem exists_row_of_cell (held : memory.cells[cell]? = some value) :
    ∃ row ∈ memory.rows, row.byteAt? cell = some value := by
  obtain ⟨start, multiple, reached, near⟩ :
      ∃ start, 16 ∣ start ∧ start ≤ cell ∧ cell - start < 16 :=
    ⟨16 * (cell / 16), Nat.dvd_mul_right 16 _, by omega, by omega⟩
  have begun : start < size := by
    obtain ⟨inside, -⟩ := Vector.getElem?_eq_some_iff.mp held
    exact Nat.lt_of_le_of_lt reached inside
  refine ⟨⟨start, (memory.cells.toList.drop start).take Row.width⟩, ?_, ?_⟩
  · exact mem_rows_iff.mpr ⟨multiple, begun, memory.getElem?_row start⟩
  · rw [Row.byteAt?, if_pos reached, getElem?_row, if_pos near, Nat.add_sub_cancel' reached, held]

/-- What a dump does not show is 0, since the row was left out for holding nothing else. -/
theorem cells_eq_zero_of_not_shown (inside : cell < size)
    (notShown : ∀ row ∈ memory.dump, row.byteAt? cell = none) :
    memory.cells[cell]? = some 0 := by
  have held : memory.cells[cell]? = some memory.cells[cell] := Vector.getElem?_eq_getElem inside
  obtain ⟨row, among, shown⟩ := exists_row_of_cell held
  have leftOut : row ∉ memory.dump := by
    intro listed
    rw [notShown row listed] at shown
    contradiction
  have zeros : ∀ byte ∈ row.bytes, byte = 0 := by
    simpa [mem_dump_iff, among] using leftOut
  rw [held, zeros _ (Row.mem_bytes_of_byteAt? shown)]

/-- The memory that the rows show, with 0 in the cells that none of them does. -/
def ofRows (size : Nat) (rows : List Row) : Memory size :=
  ⟨Vector.ofFn fun cell => (rows.findSome? fun row => row.byteAt? cell).getD 0⟩

theorem ofRows_dump (memory : Memory size) : ofRows size memory.dump = memory := by
  apply ext_cells
  intro cell
  by_cases inside : cell < size
  · have restored : (ofRows size memory.dump).cells[cell]? =
        some ((memory.dump.findSome? fun row => row.byteAt? cell).getD 0) := by
      simp [ofRows, inside]
    -- Either a listed row shows the cell, or the row of the cell was left out.
    cases found : memory.dump.findSome? fun row => row.byteAt? cell with
    | some value =>
        obtain ⟨row, among, shown⟩ := List.exists_of_findSome?_eq_some found
        rw [restored, found, Option.getD_some, cells_of_byteAt? (mem_dump_iff.mp among).1 shown]
    | none =>
        have notShown := List.findSome?_eq_none_iff.mp found
        rw [restored, found, Option.getD_none, cells_eq_zero_of_not_shown inside notShown]
  · simp [inside]

theorem records_dump (memory : Memory size) :
    Log.records (some .debug) memory.dump =
      memory.dump.map fun row => ⟨.debug, "ls8::memory", row.message⟩ := by
  rw [Log.records_of_admitted fun row _ => rfl]
  rfl

def rowsOfLog (log : List Log.Record) : List Row :=
  log.map fun record => Row.ofMessage record.message

theorem rowsOfLog_records_dump (memory : Memory size) :
    rowsOfLog (Log.records (some .debug) memory.dump) = memory.dump := by
  have readBack : ∀ row ∈ memory.dump, Row.ofMessage row.message = row := by
    intro row among
    obtain ⟨-, byte, shown, -⟩ := mem_dump_iff.mp among
    exact Row.ofMessage_message (List.ne_nil_of_mem shown)
  rw [rowsOfLog, records_dump, List.map_map]
  exact (List.map_congr_left readBack).trans (List.map_id _)

theorem eq_of_records_dump_eq {other : Memory size}
    (same : Log.records (some .debug) other.dump = Log.records (some .debug) memory.dump) :
    other = memory := by
  have sameRows : other.dump = memory.dump := by
    rw [← other.rowsOfLog_records_dump, same, memory.rowsOfLog_records_dump]
  rw [← other.ofRows_dump, sameRows, memory.ofRows_dump]

/-- A dump has one record for each row that holds something, in ascending order of their addresses,
and each can be read back as the address and all the bytes of its row. The memory is what the
records show, and 0 elsewhere; so no two memories of one size have the same dump. -/
theorem dump_determines_memory (memory : Memory size) :
    let log := Log.records (some .debug) memory.dump
    let rows := rowsOfLog log
    (log = rows.map fun row => ⟨.debug, "ls8::memory", row.message⟩) ∧
    (rows.Pairwise fun first second => first.address < second.address) ∧
    (∀ row, row ∈ rows ↔ 16 ∣ row.address ∧ row.address < size ∧
      (∀ i, row.bytes[i]? = if i < 16 then memory.cells[row.address + i]? else none) ∧
      ∃ byte ∈ row.bytes, byte ≠ 0) ∧
    (∀ cell < size, (∀ row ∈ rows, row.byteAt? cell = none) → memory.cells[cell]? = some 0) ∧
    ofRows size rows = memory ∧
    ∀ other : Memory size, Log.records (some .debug) other.dump = log ↔ other = memory := by
  intro log rows
  have readBack : rows = memory.dump := memory.rowsOfLog_records_dump
  rw [readBack]
  refine ⟨memory.records_dump, memory.pairwise_dump, ?_, ?_, memory.ofRows_dump, ?_⟩
  · intro row
    rw [mem_dump_iff, mem_rows_iff, and_assoc, and_assoc]
  · intro cell inside notShown
    exact cells_eq_zero_of_not_shown inside notShown
  · intro other
    constructor
    · exact eq_of_records_dump_eq
    · rintro rfl
      rfl

end EightBit.Memory
