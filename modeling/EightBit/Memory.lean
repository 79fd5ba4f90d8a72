import EightBit.Attempt

/-!
Memory: a fixed number of byte cells with addresses from 0. Every access is checked against the
size, and an access that fails leaves the memory as it was.
-/

namespace EightBit

structure Memory (size : Nat) where
  cells : Vector UInt8 size
  deriving DecidableEq

namespace Memory

variable {size : Nat}

def zero (size : Nat) : Memory size :=
  ⟨Vector.replicate size 0⟩

def read (memory : Memory size) (address : Nat) : Except Fault UInt8 :=
  if h : address < size then .ok memory.cells[address]
  else .error (.outOfBounds address size)

def store (memory : Memory size) (address : Nat) (value : UInt8) : Attempt (Memory size) :=
  if h : address < size then { state := ⟨memory.cells.set address value⟩ }
  else { state := memory, fault := some (.outOfBounds address size) }

def write (memory : Memory size) (address : Nat) (value : UInt8) : Except Fault (Memory size) :=
  (memory.store address value).result

theorem ext_cells {first second : Memory size}
    (same : ∀ i : Nat, first.cells[i]? = second.cells[i]?) : first = second := by
  obtain ⟨cells⟩ := first
  obtain ⟨others⟩ := second
  congr
  apply Vector.ext
  intro i inside
  simpa [inside] using same i

theorem read_eq_ok_iff {memory : Memory size} {address : Nat} {value : UInt8} :
    memory.read address = .ok value ↔ memory.cells[address]? = some value := by
  unfold read
  split <;> simp_all

theorem read_eq_error_iff {memory : Memory size} {address : Nat} {fault : Fault} :
    memory.read address = .error fault ↔ size ≤ address ∧ fault = .outOfBounds address size := by
  by_cases inside : address < size
  · simp [read, inside, Nat.not_le.mpr inside]
  · simp [read, inside, Nat.not_lt.mp inside, eq_comm]

theorem read_of_inside (memory : Memory size) {address : Nat} (inside : address < size) :
    memory.read address = .ok (memory.cells[address]?.getD 0) := by
  simp [read, inside]

theorem store_of_inside {memory : Memory size} {address : Nat} (inside : address < size)
    (value : UInt8) :
    memory.store address value = { state := ⟨memory.cells.set address value⟩ } :=
  dif_pos inside

theorem store_of_outside {memory : Memory size} {address : Nat} (outside : size ≤ address)
    (value : UInt8) :
    memory.store address value =
      { state := memory, fault := some (.outOfBounds address size) } :=
  dif_neg (Nat.not_lt.mpr outside)

theorem write_eq_ok_iff {memory next : Memory size} {address : Nat} {value : UInt8} :
    memory.write address value = .ok next ↔
      ∃ inside : address < size, next = ⟨memory.cells.set address value inside⟩ := by
  rw [write, Attempt.result_eq_ok_iff]
  rcases Nat.lt_or_ge address size with inside | outside
  · simp [store_of_inside inside, inside, eq_comm]
  · simp [store_of_outside outside, Nat.not_lt.mpr outside]

theorem exists_write (memory : Memory size) {address : Nat} (inside : address < size)
    (value : UInt8) : ∃ next, memory.write address value = .ok next :=
  ⟨_, write_eq_ok_iff.mpr ⟨inside, rfl⟩⟩

theorem write_eq_error_iff {memory : Memory size} {address : Nat} {value : UInt8} {fault : Fault} :
    memory.write address value = .error fault ↔
      size ≤ address ∧ fault = .outOfBounds address size := by
  rw [write, Attempt.result_eq_error_iff]
  rcases Nat.lt_or_ge address size with inside | outside
  · simp [store_of_inside inside, Nat.not_le.mpr inside]
  · simp [store_of_outside outside, outside, eq_comm]

theorem getElem?_write {memory next : Memory size} {address : Nat} {value : UInt8}
    (written : memory.write address value = .ok next) (i : Nat) :
    next.cells[i]? = if i = address then some value else memory.cells[i]? := by
  obtain ⟨inside, rfl⟩ := write_eq_ok_iff.mp written
  simp [Vector.getElem?_set, eq_comm]

/-- Overlays the cells from `address` on with `bytes`; cells the block does not reach stay. -/
def overlay (memory : Memory size) (address : Nat) (bytes : List UInt8) : Memory size :=
  ⟨Vector.ofFn fun i =>
    if address ≤ i then bytes.getD (i - address) memory.cells[i] else memory.cells[i]⟩

theorem getElem?_overlay (memory : Memory size) (address : Nat) (bytes : List UInt8) (i : Nat) :
    (memory.overlay address bytes).cells[i]? =
      if i < size then
        if address ≤ i then (bytes[i - address]?).or memory.cells[i]? else memory.cells[i]?
      else none := by
  by_cases inside : i < size
  · by_cases behind : address ≤ i
    · cases found : bytes[i - address]? <;> simp [overlay, inside, behind, found]
    · simp [overlay, inside, behind]
  · simp [inside]

theorem overlay_nil (memory : Memory size) (address : Nat) : memory.overlay address [] = memory := by
  apply ext_cells
  intro i
  rw [getElem?_overlay]
  by_cases inside : i < size
  · simp [inside]
  · simp [inside]

theorem overlay_cons {memory next : Memory size} {address : Nat} {value : UInt8}
    (written : memory.write address value = .ok next) (rest : List UInt8) :
    memory.overlay address (value :: rest) = next.overlay (address + 1) rest := by
  obtain ⟨inside, -⟩ := write_eq_ok_iff.mp written
  apply ext_cells
  intro i
  rw [getElem?_overlay, getElem?_overlay, getElem?_write written]
  rcases Nat.lt_trichotomy i address with before | rfl | behind
  · have outside : ¬ address ≤ i := by omega
    have farther : ¬ address + 1 ≤ i := by omega
    have apart : i ≠ address := by omega
    simp [outside, farther, apart]
  · have outside : ¬ i + 1 ≤ i := by omega
    simp [inside, outside]
  · have reached : address ≤ i := by omega
    have farther : address + 1 ≤ i := by omega
    have apart : i ≠ address := by omega
    have offset : i - address = i - (address + 1) + 1 := by omega
    simp [reached, farther, apart, offset]

theorem getElem?_overlay_of_covered (memory : Memory size) {address : Nat} {bytes : List UInt8}
    {i : Nat} (inside : address + i < size) (covered : i < bytes.length) :
    (memory.overlay address bytes).cells[address + i]? = bytes[i]? := by
  rw [getElem?_overlay, if_pos inside, if_pos (Nat.le_add_right address i),
    Nat.add_sub_cancel_left, List.getElem?_eq_getElem covered, Option.some_or]

theorem getElem?_overlay_of_not_covered (memory : Memory size) {address : Nat}
    {bytes : List UInt8} {i : Nat} (outside : i < address ∨ address + bytes.length ≤ i) :
    (memory.overlay address bytes).cells[i]? = memory.cells[i]? := by
  rw [getElem?_overlay]
  by_cases inside : i < size
  · rcases outside with before | behind
    · rw [if_pos inside, if_neg (Nat.not_le.mpr before)]
    · have reached : address ≤ i := by omega
      have notCovered : bytes.length ≤ i - address := by omega
      rw [if_pos inside, if_pos reached, List.getElem?_eq_none notCovered, Option.none_or]
  · simp [inside]

theorem getElem?_overlay_zero_of_lt (memory : Memory size) {bytes : List UInt8} {i : Nat}
    (inside : i < size) (covered : i < bytes.length) :
    (memory.overlay 0 bytes).cells[i]? = bytes[i]? := by
  rw [← Nat.zero_add i] at inside
  have shown := memory.getElem?_overlay_of_covered inside covered
  rwa [Nat.zero_add] at shown

theorem getElem?_overlay_zero_of_le (memory : Memory size) {bytes : List UInt8} {i : Nat}
    (behind : bytes.length ≤ i) : (memory.overlay 0 bytes).cells[i]? = memory.cells[i]? := by
  apply getElem?_overlay_of_not_covered
  omega

/-- Stores a block of bytes in place, or nothing if its last byte has no cell. The fault names the
address of that byte, for an empty block the one before `address`. -/
def storeBlock (memory : Memory size) (address : Nat) (bytes : List UInt8) :
    Attempt (Memory size) :=
  if address + bytes.length ≤ size then { state := memory.overlay address bytes }
  else { state := memory, fault := some (.outOfBounds (address + bytes.length - 1) size) }

def writeBlock (memory : Memory size) (address : Nat) (bytes : List UInt8) :
    Except Fault (Memory size) :=
  (memory.storeBlock address bytes).result

theorem storeBlock_of_fits {memory : Memory size} {address : Nat} {bytes : List UInt8}
    (fits : address + bytes.length ≤ size) :
    memory.storeBlock address bytes = { state := memory.overlay address bytes } :=
  if_pos fits

theorem storeBlock_of_short {memory : Memory size} {address : Nat} {bytes : List UInt8}
    (short : size < address + bytes.length) :
    memory.storeBlock address bytes =
      { state := memory, fault := some (.outOfBounds (address + bytes.length - 1) size) } :=
  if_neg (Nat.not_le.mpr short)

theorem fault_storeBlock_eq_none_iff {memory : Memory size} {address : Nat} {bytes : List UInt8} :
    (memory.storeBlock address bytes).fault = none ↔ address + bytes.length ≤ size := by
  rcases Nat.lt_or_ge size (address + bytes.length) with short | fits
  · simp [storeBlock_of_short short, short]
  · simp [storeBlock_of_fits fits, fits]

theorem writeBlock_eq_ok_iff {memory next : Memory size} {address : Nat} {bytes : List UInt8} :
    memory.writeBlock address bytes = .ok next ↔
      address + bytes.length ≤ size ∧ next = memory.overlay address bytes := by
  rw [writeBlock, Attempt.result_eq_ok_iff, fault_storeBlock_eq_none_iff]
  apply and_congr_right
  intro fits
  rw [storeBlock_of_fits fits, eq_comm]

theorem writeBlock_eq_error_iff {memory : Memory size} {address : Nat} {bytes : List UInt8}
    {fault : Fault} :
    memory.writeBlock address bytes = .error fault ↔
      size < address + bytes.length ∧
        fault = .outOfBounds (address + bytes.length - 1) size := by
  rw [writeBlock, Attempt.result_eq_error_iff]
  rcases Nat.lt_or_ge size (address + bytes.length) with short | fits
  · simp [storeBlock_of_short short, short, eq_comm]
  · simp [storeBlock_of_fits fits, Nat.not_lt.mpr fits]

def changesSince (before memory : Memory size) : List (Nat × UInt8) :=
  (List.finRange size).filterMap fun i =>
    if before.cells[i] = memory.cells[i] then none else some (i.val, memory.cells[i])

theorem mem_changesSince_iff {before memory : Memory size} {address : Nat} {value : UInt8} :
    (address, value) ∈ before.changesSince memory ↔
      memory.cells[address]? = some value ∧ before.cells[address]? ≠ some value := by
  simp only [changesSince, List.mem_filterMap, List.mem_finRange, true_and,
    Option.ite_none_left_eq_some, Option.some.injEq, Prod.mk.injEq]
  constructor
  · rintro ⟨i, changed, rfl, rfl⟩
    simpa using changed
  · rintro ⟨now, changed⟩
    obtain ⟨inside, rfl⟩ := Vector.getElem?_eq_some_iff.mp now
    exact ⟨⟨address, inside⟩, by simpa [inside] using changed, rfl, rfl⟩

end Memory

end EightBit
