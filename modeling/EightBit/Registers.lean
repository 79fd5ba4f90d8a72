import EightBit.Attempt

/-!
The register file: eight general registers, program counter, stack pointer and flags, each one
byte. Arithmetic on registers is modulo 256. A comparison sets exactly one of three flags.
-/

namespace EightBit

structure Registers where
  general : Vector UInt8 8 := Vector.replicate 8 0
  /-- Program counter: the address of the next instruction. -/
  pc : UInt8 := 0
  /-- Stack pointer: the address of the top of the stack. -/
  sp : UInt8 := 0
  /-- Flags: how the last compared values relate. -/
  fl : UInt8 := 0
  deriving DecidableEq

inductive Operation where
  | add
  | mul
  | cmp
  deriving DecidableEq, Repr

namespace Flag

def equal : UInt8 := 1

def greater : UInt8 := 2

def less : UInt8 := 4

def compare (x y : UInt8) : UInt8 :=
  if x = y then equal else if x < y then less else greater

end Flag

namespace Registers

def get (registers : Registers) (index : UInt8) : Except Fault UInt8 :=
  if h : index.toNat < 8 then .ok registers.general[index.toNat]
  else .error (.invalidRegister index)

def store (registers : Registers) (index value : UInt8) : Attempt Registers :=
  if h : index.toNat < 8 then
    { state := { registers with general := registers.general.set index.toNat value } }
  else { state := registers, fault := some (.invalidRegister index) }

def set (registers : Registers) (index value : UInt8) : Except Fault Registers :=
  (registers.store index value).result

theorem get_eq_ok_iff {registers : Registers} {index value : UInt8} :
    registers.get index = .ok value ↔ registers.general[index.toNat]? = some value := by
  unfold get
  split <;> simp_all

theorem named_of_get {registers : Registers} {index value : UInt8}
    (found : registers.get index = .ok value) : index.toNat < 8 :=
  (Vector.getElem?_eq_some_iff.mp (get_eq_ok_iff.mp found)).1

theorem get_of_named (registers : Registers) {index : UInt8} (named : index.toNat < 8) :
    registers.get index = .ok registers.general[index.toNat] :=
  get_eq_ok_iff.mpr (Vector.getElem?_eq_getElem named)

theorem get_eq_error_iff {registers : Registers} {index : UInt8} {fault : Fault} :
    registers.get index = .error fault ↔ 8 ≤ index.toNat ∧ fault = .invalidRegister index := by
  by_cases named : index.toNat < 8
  · simp [get, named, Nat.not_le.mpr named]
  · simp [get, named, Nat.not_lt.mp named, eq_comm]

theorem set_eq_ok_iff {registers next : Registers} {index value : UInt8} :
    registers.set index value = .ok next ↔
      ∃ named : index.toNat < 8,
        next = { registers with general := registers.general.set index.toNat value named } := by
  by_cases named : index.toNat < 8
  · simp [set, store, Attempt.result, named, eq_comm]
  · simp [set, store, Attempt.result, named]

theorem exists_set (registers : Registers) {index : UInt8} (named : index.toNat < 8)
    (value : UInt8) : ∃ next, registers.set index value = .ok next :=
  ⟨_, set_eq_ok_iff.mpr ⟨named, rfl⟩⟩

theorem named_of_set {registers next : Registers} {index value : UInt8}
    (stored : registers.set index value = .ok next) : index.toNat < 8 :=
  (set_eq_ok_iff.mp stored).1

theorem set_eq_error_iff {registers : Registers} {index value : UInt8} {fault : Fault} :
    registers.set index value = .error fault ↔
      8 ≤ index.toNat ∧ fault = .invalidRegister index := by
  by_cases named : index.toNat < 8
  · simp [set, store, Attempt.result, named, Nat.not_le.mpr named]
  · simp [set, store, Attempt.result, named, Nat.not_lt.mp named, eq_comm]

theorem state_store_of_fault {registers : Registers} {index value : UInt8}
    (failed : (registers.store index value).fault.isSome) :
    (registers.store index value).state = registers := by
  by_cases named : index.toNat < 8
  · simp [store, named] at failed
  · simp [store, named]

def equal (registers : Registers) : Bool :=
  registers.fl &&& Flag.equal != 0

/-- Computes in place with registers `a` and `b`, of which `a` is looked up first. A sum or a
product goes to `a`, a comparison only to the flags. -/
def compute (registers : Registers) (operation : Operation) (a b : UInt8) : Attempt Registers :=
  .given registers (registers.get a) fun x =>
    .given registers (registers.get b) fun y =>
      match operation with
      | .add => registers.store a (x + y)
      | .mul => registers.store a (x * y)
      | .cmp => { state := { registers with fl := Flag.compare x y } }

def apply (registers : Registers) (operation : Operation) (a b : UInt8) : Except Fault Registers :=
  (registers.compute operation a b).result

/-- Whatever register is missing, a computation that fails changes nothing. -/
theorem state_compute_of_fault {registers : Registers} {operation : Operation} {a b : UInt8} :
    (registers.compute operation a b).fault.isSome →
      (registers.compute operation a b).state = registers := by
  apply Attempt.state_given_of_fault
  intro x
  apply Attempt.state_given_of_fault
  intro y failed
  cases operation with
  | add | mul => exact state_store_of_fault failed
  | cmp => cases failed

theorem apply_eq (registers : Registers) (operation : Operation) (a b : UInt8) :
    registers.apply operation a b =
      registers.get a >>= fun x => registers.get b >>= fun y =>
        match operation with
        | .add => registers.set a (x + y)
        | .mul => registers.set a (x * y)
        | .cmp => .ok { registers with fl := Flag.compare x y } := by
  simp only [apply, compute, Attempt.result_given]
  cases operation <;> rfl

theorem apply_eq_ok_iff {registers next : Registers} {operation : Operation} {a b : UInt8} :
    registers.apply operation a b = .ok next ↔
      ∃ x y, registers.get a = .ok x ∧ registers.get b = .ok y ∧
        match operation with
        | .add => registers.set a (x + y) = .ok next
        | .mul => registers.set a (x * y) = .ok next
        | .cmp => next = { registers with fl := Flag.compare x y } := by
  simp only [apply_eq, bind_eq_ok_iff]
  constructor
  · rintro ⟨x, foundA, y, foundB, applied⟩
    cases operation with
    | add | mul => exact ⟨x, y, foundA, foundB, applied⟩
    | cmp => exact ⟨x, y, foundA, foundB, (Except.ok.inj applied).symm⟩
  · rintro ⟨x, y, foundA, foundB, applied⟩
    refine ⟨x, foundA, y, foundB, ?_⟩
    cases operation with
    | add | mul => exact applied
    | cmp => exact congrArg Except.ok applied.symm

theorem pointers_of_apply {registers next : Registers} {operation : Operation} {a b : UInt8}
    (applied : registers.apply operation a b = .ok next) :
    next.pc = registers.pc ∧ next.sp = registers.sp := by
  obtain ⟨x, y, -, -, applied⟩ := apply_eq_ok_iff.mp applied
  cases operation with
  | add | mul =>
      obtain ⟨named, rfl⟩ := set_eq_ok_iff.mp applied
      exact ⟨rfl, rfl⟩
  | cmp =>
      cases applied
      exact ⟨rfl, rfl⟩

theorem set_at_pc {registers next : Registers} {index value : UInt8}
    (stored : registers.set index value = .ok next) (pc : UInt8) :
    { registers with pc }.set index value = .ok { next with pc } := by
  obtain ⟨named, rfl⟩ := set_eq_ok_iff.mp stored
  exact set_eq_ok_iff.mpr ⟨named, rfl⟩

theorem apply_at_pc {registers next : Registers} {operation : Operation} {a b : UInt8}
    (applied : registers.apply operation a b = .ok next) (pc : UInt8) :
    { registers with pc }.apply operation a b = .ok { next with pc } := by
  obtain ⟨x, y, foundA, foundB, applied⟩ := apply_eq_ok_iff.mp applied
  refine apply_eq_ok_iff.mpr ⟨x, y, foundA, foundB, ?_⟩
  cases operation with
  | add | mul => exact set_at_pc applied pc
  | cmp =>
      cases applied
      rfl

end Registers

end EightBit
