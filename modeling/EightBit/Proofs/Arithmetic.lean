import EightBit.Proofs.Hazard

/-!
Arithmetic on registers is exact arithmetic modulo 256, over any number of calls. Beside the registers
stand eight natural numbers of any size, with which the same calls are computed exactly. What the
registers hold is always the exact number modulo 256: sums and products of remainders are the
remainders of the sums and products, and a call that names a register that does not exist changes
neither side.
-/

namespace EightBit.Registers

inductive Call where
  | set (index value : UInt8)
  | apply (operation : Operation) (a b : UInt8)
  deriving DecidableEq, Repr

namespace Call

/-- The registers that a call names, in the order in which they are looked up. -/
def indices : Call → List UInt8
  | set index _ => [index]
  | apply _ a b => [a, b]

def firstBad? (call : Call) : Option UInt8 :=
  call.indices.find? fun index => 8 ≤ index.toNat

def perform (registers : Registers) : Call → Attempt Registers
  | set index value => registers.store index value
  | apply operation a b => registers.compute operation a b

def after (registers : Registers) (call : Call) : Registers :=
  (call.perform registers).state

/-- A call on exact numbers. One with a bad register is skipped. -/
def exactly (values : Vector Nat 8) : Call → Vector Nat 8
  | set index value =>
      if _ : index.toNat < 8 then values.set index.toNat value.toNat else values
  | apply operation a b =>
      if _ : a.toNat < 8 then
        if _ : b.toNat < 8 then
          match operation with
          | .add => values.set a.toNat (values[a.toNat] + values[b.toNat])
          | .mul => values.set a.toNat (values[a.toNat] * values[b.toNat])
          | .cmp => values
        else values
      else values

theorem fault_perform (registers : Registers) (call : Call) :
    (call.perform registers).fault = call.firstBad?.map Fault.invalidRegister := by
  rw [← faultOf_result]
  cases call with
  | set index value =>
      refine (faultOf_set registers index value).trans ?_
      by_cases bad : 8 ≤ index.toNat <;> simp [firstBad?, indices, bad]
  | apply operation a b =>
      refine (faultOf_apply registers operation a b).trans ?_
      by_cases badA : 8 ≤ a.toNat <;> by_cases badB : 8 ≤ b.toNat <;>
        simp [faultOf_get, firstBad?, indices, badA, badB]

theorem after_of_bad {registers : Registers} {call : Call} {index : UInt8}
    (bad : call.firstBad? = some index) : call.after registers = registers := by
  have failed : (call.perform registers).fault.isSome := by rw [fault_perform, bad]; rfl
  cases call with
  | set index value => exact state_store_of_fault failed
  | apply operation a b => exact state_compute_of_fault failed

theorem exactly_of_bad {call : Call} {index : UInt8} (bad : call.firstBad? = some index)
    (values : Vector Nat 8) : call.exactly values = values := by
  obtain ⟨outside, among⟩ := And.intro (List.find?_some bad) (List.mem_of_find?_eq_some bad)
  have outside : ¬ index.toNat < 8 := by simpa using outside
  cases call with
  | set register value =>
      cases List.mem_singleton.mp among
      exact dif_neg outside
  | apply operation a b =>
      have among : index = a ∨ index = b := by simpa [indices] using among
      rcases among with rfl | rfl
      · exact dif_neg outside
      · simp [exactly, outside]

end Call

/-- The registers are the exact numbers modulo 256, and the pointers where they were at the start. -/
structure Tracks (start registers : Registers) (values : Vector Nat 8) : Prop where
  general : registers.general = values.map UInt8.ofNat
  pc : registers.pc = start.pc
  sp : registers.sp = start.sp

namespace Tracks

variable {start registers next : Registers} {values : Vector Nat 8} {index x : UInt8}

theorem refl (start : Registers) : Tracks start start (start.general.map UInt8.toNat) where
  general := by simp [Vector.map_map, Function.comp_def]
  pc := rfl
  sp := rfl

theorem eq_ofNat_of_get (tracks : Tracks start registers values) (named : index.toNat < 8)
    (found : registers.get index = .ok x) : x = UInt8.ofNat values[index.toNat] := by
  rw [get_of_named registers named, Except.ok.injEq] at found
  rw [← found]
  simp [tracks.general]

/-- Both sides take the same number, one of them its remainder. -/
theorem set {number : Nat} (tracks : Tracks start registers values) (named : index.toNat < 8)
    (stored : registers.set index (UInt8.ofNat number) = .ok next) :
    Tracks start next (values.set index.toNat number) := by
  obtain ⟨-, rfl⟩ := set_eq_ok_iff.mp stored
  exact ⟨by simp [tracks.general, Vector.map_set], tracks.pc, tracks.sp⟩

/-- One call keeps both sides together, also where `a` and `b` are the same register. -/
theorem after_of_passed (tracks : Tracks start registers values) {call : Call}
    (passed : (call.perform registers).fault = none) :
    Tracks start (call.after registers) (call.exactly values) := by
  have performed := Attempt.result_eq_ok_iff.mpr ⟨passed, rfl⟩
  cases call with
  | set index value =>
      have named := named_of_set performed
      rw [Call.exactly, dif_pos named]
      refine tracks.set named ?_
      rw [UInt8.ofNat_toNat]
      exact performed
  | apply operation a b =>
      obtain ⟨x, y, foundA, foundB, applied⟩ := apply_eq_ok_iff.mp performed
      have namedA := named_of_get foundA
      have namedB := named_of_get foundB
      cases tracks.eq_ofNat_of_get namedA foundA
      cases tracks.eq_ofNat_of_get namedB foundB
      rw [Call.exactly, dif_pos namedA, dif_pos namedB]
      cases operation with
      | add => exact tracks.set namedA (by rwa [UInt8.ofNat_add])
      | mul => exact tracks.set namedA (by rwa [UInt8.ofNat_mul])
      | cmp =>
          rw [Call.after, applied]
          exact ⟨tracks.general, tracks.pc, tracks.sp⟩

theorem after (tracks : Tracks start registers values) (call : Call) :
    Tracks start (call.after registers) (call.exactly values) := by
  cases bad : call.firstBad? with
  | some index =>
      rw [Call.after_of_bad bad, Call.exactly_of_bad bad]
      exact tracks
  | none =>
      apply tracks.after_of_passed
      rw [Call.fault_perform, bad]
      rfl

theorem foldl (tracks : Tracks start registers values) (calls : List Call) :
    Tracks start (calls.foldl Call.after registers) (calls.foldl Call.exactly values) := by
  induction calls generalizing registers values with
  | nil => exact tracks
  | cons call rest inductionHypothesis => exact inductionHypothesis (tracks.after call)

theorem toNat_general (tracks : Tracks start registers values) (i : Fin 8) :
    registers.general[i].toNat = values[i] % 256 := by
  simp [tracks.general]

end Tracks

/-- Over any number of calls each call fails just if it names a bad register, with the first one in
its report, and is then skipped on both sides. In the end every register is its exact number modulo
256, and neither pointer has moved. -/
theorem computes_modulo_256 (start : Registers) (calls : List Call) :
    let numbers := start.general.map UInt8.toNat
    let last := calls.foldl Call.after start
    let exact := calls.foldl Call.exactly numbers
    (∀ earlier call later, calls = earlier ++ call :: later →
      let here := earlier.foldl Call.after start
      let exactHere := earlier.foldl Call.exactly numbers
      (call.perform here).fault = call.firstBad?.map Fault.invalidRegister ∧
        (call.firstBad?.isSome → call.after here = here ∧ call.exactly exactHere = exactHere)) ∧
      (∀ i : Fin 8, last.general[i].toNat = exact[i] % 256) ∧
      last.pc = start.pc ∧ last.sp = start.sp := by
  intro numbers last exact
  have tracks : Tracks start last exact := (Tracks.refl start).foldl calls
  constructor
  · intro earlier call later _ here exactHere
    refine ⟨Call.fault_perform here call, fun skipped => ?_⟩
    obtain ⟨index, bad⟩ := Option.isSome_iff_exists.mp skipped
    exact ⟨Call.after_of_bad bad, Call.exactly_of_bad bad exactHere⟩
  · exact ⟨tracks.toNat_general, tracks.pc, tracks.sp⟩

/-- Squaring a register again and again, with a call in the middle that fails. -/
example :
    let square := Call.apply .mul 0 0
    let calls := [.set 0 3, square, .apply .mul 0 9, square, square]
    (calls.foldl Call.exactly (Vector.replicate 8 0))[0] = 6561 ∧
      (calls.foldl Call.after {}).general[0] = 161 := by
  decide

end EightBit.Registers
