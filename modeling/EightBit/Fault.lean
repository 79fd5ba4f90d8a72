import EightBit.Text.Numeral

/-!
The causes that stop the machine in the cycle in which they arise, and their wording.
-/

namespace EightBit

inductive Fault where
  /-- An address that a memory of `size` cells does not have. -/
  | outOfBounds (address size : Nat)
  /-- A general register other than R0 to R7. -/
  | invalidRegister (index : UInt8)
  /-- A byte that is no opcode, where one was fetched. -/
  | unknownOpcode (opcode pc : UInt8)
  /-- The output took only a part of a printed number. -/
  | outputFull
  deriving DecidableEq, Repr

def Fault.message : Fault → String
  | .outOfBounds address size =>
      "memory has no address `0x" ++ Text.lowerHex address ++ "` (size " ++ toString size ++ ")"
  | .invalidRegister index => "no register R" ++ toString index.toNat
  | .unknownOpcode opcode pc =>
      "unknown command: " ++ toString opcode.toNat ++ " (0x" ++ Text.hex opcode.toNat ++ ") at 0x"
        ++ Text.hex pc.toNat
  | .outputFull => "failed to write output"

def Fault.cause? : Fault → Option String
  | .outputFull => some "failed to write whole buffer"
  | _ => none

theorem bind_eq_ok_iff {ε α β : Type} {first : Except ε α} {next : α → Except ε β} {result : β} :
    first >>= next = .ok result ↔ ∃ value, first = .ok value ∧ next value = .ok result := by
  cases first with
  | error cause => simp [bind, Except.bind]
  | ok value => simp [bind, Except.bind]

end EightBit
