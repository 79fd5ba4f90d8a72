import EightBit.Log
import EightBit.Machine.Snapshot

/-!
What the machine tells the log: a snapshot before each cycle of a run, one entry for each executed
instruction with the values it dealt with, and the address at which a run halted.
-/

namespace EightBit

inductive Executed where
  | hlt
  | ret (target : UInt8)
  | push (register value : UInt8)
  | pop (register value : UInt8)
  | prn (register value : UInt8)
  /-- A call of `target` that will return to `back`. -/
  | call (register target back : UInt8)
  | jmp (register target : UInt8)
  | jeq (register target : UInt8) (taken : Bool)
  | jne (register target : UInt8) (taken : Bool)
  | ldi (register value : UInt8)
  | add (a b : UInt8)
  | mul (a b : UInt8)
  /-- A comparison and the flags it left. -/
  | cmp (a b fl : UInt8)
  deriving DecidableEq, Repr

namespace Executed

def opcode : Executed → Opcode
  | hlt => .hlt
  | ret _ => .ret
  | push _ _ => .push
  | pop _ _ => .pop
  | prn _ _ => .prn
  | call _ _ _ => .call
  | jmp _ _ => .jmp
  | jeq _ _ _ => .jeq
  | jne _ _ _ => .jne
  | ldi _ _ => .ldi
  | add _ _ => .add
  | mul _ _ => .mul
  | cmp _ _ _ => .cmp

def registerText (register : UInt8) : String :=
  " R" ++ toString register.toNat

def addressText (address : UInt8) : String :=
  "0x" ++ Text.hex address.toNat

def details : Executed → String
  | hlt => ""
  | ret target => " " ++ addressText target
  | push register value | pop register value | prn register value =>
      registerText register ++ ": " ++ toString value.toNat
  | call register target back =>
      registerText register ++ ": " ++ addressText target ++
        " (return to " ++ addressText back ++ ")"
  | jmp register target => registerText register ++ ": " ++ addressText target
  | jeq register target taken | jne register target taken =>
      registerText register ++ ": " ++ addressText target ++ " taken=" ++ toString taken
  | ldi register value => registerText register ++ " " ++ toString value.toNat
  | add a b | mul a b => registerText a ++ registerText b
  | cmp a b fl => registerText a ++ registerText b ++ ": " ++ Text.binary fl.toNat

def message (executed : Executed) : String :=
  executed.opcode.mnemonic ++ executed.details

end Executed

namespace Machine

inductive Event where
  /-- The machine before a cycle. -/
  | traced (snapshot : Snapshot)
  | executed (executed : Executed)
  /-- The end of a run, with the program counter of the halted machine. -/
  | halted (pc : UInt8)
  deriving DecidableEq, Repr

def Event.isExecuted : Event → Bool
  | executed _ => true
  | _ => false

def Event.level : Event → Log.Level
  | traced _ => .trace
  | executed _ => .debug
  | halted _ => .info

def Event.message : Event → String
  | traced snapshot => snapshot.line
  | executed instruction => instruction.message
  | halted pc => "Program halted at 0x" ++ Text.hex pc.toNat

instance : Log.Entry Event where
  level := Event.level
  target _ := "ls8::processor"
  message := Event.message

end Machine

end EightBit
