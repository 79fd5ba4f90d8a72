import EightBit.Fault

/-!
Operations that change a state in place. What such an operation leaves behind is a state also where
it fails; whoever stops at the first fault only needs its result.
-/

namespace EightBit

/-- What an operation leaves behind, and the fault that it ended with, if any. -/
structure Attempt (State : Type) where
  state : State
  fault : Option Fault := none
  deriving DecidableEq

namespace Attempt

variable {State Value : Type} {attempt : Attempt State} {fault : Fault}

def result (attempt : Attempt State) : Except Fault State :=
  match attempt.fault with
  | none => .ok attempt.state
  | some fault => .error fault

theorem result_eq_ok_iff {state : State} :
    attempt.result = .ok state ↔ attempt.fault = none ∧ attempt.state = state := by
  cases faulted : attempt.fault <;> simp [result, faulted]

theorem result_eq_error_iff : attempt.result = .error fault ↔ attempt.fault = some fault := by
  cases faulted : attempt.fault <;> simp [result, faulted]

/-- Goes on with a value that has been looked up. If there is none, `state` is left as it is. -/
def given (state : State) (found : Except Fault Value) (next : Value → Attempt State) :
    Attempt State :=
  match found with
  | .ok value => next value
  | .error fault => { state, fault := some fault }

theorem result_given (state : State) (found : Except Fault Value)
    (next : Value → Attempt State) :
    (given state found next).result = found >>= fun value => (next value).result := by
  cases found with
  | error fault => rfl
  | ok value => rfl

theorem state_given_of_fault {state : State} {found : Except Fault Value}
    {next : Value → Attempt State}
    (later : ∀ value, (next value).fault.isSome → (next value).state = state)
    (failed : (given state found next).fault.isSome) : (given state found next).state = state := by
  cases found with
  | error fault => rfl
  | ok value => exact later value failed

end Attempt

end EightBit
