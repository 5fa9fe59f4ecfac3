import Mathlib.Logic.Basic

set_option autoImplicit false

/-! # `outcome`: what a coroutine leaves behind

`V` is the value type of the coroutines and `E` what `std::exception_ptr` can hold. -/

namespace WebAsio.Coro

/-- The alternative alive in an `outcome`. -/
inductive Outcome (V E : Type)
  | nothing
  | value (v : V)
  | exception (e : E)
  deriving DecidableEq, Repr

/-- How the body of a promise coroutine ends: `co_return v`, where constructing the stored value
    may itself throw, or an exception that escapes the body. -/
inductive BodyEnd (V E : Type)
  | returned (v : V) (storing : Option E)
  | threw (e : E)
  deriving DecidableEq, Repr

/-- An exception escapes the body. -/
def BodyEnd.escapes {V E : Type} : BodyEnd V E → Bool
  | .returned .. => false
  | .threw _ => true

namespace Outcome

variable {V E : Type}

/-- `outcome::get`: the value, or the rethrown exception; `none` is `bug_abort`. -/
def get : Outcome V E → Option (Except E V)
  | .nothing => none
  | .value v => some (.ok v)
  | .exception e => some (.error e)

/-- `promise_frame_base::return_value` and `unhandled_exception`. A constructor that throws inside
    `return_value` leaves the outcome unset, and the coroutine machinery then calls
    `unhandled_exception` with what it threw. -/
def finish : BodyEnd V E → Outcome V E
  | .returned v none => .value v
  | .returned _ (some e) => .exception e
  | .threw e => .exception e

theorem finish_ne_nothing (e : BodyEnd V E) : (finish e : Outcome V E) ≠ .nothing := by
  rcases e with ⟨v, _ | e⟩ | e <;> simp [finish]

end Outcome

end WebAsio.Coro
