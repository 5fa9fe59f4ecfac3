import Mathlib.Logic.Basic

set_option autoImplicit false

/-! # `resume_context`: the atomic word shared by an awaitable and its handler

The awaiting coroutine and the completion handler each perform one exchange on the word. What an
exchange returns, and whether it calls `h.destroy()` itself, depends only on the value it replaces,
so each member function is a function of that value. -/

namespace WebAsio.Coro

/-- `resume_context::state`. -/
inductive ContextState
  | initializing
  | awaiting
  | completed
  | destroyed
  deriving DecidableEq, Repr

/-- The effect of one exchange: the word it leaves, whether it calls `h.destroy()`, and whether it
    tells its caller to resume the coroutine. -/
structure Exchange where
  word : ContextState
  destroys : Bool
  resumes : Bool
  deriving DecidableEq, Repr

namespace ContextState

/-- `resume_context::resume_awaiting`, called by the awaitable. -/
def resumeAwaiting : ContextState → Exchange
  | .completed => ⟨.awaiting, false, true⟩
  | .destroyed => ⟨.awaiting, true, false⟩
  | _ => ⟨.awaiting, false, false⟩

/-- `resume_context::resume_completed`, called by an invoked handler. -/
def resumeCompleted : ContextState → Exchange
  | .awaiting => ⟨.completed, false, true⟩
  | _ => ⟨.completed, false, false⟩

/-- `resume_context::destroy`, called by a handler destroyed without being invoked. -/
def destroy : ContextState → Exchange
  | .awaiting => ⟨.destroyed, true, false⟩
  | _ => ⟨.destroyed, false, false⟩

@[simp] theorem resumeAwaiting_word (w : ContextState) : w.resumeAwaiting.word = .awaiting := by
  cases w <;> rfl

@[simp] theorem resumeCompleted_word (w : ContextState) : w.resumeCompleted.word = .completed := by
  cases w <;> rfl

@[simp] theorem destroy_word (w : ContextState) : w.destroy.word = .destroyed := by
  cases w <;> rfl

end ContextState

end WebAsio.Coro
