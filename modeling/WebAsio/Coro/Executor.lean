import Mathlib.Data.List.Basic

set_option autoImplicit false

/-! # Executors and the places code runs in

An executor is that of an execution context or a strand over another executor. A thread is inside
a list of executors; whoever runs a handler queued on an executor is inside that executor and, for
a strand, inside everything the strand runs over. -/

namespace WebAsio.Coro

/-- The executors an `any_io_executor` can hold. -/
inductive Executor
  | context (id : Nat)
  | strand (id : Nat) (inner : Executor)
  deriving DecidableEq, Repr

/-- The executors the executing thread is inside of (`running_in_this_thread`). -/
abbrev Site := List Executor

/-- Where a handler queued on an executor runs. -/
def Executor.site : Executor → Site
  | .context i => [.context i]
  | .strand i e => .strand i e :: e.site

@[simp] theorem Executor.mem_site_self (e : Executor) : e ∈ e.site := by
  cases e <;> simp [Executor.site]

/-- Everything a thread on an executor is inside of is a part of that executor. -/
theorem Executor.sizeOf_le_of_mem_site {e x : Executor} (h : x ∈ e.site) : sizeOf x ≤ sizeOf e := by
  induction e with
  | context i => simp_all [Executor.site]
  | strand i inner ih =>
      rcases List.mem_cons.mp h with rfl | hx
      · exact Nat.le_refl _
      · have := ih hx
        simp only [strand.sizeOf_spec]
        omega

/-- A thread on the inner executor of a strand is not inside the strand. -/
theorem Executor.strand_not_mem_site (i : Nat) (inner : Executor) :
    Executor.strand i inner ∉ inner.site := by
  intro h
  have := Executor.sizeOf_le_of_mem_site h
  simp only [strand.sizeOf_spec] at this
  omega

/-- An executor as it is handed to `dispatch`, `post` or `defer`: the executor, and whether its
    static type is the type-erased `any_io_executor`. -/
structure ExecutorArg where
  executor : Executor
  erased : Bool
  deriving DecidableEq, Repr

/-- What the `if constexpr` of `promise_frame::set_executor` stores in `inner_executor`: only a
    static type with `get_inner_executor()` has one, and `any_io_executor` is not such a type. -/
def ExecutorArg.getInnerExecutor (ex : ExecutorArg) : Option Executor :=
  match ex.executor with
  | .context _ => none
  | .strand _ inner => if ex.erased then none else some inner

end WebAsio.Coro
