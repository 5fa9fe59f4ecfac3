import WebAsio.Coro.Executor
import WebAsio.Coro.Outcome
import WebAsio.Coro.ResumeContext

set_option autoImplicit false

/-! # Coroutine frames, suspensions and handlers

The objects the coroutine layer is made of. A frame is a coroutine state with its promise; a
suspension is one `co_await` that gave a handler to Boost.Asio, and it records that handler
together with the awaitable's `resume_context`. Handles are raw: nothing in these types says that
a frame named by a handle still exists. -/

namespace WebAsio.Coro

abbrev FrameId := Nat
abbrev SuspId := Nat
abbrev OwnerId := Nat

/-- The promise types: `promise_frame<Ts...>`, `promise_frame<detached>`, the frame of `coro::main`
    and the `basic_detached` trampoline of `init_await`. -/
inductive FrameKind
  | promise
  | detached
  | main
  | trampoline
  deriving DecidableEq, Repr

/-- Where the execution of a frame stands. A site is that of the thread executing its code. -/
inductive Phase
  | unborn
  /-- at `initial_suspend` -/
  | initial
  | running (t : Site)
  /-- inside `await_suspend`, before its exchange -/
  | suspending (t : Site)
  | suspended
  /-- resumed, `await_resume` comes next -/
  | resuming (t : Site)
  /-- inside `final_awaitable::await_suspend`, before its exchange -/
  | finalizing (t : Site)
  /-- at the final suspension point, `await_suspend` is over -/
  | parked
  /-- `destroy()` was called on a handle of the frame -/
  | destroying
  | destroyed
  deriving DecidableEq, Repr

namespace Phase

def site : Phase → Site
  | .running t | .suspending t | .resuming t | .finalizing t => t
  | _ => []

def isRunning : Phase → Bool
  | .running _ => true
  | _ => false

def isSuspending : Phase → Bool
  | .suspending _ => true
  | _ => false

def isResuming : Phase → Bool
  | .resuming _ => true
  | _ => false

def isFinalizing : Phase → Bool
  | .finalizing _ => true
  | _ => false

@[grind =] theorem isRunning_iff {p : Phase} : p.isRunning = true ↔ ∃ t, p = .running t := by
  cases p <;> simp [isRunning]

@[grind =] theorem isSuspending_iff {p : Phase} :
    p.isSuspending = true ↔ ∃ t, p = .suspending t := by
  cases p <;> simp [isSuspending]

@[grind =] theorem isResuming_iff {p : Phase} : p.isResuming = true ↔ ∃ t, p = .resuming t := by
  cases p <;> simp [isResuming]

@[grind =] theorem isFinalizing_iff {p : Phase} :
    p.isFinalizing = true ↔ ∃ t, p = .finalizing t := by
  cases p <;> simp [isFinalizing]

/-- What `resume()` by a thread at `t` makes of a phase; only a suspended frame can be resumed. -/
def afterResume : Phase → Site → Phase
  | .initial, t => .running t
  | .suspended, t => .resuming t
  | p, _ => p

/-- What `destroy()` makes of a phase; only a suspended frame can be destroyed. -/
def afterDestroy : Phase → Phase
  | .initial | .suspended | .parked => .destroying
  | p => p

@[simp, grind =] theorem afterResume_eq_destroyed {p : Phase} {t : Site} :
    p.afterResume t = .destroyed ↔ p = .destroyed := by
  cases p <;> simp [afterResume]

@[simp, grind =] theorem afterResume_eq_unborn {p : Phase} {t : Site} :
    p.afterResume t = .unborn ↔ p = .unborn := by
  cases p <;> simp [afterResume]

@[simp, grind =] theorem afterDestroy_eq_unborn {p : Phase} :
    p.afterDestroy = .unborn ↔ p = .unborn := by
  cases p <;> simp [afterDestroy]

@[simp, grind =] theorem afterResume_eq_resuming {p : Phase} {t u : Site} :
    p.afterResume t = .resuming u ↔ p = .resuming u ∨ p = .suspended ∧ t = u := by
  cases p <;> simp [afterResume]

@[simp, grind =] theorem afterDestroy_eq_resuming {p : Phase} {u : Site} :
    p.afterDestroy = .resuming u ↔ p = .resuming u := by
  cases p <;> simp [afterDestroy]

@[simp, grind =] theorem afterDestroy_eq_destroyed {p : Phase} :
    p.afterDestroy = .destroyed ↔ p = .destroyed := by
  cases p <;> simp [afterDestroy]

end Phase

/-- The awaiter object alive in a frame: an awaitable that started an operation, the
    `coro_awaitable` of a nested promise, or `init_await::awaitable`, which also owns a handler. -/
inductive Awaiter
  | none
  | context (h : SuspId)
  | coro (callee : FrameId)
  | bridge (callee : FrameId) (h : SuspId)
  deriving DecidableEq, Repr

/-- The raw handle `callee_` of an awaiter. -/
def Awaiter.callee : Awaiter → Option FrameId
  | .coro c | .bridge c _ => some c
  | _ => .none

/-- The coroutine state: the members of `promise_frame` and the awaiter of the current suspension.
    `adopted` (latest first) and `destroyed` record what happened to the frame and are never read
    by the program. -/
structure Frame (V E : Type) where
  kind : FrameKind := .promise
  phase : Phase := .unborn
  awaiter : Awaiter := .none
  caller : Option FrameId := none
  /-- the object that the promise was made from, when it has `shared_from_this` -/
  thisObject : Option OwnerId := none
  sharedThis : Option OwnerId := none
  executor : Option Executor := none
  innerExecutor : Option Executor := none
  callerExecutor : FrameId := 0
  result : Outcome V E := .nothing
  adopted : List ExecutorArg := []
  destroyed : Nat := 0

/-- The operations that suspend a coroutine through a handler. `post` stands for `post` and
    `defer`, `finalDefer` for the `defer` branches of `final_awaitable`, and `callback` for a
    completion handler of user code given to `await`. -/
inductive AwaitKind
  | deferred
  | timer
  | dispatch
  | post
  | final
  | finalDefer
  | callback
  deriving DecidableEq, Repr

namespace AwaitKind

/-- The handler is a `completion_handler`. -/
def isCompletion : AwaitKind → Bool
  | .deferred | .timer => true
  | _ => false

/-- The awaitable has a `resume_context`. -/
def hasContext : AwaitKind → Bool
  | .deferred | .timer | .dispatch | .final => true
  | _ => false

/-- The awaitable is a `final_awaitable`, so the coroutine acted upon is the caller. -/
def isFinal : AwaitKind → Bool
  | .final | .finalDefer => true
  | _ => false

theorem hasContext_of_isCompletion {k : AwaitKind} (h : k.isCompletion = true) :
    k.hasContext = true := by
  cases k <;> first | rfl | contradiction

end AwaitKind

/-- The awaiting side of a suspension: inside the initiation, past it with `saved_shared_this` on
    the stack, or gone from `await_suspend`. -/
inductive AwaitSide
  | initiating (mayThrow : Bool)
  | exchanging (saved : Option OwnerId)
  | left
  deriving DecidableEq, Repr

def AwaitSide.saved : AwaitSide → Option OwnerId
  | .exchanging o => o
  | _ => none

/-- The handler side: held by Boost.Asio or by a trampoline, invoked with its result stored, past
    an exchange that told it to resume, about to be destroyed, or gone. -/
inductive HandlerStage
  | asio
  | held (owner : FrameId)
  | invoked (t : Site)
  | claimed (t : Site)
  | dropping
  | gone
  deriving DecidableEq, Repr

/-- How the handler ended. -/
inductive Fate
  | invoked
  | ownerLost
  | dropped
  | threw
  deriving DecidableEq, Repr

inductive Party
  | awaiting
  | handler
  deriving DecidableEq, Repr

inductive Deed
  | resumed
  | destroyed
  deriving DecidableEq, Repr

/-- One action on a coroutine: who took it, what it was, and on which frame. -/
structure Ending where
  party : Party
  deed : Deed
  on : FrameId
  deriving DecidableEq, Repr

/-- What a handler is invoked with: the completion of an operation, or the outcome that `await`
    delivers as a value. -/
inductive Delivered (V E : Type)
  | result (r : Except E V)
  | outcome (o : Outcome V E)

/-- One suspension: the awaitable's part (`word` and `value` live in the frame `frame`) and the
    handler's part (`handle` is its `handle_`, `weakThis` and `restoreSharedThis` are those of
    `completion_handler`, `target` is the executor it was queued on). `fate` and `ended` record
    what happened to the suspension and are never read by the program. -/
structure Suspension (V E : Type) where
  kind : AwaitKind := .callback
  frame : FrameId := 0
  handle : FrameId := 0
  word : ContextState := .initializing
  value : Option (Delivered V E) := none
  side : AwaitSide := .left
  stage : HandlerStage := .gone
  target : Option Executor := none
  weakThis : Option OwnerId := none
  restoreSharedThis : Bool := false
  fate : Option Fate := none
  ended : List Ending := []

namespace Frame

variable {V E : Type}

/-- `promise_frame::set_executor`. -/
def setExecutor (fr : Frame V E) (ex : ExecutorArg) : Frame V E :=
  { fr with
    innerExecutor := ex.getInnerExecutor
    executor := some ex.executor
    adopted := ex :: fr.adopted }

/-- The members that only hops and calls change are the same. -/
structure Retains (fr fr' : Frame V E) : Prop where
  kind : fr'.kind = fr.kind
  thisObject : fr'.thisObject = fr.thisObject
  executor : fr'.executor = fr.executor
  innerExecutor : fr'.innerExecutor = fr.innerExecutor
  adopted : fr'.adopted = fr.adopted
  callerExecutor : fr'.callerExecutor = fr.callerExecutor

theorem Retains.trans {fr fr' fr'' : Frame V E} (h : fr.Retains fr') (h' : fr'.Retains fr'') :
    fr.Retains fr'' :=
  ⟨h'.1.trans h.1, h'.2.trans h.2, h'.3.trans h.3, h'.4.trans h.4, h'.5.trans h.5, h'.6.trans h.6⟩

/-- `executor` and `inner_executor` are those of the executor adopted last. -/
structure Adopts (fr : Frame V E) : Prop where
  executor : fr.executor = fr.adopted.head?.map (·.executor)
  innerExecutor : fr.innerExecutor = fr.adopted.head?.bind (·.getInnerExecutor)

theorem setExecutor_adopts (fr : Frame V E) (ex : ExecutorArg) : (fr.setExecutor ex).Adopts :=
  ⟨rfl, rfl⟩

end Frame

namespace Suspension

variable {V E : Type}

/-- Neither party is done with the suspension, or only one is. -/
def isOpen (r : Suspension V E) : Bool :=
  r.stage != .gone || r.side != .left

/-- One of the parties acts on the coroutine. -/
def endBy (r : Suspension V E) (p : Party) (d : Deed) : Suspension V E :=
  { r with ended := r.ended ++ [⟨p, d, r.handle⟩] }

end Suspension

end WebAsio.Coro
