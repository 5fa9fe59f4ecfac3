import WebAsio.Coro.AwaitOnce
import WebAsio.Library.Dialogue

set_option autoImplicit false

/-! # Coroutine bodies in direct style

The statements of coroutines, and what they mean when `co_await` is an ordinary function call that
returns or throws: `Stmt.eval`. The compiler makes of a statement a body that can be left and
resumed at every `co_await`, and which exceptions go where is settled in what is left of the body:
`Stmt.body`. The two agree. `V` is the type of all values and `E` that of exceptions; `L` is what
can be observed of the code between two suspension points, and `σ` the local variables. -/

namespace WebAsio.Coro

/-- The exception by which a body is left, if it is left by one. What `return_value` throws comes
    out of the `co_return`. -/
def BodyEnd.thrown {V E : Type} : BodyEnd V E → Option E
  | .returned _ storing => storing
  | .threw e => some e

namespace Direct

/-- `co_await dispatch(ex)`, `co_await post(ex)` and `co_await defer(ex)`. -/
inductive Hop
  | dispatch
  | post
  | defer
  deriving DecidableEq, Repr

/-- What can be seen of a coroutine and of those it awaits. -/
inductive Event (V E L : Type)
  /-- the body of an awaited promise begins -/
  | begins
  | effect (x : L)
  /-- the result of an operation or a sleep is taken -/
  | result (r : Except E V)
  | hopped
  /-- the frame of an awaited promise is destroyed -/
  | destroyed
  /-- what a `co_await` of a promise gives -/
  | observed (r : Except E V)

/-- The answer that an event took. -/
def Event.answer {V E L : Type} : Event V E L → Option (Except E V)
  | .result r => some r
  | _ => none

/-- The results of the operations, in the order in which they were taken. -/
def results {V E L : Type} (es : List (Event V E L)) : List (Except E V) :=
  es.filterMap Event.answer

/-- A computation with the results of operations as its answers. -/
abbrev Talk (V E L α : Type) := Dialogue (Event V E L) (Except E V) α

/-! ## Bodies -/

/-- What is left of the body of a coroutine. A called coroutine comes with the object whose member
    function it is, if that has `shared_from_this`. -/
inductive Body (V E L : Type)
  | finish (e : BodyEnd V E)
  | effect (x : L) (rest : Body V E L)
  | call (thisObject : Option OwnerId) (callee : Body V E L) (rest : Except E V → Body V E L)
  | deferred (rest : Except E V → Body V E L)
  | sleep (rest : Except E V → Body V E L)
  | hop (how : Hop) (ex : ExecutorArg) (rest : Body V E L)

section Run

variable {V E L : Type}

open Dialogue

/-- What is left of a `co_await` of a promise when its result is taken: the frame is destroyed, and
    the result observed. -/
def handOver (r : Except E V) : Talk V E L (Except E V) := do
  tell .destroyed
  tell (.observed r)
  pure r

/-- A body that is executed at once, in which `co_await` of a promise calls a function. -/
def Body.run : Body V E L → Talk V E L (BodyEnd V E)
  | .finish e => pure e
  | .effect x b => do tell (.effect x); b.run
  | .call _ c k => do
    tell .begins
    let e ← c.run
    let r ← handOver e.result
    (k r).run
  | .deferred k => do let r ← ask .result; (k r).run
  | .sleep k => do let r ← ask .result; (k r).run
  | .hop _ _ b => do tell .hopped; b.run

end Run

/-! ## Statements -/

/-- The statements of a coroutine. A `co_await` of a promise says which coroutine is called, with
    which arguments, and how the coroutine ends that runs off its statements. What `co_return` gives
    to `return_value` may throw while it is stored. -/
inductive Stmt (σ V E L : Type)
  | skip
  | effect (x : σ → L)
  | assign (g : σ → σ)
  | seq (a b : Stmt σ V E L)
  /-- `if`, `switch` and bounded loops: the statement depends on the variables -/
  | branch (a : σ → Stmt σ V E L)
  | awaitPromise (thisObject : σ → Option OwnerId) (callee : σ → Stmt σ V E L) (init : σ → σ)
      (last : σ → BodyEnd V E) (bind : V → σ → σ)
  | awaitDeferred (bind : V → σ → σ)
  /-- the error code is part of the value: a sleep throws only where its timer cannot be made -/
  | awaitSleep (bind : V → σ → σ)
  | hop (how : Hop) (ex : σ → ExecutorArg)
  | tryCatch (a : Stmt σ V E L) (bind : E → σ → σ) (handler : Stmt σ V E L)
  | coReturn (v : σ → V) (storing : σ → Option E)
  | throw (e : σ → E)

section Eval

variable {σ V E L : Type}

open Dialogue

/-- The variables after a statement, and the end of the coroutine unless it goes on. -/
abbrev Exit (σ V E : Type) := σ × Option (BodyEnd V E)

/-- Direct style: `co_await` of a promise evaluates the statements of the callee, and what they
    throw is thrown there. -/
def Stmt.eval : Stmt σ V E L → σ → Talk V E L (Exit σ V E)
  | .skip, l => pure (l, none)
  | .effect x, l => do tell (.effect (x l)); pure (l, none)
  | .assign g, l => pure (g l, none)
  | .seq a b, l => do
    let (l, e) ← a.eval l
    match e with
    | none => b.eval l
    | some e => pure (l, some e)
  | .branch a, l => (a l).eval l
  | .awaitPromise _ callee init last bind, l => do
    tell .begins
    let (lc, e) ← (callee l).eval (init l)
    match ← handOver (e.getD (last lc)).result with
    | .ok v => pure (bind v l, none)
    | .error x => pure (l, some (.threw x))
  | .awaitDeferred bind, l | .awaitSleep bind, l => do
    match ← ask .result with
    | .ok v => pure (bind v l, none)
    | .error x => pure (l, some (.threw x))
  | .hop _ _, l => do tell .hopped; pure (l, none)
  | .tryCatch a bind handler, l => do
    let (l, e) ← a.eval l
    match e.bind (·.thrown) with
    | some x => handler.eval (bind x l)
    | none => pure (l, e)
  | .coReturn v storing, l => pure (l, some (.returned (v l) (storing l)))
  | .throw e, l => pure (l, some (.threw (e l)))

/-- What the coroutine transformation makes of a statement, given what follows it and where the
    statements go that leave it. -/
def Stmt.body : Stmt σ V E L → σ → (σ → Body V E L) → (σ → BodyEnd V E → Body V E L) → Body V E L
  | .skip, l, next, _ => next l
  | .effect x, l, next, _ => .effect (x l) (next l)
  | .assign g, l, next, _ => next (g l)
  | .seq a b, l, next, leave => a.body l (fun l => b.body l next leave) leave
  | .branch a, l, next, leave => (a l).body l next leave
  | .awaitPromise o callee init last bind, l, next, leave =>
    .call (o l) ((callee l).body (init l) (fun lc => .finish (last lc)) fun _ e => .finish e) fun
      | .ok v => next (bind v l)
      | .error x => leave l (.threw x)
  | .awaitDeferred bind, l, next, leave => .deferred fun
      | .ok v => next (bind v l)
      | .error x => leave l (.threw x)
  | .awaitSleep bind, l, next, leave => .sleep fun
      | .ok v => next (bind v l)
      | .error x => leave l (.threw x)
  | .hop how ex, l, next, _ => .hop how (ex l) (next l)
  | .tryCatch a bind handler, l, next, leave => a.body l next fun l e =>
    match e.thrown with
    | some x => handler.body (bind x l) next leave
    | none => leave l e
  | .coReturn v storing, l, _, leave => leave l (.returned (v l) (storing l))
  | .throw e, l, _, leave => leave l (.threw (e l))

/-- What is left of a body after a statement. -/
def Exit.onto (next : σ → Body V E L) (leave : σ → BodyEnd V E → Body V E L) (x : Exit σ V E) :
    Body V E L :=
  x.2.elim (next x.1) (leave x.1)

/-- What is left of a statement is executed like the statement itself. -/
theorem Stmt.run_body (a : Stmt σ V E L) (l : σ) (next : σ → Body V E L)
    (leave : σ → BodyEnd V E → Body V E L) :
    (a.body l next leave).run = a.eval l >>= fun x => (Exit.onto next leave x).run := by
  induction a generalizing l next leave with
  | skip => rfl
  | effect x => rfl
  | assign g => rfl
  | seq a b iha ihb =>
      rw [Stmt.body, Stmt.eval, iha, bind_assoc]
      congr 1
      funext ⟨l', e⟩
      cases e with
      | none => exact ihb l' next leave
      | some e => rfl
  | branch a ih => exact ih l l next leave
  | awaitPromise o callee init last bind ih =>
      rw [Stmt.body, Stmt.eval, Body.run, ih, bind_assoc, bind_assoc]
      congr 1
      funext _
      rw [bind_assoc]
      congr 1
      funext ⟨lc, e⟩
      -- the callee ends by itself or by what left its statements
      have hend : (Exit.onto (fun lc => .finish (last lc)) (fun _ e => .finish e) (lc, e) :
          Body V E L).run = pure (e.getD (last lc)) := by
        cases e <;> rfl
      rw [hend, pure_bind, bind_assoc]
      congr 1
      funext r
      cases r <;> rfl
  | awaitDeferred bind | awaitSleep bind =>
      rw [Stmt.body, Stmt.eval, Body.run, bind_assoc]
      congr 1
      funext r
      cases r <;> rfl
  | hop how ex => rfl
  | tryCatch a bind handler iha ihh =>
      rw [Stmt.body, Stmt.eval, iha, bind_assoc]
      congr 1
      funext ⟨l', e⟩
      cases e with
      | none => rfl
      | some e =>
          cases hx : e.thrown with
          | none => simp [Exit.onto, hx]
          | some x => simpa [Exit.onto, hx] using ihh (bind x l') next leave
  | coReturn v storing => rfl
  | throw e => rfl

/-- A coroutine: its statements, and how it ends when it runs off them. -/
structure Coroutine (σ V E L : Type) where
  stmts : Stmt σ V E L
  last : σ → BodyEnd V E

namespace Coroutine

variable (C : Coroutine σ V E L)

/-- The coroutine as an ordinary function. -/
def eval (l : σ) : Talk V E L (BodyEnd V E) := do
  let (l, e) ← C.stmts.eval l
  pure (e.getD (C.last l))

/-- The body of the coroutine, called with the arguments `l`. -/
def body (l : σ) : Body V E L :=
  C.stmts.body l (fun l => .finish (C.last l)) fun _ e => .finish e

theorem run_body (l : σ) : (C.body l).run = C.eval l := by
  rw [body, Stmt.run_body, eval]
  congr 1
  funext ⟨l', e⟩
  cases e <;> rfl

end Coroutine

end Eval

end Direct

end WebAsio.Coro
