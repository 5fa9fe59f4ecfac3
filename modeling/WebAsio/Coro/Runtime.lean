import WebAsio.Coro.State
import WebAsio.Library.Transition

set_option autoImplicit false

/-! # The runtime: frames, handlers and threads taking atomic steps

Each action is one atomic step of one party: the awaiting side up to its exchange, that exchange,
the handler side up to its exchange, that exchange, what the winner then does, the execution of a
`destroy()`, and the moves of the bodies. A body may take any step its frame kind offers, so the
runs of every program under every schedule are among the runs of the runtime. -/

namespace WebAsio.Coro

variable {V E : Type}

namespace State

/-! ## The awaiting side -/

/-- `coro_awaitable::await_suspend` of the frame `f` awaiting the promise frame `c`. -/
def coroAwaitSuspend (s : State V E) (f c : FrameId) : State V E :=
  let t := (s.frame f).phase.site
  let s := s.touchExecutor (s.executorRef f)
  let s := s.resetCaller c f
  let s := s.modFrame c fun fr =>
    if (s.getExecutor f).isSome then { fr with callerExecutor := s.executorRef f } else fr
  let s := s.modFrame f fun fr => { fr with phase := .suspended, awaiter := .coro c }
  s.resume c t

/-- `await_suspend` of `deferred_awaitable` and `basic_timer_awaitable`, up to the call that hands
    the `completion_handler` to the operation. -/
def completionAwaitSuspend (s : State V E) (f : FrameId) (k : AwaitKind) : State V E :=
  let o := (s.frame f).sharedThis
  (s.newSusp { kind := k, frame := f, handle := f, side := .initiating (k == .deferred),
               stage := .asio, weakThis := o, restoreSharedThis := o.isSome }).modFrame f fun fr =>
    { fr with phase := .suspending fr.phase.site, awaiter := .context s.nextSusp }

/-- `init_await::operator()` run by the initiation of `co_await await(c)` in `f`: the trampoline
    takes the `completion_handler` of `f` and the handle of `c`, suspends, and starts `c`. -/
def awaitAwaitSuspend (s : State V E) (f c : FrameId) : State V E :=
  let t := (s.frame f).phase.site
  let o := (s.frame f).sharedThis
  let h := s.nextSusp
  let b := s.nextFrame
  let s := (s.newSusp { kind := .deferred, frame := f, handle := f, side := .initiating false,
                        stage := .held b, weakThis := o, restoreSharedThis := o.isSome }).modFrame f
    fun fr => { fr with phase := .suspending fr.phase.site, awaiter := .context h }
  let s := s.newFrame { kind := .trampoline, phase := .suspended, awaiter := .bridge c h }
  (s.resetCaller c b).resume c t

/-- `await(c, token)` called by a thread at `t` with a completion handler of its own. -/
def startAwait (s : State V E) (t : Site) (c : FrameId) : State V E :=
  let h := s.nextSusp
  let b := s.nextFrame
  let s := s.newSusp { kind := .callback, frame := b, handle := b, stage := .held b }
  let s := s.newFrame { kind := .trampoline, phase := .suspended, awaiter := .bridge c h }
  (s.resetCaller c b).resume c t

/-- `asio::dispatch` of a `dispatch_handler` with a context: inline when the thread at `t` is
    inside the executor, which performs the handler's exchange, else queued. -/
def dispatchContext (r : Suspension V E) (ex : Executor) (t : Site) : Suspension V E :=
  if ex ∈ t then
    { r with word := r.word.resumeCompleted.word, stage := .gone, target := some ex,
             fate := some .invoked }
  else
    { r with stage := .asio, target := some ex }

/-- `promise_awaitable<dispatch_t>::get` and `dispatch_awaitable::await_suspend`, up to its
    exchange. -/
def dispatchAwaitSuspend (s : State V E) (f : FrameId) (ex : ExecutorArg) : State V E :=
  let t := (s.frame f).phase.site
  (s.newSusp (dispatchContext { kind := .dispatch, frame := f, handle := f,
                                side := .exchanging none } ex.executor t)).modFrame f fun fr =>
    { fr.setExecutor ex with phase := .suspending t, awaiter := .context s.nextSusp }

/-- `promise_awaitable<post_t>::get` and `post_awaitable::await_suspend`; `defer` is the same. -/
def postAwaitSuspend (s : State V E) (f : FrameId) (ex : ExecutorArg) : State V E :=
  (s.newSusp { kind := .post, frame := f, handle := f, stage := .asio,
               target := some ex.executor }).modFrame f fun fr =>
    { fr.setExecutor ex with phase := .suspended, awaiter := .context s.nextSusp }

/-- The `catch (...)` of `deferred_awaitable::await_suspend`. -/
def initiationThrows (s : State V E) (f : FrameId) (h : SuspId) (e : E) : State V E :=
  let s := s.touch h
  let s := s.modSusp h fun r =>
    { r with value := some (.result (.error e)), side := .left, fate := some .threw }
  (s.endBy h .awaiting .resumed).modFrame f fun fr =>
    { fr with phase := .resuming fr.phase.site }

/-- The initiation returns and `shared_this` moves to the stack. -/
def initiationReturns (s : State V E) (f : FrameId) (h : SuspId) : State V E :=
  ((s.touch h).modSusp h fun r => { r with side := .exchanging (s.frame f).sharedThis }).modFrame f
    fun fr => { fr with sharedThis := none }

/-- `resume_awaiting` in the `await_suspend` of an awaitable of `f` itself, and what follows it. -/
def resumeAwaiting (s : State V E) (f : FrameId) (h : SuspId) : State V E :=
  let t := (s.frame f).phase.site
  let r := s.susp h
  let x := r.word.resumeAwaiting
  let s := (s.touch h).modSusp h fun r => { r with word := x.word, side := .left }
  if x.resumes then
    (s.endBy h .awaiting .resumed).modFrame f fun fr =>
      { fr with
        phase := .resuming t
        sharedThis := if r.kind.isCompletion then r.side.saved else fr.sharedThis }
  else
    let s := s.modFrame f fun fr => { fr with phase := .suspended }
    let s := if x.destroys then (s.endBy h .awaiting .destroyed).destroyHandle f else s
    s.leave r.side.saved

/-- `resume_awaiting` in `final_awaitable::await_suspend` of `c`, and what follows it. -/
def finalResumeAwaiting (s : State V E) (c : FrameId) (h : SuspId) : State V E :=
  let t := (s.frame c).phase.site
  let r := s.susp h
  let x := r.word.resumeAwaiting
  let s := (s.touch h).modSusp h fun r => { r with word := x.word, side := .left }
  let s := s.modFrame c fun fr => { fr with phase := .parked }
  if x.resumes then (s.endBy h .awaiting .resumed).resume r.handle t
  else if x.destroys then (s.endBy h .awaiting .destroyed).destroyHandle r.handle
  else s

/-- `await_resume` of `f`: a `deferred_awaitable` and a `coro_awaitable` read a result, the latter
    destroys its callee, and the awaiter ends. -/
def awaitResume (s : State V E) (f : FrameId) : State V E :=
  let s := match (s.frame f).awaiter with
    | .coro c => (s.faultIf (s.frame c).result.get.isNone (.notSet c)).destroyHandle c
    | .context h =>
      s.faultIf ((s.susp h).kind == AwaitKind.deferred && (s.susp h).value.isNone) (.notSet f)
    | _ => s
  s.modFrame f fun fr => { fr with phase := .running fr.phase.site, awaiter := .none }

/-! ## The handler side -/

/-- `completion_handler::operator()` up to its exchange: `set_value` on the awaitable. -/
def completionSetValue (s : State V E) (h : SuspId) (t : Site) (v : Delivered V E) : State V E :=
  ((s.touch h).faultIf (s.susp h).value.isSome (.alreadySet h)).modSusp h fun r =>
    { r with value := some v, stage := .invoked t }

/-- `dispatch_handler<Awaitable>::operator()` is entered by a thread of the executor. -/
def dispatchEnter (s : State V E) (h : SuspId) (ex : Executor) : State V E :=
  s.modSusp h fun r => { r with stage := .invoked ex.site }

/-- `dispatch_handler<void>::operator()` run by a thread of the executor. -/
def plainResume (s : State V E) (h : SuspId) (ex : Executor) : State V E :=
  ((s.modSusp h fun r => { r with stage := .gone, fate := some .invoked }).endBy h
    .handler .resumed).resume (s.susp h).handle ex.site

/-- `resume_completed`: the handle is released and the exchange made. -/
def resumeCompleted (s : State V E) (h : SuspId) (t : Site) : State V E :=
  let x := (s.susp h).word.resumeCompleted
  (s.touch h).modSusp h fun r =>
    { r with word := x.word, fate := some .invoked,
             stage := if x.resumes then .claimed t else .gone }

/-- The rest of a handler told to resume: `completion_handler` restores `shared_this` from the weak
    reference and destroys the coroutine when that fails. -/
def handlerResume (s : State V E) (h : SuspId) (t : Site) : State V E :=
  let r := s.susp h
  let s := s.touch h
  let s := s.modSusp h fun r => { r with stage := .gone }
  if r.kind.isCompletion && r.restoreSharedThis then
    if r.weakThis.any s.ownerAlive then
      ((s.modFrame r.frame fun fr => { fr with sharedThis := r.weakThis }).endBy h
        .handler .resumed).resume r.handle t
    else
      (((s.modFrame r.frame fun fr => { fr with sharedThis := none }).modSusp h fun r =>
        { r with fate := some .ownerLost }).endBy h .handler .destroyed).destroyHandle r.handle
  else (s.endBy h .handler .resumed).resume r.handle t

/-- The destructor of a handler that still has its handle. A handler with a context leaves the
    decision to `resume_context::destroy`; the `unique_handle` of a plain one destroys the
    coroutine. -/
def handlerDrop (s : State V E) (h : SuspId) : State V E :=
  let r := s.susp h
  if r.kind.hasContext then
    let x := r.word.destroy
    let s := (s.touch h).modSusp h fun r =>
      { r with word := x.word, stage := .gone, fate := some .dropped }
    if x.destroys then (s.endBy h .handler .destroyed).destroyHandle r.handle else s
  else
    let s := s.modSusp h fun r => { r with stage := .gone, fate := some .dropped }
    if r.kind == .callback then s else (s.endBy h .handler .destroyed).destroyHandle r.handle

/-! ## Trampolines -/

/-- `init_await::awaitable::await_resume` up to the call of the handler with the outcome. -/
def trampolineInvoke (s : State V E) (b c : FrameId) (h : SuspId) : State V E :=
  let t := (s.frame b).phase.site
  let v := Delivered.outcome (s.frame c).result
  let s := s.modFrame b fun fr => { fr with phase := .running t }
  if (s.susp h).kind == .callback then
    s.modSusp h fun r => { r with value := some v, stage := .gone, fate := some .invoked }
  else s.completionSetValue h t v

/-- The handler has returned: the callee is destroyed and the trampoline runs off its end. -/
def trampolineReturn (s : State V E) (b c : FrameId) : State V E :=
  (s.destroyHandle c).modFrame b fun fr =>
    { fr with phase := .destroyed, awaiter := .none, destroyed := fr.destroyed + 1 }

/-! ## The end of a body -/

/-- `final_awaitable::await_suspend` of `c`, up to its exchange where it makes one. -/
def finalAwaitSuspend (s : State V E) (c g : FrameId) : State V E :=
  let fr := s.frame c
  let t := fr.phase.site
  let s := s.modFrame c fun fr => { fr with caller := none }
  if fr.callerExecutor ≠ c ∧ fr.executor.isSome then
    let s := s.touchExecutor fr.callerExecutor
    match (s.frame fr.callerExecutor).executor with
    | none => s.fault (.danglingExecutor fr.callerExecutor)
    | some ex =>
      if fr.innerExecutor.isNone then
        (s.newSusp (dispatchContext { kind := .final, frame := c, handle := g,
                                      side := .exchanging none } ex t)).modFrame c fun fr =>
          { fr with phase := .finalizing t, awaiter := .context s.nextSusp }
      else
        (s.newSusp { kind := .finalDefer, frame := c, handle := g, stage := .asio,
                     target := some ex }).modFrame c fun fr =>
          { fr with phase := .parked, awaiter := .context s.nextSusp }
  else
    match fr.innerExecutor with
    | some ex =>
      (s.newSusp { kind := .finalDefer, frame := c, handle := g, stage := .asio,
                   target := some ex }).modFrame c fun fr =>
        { fr with phase := .parked, awaiter := .context s.nextSusp }
    | none =>
      (s.modFrame c fun fr => { fr with phase := .parked }).resume g t

/-- The body of `f` ends. A detached frame ends itself, that of `coro::main` stays at its final
    suspension point, and a promise frame stores its result and resumes its caller. -/
def coReturn (s : State V E) (f : FrameId) (e : BodyEnd V E) : State V E :=
  match (s.frame f).kind with
  | .promise =>
    let s := s.modFrame f fun fr => { fr with result := Outcome.finish e }
    match (s.frame f).caller with
    | some g => s.finalAwaitSuspend f g
    | none => s.fault (.noCaller f)
  | .main => s.modFrame f fun fr => { fr with phase := .parked }
  | _ => s.modFrame f fun fr =>
      { fr with phase := .destroyed, sharedThis := none, destroyed := fr.destroyed + 1 }

/-- The execution of `destroy()` on `f`: the members of the promise and the locals of the body end,
    which destroys the caller it owns and the handler a trampoline still holds. -/
def destroyFrame (s : State V E) (f : FrameId) : State V E :=
  let fr := s.frame f
  let s := s.modFrame f fun fr =>
    { fr with phase := .destroyed, awaiter := .none, caller := none, sharedThis := none,
              destroyed := fr.destroyed + 1 }
  let s := match fr.awaiter with
    | .bridge _ h =>
      if (s.susp h).stage = .held f then s.modSusp h fun r => { r with stage := .dropping } else s
    | _ => s
  match fr.caller with
  | some g => s.destroyHandle g
  | none => s

end State

/-! ## Actions -/

inductive Action (V E : Type)
  /-- a detached coroutine is called by a thread at `t` and starts at once; `alone` is explained at
      `detachedThis` -/
  | detach (t : Site) (thisObject : Option OwnerId) (alone : Bool)
  /-- `detail::main` calls `co_main`, gives it the executor of its context and resumes it -/
  | startMain (ioc : Nat)
  /-- a promise coroutine is called: its frame exists, its body does not start -/
  | create (thisObject : Option OwnerId)
  /-- a promise that was never awaited is destroyed -/
  | discard (c : FrameId)
  | awaitPromise (f c : FrameId)
  | awaitDeferred (f : FrameId)
  | awaitTimer (f : FrameId)
  | awaitAwait (f c : FrameId)
  | startAwait (t : Site) (c : FrameId)
  | awaitDispatch (f : FrameId) (ex : ExecutorArg)
  | awaitPost (f : FrameId) (ex : ExecutorArg)
  | initiationThrows (f : FrameId) (h : SuspId) (e : E)
  | initiationReturns (f : FrameId) (h : SuspId)
  | resumeAwaiting (f : FrameId) (h : SuspId)
  | finalResumeAwaiting (c : FrameId) (h : SuspId)
  | awaitResume (f : FrameId)
  | setValue (h : SuspId) (t : Site) (r : Except E V)
  | dispatchEnter (h : SuspId) (ex : Executor)
  | plainResume (h : SuspId) (ex : Executor)
  | resumeCompleted (h : SuspId) (t : Site)
  | handlerResume (h : SuspId) (t : Site)
  | drop (h : SuspId)
  | trampolineInvoke (b c : FrameId) (h : SuspId)
  | trampolineReturn (b c : FrameId) (h : SuspId)
  | coReturn (f : FrameId) (e : BodyEnd V E)
  | destroy (f : FrameId)
  /-- every strong reference to `o` outside the coroutine layer is released -/
  | release (o : OwnerId)
  /-- a strong reference to `o` is copied to somewhere outside the coroutine layer -/
  | retain (o : OwnerId)
  /-- a `saved_shared_this` left on a stack is destroyed -/
  | unwind (o : OwnerId)

/-- The `shared_this` of a detached coroutine. `promise_frame<detached>` inherits no constructor of
    its base: the object reaches that only where the promise is initialized as an aggregate, from
    the object alone, and so never when the coroutine has parameters. -/
def detachedThis (thisObject : Option OwnerId) (alone : Bool) : Option OwnerId :=
  if alone then thisObject else none

@[simp] theorem detachedThis_true (o : Option OwnerId) : detachedThis o true = o := rfl

@[simp] theorem detachedThis_false (o : Option OwnerId) : detachedThis o false = none := rfl

namespace State

/-- The body of `f` is being executed and may take its next step. -/
def inBody (s : State V E) (f : FrameId) : Bool :=
  (s.frame f).phase.isRunning && (s.frame f).kind != .trampoline

/-- `c` is the frame of a promise that was not awaited yet. -/
def isFresh (s : State V E) (c : FrameId) : Bool :=
  (s.frame c).phase == .initial && (s.frame c).kind == .promise

/-- Where each action may happen. A handler that was given to Boost.Asio may be invoked or dropped
    at any time. An initiation throws only after unwinding destroyed the handler it was given. An
    exception that escapes a detached coroutine terminates the program. -/
def Enabled (s : State V E) : Action V E → Prop
  | .detach _ o _ | .create o => ∀ x ∈ o, s.ownerAlive x
  | .startMain _ => True
  | .discard c => s.isFresh c
  | .awaitPromise f c | .awaitAwait f c => s.inBody f ∧ s.isFresh c
  | .awaitDeferred f | .awaitTimer f => s.inBody f
  | .startAwait _ c => s.isFresh c
  | .awaitDispatch f _ | .awaitPost f _ => s.inBody f
  | .initiationThrows f h _ =>
    (s.frame f).phase.isSuspending ∧ (s.frame f).awaiter = .context h ∧
      (s.susp h).side = .initiating true ∧ (s.susp h).stage = .gone ∧
      (s.susp h).fate = some .dropped
  | .initiationReturns f h =>
    (s.frame f).phase.isSuspending ∧ (s.frame f).awaiter = .context h ∧
      ((s.susp h).side = .initiating true ∨ (s.susp h).side = .initiating false)
  | .resumeAwaiting f h =>
    (s.frame f).phase.isSuspending ∧ (s.frame f).awaiter = .context h ∧
      (s.susp h).side = .exchanging (s.susp h).side.saved
  | .finalResumeAwaiting c h =>
    (s.frame c).phase.isFinalizing ∧ (s.frame c).awaiter = .context h ∧
      (s.susp h).side = .exchanging (s.susp h).side.saved
  | .awaitResume f => (s.frame f).phase.isResuming ∧ (s.frame f).kind ≠ .trampoline
  | .setValue h _ _ => (s.susp h).stage = .asio ∧ (s.susp h).kind.isCompletion
  | .dispatchEnter h ex =>
    (s.susp h).stage = .asio ∧ ((s.susp h).kind = .dispatch ∨ (s.susp h).kind = .final) ∧
      (s.susp h).target = some ex
  | .plainResume h ex =>
    (s.susp h).stage = .asio ∧ ((s.susp h).kind = .post ∨ (s.susp h).kind = .finalDefer) ∧
      (s.susp h).target = some ex
  | .resumeCompleted h t => (s.susp h).stage = .invoked t
  | .handlerResume h t => (s.susp h).stage = .claimed t
  | .drop h => (s.susp h).stage = .asio ∨ (s.susp h).stage = .dropping
  | .trampolineInvoke b c h =>
    (s.frame b).phase.isResuming ∧ (s.frame b).awaiter = .bridge c h ∧ (s.susp h).stage = .held b
  | .trampolineReturn b c h =>
    (s.frame b).phase.isRunning ∧ (s.frame b).awaiter = .bridge c h ∧ (s.susp h).stage = .gone
  | .coReturn f e => s.inBody f ∧ ((s.frame f).kind = .detached → e.escapes = false)
  | .destroy f => (s.frame f).phase = .destroying
  | .release _ => True
  | .retain o => s.ownerAlive o
  | .unwind o => o ∈ s.stack

instance (s : State V E) (a : Action V E) : Decidable (s.Enabled a) := by
  cases a <;> simp only [Enabled] <;> infer_instance

def next (s : State V E) : Action V E → State V E
  | .detach t o alone =>
    s.newFrame { kind := .detached, phase := .running t, thisObject := detachedThis o alone,
                 sharedThis := detachedThis o alone }
  | .startMain i =>
    s.newFrame { kind := .main, phase := .running [], executor := some (.context i),
                 adopted := [⟨.context i, false⟩] }
  | .create o => s.newFrame { phase := .initial, thisObject := o, sharedThis := o }
  | .discard c => s.destroyHandle c
  | .awaitPromise f c => s.coroAwaitSuspend f c
  | .awaitDeferred f => s.completionAwaitSuspend f .deferred
  | .awaitTimer f => s.completionAwaitSuspend f .timer
  | .awaitAwait f c => s.awaitAwaitSuspend f c
  | .startAwait t c => s.startAwait t c
  | .awaitDispatch f ex => s.dispatchAwaitSuspend f ex
  | .awaitPost f ex => s.postAwaitSuspend f ex
  | .initiationThrows f h e => s.initiationThrows f h e
  | .initiationReturns f h => s.initiationReturns f h
  | .resumeAwaiting f h => s.resumeAwaiting f h
  | .finalResumeAwaiting c h => s.finalResumeAwaiting c h
  | .awaitResume f => s.awaitResume f
  | .setValue h t r => s.completionSetValue h t (.result r)
  | .dispatchEnter h ex => s.dispatchEnter h ex
  | .plainResume h ex => s.plainResume h ex
  | .resumeCompleted h t => s.resumeCompleted h t
  | .handlerResume h t => s.handlerResume h t
  | .drop h => s.handlerDrop h
  | .trampolineInvoke b c h => s.trampolineInvoke b c h
  | .trampolineReturn b c _ => s.trampolineReturn b c
  | .coReturn f e => s.coReturn f e
  | .destroy f => s.destroyFrame f
  | .release o => { s with external := Function.update s.external o false }
  | .retain o => { s with external := Function.update s.external o true }
  | .unwind o => { s with stack := s.stack.erase o }

end State

/-- The coroutine runtime as a transition system. -/
def runtime : Transition.System (State V E) (Action V E) := ⟨State.Enabled, State.next⟩

instance (s : State V E) (a : Action V E) : Decidable (runtime.enabled s a) :=
  inferInstanceAs (Decidable (s.Enabled a))

/-- The states that some run reaches from the empty runtime. -/
def Reachable (s : State V E) : Prop := Transition.Reachable runtime State.init s

/-- The state that the actions lead to from the empty runtime. -/
def State.after (as : List (Action V E)) : State V E := runtime.exec State.init as

theorem Reachable.after {as : List (Action V E)} (h : runtime.Legal State.init as) :
    Reachable (State.after as) := .of_legal h

end WebAsio.Coro
