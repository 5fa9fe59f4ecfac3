import WebAsio.Coro.DirectStyle
import WebAsio.Coro.Undisturbed

set_option autoImplicit false

/-! # Programs of coroutines on the runtime

The runtime with bodies in its frames. A body executes one statement after the other; where it
comes to a `co_await` or to its end, it takes the step of the runtime that this is, and goes on when
its frame is resumed. Everything else the runtime does, the exchanges of awaitables and handlers,
the completions of operations and the threads that run them, may happen at any time between.

A call of a promise coroutine stands in a `co_await` expression: nobody else has the promise, and it
is the next thing the body does. -/

namespace WebAsio.Coro.Direct

variable {V E L : Type}

/-- Where a coroutine stands. -/
inductive Point (V E L : Type)
  /-- there is no body: the frame does not exist, or it is a trampoline -/
  | absent
  /-- the coroutine was called from outside, and nobody awaits its promise yet -/
  | lazy (b : Body V E L)
  /-- the promise is part of a `co_await` expression that is about to await it -/
  | temporary (b : Body V E L)
  /-- `b` is left, and its `co_await` may be under way -/
  | rest (b : Body V E L)
  /-- the promise `c` with the body `b` was called and is awaited next -/
  | called (c : FrameId) (b : Body V E L) (k : Except E V → Body V E L)
  | waiting (c : FrameId) (k : Except E V → Body V E L)
  /-- the result of `c` was taken, and the handle of `c` in `await_resume` is destroyed next -/
  | leaving (c : FrameId) (r : Except E V) (k : Except E V → Body V E L)
  | ended (e : BodyEnd V E)
  /-- the body is over, and its result was taken -/
  | reaped
  /-- `bug_abort("outcome was not set")` -/
  | aborted

/-- The runtime and where its coroutines stand. The other members record what happens, by frame:
    the body as it was called, the frame that called it, the outermost one of the calls, by
    outermost frame the events so far, and those at the time when the body began. -/
structure Program (V E L : Type) where
  runtime : State V E
  point : FrameId → Point V E L
  code : FrameId → Option (Body V E L)
  caller : FrameId → FrameId
  root : FrameId → FrameId
  log : FrameId → List (Event V E L)
  before : FrameId → List (Event V E L)

/-- A step of a program: a coroutine is called from outside, a body goes on, or something happens
    around the bodies. -/
inductive Step (V E L : Type)
  | launch (a : Action V E) (b : Body V E L)
  | advance (f : FrameId)
  /-- a sleep that does not suspend gives its result -/
  | ready (f : FrameId) (r : Except E V)
  | around (a : Action V E)

namespace Point

def isLazy : Point V E L → Bool
  | .lazy _ => true
  | _ => false

theorem isLazy_iff {p : Point V E L} : p.isLazy = true ↔ ∃ b, p = .lazy b := by
  cases p <;> simp [isLazy]

def isSleep : Point V E L → Bool
  | .rest (.sleep _) => true
  | _ => false

theorem isSleep_iff {p : Point V E L} : p.isSleep = true ↔ ∃ k, p = .rest (.sleep k) := by
  rcases p with _ | _ | _ | (_ | _ | _ | _ | _ | _) | _ | _ | _ | _ | _ | _ <;> simp [isSleep]

def isReaped : Point V E L → Bool
  | .reaped => true
  | _ => false

/-- The promise is awaited from outside. -/
def start : Point V E L → Point V E L
  | .lazy b => .rest b
  | p => p

end Point

namespace Program

def init : Program V E L where
  runtime := State.init
  point _ := .absent
  code _ := none
  caller := id
  root := id
  log _ := []
  before _ := []

def act (s : Program V E L) (a : Action V E) : Program V E L :=
  { s with runtime := s.runtime.next a }

def goTo (s : Program V E L) (f : FrameId) (p : Point V E L) : Program V E L :=
  { s with point := Function.update s.point f p }

def write (s : Program V E L) (f : FrameId) (x : Event V E L) : Program V E L :=
  { s with log := Function.update s.log (s.root f) (s.log (s.root f) ++ [x]) }

section Updates

variable (s : Program V E L) (a : Action V E) (f x : FrameId) (p : Point V E L) (v : Event V E L)

@[simp] theorem act_runtime : (s.act a).runtime = s.runtime.next a := rfl

@[simp] theorem act_point : (s.act a).point = s.point := rfl

@[simp] theorem act_log : (s.act a).log = s.log := rfl

@[simp] theorem act_names : (s.act a).code = s.code ∧ (s.act a).caller = s.caller ∧
    (s.act a).root = s.root ∧ (s.act a).before = s.before := ⟨rfl, rfl, rfl, rfl⟩

@[simp] theorem goTo_runtime : (s.goTo f p).runtime = s.runtime := rfl

@[simp] theorem goTo_point : (s.goTo f p).point x = if x = f then p else s.point x := by
  simp [goTo, Function.update_apply]

@[simp] theorem goTo_log : (s.goTo f p).log = s.log := rfl

@[simp] theorem goTo_names : (s.goTo f p).code = s.code ∧ (s.goTo f p).caller = s.caller ∧
    (s.goTo f p).root = s.root ∧ (s.goTo f p).before = s.before := ⟨rfl, rfl, rfl, rfl⟩

@[simp] theorem write_runtime : (s.write f v).runtime = s.runtime := rfl

@[simp] theorem write_point : (s.write f v).point = s.point := rfl

@[simp] theorem write_log : (s.write f v).log x =
    if x = s.root f then s.log (s.root f) ++ [v] else s.log x := by
  simp [write, Function.update_apply]

@[simp] theorem write_names : (s.write f v).code = s.code ∧ (s.write f v).caller = s.caller ∧
    (s.write f v).root = s.root ∧ (s.write f v).before = s.before := ⟨rfl, rfl, rfl, rfl⟩

end Updates

/-! ## Statements -/

/-- A promise coroutine is called by `f`. -/
def call (s : Program V E L) (f : FrameId) (o : Option OwnerId) (b : Body V E L)
    (k : Except E V → Body V E L) : Program V E L :=
  let c := s.runtime.nextFrame
  { (((s.act (.create o)).goTo f (.called c b k)).goTo c (.temporary b)) with
    code := Function.update s.code c (some b)
    caller := Function.update s.caller c f
    root := Function.update s.root c (s.root f) }

/-- The promise that `f` called is awaited, which starts its body. -/
def awaitCallee (s : Program V E L) (f c : FrameId) (b : Body V E L)
    (k : Except E V → Body V E L) : Program V E L :=
  { ((((s.act (.awaitPromise f c)).write f .begins).goTo f (.waiting c k)).goTo c (.rest b)) with
    before := Function.update s.before c (s.log (s.root f) ++ [.begins]) }

/-- `coro_awaitable::await_resume` of `f` up to the destructor of its `unique_handle`. -/
def takeResult (s : Program V E L) (f c : FrameId) (k : Except E V → Body V E L) : Program V E L :=
  match (s.runtime.frame c).result.get with
  | some r => (((s.act (.awaitResume f)).goTo f (.leaving c r k)).goTo c .reaped)
  | none => (s.act (.awaitResume f)).goTo f .aborted

/-- The destructor of that handle; then `f` goes on with the result. -/
def destroyCallee (s : Program V E L) (f c : FrameId) (r : Except E V)
    (k : Except E V → Body V E L) : Program V E L :=
  (((s.act (.destroy c)).write f .destroyed).write f (.observed r)).goTo f (.rest (k r))

/-- The result of the operation that `f` awaited. -/
def received (s : Program V E L) (f : FrameId) : Option (Except E V) :=
  match (s.runtime.frame f).awaiter with
  | .context h =>
    match (s.runtime.susp h).value with
    | some (.result r) => some r
    | _ => none
  | _ => none

/-- `await_resume` of an operation, after which `f` goes on with its result. -/
def takeAnswer (s : Program V E L) (f : FrameId) (k : Except E V → Body V E L) : Program V E L :=
  match s.received f with
  | some r => ((s.act (.awaitResume f)).write f (.result r)).goTo f (.rest (k r))
  | none => (s.act (.awaitResume f)).goTo f .aborted

/-- `f` is resumed in the `co_await` that begins `b`. -/
def resumeBody (s : Program V E L) (f : FrameId) : Body V E L → Program V E L
  | .deferred k | .sleep k => s.takeAnswer f k
  | .hop _ _ b => ((s.act (.awaitResume f)).write f .hopped).goTo f (.rest b)
  | _ => (s.act (.awaitResume f)).goTo f .aborted

/-- `f` executes the first statement of `b`. -/
def execute (s : Program V E L) (f : FrameId) : Body V E L → Program V E L
  | .finish e => (s.act (.coReturn f e)).goTo f (.ended e)
  | .effect x b => (s.write f (.effect x)).goTo f (.rest b)
  | .call o b k => s.call f o b k
  | .deferred _ => s.act (.awaitDeferred f)
  | .sleep _ => s.act (.awaitTimer f)
  | .hop .dispatch ex _ => s.act (.awaitDispatch f ex)
  | .hop _ ex _ => s.act (.awaitPost f ex)

def advance (s : Program V E L) (f : FrameId) : Program V E L :=
  match s.point f with
  | .rest b => if (s.runtime.frame f).phase.isResuming then s.resumeBody f b else s.execute f b
  | .called c b k => s.awaitCallee f c b k
  | .waiting c k => s.takeResult f c k
  | .leaving c r k => s.destroyCallee f c r k
  | _ => s

/-- `f` goes on after a sleep that did not suspend it. -/
def ready (s : Program V E L) (f : FrameId) (r : Except E V) : Program V E L :=
  match s.point f with
  | .rest (.sleep k) => (s.write f (.result r)).goTo f (.rest (k r))
  | _ => s

/-- A coroutine is called from outside. -/
def launch (s : Program V E L) (a : Action V E) (p : Point V E L) (b : Body V E L) :
    Program V E L :=
  let f := s.runtime.nextFrame
  { (s.act a).goTo f p with
    code := Function.update s.code f (some b)
    root := Function.update s.root f f
    log := Function.update s.log f []
    before := Function.update s.before f [] }

end Program

/-! ## Steps -/

/-- A promise coroutine starts when its promise is awaited, any other when it is called. -/
def entry (b : Body V E L) : Action V E → Point V E L
  | .create _ => .lazy b
  | _ => .rest b

/-- The action calls a coroutine. -/
def launches : Action V E → Bool
  | .detach .. | .startMain _ | .create _ => true
  | _ => false

namespace Program

/-- Where the first statement of a body may be executed. -/
def Executes (s : State V E) (f : FrameId) : Body V E L → Prop
  | .finish e => s.Enabled (.coReturn f e)
  | .effect .. => s.inBody f
  | .call o _ _ => s.inBody f ∧ s.Enabled (.create o)
  | .deferred _ => s.Enabled (.awaitDeferred f)
  | .sleep _ => s.Enabled (.awaitTimer f)
  | .hop .dispatch ex _ => s.Enabled (.awaitDispatch f ex)
  | .hop _ ex _ => s.Enabled (.awaitPost f ex)

instance (s : State V E) (f : FrameId) (b : Body V E L) : Decidable (Executes s f b) :=
  match b with
  | .finish e => inferInstanceAs (Decidable (s.Enabled (.coReturn f e)))
  | .effect .. => inferInstanceAs (Decidable (s.inBody f = true))
  | .call o _ _ => inferInstanceAs (Decidable (s.inBody f = true ∧ s.Enabled (.create o)))
  | .deferred _ => inferInstanceAs (Decidable (s.Enabled (.awaitDeferred f)))
  | .sleep _ => inferInstanceAs (Decidable (s.Enabled (.awaitTimer f)))
  | .hop .dispatch ex _ => inferInstanceAs (Decidable (s.Enabled (.awaitDispatch f ex)))
  | .hop .post ex _ => inferInstanceAs (Decidable (s.Enabled (.awaitPost f ex)))
  | .hop .defer ex _ => inferInstanceAs (Decidable (s.Enabled (.awaitPost f ex)))

/-- Where a body may go on. -/
def Advances (s : State V E) (f : FrameId) : Point V E L → Prop
  | .rest b =>
    if (s.frame f).phase.isResuming then s.Enabled (.awaitResume f) else Executes s f b
  | .called c _ _ => s.Enabled (.awaitPromise f c)
  | .waiting .. => s.Enabled (.awaitResume f)
  | .leaving c _ _ => s.inBody f ∧ s.Enabled (.destroy c)
  | _ => False

instance (s : State V E) (f : FrameId) (p : Point V E L) : Decidable (Advances s f p) :=
  match p with
  | .rest b => inferInstanceAs (Decidable
      (if (s.frame f).phase.isResuming = true then s.Enabled (.awaitResume f) else Executes s f b))
  | .called c _ _ => inferInstanceAs (Decidable (s.Enabled (.awaitPromise f c)))
  | .waiting .. => inferInstanceAs (Decidable (s.Enabled (.awaitResume f)))
  | .leaving c _ _ => inferInstanceAs (Decidable (s.inBody f = true ∧ s.Enabled (.destroy c)))
  | .absent | .lazy _ | .temporary _ | .ended _ | .reaped | .aborted => .isFalse id

/-- What may happen around the bodies: not their own moves and calls. Only a promise that was called
    from outside can be awaited or discarded there. The frame of a callee is destroyed by the
    `await_resume` that has taken its result. A wait on a timer ends with an error code, which is
    not thrown. -/
def Permits (s : Program V E L) : Action V E → Bool
  | .startAwait _ c | .discard c => (s.point c).isLazy
  | .destroy c => !(s.point c).isReaped
  | .setValue h _ r => (s.runtime.susp h).kind != .timer || r.isOk
  | .initiationThrows .. | .initiationReturns .. | .resumeAwaiting .. | .finalResumeAwaiting ..
  | .dispatchEnter .. | .plainResume .. | .resumeCompleted .. | .handlerResume ..
  | .drop _ | .trampolineInvoke .. | .trampolineReturn .. | .release _ | .retain _ | .unwind _ =>
    true
  | _ => false

/-- A sleep does not suspend when its deadline has passed, or when there is no executor for its
    timer, whose constructor then throws. -/
def Enabled (s : Program V E L) : Step V E L → Prop
  | .launch a _ => launches a ∧ s.runtime.Enabled a
  | .advance f => Advances s.runtime f (s.point f)
  | .ready f r => s.runtime.inBody f ∧ (s.point f).isSleep ∧
      (r.isOk ∨ s.runtime.getExecutor f = none)
  | .around a => s.Permits a ∧ s.runtime.Enabled a

instance (s : Program V E L) (m : Step V E L) : Decidable (s.Enabled m) :=
  match m with
  | .launch a _ => inferInstanceAs (Decidable (launches a = true ∧ s.runtime.Enabled a))
  | .advance f => inferInstanceAs (Decidable (Advances s.runtime f (s.point f)))
  | .ready f r => inferInstanceAs (Decidable (s.runtime.inBody f = true ∧
      (s.point f).isSleep = true ∧ (r.isOk = true ∨ s.runtime.getExecutor f = none)))
  | .around a => inferInstanceAs (Decidable (s.Permits a = true ∧ s.runtime.Enabled a))

def next (s : Program V E L) : Step V E L → Program V E L
  | .launch a b => s.launch a (entry b a) b
  | .advance f => s.advance f
  | .ready f r => s.ready f r
  | .around (.startAwait t c) => (s.act (.startAwait t c)).goTo c (s.point c).start
  | .around a => s.act a

end Program

/-- Programs of coroutines as a transition system. -/
def machine : Transition.System (Program V E L) (Step V E L) := ⟨Program.Enabled, Program.next⟩

instance (s : Program V E L) (m : Step V E L) : Decidable (machine.enabled s m) :=
  inferInstanceAs (Decidable (s.Enabled m))

end WebAsio.Coro.Direct
