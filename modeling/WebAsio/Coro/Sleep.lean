import WebAsio.Coro.Trampoline

set_option autoImplicit false

/-! # The timers that sleeps wait on

The runtime once more, with the steady timer that a frame keeps for its sleeps and with execution
contexts that are run or not. A wait is completed by the context of its timer's executor, and the
frame's executor changes with every hop. -/

namespace WebAsio.Coro

open Custody State

variable {V E : Type}

/-- The context at the bottom of an executor, `query(ex, execution::context)`. -/
def Executor.executionContext : Executor → Nat
  | .context i => i
  | .strand _ inner => inner.executionContext

/-- The specializations of `sleep_t`: a duration, a time point of the steady clock, or one of any
    other clock. -/
inductive SleepArg
  | duration
  | steadyTimePoint
  | timePoint
  deriving DecidableEq

/-- The runtime and its timers: the executor of a frame's `steady_timer`, once it has one, that of
    the timer that a suspension waits on, and the contexts being run. The last field records the
    executor of a frame at each of its sleeps on the steady timer, and is never read by the
    program. -/
structure Sleepers (V E : Type) where
  runtime : State V E
  steadyTimer : FrameId → Option Executor
  timer : SuspId → Option Executor
  running : Nat → Bool
  slept : FrameId → List Executor

namespace Sleepers

def init : Sleepers V E := ⟨State.init, fun _ => none, fun _ => none, fun _ => true, fun _ => []⟩

inductive Action (V E : Type)
  /-- any step but a sleep -/
  | run (a : Coro.Action V E)
  /-- `co_await` of a sleep by the body of `f`; `expired` is what `await_ready` finds -/
  | sleep (f : FrameId) (arg : SleepArg) (expired : Bool)
  /-- a context begins or ceases to be run -/
  | setRunning (i : Nat) (b : Bool)

/-- `if (!frame.steady_timer) frame.steady_timer = ...`, and the executor of the timer that the
    awaitable is given. Without executor the constructor of the timer throws. -/
def getSteady (s : Sleepers V E) (f : FrameId) : Option Executor :=
  match s.steadyTimer f with
  | some ex => some ex
  | none => s.runtime.getExecutor f

/-- `promise_awaitable<sleep_t<...>>::get`: the executor of the timer that is armed. -/
def armed (s : Sleepers V E) (f : FrameId) : SleepArg → Option Executor
  | .duration | .steadyTimePoint => s.getSteady f
  | .timePoint => s.runtime.getExecutor f

/-- The frame keeps its steady timer. -/
def keepSteady (s : Sleepers V E) (f : FrameId) (ex : Executor) : SleepArg → Sleepers V E
  | .duration | .steadyTimePoint =>
    { s with
      steadyTimer := Function.update s.steadyTimer f (some ex)
      slept := Function.update s.slept f ((s.runtime.getExecutor f).toList ++ s.slept f) }
  | .timePoint => s

/-- The body suspends in `async_wait`. -/
def asyncWait (s : Sleepers V E) (f : FrameId) (ex : Executor) : Sleepers V E :=
  { s with
    runtime := s.runtime.next (.awaitTimer f)
    timer := Function.update s.timer s.runtime.nextSusp (some ex) }

/-- The context that completes the suspension `h`, if it waits on a timer, is run. -/
def served (s : Sleepers V E) (h : SuspId) : Bool :=
  (s.timer h).all fun ex => s.running ex.executionContext

/-- Timers are for sleeps only, and their context completes the waits. -/
def permits (s : Sleepers V E) : Coro.Action V E → Bool
  | .awaitTimer _ => false
  | .setValue h _ _ => s.served h
  | _ => true

def Enabled (s : Sleepers V E) : Action V E → Prop
  | .run a => s.runtime.Enabled a ∧ s.permits a = true
  | .sleep f _ _ => s.runtime.inBody f = true
  | .setRunning _ _ => True

def next (s : Sleepers V E) : Action V E → Sleepers V E
  | .run a => { s with runtime := s.runtime.next a }
  | .sleep f arg expired =>
    match s.armed f arg with
    | none => s
    | some ex =>
      if expired then s.keepSteady f ex arg else (s.keepSteady f ex arg).asyncWait f ex
  | .setRunning i b => { s with running := Function.update s.running i b }

def machine : Transition.System (Sleepers V E) (Action V E) := ⟨Enabled, next⟩

/-- The timer that a sleep arms is that of the current executor. -/
def ArmsCurrent (s : Sleepers V E) : Action V E → Prop
  | .sleep f arg _ => s.armed f arg = s.runtime.getExecutor f
  | _ => True

/-- A coroutine that waits on a timer has an executor, and the wait can be completed when the
    context of that executor is run, whatever becomes of other contexts. -/
def Served (s : Sleepers V E) : Prop :=
  ∀ h, s.timer h ≠ none → (s.runtime.susp h).stage = .asio →
    ∃ ex, s.runtime.getExecutor (s.runtime.susp h).frame = some ex ∧
      ∀ t r, s.Enabled (.run (.setValue h t r)) ↔ s.running ex.executionContext = true

def StepOk (s : Sleepers V E) (a : Action V E) : Prop := s.ArmsCurrent a ∧ (s.next a).Served

/-- At a sleep that uses the steady timer, the coroutine is on the executor it was on at all earlier
    ones. -/
def Stays (s : Sleepers V E) : Action V E → Prop
  | .sleep f .duration _ | .sleep f .steadyTimePoint _ =>
    ∀ ex ∈ s.slept f, s.runtime.getExecutor f = some ex
  | _ => True

instance (s : Sleepers V E) (a : Action V E) : Decidable (machine.enabled s a) :=
  match a with
  | .run a => inferInstanceAs (Decidable (s.runtime.Enabled a ∧ s.permits a = true))
  | .sleep f _ _ => inferInstanceAs (Decidable (s.runtime.inBody f = true))
  | .setRunning _ _ => .isTrue trivial

instance (s : Sleepers V E) (a : Action V E) : Decidable (s.Stays a) :=
  match a with
  | .sleep f .duration _ | .sleep f .steadyTimePoint _ =>
    List.decidableBAll (fun ex => s.runtime.getExecutor f = some ex) (s.slept f)
  | .sleep _ .timePoint _ | .run _ | .setRunning .. => .isTrue trivial

end Sleepers

/-! ## The invariant -/

/-- What was never invoked is still with Boost.Asio. -/
theorem Suspension.Step.asio {r r' : Suspension V E} (h : r.Step r') (ha : r'.stage = .asio) :
    r.stage = .asio := by
  cases h <;> grind [endBy]

/-- A step changes the executor of no coroutine that waits for a completion. -/
theorem Accounts.getExecutor_asio {s : State V E} {b : Book FrameId SuspId} (r : Accounts s b)
    (i : Inherits s) {a : Action V E} (h : s.Enabled a) {k : SuspId}
    (hk : (s.susp k).kind = .timer) (ha : (s.susp k).stage = .asio) :
    (s.next a).getExecutor (s.susp k).frame = s.getExecutor (s.susp k).frame := by
  have ho : (s.susp k).isOpen = true := by simp [Suspension.isOpen, ha]
  have hl := r.custodian.leased_of_open ho (by simp [hk])
  obtain ⟨hf, -, -⟩ := r.custodian.own _ k hl (by simp [hk, AwaitKind.isFinal])
  have hfit := r.custodian.fits (s.susp k).handle
  rw [hl, ← hf] at hfit
  refine r.getExecutor_away i h ?_
  rcases hfit.2 with hp | hp
  · exact .inl hp
  · exact .inr (.inl hp)

namespace Sleepers

/-- A pending wait is on the executor of its coroutine. -/
structure Waits (s : State V E) (k : SuspId) (ex : Executor) : Prop where
  made : k < s.nextSusp
  kind : (s.susp k).kind = .timer
  executor : (s.susp k).stage = .asio → s.getExecutor (s.susp k).frame = some ex

/-- The invariant of runs whose coroutines stay where they sleep. -/
structure Bound (s : Sleepers V E) : Prop where
  accounts : ∃ b, Accounts s.runtime b
  inherits : Inherits s.runtime
  waits : ∀ k ex, s.timer k = some ex → Waits s.runtime k ex
  kept : ∀ f, ∀ ex ∈ s.slept f, s.steadyTimer f = some ex
  bare : ∀ f, s.slept f = [] → s.steadyTimer f = none

variable {s : Sleepers V E}

theorem Bound.init : Bound (init : Sleepers V E) := by
  refine ⟨⟨_, Accounts.init⟩, Inherits.init, ?_, ?_, fun _ _ => rfl⟩
  · intro k ex h
    cases h
  · intro f ex h
    cases h

theorem Bound.served (hs : s.Bound) : s.Served := by
  intro h ht ha
  obtain ⟨ex, hex⟩ := Option.ne_none_iff_exists'.mp ht
  have hw := hs.waits h ex hex
  refine ⟨ex, hw.executor ha, fun t r => ?_⟩
  have hen : s.runtime.Enabled (.setValue h t r) := ⟨ha, by rw [hw.kind]; rfl⟩
  have hserved : s.permits (.setValue h t r) = s.running ex.executionContext := by
    rw [permits, Sleepers.served, hex]
    rfl
  show (_ ∧ s.permits (.setValue h t r) = true) ↔ _
  rw [hserved]
  exact and_iff_right hen

/-- A step of the runtime leaves the waits where they are. -/
theorem Bound.waits_next (hs : s.Bound) {a : Coro.Action V E} (h : s.runtime.Enabled a) {k : SuspId}
    {ex : Executor} (hk : s.timer k = some ex) :
    Waits (s.runtime.next a) k ex := by
  obtain ⟨b, r⟩ := hs.accounts
  have hw := hs.waits k ex hk
  have hold : ((s.runtime.next a).susp k).kind = (s.runtime.susp k).kind ∧
      ((s.runtime.next a).susp k).frame = (s.runtime.susp k).frame ∧
      (((s.runtime.next a).susp k).stage = .asio → (s.runtime.susp k).stage = .asio) := by
    rcases next_susp h k with he | he | ⟨he, -⟩
    · rw [he]
      exact ⟨rfl, rfl, id⟩
    · exact ⟨he.names.1, he.names.2.1, he.asio⟩
    · exact absurd he (Nat.ne_of_lt hw.made)
  obtain ⟨hkind, hframe, hstage⟩ := hold
  refine ⟨Nat.lt_of_lt_of_le hw.made (s.runtime.nextSusp_le a), hkind.trans hw.kind, fun ha => ?_⟩
  have hasio := hstage ha
  rw [hframe, r.getExecutor_asio hs.inherits h hw.kind hasio]
  exact hw.executor hasio

theorem Bound.run (hs : s.Bound) {a : Coro.Action V E} (h : s.runtime.Enabled a) :
    Bound { s with runtime := s.runtime.next a } := by
  obtain ⟨b, r⟩ := hs.accounts
  obtain ⟨b', -, r'⟩ := r.step h
  exact ⟨⟨b', r'⟩, hs.inherits.step r h, fun k ex hk => hs.waits_next h hk, hs.kept, hs.bare⟩

/-- The frame keeps a timer for the executor that it is on. -/
theorem Bound.keepSteady (hs : s.Bound) {f : FrameId} {arg : SleepArg} {ex : Executor}
    (hex : s.runtime.getExecutor f = some ex) (ha : s.armed f arg = some ex) :
    (s.keepSteady f ex arg).Bound := by
  have hsteady : s.getSteady f = some ex → ∀ ex' ∈ s.slept f, ex' = ex := by
    intro hg ex' he
    rw [getSteady, hs.kept f ex' he] at hg
    exact Option.some.inj hg
  have hkeep : s.getSteady f = some ex → Bound
      { s with
        steadyTimer := Function.update s.steadyTimer f (some ex)
        slept := Function.update s.slept f ((s.runtime.getExecutor f).toList ++ s.slept f) } := by
    intro hg
    refine ⟨hs.accounts, hs.inherits, hs.waits, fun g ex' he => ?_,
      fun g hg' => ?_⟩
    · by_cases hgf : g = f
      · subst hgf
        simp only [Function.update_self, hex, Option.toList_some, List.singleton_append,
          List.mem_cons] at he ⊢
        rcases he with rfl | he
        · rfl
        · rw [hsteady hg ex' he]
      · simp only [Function.update_of_ne hgf] at he ⊢
        exact hs.kept g ex' he
    · by_cases hgf : g = f
      · subst hgf
        simp only [Function.update_self, hex, Option.toList_some, List.singleton_append,
          reduceCtorEq] at hg'
      · simp only [Function.update_of_ne hgf] at hg' ⊢
        exact hs.bare g hg'
  cases arg with
  | duration => exact hkeep ha
  | steadyTimePoint => exact hkeep ha
  | timePoint => exact hs

/-- A wait begins on the executor of the coroutine. -/
theorem Bound.asyncWait (hs : s.Bound) {f : FrameId} {ex : Executor}
    (hb : s.runtime.inBody f = true) (hex : s.runtime.getExecutor f = some ex) :
    (s.asyncWait f ex).Bound := by
  have hrun := hs.run (a := .awaitTimer f) hb
  refine ⟨hrun.accounts, hrun.inherits, fun k ex' hk => ?_, hs.kept, hs.bare⟩
  by_cases hnew : k = s.runtime.nextSusp
  · subst hnew
    obtain rfl : ex = ex' := by simpa [Sleepers.asyncWait] using hk
    refine ⟨?_, ?_, fun _ => ?_⟩
    · simp [Sleepers.asyncWait, State.next, completionAwaitSuspend]
    · simp [Sleepers.asyncWait, State.next, completionAwaitSuspend]
    · have hframe : ∀ x, ((s.runtime.next (.awaitTimer f)).frame x).executor =
          (s.runtime.frame x).executor ∧ ((s.runtime.next (.awaitTimer f)).frame x).callerExecutor =
          (s.runtime.frame x).callerExecutor := by
        intro x
        simp only [State.next, completionAwaitSuspend, modFrame_frame, newSusp_frame]
        split_ifs with hx
        · rw [hx]
          exact ⟨rfl, rfl⟩
        · exact ⟨rfl, rfl⟩
      have hsusp : ((s.runtime.next (.awaitTimer f)).susp s.runtime.nextSusp).frame = f := by
        simp [State.next, completionAwaitSuspend]
      show (s.runtime.next (.awaitTimer f)).getExecutor
        ((s.runtime.next (.awaitTimer f)).susp s.runtime.nextSusp).frame = some ex
      rw [hsusp, ← hex]
      simp only [getExecutor, executorRef, hframe]
  · have hold : s.timer k = some ex' := by
      simpa [Sleepers.asyncWait, Function.update_of_ne hnew] using hk
    have hw := hs.waits_next (a := .awaitTimer f) hb hold
    exact ⟨hw.made, hw.kind, hw.executor⟩

/-! ## Steps -/

/-- Which timer a sleep on the steady clock arms is a question of where the coroutine slept. -/
theorem Bound.getSteady_iff (hs : s.Bound) (f : FrameId) :
    s.getSteady f = s.runtime.getExecutor f ↔
      ∀ ex ∈ s.slept f, s.runtime.getExecutor f = some ex := by
  unfold getSteady
  cases hl : s.slept f with
  | nil =>
      rw [hs.bare f hl]
      exact iff_of_true rfl fun ex hex => absurd hex List.not_mem_nil
  | cons ex l =>
      have hkept := hs.kept f
      rw [hl] at hkept
      rw [hkept ex List.mem_cons_self]
      constructor
      · intro h ex' hex'
        have heq := (hkept ex List.mem_cons_self).symm.trans (hkept ex' hex')
        exact h.symm.trans heq
      · exact fun h => (h ex List.mem_cons_self).symm

theorem Bound.armsCurrent_iff (hs : s.Bound) (a : Action V E) : s.ArmsCurrent a ↔ s.Stays a := by
  cases a with
  | sleep f arg expired =>
      cases arg with
      | duration => exact hs.getSteady_iff f
      | steadyTimePoint => exact hs.getSteady_iff f
      | timePoint => exact iff_of_true rfl trivial
  | run a => exact Iff.rfl
  | setRunning i b => exact Iff.rfl

theorem Bound.next (hs : s.Bound) {a : Action V E} (ha : s.Enabled a) (hst : s.Stays a) :
    (s.next a).Bound := by
  cases a with
  | run a => exact hs.run ha.1
  | setRunning i b => exact ⟨hs.accounts, hs.inherits, hs.waits, hs.kept, hs.bare⟩
  | sleep f arg expired =>
      have hcur : s.armed f arg = s.runtime.getExecutor f := (hs.armsCurrent_iff _).mpr hst
      cases hex : s.armed f arg with
      | none =>
          simp only [Sleepers.next, hex]
          exact hs
      | some ex =>
          have hget : s.runtime.getExecutor f = some ex := hcur.symm.trans hex
          have hkeep := hs.keepSteady hget hex
          have hruntime : (s.keepSteady f ex arg).runtime = s.runtime := by cases arg <;> rfl
          simp only [Sleepers.next, hex]
          cases expired with
          | true =>
              rw [if_pos rfl]
              exact hkeep
          | false =>
              rw [if_neg Bool.false_ne_true]
              refine hkeep.asyncWait ?_ ?_
              · rw [hruntime]
                exact ha
              · rw [hruntime]
                exact hget

end Sleepers

/-- In every run of the runtime with any hops, sleeps and contexts, each sleep arms a timer of the
    coroutine's current executor, and every wait can be completed when that executor's context is
    run, exactly when every coroutine sleeps on the steady clock on one executor only. -/
theorem sleep_current_iff {as : List (Sleepers.Action V E)} {s : Sleepers V E}
    (h : Transition.Run Sleepers.machine Sleepers.init as s) :
    Transition.Along Sleepers.machine Sleepers.StepOk Sleepers.init as ↔
      Transition.Along Sleepers.machine Sleepers.Stays Sleepers.init as := by
  refine h.along_iff Sleepers.Bound.init (fun s a hs ha => ?_) fun s a hs ha hst => hs.next ha hst
  constructor
  · exact fun hok => (hs.armsCurrent_iff a).mp hok.1
  · exact fun hst => ⟨(hs.armsCurrent_iff a).mpr hst, (hs.next ha hst).served⟩

/-- `co_main` sleeps on its context, hops to another one, and sleeps until a time of another clock
    while the first context is not run. -/
def wallClockSleep : List (Sleepers.Action Unit Unit) :=
  [.run (.startMain 1), .sleep 0 .duration false, .run (.initiationReturns 0 0),
    .run (.resumeAwaiting 0 0), .run (.setValue 0 [.context 1] (.ok ())),
    .run (.resumeCompleted 0 [.context 1]), .run (.handlerResume 0 [.context 1]),
    .run (.awaitResume 0), .sleep 0 .steadyTimePoint true,
    .run (.awaitPost 0 ⟨.context 2, false⟩), .run (.plainResume 1 (.context 2)),
    .run (.awaitResume 0), .setRunning 1 false, .sleep 0 .timePoint false,
    .run (.initiationReturns 0 2), .run (.setValue 2 [.context 2] (.ok ()))]

theorem sleep_current_iff_wall_clock :
    Transition.Along Sleepers.machine Sleepers.StepOk Sleepers.init wallClockSleep :=
  (sleep_current_iff (.of_legal (by decide))).mpr (by decide)

/-- `co_main` sleeps on its context, hops to another one, and sleeps again. -/
def hopBetweenSleeps : List (Sleepers.Action Unit Unit) :=
  [.run (.startMain 1), .sleep 0 .duration true, .run (.awaitPost 0 ⟨.context 2, false⟩),
    .run (.plainResume 0 (.context 2)), .run (.awaitResume 0), .sleep 0 .duration false]

/-- The second sleep arms the timer of the context that was left. -/
theorem sleep_left_behind :
    Transition.Run Sleepers.machine Sleepers.init hopBetweenSleeps
        (Sleepers.machine.exec Sleepers.init hopBetweenSleeps) ∧
      (Sleepers.machine.exec Sleepers.init hopBetweenSleeps).timer 1 = some (.context 1) ∧
      ¬ Transition.Along Sleepers.machine Sleepers.StepOk Sleepers.init hopBetweenSleeps := by
  refine ⟨.of_legal (by decide), by decide, fun h => ?_⟩
  have harms : (Sleepers.machine.exec Sleepers.init (hopBetweenSleeps.take 5)).armed 0 .duration =
      (Sleepers.machine.exec Sleepers.init (hopBetweenSleeps.take 5)).runtime.getExecutor 0 :=
    h.2.2.2.2.2.1.1
  revert harms
  decide

end WebAsio.Coro
