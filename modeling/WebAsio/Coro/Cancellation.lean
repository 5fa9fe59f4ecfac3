import WebAsio.Asio.Signals
import WebAsio.Library.Transition

set_option autoImplicit false

/-! # Cancellation through a chain of coroutines

A coroutine hands its slot to the coroutine it awaits: the slot of its own cancellation state if it
has one, else the slot it was given itself. The states of a chain are therefore built one inside the
other, and between two operations the cells may still hold what finished children left there. -/

namespace WebAsio.Coro.Cancellation

open Asio.Signals Relay Transition

/-- The members of `promise_frame` that concern cancellation. A `cancellation_state` is a pointer to
    what lives in the cell of a slot. -/
structure Frame where
  cancellationSlot : Option Cell := none
  cancellationState : Option Cell := none
  deriving DecidableEq, Repr

/-- `promise_frame::get_cancellation_slot`. -/
def Frame.getCancellationSlot (fr : Frame) : Option Cell :=
  match fr.cancellationState with
  | some k => some k
  | none => fr.cancellationSlot

/-- Chains of coroutines nested by `co_await promise`, each with the innermost first. -/
structure State where
  memory : Memory
  frames : Nat → List Frame
  /-- how many chains and operations there were, which numbers them -/
  roots : Nat
  ops : Nat
  /-- the operation that the innermost coroutine is suspended on -/
  pending : Nat → Option Nat
  /-- the calls of the cancellation handlers of operations -/
  delivered : List (Nat × CancellationType)

namespace State

def empty : State := ⟨.empty, fun _ => [], 0, 0, fun _ => none, []⟩

def setFrames (s : State) (i : Nat) (fs : List Frame) : State :=
  { s with frames := Function.update s.frames i fs }

/-! ## The requests of a coroutine

Each is made by the innermost coroutine of the chain `i`. -/

/-- `promise_awaitable<set_cancellation_slot_t>::get`. -/
def setCancellationSlot (s : State) (i g : Nat) : State :=
  match s.frames i with
  | [] => s
  | _ :: rest => s.setFrames i (⟨some ⟨g, 0⟩, none⟩ :: rest)

/-- `promise_awaitable<reset_cancellation_state_t<void, ...>>::get`; without filters they are both
    `enable_terminal_cancellation`. -/
def resetCancellationState (s : State) (i : Nat) (f : Station CancellationType) : State :=
  match s.frames i with
  | [] => s
  | fr :: rest =>
    let (m, state) := s.memory.construct fr.cancellationSlot f
    { s with memory := m }.setFrames i ({ fr with cancellationState := state } :: rest)

/-- `promise_awaitable<reset_cancellation_state_t<set_cancellation_slot_t, ...>>::get`. -/
def resetCancellationSlot (s : State) (i g : Nat) (f : Station CancellationType) : State :=
  match s.frames i with
  | [] => s
  | fr :: rest =>
    (s.setFrames i ({ fr with cancellationSlot := some ⟨g, 0⟩ } :: rest)).resetCancellationState i f

/-- `coro_awaitable::await_suspend`, as far as the slot goes. -/
def awaitPromise (s : State) (i : Nat) : State :=
  match s.frames i with
  | [] => s
  | fr :: rest => s.setFrames i (⟨fr.getCancellationSlot, none⟩ :: fr :: rest)

/-- The innermost coroutine is over and its frame is destroyed. -/
def finish (s : State) (i : Nat) : State := s.setFrames i (s.frames i).tail

/-- An operation is initiated, and puts its handler into the slot of the coroutine. -/
def initiate (s : State) (i : Nat) : State :=
  match s.frames i with
  | [] => s
  | fr :: _ =>
    { s with
      memory := match fr.getCancellationSlot with
        | none => s.memory
        | some c => s.memory.emplace c (.op s.ops)
      pending := Function.update s.pending i (some s.ops)
      ops := s.ops + 1 }

/-- The operation is over. Some operations clear the slot then, some leave their handler there. -/
def complete (s : State) (i : Nat) (clears : Bool) : State :=
  { s with
    memory := match (s.frames i).head?.bind Frame.getCancellationSlot with
      | none => s.memory
      | some c => if clears then (s.memory.touch c).clear s.memory.count c else s.memory
    pending := Function.update s.pending i none }

/-- `cancellation_signal::emit` of the user's signal `g`. -/
def emit (s : State) (g : Nat) (t : CancellationType) : State :=
  let (m, calls) := s.memory.emit s.memory.count ⟨g, 0⟩ t
  { s with memory := m, delivered := s.delivered ++ calls }

/-- `promise_awaitable<cancelled_t>::get`. -/
def cancelled (s : State) (fr : Frame) : CancellationType :=
  match fr.cancellationState with
  | some k => s.memory.cancelled k
  | none => 0

end State

/-! ## Runs -/

inductive Action
  | start
  | setCancellationSlot (i g : Nat)
  | resetCancellationSlot (i g : Nat) (f : Station CancellationType)
  | resetCancellationState (i : Nat) (f : Station CancellationType)
  | awaitPromise (i : Nat)
  | finish (i : Nat)
  | initiate (i : Nat)
  | complete (i : Nat) (clears : Bool)
  | emit (g : Nat) (t : CancellationType)

namespace State

/-- The signal whose slot the root of the chain `i` installed. -/
def signalOf (s : State) (i : Nat) : Option Nat :=
  (s.frames i).getLast?.bind fun fr => fr.cancellationSlot.map Cell.signal

/-- The innermost coroutine of the chain is not suspended. -/
def Runs (s : State) (i : Nat) : Prop := s.frames i ≠ [] ∧ s.pending i = none

instance (s : State) (i : Nat) : Decidable (s.Runs i) := by
  unfold Runs
  infer_instance

/-- Only a root installs a slot, and a slot serves one chain at a time. -/
def Enabled (s : State) : Action → Prop
  | .start | .emit .. => True
  | .setCancellationSlot i g | .resetCancellationSlot i g _ =>
    s.Runs i ∧ (s.frames i).length = 1 ∧ ∀ j < s.roots, j ≠ i → s.signalOf j ≠ some g
  | .resetCancellationState i _ | .awaitPromise i | .finish i | .initiate i => s.Runs i
  | .complete i _ => (s.pending i).isSome = true

instance (s : State) (a : Action) : Decidable (s.Enabled a) := by
  cases a <;> unfold Enabled <;> infer_instance

def next (s : State) : Action → State
  | .start => { s.setFrames s.roots [{}] with roots := s.roots + 1 }
  | .setCancellationSlot i g => s.setCancellationSlot i g
  | .resetCancellationSlot i g f => s.resetCancellationSlot i g f
  | .resetCancellationState i f => s.resetCancellationState i f
  | .awaitPromise i => s.awaitPromise i
  | .finish i => s.finish i
  | .initiate i => s.initiate i
  | .complete i clears => s.complete i clears
  | .emit g t => s.emit g t

end State

def machine : System State Action := ⟨State.Enabled, State.next⟩

instance (s : State) (a : Action) : Decidable (machine.enabled s a) :=
  inferInstanceAs (Decidable (s.Enabled a))

def Reachable (s : State) : Prop := Transition.Reachable machine State.empty s

namespace State

/-- The state that a coroutine holds, with its filters and what it recorded. -/
def post (s : State) (fr : Frame) : Option (Post CancellationType) :=
  fr.cancellationState.bind s.memory.post

/-- The chain from the root inwards. A coroutine without a state is a vacant post. -/
def row (s : State) (i : Nat) : List (Option (Post CancellationType)) :=
  (s.frames i).reverse.map s.post

end State

end WebAsio.Coro.Cancellation
