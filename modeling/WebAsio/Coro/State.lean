import WebAsio.Coro.Frame
import Mathlib.Logic.Function.Basic

set_option autoImplicit false

/-! # The state of the runtime

One state holds every coroutine frame and every suspension. This file has the state, the primitive
updates the member functions are written with, and what each update leaves of every component. A
handle that is resumed or destroyed in the wrong phase, and a `resume_context` that is used when it
is gone or when the coroutine was already acted upon, are recorded in `faults`. -/

namespace WebAsio.Coro

/-- Undefined behaviour and aborts, as the runtime meets them. -/
inductive Fault
  /-- `resume()` on a frame that is not suspended -/
  | resumed (f : FrameId)
  /-- `destroy()` on a frame that is not suspended -/
  | destroyed (f : FrameId)
  /-- a `resume_context` or awaitable used after the coroutine was acted upon -/
  | staleContext (h : SuspId)
  /-- a result stored twice -/
  | alreadySet (h : SuspId)
  /-- `bug_abort("outcome was not set")` -/
  | notSet (f : FrameId)
  /-- `final_awaitable` without a caller -/
  | noCaller (f : FrameId)
  /-- `*caller_executor` read through a pointer into a destroyed frame -/
  | danglingExecutor (f : FrameId)
  deriving DecidableEq, Repr

structure State (V E : Type) where
  frame : FrameId → Frame V E
  susp : SuspId → Suspension V E
  nextFrame : Nat
  nextSusp : Nat
  /-- some strong reference to the owner is held outside the coroutine layer -/
  external : OwnerId → Bool
  /-- the `saved_shared_this` variables not yet destroyed after a real suspension -/
  stack : List OwnerId
  faults : List Fault

variable {V E : Type}

namespace State

def init : State V E where
  frame _ := {}
  susp _ := {}
  nextFrame := 0
  nextSusp := 0
  external _ := true
  stack := []
  faults := []

/-! ## Updates -/

def modFrame (s : State V E) (f : FrameId) (g : Frame V E → Frame V E) : State V E :=
  { s with frame := Function.update s.frame f (g (s.frame f)) }

def modSusp (s : State V E) (h : SuspId) (g : Suspension V E → Suspension V E) : State V E :=
  { s with susp := Function.update s.susp h (g (s.susp h)) }

/-- A new frame; `caller_executor` starts as the address of the frame's own executor. -/
def newFrame (s : State V E) (fr : Frame V E) : State V E :=
  { s with
    frame := Function.update s.frame s.nextFrame { fr with callerExecutor := s.nextFrame }
    nextFrame := s.nextFrame + 1 }

def newSusp (s : State V E) (r : Suspension V E) : State V E :=
  { s with susp := Function.update s.susp s.nextSusp r, nextSusp := s.nextSusp + 1 }

def fault (s : State V E) (x : Fault) : State V E :=
  { s with faults := x :: s.faults }

def faultIf (s : State V E) (b : Bool) (x : Fault) : State V E :=
  if b then s.fault x else s

/-- A `saved_shared_this` is left on the stack of the thread that suspends. -/
def leave (s : State V E) (o : Option OwnerId) : State V E :=
  { s with stack := o.toList ++ s.stack }

/-! ## Coroutine handles -/

/-- `h.resume()` on a handle of `f`, by a thread at `t`. -/
def resume (s : State V E) (f : FrameId) (t : Site) : State V E :=
  match (s.frame f).phase with
  | .initial => s.modFrame f fun fr => { fr with phase := .running t }
  | .suspended => s.modFrame f fun fr => { fr with phase := .resuming t }
  | _ => s.fault (.resumed f)

/-- `h.destroy()` on a handle of `f`. -/
def destroyHandle (s : State V E) (f : FrameId) : State V E :=
  match (s.frame f).phase with
  | .initial | .suspended | .parked => s.modFrame f fun fr => { fr with phase := .destroying }
  | _ => s.fault (.destroyed f)

/-- `unique_handle::reset` of `callee.caller` to a new caller. -/
def resetCaller (s : State V E) (c f : FrameId) : State V E :=
  match (s.frame c).caller with
  | some g => (s.destroyHandle g).modFrame c fun fr => { fr with caller := some f }
  | none => s.modFrame c fun fr => { fr with caller := some f }

/-! ## Owners -/

/-- The frame holds a strong reference to `o`, in `shared_this` or, inside `await_suspend`, in
    `saved_shared_this`. -/
def holds (s : State V E) (f : FrameId) (o : OwnerId) : Bool :=
  (s.frame f).sharedThis == some o ||
    match (s.frame f).awaiter with
    | .context h => (s.susp h).side.saved == some o
    | _ => false

/-- `weak_ptr::lock` would succeed: some strong reference to `o` is left. -/
def ownerAlive (s : State V E) (o : OwnerId) : Bool :=
  s.external o || s.stack.contains o || (List.range s.nextFrame).any (s.holds · o)

/-! ## The `resume_context` of a suspension -/

/-- The awaitable still exists and nobody has acted on the coroutine yet. -/
def contextLive (s : State V E) (h : SuspId) : Bool :=
  let r := s.susp h
  (s.frame r.frame).awaiter == .context h &&
    (match (s.frame r.frame).phase with
      | .suspending _ | .suspended | .finalizing _ | .parked => true
      | _ => false) &&
    (match (s.frame r.handle).phase with
      | .suspending _ | .suspended => true
      | _ => false)

/-- A party reads or writes the awaitable of `h`. -/
def touch (s : State V E) (h : SuspId) : State V E :=
  s.faultIf (!s.contextLive h) (.staleContext h)

def endBy (s : State V E) (h : SuspId) (p : Party) (d : Deed) : State V E :=
  s.modSusp h fun r => r.endBy p d

/-! ## Executors -/

/-- The frame whose `executor` member `get_executor` returns a reference to. -/
def executorRef (s : State V E) (f : FrameId) : FrameId :=
  if (s.frame f).executor.isSome then f else (s.frame f).callerExecutor

/-- `promise_frame::get_executor`. -/
def getExecutor (s : State V E) (f : FrameId) : Option Executor :=
  (s.frame (s.executorRef f)).executor

/-- The `executor` member a pointer leads to is read. -/
def touchExecutor (s : State V E) (f : FrameId) : State V E :=
  s.faultIf ((s.frame f).phase == .destroyed || (s.frame f).phase == .unborn) (.danglingExecutor f)

/-! ## What the updates change -/

section Projections

variable (s : State V E)

@[simp, grind =] theorem modFrame_frame (f x : FrameId) (g : Frame V E → Frame V E) :
    (s.modFrame f g).frame x = if x = f then g (s.frame f) else s.frame x := by
  simp [modFrame, Function.update_apply]

@[simp, grind =] theorem modFrame_susp (f : FrameId) (g : Frame V E → Frame V E) (h : SuspId) :
    (s.modFrame f g).susp h = s.susp h := rfl

@[simp, grind =] theorem modFrame_nextFrame (f : FrameId) (g : Frame V E → Frame V E) :
    (s.modFrame f g).nextFrame = s.nextFrame := rfl

@[simp, grind =] theorem modFrame_nextSusp (f : FrameId) (g : Frame V E → Frame V E) :
    (s.modFrame f g).nextSusp = s.nextSusp := rfl

@[simp, grind =] theorem modFrame_faults (f : FrameId) (g : Frame V E → Frame V E) :
    (s.modFrame f g).faults = s.faults := rfl

@[simp, grind =] theorem modSusp_susp (h k : SuspId) (g : Suspension V E → Suspension V E) :
    (s.modSusp h g).susp k = if k = h then g (s.susp h) else s.susp k := by
  simp [modSusp, Function.update_apply]

@[simp, grind =] theorem modSusp_frame (h : SuspId) (g : Suspension V E → Suspension V E)
    (x : FrameId) : (s.modSusp h g).frame x = s.frame x := rfl

@[simp, grind =] theorem modSusp_nextFrame (h : SuspId) (g : Suspension V E → Suspension V E) :
    (s.modSusp h g).nextFrame = s.nextFrame := rfl

@[simp, grind =] theorem modSusp_nextSusp (h : SuspId) (g : Suspension V E → Suspension V E) :
    (s.modSusp h g).nextSusp = s.nextSusp := rfl

@[simp, grind =] theorem modSusp_faults (h : SuspId) (g : Suspension V E → Suspension V E) :
    (s.modSusp h g).faults = s.faults := rfl

@[simp, grind =] theorem newFrame_frame (fr : Frame V E) (x : FrameId) :
    (s.newFrame fr).frame x =
      if x = s.nextFrame then { fr with callerExecutor := s.nextFrame } else s.frame x := by
  simp [newFrame, Function.update_apply]

@[simp, grind =] theorem newFrame_susp (fr : Frame V E) (h : SuspId) :
    (s.newFrame fr).susp h = s.susp h := rfl

@[simp, grind =] theorem newFrame_nextFrame (fr : Frame V E) :
    (s.newFrame fr).nextFrame = s.nextFrame + 1 := rfl

@[simp, grind =] theorem newFrame_nextSusp (fr : Frame V E) :
    (s.newFrame fr).nextSusp = s.nextSusp := rfl

@[simp, grind =] theorem newFrame_faults (fr : Frame V E) :
    (s.newFrame fr).faults = s.faults := rfl

@[simp, grind =] theorem newSusp_susp (r : Suspension V E) (k : SuspId) :
    (s.newSusp r).susp k = if k = s.nextSusp then r else s.susp k := by
  simp [newSusp, Function.update_apply]

@[simp, grind =] theorem newSusp_frame (r : Suspension V E) (x : FrameId) :
    (s.newSusp r).frame x = s.frame x := rfl

@[simp, grind =] theorem newSusp_nextFrame (r : Suspension V E) :
    (s.newSusp r).nextFrame = s.nextFrame := rfl

@[simp, grind =] theorem newSusp_nextSusp (r : Suspension V E) :
    (s.newSusp r).nextSusp = s.nextSusp + 1 := rfl

@[simp, grind =] theorem newSusp_faults (r : Suspension V E) :
    (s.newSusp r).faults = s.faults := rfl

@[simp, grind =] theorem fault_frame (e : Fault) (x : FrameId) :
    (s.fault e).frame x = s.frame x := rfl

@[simp, grind =] theorem fault_susp (e : Fault) (h : SuspId) : (s.fault e).susp h = s.susp h := rfl

@[simp, grind =] theorem fault_nextFrame (e : Fault) : (s.fault e).nextFrame = s.nextFrame := rfl

@[simp, grind =] theorem fault_nextSusp (e : Fault) : (s.fault e).nextSusp = s.nextSusp := rfl

@[simp, grind =] theorem leave_frame (o : Option OwnerId) (x : FrameId) :
    (s.leave o).frame x = s.frame x := rfl

@[simp, grind =] theorem leave_susp (o : Option OwnerId) (h : SuspId) :
    (s.leave o).susp h = s.susp h := rfl

@[simp, grind =] theorem leave_nextFrame (o : Option OwnerId) :
    (s.leave o).nextFrame = s.nextFrame := rfl

@[simp, grind =] theorem leave_nextSusp (o : Option OwnerId) :
    (s.leave o).nextSusp = s.nextSusp := rfl

@[simp, grind =] theorem leave_faults (o : Option OwnerId) : (s.leave o).faults = s.faults := rfl

@[simp, grind =] theorem faultIf_frame (b : Bool) (e : Fault) (x : FrameId) :
    (s.faultIf b e).frame x = s.frame x := by
  cases b <;> rfl

@[simp, grind =] theorem faultIf_susp (b : Bool) (e : Fault) (h : SuspId) :
    (s.faultIf b e).susp h = s.susp h := by
  cases b <;> rfl

@[simp, grind =] theorem faultIf_nextFrame (b : Bool) (e : Fault) :
    (s.faultIf b e).nextFrame = s.nextFrame := by
  cases b <;> rfl

@[simp, grind =] theorem faultIf_nextSusp (b : Bool) (e : Fault) :
    (s.faultIf b e).nextSusp = s.nextSusp := by
  cases b <;> rfl

@[simp] theorem faultIf_false (e : Fault) : s.faultIf false e = s := rfl

@[simp, grind =] theorem touch_frame (h : SuspId) (x : FrameId) :
    (s.touch h).frame x = s.frame x := faultIf_frame ..

@[simp, grind =] theorem touch_susp (h k : SuspId) : (s.touch h).susp k = s.susp k :=
  faultIf_susp ..

@[simp, grind =] theorem touch_nextFrame (h : SuspId) : (s.touch h).nextFrame = s.nextFrame :=
  faultIf_nextFrame ..

@[simp, grind =] theorem touch_nextSusp (h : SuspId) : (s.touch h).nextSusp = s.nextSusp :=
  faultIf_nextSusp ..

/-- A live context is touched without a fault. -/
theorem touch_of_live {h : SuspId} (hl : s.contextLive h = true) : s.touch h = s := by
  simp [touch, hl]

@[simp, grind =] theorem touchExecutor_frame (f x : FrameId) :
    (s.touchExecutor f).frame x = s.frame x := faultIf_frame ..

@[simp, grind =] theorem touchExecutor_susp (f : FrameId) (h : SuspId) :
    (s.touchExecutor f).susp h = s.susp h := faultIf_susp ..

@[simp, grind =] theorem touchExecutor_nextFrame (f : FrameId) :
    (s.touchExecutor f).nextFrame = s.nextFrame := faultIf_nextFrame ..

@[simp, grind =] theorem touchExecutor_nextSusp (f : FrameId) :
    (s.touchExecutor f).nextSusp = s.nextSusp := faultIf_nextSusp ..

@[simp, grind =] theorem endBy_susp (h k : SuspId) (p : Party) (d : Deed) :
    (s.endBy h p d).susp k =
      if k = h then (s.susp h).endBy p d else s.susp k := by
  simp [endBy]

@[simp, grind =] theorem endBy_frame (h : SuspId) (p : Party) (d : Deed) (x : FrameId) :
    (s.endBy h p d).frame x = s.frame x := rfl

@[simp, grind =] theorem endBy_nextFrame (h : SuspId) (p : Party) (d : Deed) :
    (s.endBy h p d).nextFrame = s.nextFrame := rfl

@[simp, grind =] theorem endBy_nextSusp (h : SuspId) (p : Party) (d : Deed) :
    (s.endBy h p d).nextSusp = s.nextSusp := rfl

@[simp, grind =] theorem endBy_faults (h : SuspId) (p : Party) (d : Deed) :
    (s.endBy h p d).faults = s.faults := rfl

/-- A handle that is resumed leaves every other frame alone, and of its own changes the phase. -/
@[grind =] theorem resume_frame (f : FrameId) (t : Site) (x : FrameId) :
    (s.resume f t).frame x =
      if x = f then { s.frame f with phase := (s.frame f).phase.afterResume t } else s.frame x := by
  unfold resume
  by_cases hx : x = f
  · subst hx
    split <;> rename_i h <;> simp [Phase.afterResume, h]
  · split <;> simp [hx]

@[simp, grind =] theorem resume_nextFrame (f : FrameId) (t : Site) :
    (s.resume f t).nextFrame = s.nextFrame := by
  unfold resume; split <;> rfl

@[simp, grind =] theorem resume_susp (f : FrameId) (t : Site) (h : SuspId) :
    (s.resume f t).susp h = s.susp h := by
  unfold resume; split <;> rfl

@[simp, grind =] theorem resume_nextSusp (f : FrameId) (t : Site) :
    (s.resume f t).nextSusp = s.nextSusp := by
  unfold resume; split <;> rfl

/-- The phases in which `destroy()` is allowed. -/
theorem destroyHandle_of {f : FrameId} (h : (s.frame f).phase = .initial ∨
    (s.frame f).phase = .suspended ∨ (s.frame f).phase = .parked) :
    s.destroyHandle f = s.modFrame f fun fr => { fr with phase := .destroying } := by
  rcases h with h | h | h <;> simp [destroyHandle, h]

@[grind =] theorem destroyHandle_frame (f x : FrameId) :
    (s.destroyHandle f).frame x =
      if x = f then { s.frame f with phase := (s.frame f).phase.afterDestroy } else s.frame x := by
  unfold destroyHandle
  by_cases hx : x = f
  · subst hx
    split <;> rename_i h <;> simp [Phase.afterDestroy, h]
  · split <;> simp [hx]

@[simp, grind =] theorem destroyHandle_nextFrame (f : FrameId) :
    (s.destroyHandle f).nextFrame = s.nextFrame := by
  unfold destroyHandle; split <;> rfl

@[simp, grind =] theorem destroyHandle_susp (f : FrameId) (h : SuspId) :
    (s.destroyHandle f).susp h = s.susp h := by
  unfold destroyHandle; split <;> rfl

@[simp, grind =] theorem destroyHandle_nextSusp (f : FrameId) :
    (s.destroyHandle f).nextSusp = s.nextSusp := by
  unfold destroyHandle; split <;> rfl

/-- A suspended frame is resumed without a fault. -/
theorem resume_faults {f : FrameId} {t : Site} (h : (s.frame f).phase = .initial ∨
    (s.frame f).phase = .suspended) : (s.resume f t).faults = s.faults := by
  rcases h with h | h <;> simp [resume, h]

/-- A suspended frame is destroyed without a fault. -/
theorem destroyHandle_faults {f : FrameId} (h : (s.frame f).phase = .initial ∨
    (s.frame f).phase = .suspended ∨ (s.frame f).phase = .parked) :
    (s.destroyHandle f).faults = s.faults := by
  simp [s.destroyHandle_of h]

/-- An executor is read in vain only where no frame is. -/
theorem mem_touchExecutor_faults {f : FrameId} {x : Fault} (h : x ∈ (s.touchExecutor f).faults) :
    x ∈ s.faults ∨ ((s.frame f).phase = .destroyed ∨ (s.frame f).phase = .unborn) ∧
      x = .danglingExecutor f := by
  unfold touchExecutor faultIf at h
  split at h
  · rename_i hp
    exact (List.mem_cons.mp h).symm.imp id fun hx => ⟨by simpa using hp, hx⟩
  · exact .inl h

@[simp, grind =] theorem resetCaller_susp (c f : FrameId) (h : SuspId) :
    (s.resetCaller c f).susp h = s.susp h := by
  unfold resetCaller; split <;> simp

@[simp, grind =] theorem resetCaller_nextFrame (c f : FrameId) :
    (s.resetCaller c f).nextFrame = s.nextFrame := by
  unfold resetCaller; split <;> simp

@[simp, grind =] theorem resetCaller_nextSusp (c f : FrameId) :
    (s.resetCaller c f).nextSusp = s.nextSusp := by
  unfold resetCaller; split <;> simp

/-! The strong references outside the frames are moved by few updates. -/

@[simp] theorem modFrame_roots (f : FrameId) (g : Frame V E → Frame V E) :
    (s.modFrame f g).external = s.external ∧ (s.modFrame f g).stack = s.stack := ⟨rfl, rfl⟩

@[simp] theorem modSusp_roots (h : SuspId) (g : Suspension V E → Suspension V E) :
    (s.modSusp h g).external = s.external ∧ (s.modSusp h g).stack = s.stack := ⟨rfl, rfl⟩

@[simp] theorem newFrame_roots (fr : Frame V E) :
    (s.newFrame fr).external = s.external ∧ (s.newFrame fr).stack = s.stack := ⟨rfl, rfl⟩

@[simp] theorem newSusp_roots (r : Suspension V E) :
    (s.newSusp r).external = s.external ∧ (s.newSusp r).stack = s.stack := ⟨rfl, rfl⟩

@[simp] theorem fault_roots (e : Fault) :
    (s.fault e).external = s.external ∧ (s.fault e).stack = s.stack := ⟨rfl, rfl⟩

@[simp] theorem faultIf_roots (b : Bool) (e : Fault) :
    (s.faultIf b e).external = s.external ∧ (s.faultIf b e).stack = s.stack := by
  cases b <;> exact ⟨rfl, rfl⟩

@[simp] theorem touch_roots (h : SuspId) :
    (s.touch h).external = s.external ∧ (s.touch h).stack = s.stack := faultIf_roots ..

@[simp] theorem touchExecutor_roots (f : FrameId) :
    (s.touchExecutor f).external = s.external ∧ (s.touchExecutor f).stack = s.stack :=
  faultIf_roots ..

@[simp] theorem endBy_roots (h : SuspId) (p : Party) (d : Deed) :
    (s.endBy h p d).external = s.external ∧ (s.endBy h p d).stack = s.stack := ⟨rfl, rfl⟩

@[simp] theorem leave_roots (o : Option OwnerId) :
    (s.leave o).external = s.external ∧ (s.leave o).stack = o.toList ++ s.stack := ⟨rfl, rfl⟩

@[simp] theorem resume_roots (f : FrameId) (t : Site) :
    (s.resume f t).external = s.external ∧ (s.resume f t).stack = s.stack := by
  unfold resume; split <;> exact ⟨rfl, rfl⟩

@[simp] theorem destroyHandle_roots (f : FrameId) :
    (s.destroyHandle f).external = s.external ∧ (s.destroyHandle f).stack = s.stack := by
  unfold destroyHandle; split <;> exact ⟨rfl, rfl⟩

@[simp] theorem resetCaller_roots (c f : FrameId) :
    (s.resetCaller c f).external = s.external ∧ (s.resetCaller c f).stack = s.stack := by
  unfold resetCaller; split <;> simp

theorem resetCaller_of_none {c f : FrameId} (h : (s.frame c).caller = none) :
    s.resetCaller c f = s.modFrame c fun fr => { fr with caller := some f } := by
  simp [resetCaller, h]

/-- An owner is alive through the references outside the frames and through those in frames. -/
theorem ownerAlive_iff {o : OwnerId} :
    s.ownerAlive o = true ↔
      s.external o = true ∨ o ∈ s.stack ∨ ∃ x < s.nextFrame, s.holds x o = true := by
  simp [ownerAlive, or_assoc]

theorem ownerAlive_congr {s s' : State V E}
    (hr : s'.external = s.external ∧ s'.stack = s.stack) (hn : s'.nextFrame = s.nextFrame)
    (hf : ∀ x, s'.frame x = s.frame x) (hk : ∀ k, (s'.susp k).side = (s.susp k).side) :
    s'.ownerAlive = s.ownerAlive := by
  funext o
  simp only [ownerAlive, holds, hr.1, hr.2, hn, hf, hk]

end Projections

end State

end WebAsio.Coro
