import WebAsio.Library.Transition
import Mathlib.Logic.Function.Basic
import Mathlib.Logic.ExistsUnique
import Mathlib.Tactic.SplitIfs

set_option autoImplicit false

/-! # `unique_handle`: one owner for every coroutine frame

The operations of `unique_handle<T>` and `unique_handle<void>` over any number of objects and
frames. The source writes the class twice; the two copies differ in the constructor and the
`reset` that take a promise pointer, which only the typed copy has, and no operation mixes them. A
record beside each frame counts what happens to it. -/

namespace WebAsio.Coro.UniqueHandle

open Transition

/-- The two copies of the class. -/
inductive Kind
  | typed
  | void
  deriving DecidableEq, Repr

/-- A `unique_handle` object. -/
structure Object where
  kind : Kind
  mHandle : Option Nat
  deriving DecidableEq, Repr

/-- The history of a frame. -/
structure Record where
  handedIn : Bool
  released : Bool
  resumed : Bool
  destroyed : Nat
  deriving DecidableEq, Repr

/-- The objects in existence and the histories of all frames. -/
structure State where
  object : Nat → Option Object
  frame : Nat → Record

/-- What a constructor or `reset` is given: nothing or `nullptr`, a `coroutine_handle`, which may
    be null, or a promise pointer. -/
inductive Argument
  | null
  | handle (h : Option Nat)
  | promise (p : Nat)
  deriving DecidableEq, Repr

/-- The handle stored; `coroutine_handle<T>::from_promise` gives the frame of the promise. -/
def Argument.frame : Argument → Option Nat
  | .null => none
  | .handle h => h
  | .promise p => some p

/-- Only the typed copy takes promise pointers. -/
def Argument.Fits : Argument → Kind → Prop
  | .promise _, k => k = .typed
  | _, _ => True

instance (a : Argument) (k : Kind) : Decidable (a.Fits k) := by
  cases a <;> unfold Argument.Fits <;> infer_instance

def Record.handIn (r : Record) : Record := { r with handedIn := true }
def Record.release (r : Record) : Record := { r with released := true }
def Record.resume (r : Record) : Record := { r with resumed := true }
def Record.destroy (r : Record) : Record := { r with destroyed := r.destroyed + 1 }

namespace State

def empty : State := ⟨fun _ => none, fun _ => ⟨false, false, false, 0⟩⟩

/-- The member `m_handle` of object `i`. -/
def handle (s : State) (i : Nat) : Option Nat := (s.object i).bind Object.mHandle

def setHandle (s : State) (i : Nat) (h : Option Nat) : State :=
  { s with object := Function.update s.object i
            ((s.object i).map fun o => { o with mHandle := h }) }

/-- Something happens to the frame of a handle; a null handle has none. -/
def mark (s : State) (g : Record → Record) : Option Nat → State
  | none => s
  | some f => { s with frame := Function.update s.frame f (g (s.frame f)) }

/-! ## The member functions -/

def construct (s : State) (i : Nat) (k : Kind) (a : Argument) : State :=
  State.mark { s with object := Function.update s.object i (some ⟨k, a.frame⟩) } .handIn a.frame

/-- `release`: `std::exchange(m_handle, nullptr)`. -/
def release (s : State) (i : Nat) : Option Nat × State := (s.handle i, s.setHandle i none)

/-- The move constructor: `m_handle { other.release() }`. -/
def moveConstruct (s : State) (i j : Nat) : State :=
  match s.object j with
  | none => s
  | some o =>
    let (h, s) := s.release j
    { s with object := Function.update s.object i (some ⟨o.kind, h⟩) }

/-- The destructor. -/
def destruct (s : State) (i : Nat) : State :=
  let s := s.mark .destroy (s.handle i)
  { s with object := Function.update s.object i none }

/-- Move assignment: `m_handle = other.release()`. -/
def moveAssign (s : State) (i j : Nat) : State :=
  let (h, s) := s.release j
  s.setHandle i h

/-- `reset(nullptr)`: `if (m_handle) release().destroy()`. -/
def resetNull (s : State) (i : Nat) : State :=
  if (s.handle i).isSome then
    let (h, s) := s.release i
    s.mark .destroy h
  else s

/-- `reset(h)` and, through `from_promise`, `reset(p)`. -/
def resetTo (s : State) (i : Nat) (h : Option Nat) : State :=
  ((s.resetNull i).setHandle i h).mark .handIn h

def reset (s : State) (i : Nat) : Argument → State
  | .null => s.resetNull i
  | .handle h => s.resetTo i h
  | .promise p => s.resetTo i (some p)

/-- `resume` and `operator()`: `release().resume()`. -/
def resume (s : State) (i : Nat) : State :=
  let (h, s) := s.release i
  s.mark .resume h

/-- A call of `release` whose result the caller keeps. -/
def releaseToCaller (s : State) (i : Nat) : State :=
  let (h, s) := s.release i
  s.mark .release h

/-- The frame handed in, if any, has not been handed in before. -/
def Fresh (s : State) (a : Argument) : Prop :=
  ∀ f, a.frame = some f → (s.frame f).handedIn = false

instance (s : State) (a : Argument) : Decidable (s.Fresh a) :=
  match h : a.frame with
  | none => .isTrue fun f hf => by rw [h] at hf; cases hf
  | some f => decidable_of_iff ((s.frame f).handedIn = false) (by
      unfold Fresh
      rw [h]
      exact ⟨fun hf g hg => by cases hg; exact hf, fun hf => hf f rfl⟩)

end State

/-! ## Runs -/

inductive Action
  | construct (i : Nat) (k : Kind) (a : Argument)
  | moveConstruct (i j : Nat)
  | moveAssign (i j : Nat)
  | reset (i : Nat) (a : Argument)
  | release (i : Nat)
  | resume (i : Nat)
  | destruct (i : Nat)
  deriving DecidableEq, Repr

namespace State

/-- What the program has to respect: objects are constructed where there is none and used while
    they exist, moves are between objects of one class, every frame is handed in once, and a null
    handle is not resumed. -/
def Enabled (s : State) : Action → Prop
  | .construct i k a => s.object i = none ∧ a.Fits k ∧ s.Fresh a
  | .moveConstruct i j => s.object i = none ∧ s.object j ≠ none
  | .moveAssign i j =>
      s.object i ≠ none ∧ (s.object i).map Object.kind = (s.object j).map Object.kind
  | .reset i a => s.object i ≠ none ∧ (∀ o ∈ s.object i, a.Fits o.kind) ∧ s.Fresh a
  | .release i => s.object i ≠ none
  | .resume i => s.handle i ≠ none
  | .destruct i => s.object i ≠ none

instance (s : State) (a : Action) : Decidable (s.Enabled a) := by
  cases a <;> unfold Enabled <;> infer_instance

def next (s : State) : Action → State
  | .construct i k a => s.construct i k a
  | .moveConstruct i j => s.moveConstruct i j
  | .moveAssign i j => s.moveAssign i j
  | .reset i a => s.reset i a
  | .release i => s.releaseToCaller i
  | .resume i => s.resume i
  | .destruct i => s.destruct i

end State

def machine : System State Action := ⟨State.Enabled, State.next⟩

instance (s : State) (a : Action) : Decidable (machine.enabled s a) :=
  inferInstanceAs (Decidable (s.Enabled a))

/-- A frame that was handed in and that no caller has taken over. -/
def State.Kept (s : State) (f : Nat) : Prop :=
  (s.frame f).handedIn = true ∧ (s.frame f).released = false ∧ (s.frame f).resumed = false

/-- `f` is owned by exactly one object, or it has been destroyed exactly once. -/
def State.Accounted (s : State) (f : Nat) : Prop :=
  ((s.frame f).destroyed = 0 ∧ ∃! i, s.handle i = some f) ∨
    ((s.frame f).destroyed = 1 ∧ ∀ i, s.handle i ≠ some f)

/-- Ownership as `std::unique_ptr` has it. -/
structure State.OwnsOnce (s : State) : Prop where
  accounted : ∀ f, s.Kept f → s.Accounted f
  cleared : (∀ i, s.object i = none) → ∀ f, s.Kept f → (s.frame f).destroyed = 1

/-- The step does not move another object's handle over a handle that owns a frame. -/
def State.SparesOwner (s : State) : Action → Prop
  | .moveAssign i j => i = j ∨ s.handle i = none
  | _ => True

instance (s : State) (a : Action) : Decidable (s.SparesOwner a) := by
  cases a <;> unfold State.SparesOwner <;> infer_instance

/-! ## What each operation does to handles and frames -/

namespace State

@[simp] theorem handle_mark (s : State) (g : Record → Record) (h : Option Nat) (i : Nat) :
    (s.mark g h).handle i = s.handle i := by
  cases h <;> rfl

@[simp] theorem object_mark (s : State) (g : Record → Record) (h : Option Nat) :
    (s.mark g h).object = s.object := by
  cases h <;> rfl

theorem frame_mark (s : State) (g : Record → Record) (h : Option Nat) (f : Nat) :
    (s.mark g h).frame f = if h = some f then g (s.frame f) else s.frame f := by
  cases h with
  | none => simp [mark]
  | some k =>
      simp only [mark, Function.update_apply, Option.some.injEq]
      by_cases hk : f = k
      · subst hk
        simp
      · rw [if_neg hk, if_neg (Ne.symm hk)]

@[simp] theorem frame_setHandle (s : State) (i : Nat) (h : Option Nat) :
    (s.setHandle i h).frame = s.frame := rfl

theorem handle_setHandle {s : State} {i : Nat} (hi : s.object i ≠ none) (h : Option Nat) (k : Nat) :
    (s.setHandle i h).handle k = if k = i then h else s.handle k := by
  obtain ⟨o, ho⟩ := Option.ne_none_iff_exists'.mp hi
  simp only [handle, setHandle, Function.update_apply, ho]
  split_ifs <;> rfl

theorem object_setHandle_ne_none {s : State} {i : Nat} {h : Option Nat} {k : Nat} :
    (s.setHandle i h).object k ≠ none ↔ s.object k ≠ none := by
  simp only [setHandle, Function.update_apply]
  split_ifs with hk
  · subst hk
    cases s.object k <;> simp
  · rfl

theorem handle_of_object_none {s : State} {i : Nat} (h : s.object i = none) :
    s.handle i = none := by
  simp [handle, h]

theorem object_ne_none_of_handle {s : State} {i f : Nat} (h : s.handle i = some f) :
    s.object i ≠ none := by
  intro ho
  rw [handle_of_object_none ho] at h
  cases h

theorem handle_update (s : State) (i k : Nat) (o : Option Object) :
    State.handle { s with object := Function.update s.object i o } k =
      if k = i then o.bind Object.mHandle else s.handle k := by
  simp only [handle, Function.update_apply]
  split_ifs <;> rfl

theorem resetNull_eq (s : State) (i : Nat) :
    s.resetNull i = (s.setHandle i none).mark .destroy (s.handle i) ∨
      (s.handle i = none ∧ s.resetNull i = s) := by
  unfold resetNull release
  split_ifs with h
  · exact Or.inl rfl
  · exact Or.inr ⟨by simpa using h, rfl⟩

theorem handle_resetNull {s : State} {i : Nat} (hi : s.object i ≠ none) (k : Nat) :
    (s.resetNull i).handle k = if k = i then none else s.handle k := by
  rcases s.resetNull_eq i with h | ⟨hn, h⟩
  · rw [h, handle_mark, handle_setHandle hi]
  · rw [h]
    split_ifs with hk
    · rw [hk, hn]
    · rfl

theorem frame_resetNull (s : State) (i f : Nat) :
    (s.resetNull i).frame f = if s.handle i = some f then (s.frame f).destroy else s.frame f := by
  rcases s.resetNull_eq i with h | ⟨hn, h⟩
  · rw [h, frame_mark, frame_setHandle]
  · rw [h, hn]
    simp

theorem object_resetNull_ne_none {s : State} {i k : Nat} :
    (s.resetNull i).object k ≠ none ↔ s.object k ≠ none := by
  rcases s.resetNull_eq i with h | ⟨_, h⟩
  · rw [h, object_mark]
    exact object_setHandle_ne_none
  · rw [h]

/-- `Fate g`: an operation does `g` to a frame whose handle it takes out of an object. -/
inductive Fate : (Record → Record) → Prop
  | destroy : Fate Record.destroy
  | release : Fate Record.release
  | resume : Fate Record.resume

/-- All that a step can do: move a handle from `j` to `i`, or put a fresh handle, possibly null, in
    the place of the handle of `i`, whose frame then meets a fate. -/
inductive Effect (s s' : State) (a : Action) : Prop
  | transfer (i j : Nat) (spares : s.SparesOwner a → i = j ∨ s.handle i = none)
      (handles : ∀ k, s'.handle k =
        if k = i then s.handle j else if k = j then none else s.handle k)
      (frames : ∀ f, s'.frame f = s.frame f)
  | replace (i : Nat) (h : Option Nat) (g : Record → Record) (fate : Fate g)
      (fresh : ∀ f, h = some f → (s.frame f).handedIn = false)
      (handles : ∀ k, s'.handle k = if k = i then h else s.handle k)
      (frames : ∀ f, s'.frame f =
        if h = some f then (if s.handle i = some f then g (s.frame f) else s.frame f).handIn
        else if s.handle i = some f then g (s.frame f) else s.frame f)

theorem moveAssign_handle {s : State} {i j : Nat} (h : s.Enabled (.moveAssign i j)) (k : Nat) :
    (s.moveAssign i j).handle k =
      if k = i then s.handle j else if k = j then none else s.handle k := by
  have hj : s.object j ≠ none := by
    intro hj
    have := h.2
    rw [hj] at this
    exact h.1 (Option.map_eq_none_iff.mp this)
  show ((s.setHandle j none).setHandle i (s.handle j)).handle k = _
  rw [handle_setHandle (object_setHandle_ne_none.mpr h.1), handle_setHandle hj]

theorem reset_eq (s : State) (i : Nat) (a : Argument) :
    s.reset i a = s.resetTo i a.frame ∨ (a.frame = none ∧ s.reset i a = s.resetNull i) := by
  cases a with
  | null => exact Or.inr ⟨rfl, rfl⟩
  | handle h => exact Or.inl rfl
  | promise p => exact Or.inl rfl

/-- Taking the handle out of an object for good. -/
theorem Effect.take {s : State} {a : Action} {i : Nat} (hi : s.object i ≠ none)
    {g : Record → Record} (hg : Fate g) :
    Effect s ((s.setHandle i none).mark g (s.handle i)) a := by
  refine .replace i none g hg (fun f hf => by cases hf) (fun k => ?_) (fun f => ?_)
  · rw [handle_mark, handle_setHandle hi]
  · rw [frame_mark, frame_setHandle, if_neg (Option.some_ne_none f).symm]

theorem step_effect {s : State} {a : Action} (h : s.Enabled a) : Effect s (s.next a) a := by
  cases a with
  | construct i k a =>
      refine .replace i a.frame .destroy .destroy h.2.2 (fun k' => ?_) (fun f => ?_)
      · show (State.mark _ _ _).handle k' = _
        rw [handle_mark, handle_update]
        rfl
      · show (State.mark _ _ _).frame f = _
        simp only [frame_mark, handle_of_object_none h.1, reduceCtorEq, if_false]
  | moveConstruct i j =>
      obtain ⟨o, ho⟩ := Option.ne_none_iff_exists'.mp h.2
      refine .transfer i j (fun _ => Or.inr (handle_of_object_none h.1)) (fun k => ?_) (fun f => ?_)
      · simp only [next, moveConstruct, ho, release]
        rw [handle_update, handle_setHandle h.2]
        rfl
      · simp only [next, moveConstruct, ho, release]
        rfl
  | moveAssign i j =>
      exact .transfer i j id (moveAssign_handle h) (fun f => rfl)
  | reset i a =>
      refine .replace i a.frame .destroy .destroy h.2.2 (fun k => ?_) (fun f => ?_)
      · show (s.reset i a).handle k = _
        rcases s.reset_eq i a with hr | ⟨ha, hr⟩
        · rw [hr, resetTo, handle_mark, handle_setHandle (object_resetNull_ne_none.mpr h.1),
            handle_resetNull h.1]
          split_ifs <;> rfl
        · rw [hr, ha, handle_resetNull h.1]
      · show (s.reset i a).frame f = _
        rcases s.reset_eq i a with hr | ⟨ha, hr⟩
        · rw [hr, resetTo, frame_mark, frame_setHandle, frame_resetNull]
        · rw [hr, ha, frame_resetNull, if_neg (Option.some_ne_none f).symm]
  | release i => exact Effect.take h .release
  | resume i =>
      obtain ⟨f, hf⟩ := Option.ne_none_iff_exists'.mp h
      exact Effect.take (object_ne_none_of_handle hf) .resume
  | destruct i =>
      refine .replace i none .destroy .destroy (fun f hf => by cases hf) (fun k => ?_) (fun f => ?_)
      · show (State.destruct s i).handle k = _
        simp only [destruct]
        rw [handle_update, handle_mark]
        rfl
      · show (s.mark .destroy (s.handle i)).frame f = _
        rw [frame_mark, if_neg (Option.some_ne_none f).symm]

/-! ## What holds in every run -/

/-- The invariant of all runs, the ones that lose frames included. -/
structure Sound (s : State) : Prop where
  exclusive : ∀ i j f, s.handle i = some f → s.handle j = some f → i = j
  owned : ∀ i f, s.handle i = some f → s.Kept f ∧ (s.frame f).destroyed = 0
  unseen : ∀ f, (s.frame f).handedIn = false → s.frame f = ⟨false, false, false, 0⟩
  once : ∀ f, (s.frame f).destroyed ≤ 1

theorem Sound.empty : Sound empty := by
  refine ⟨?_, ?_, fun f _ => rfl, fun f => Nat.zero_le 1⟩
  · intro i j f h
    cases h
  · intro i f h
    cases h

/-- A frame that has not been handed in is in no object. -/
theorem Sound.not_owned {s : State} (hs : Sound s) {f : Nat} (hf : (s.frame f).handedIn = false)
    (i : Nat) : s.handle i ≠ some f := by
  intro h
  have := (hs.owned i f h).1.1
  rw [hf] at this
  cases this

theorem Sound.transfer {s s' : State} (hs : Sound s) {i j : Nat}
    (handles : ∀ k, s'.handle k =
      if k = i then s.handle j else if k = j then none else s.handle k)
    (frames : ∀ f, s'.frame f = s.frame f) : Sound s' := by
  have hkept : ∀ f, s'.Kept f ↔ s.Kept f := fun f => by simp only [Kept, frames]
  -- where an object's handle comes from
  have hfrom : ∀ k f, s'.handle k = some f →
      (k = i ∧ s.handle j = some f) ∨ (k ≠ i ∧ k ≠ j ∧ s.handle k = some f) := by
    intro k f h
    rw [handles] at h
    split_ifs at h with hi hj
    · exact Or.inl ⟨hi, h⟩
    · exact Or.inr ⟨hi, hj, h⟩
  refine ⟨?_, ?_, ?_, ?_⟩
  · intro k l f hk hl
    rcases hfrom k f hk with ⟨rfl, hk⟩ | ⟨_, hkj, hk⟩ <;>
      rcases hfrom l f hl with ⟨rfl, hl⟩ | ⟨_, hlj, hl⟩
    · rfl
    · exact absurd (hs.exclusive _ _ f hl hk) hlj
    · exact absurd (hs.exclusive _ _ f hk hl) hkj
    · exact hs.exclusive k l f hk hl
  · intro k f hk
    rw [hkept, frames]
    rcases hfrom k f hk with ⟨_, h⟩ | ⟨_, _, h⟩
    · exact hs.owned j f h
    · exact hs.owned k f h
  · intro f hf
    rw [frames] at hf ⊢
    exact hs.unseen f hf
  · intro f
    rw [frames]
    exact hs.once f

theorem Fate.handedIn {g : Record → Record} (h : Fate g) (r : Record) :
    (g r).handedIn = r.handedIn := by
  cases h <;> rfl

theorem Fate.destroyed_le {g : Record → Record} (h : Fate g) (r : Record) :
    (g r).destroyed ≤ r.destroyed + 1 := by
  cases h
  · exact Nat.le_refl _
  · exact Nat.le_succ _
  · exact Nat.le_succ _

/-- The frame of a handle that is taken out is gone: destroyed, released or resumed. -/
theorem Fate.settles {g : Record → Record} (h : Fate g) {r : Record} (hr : r.destroyed = 0) :
    (g r).destroyed = 1 ∨ (g r).released = true ∨ (g r).resumed = true := by
  cases h
  · exact Or.inl (by rw [Record.destroy, hr])
  · exact Or.inr (Or.inl rfl)
  · exact Or.inr (Or.inr rfl)

/-- A replacement seen from one frame: it is the frame put in, or the one taken out, or neither. -/
theorem Sound.replaced {s s' : State} (hs : Sound s) {i : Nat} {h : Option Nat}
    {g : Record → Record} (fresh : ∀ f, h = some f → (s.frame f).handedIn = false)
    (frames : ∀ f, s'.frame f =
      if h = some f then (if s.handle i = some f then g (s.frame f) else s.frame f).handIn
      else if s.handle i = some f then g (s.frame f) else s.frame f) (f : Nat) :
    (h = some f ∧ (s.frame f).handedIn = false ∧ s'.frame f = ⟨true, false, false, 0⟩) ∨
      (h ≠ some f ∧ s.handle i = some f ∧ s'.frame f = g (s.frame f)) ∨
      (h ≠ some f ∧ s.handle i ≠ some f ∧ s'.frame f = s.frame f) := by
  have hf := frames f
  by_cases hn : h = some f
  · have hfresh := fresh f hn
    rw [if_pos hn, if_neg (hs.not_owned hfresh i), hs.unseen f hfresh] at hf
    exact Or.inl ⟨hn, hfresh, hf⟩
  · rw [if_neg hn] at hf
    by_cases hi : s.handle i = some f
    · rw [if_pos hi] at hf
      exact Or.inr (Or.inl ⟨hn, hi, hf⟩)
    · rw [if_neg hi] at hf
      exact Or.inr (Or.inr ⟨hn, hi, hf⟩)

theorem Sound.step {s : State} (hs : Sound s) {a : Action} (ha : s.Enabled a) :
    Sound (s.next a) := by
  rcases step_effect ha with ⟨i, j, _, handles, frames⟩ | ⟨i, h, g, fate, fresh, handles, frames⟩
  · exact hs.transfer handles frames
  have hframe := hs.replaced fresh frames
  -- the handle put in belongs to a new frame, every other one was there before
  have hfrom : ∀ k f, (s.next a).handle k = some f →
      (k = i ∧ h = some f) ∨ (k ≠ i ∧ s.handle k = some f) := by
    intro k f hk
    rw [handles] at hk
    split_ifs at hk with hi
    · exact Or.inl ⟨hi, hk⟩
    · exact Or.inr ⟨hi, hk⟩
  refine ⟨?_, ?_, ?_, ?_⟩
  · intro k l f hk hl
    rcases hfrom k f hk with ⟨rfl, hk⟩ | ⟨_, hk⟩ <;> rcases hfrom l f hl with ⟨rfl, hl⟩ | ⟨_, hl⟩
    · rfl
    · exact absurd hl (hs.not_owned (fresh f hk) l)
    · exact absurd hk (hs.not_owned (fresh f hl) k)
    · exact hs.exclusive k l f hk hl
  · intro k f hk
    rcases hframe f with ⟨_, _, hf⟩ | ⟨hn, hi, _⟩ | ⟨hn, _, hf⟩
    · simp only [Kept, hf, and_self]
    · rcases hfrom k f hk with ⟨_, hk⟩ | ⟨hki, hk⟩
      · exact absurd hk hn
      · exact absurd (hs.exclusive k i f hk hi) hki
    · rcases hfrom k f hk with ⟨_, hk⟩ | ⟨_, hk⟩
      · exact absurd hk hn
      · simpa only [Kept, hf] using hs.owned k f hk
  · intro f hf'
    rcases hframe f with ⟨_, _, hf⟩ | ⟨_, hi, hf⟩ | ⟨_, _, hf⟩
    · rw [hf] at hf'
      cases hf'
    · rw [hf, fate.handedIn, (hs.owned i f hi).1.1] at hf'
      cases hf'
    · rw [hf] at hf' ⊢
      exact hs.unseen f hf'
  · intro f
    rcases hframe f with ⟨_, _, hf⟩ | ⟨_, hi, hf⟩ | ⟨_, _, hf⟩
    · rw [hf]
      exact Nat.zero_le 1
    · have := fate.destroyed_le (s.frame f)
      have := (hs.owned i f hi).2
      rw [hf]
      omega
    · rw [hf]
      exact hs.once f

theorem Sound.run {s : State} {as : List Action} (h : Run machine State.empty as s) : Sound s :=
  h.invariant Sound.empty fun _ _ hs ha => hs.step ha

/-! ## Frames that are lost -/

/-- No object owns `f`, nobody has taken it over, and it has not been destroyed. -/
structure Lost (s : State) (f : Nat) : Prop where
  kept : s.Kept f
  alive : (s.frame f).destroyed = 0
  unowned : ∀ i, s.handle i ≠ some f

theorem empty_not_lost (f : Nat) : ¬ State.empty.Lost f := by
  intro h
  cases h.kept.1

/-- What is neither owned once nor destroyed once is lost. -/
theorem Sound.accounted_or_lost {s : State} (hs : Sound s) {f : Nat} (hf : s.Kept f) :
    s.Accounted f ∨ s.Lost f := by
  by_cases ho : ∃ i, s.handle i = some f
  · obtain ⟨i, hi⟩ := ho
    exact Or.inl (Or.inl ⟨(hs.owned i f hi).2, i, hi, fun j hj => hs.exclusive j i f hj hi⟩)
  · have hno : ∀ i, s.handle i ≠ some f := fun i hi => ho ⟨i, hi⟩
    have := hs.once f
    rcases Nat.lt_or_ge (s.frame f).destroyed 1 with hd | hd
    · exact Or.inr ⟨hf, by omega, hno⟩
    · exact Or.inl (Or.inr ⟨by omega, hno⟩)

theorem Lost.not_accounted {s : State} {f : Nat} (h : s.Lost f) : ¬ s.Accounted f := by
  rintro (⟨_, i, hi, _⟩ | ⟨hd, _⟩)
  · exact h.unowned i hi
  · rw [h.alive] at hd
    cases hd

/-- A lost frame stays lost: handles are only ever copied from other objects. -/
theorem Lost.step {s : State} (hs : Sound s) {f : Nat} (h : s.Lost f) {a : Action}
    (ha : s.Enabled a) : (s.next a).Lost f := by
  rcases step_effect ha with ⟨i, j, _, handles, frames⟩ | ⟨i, n, g, fate, fresh, handles, frames⟩
  · refine ⟨by simpa only [Kept, frames] using h.kept, by rw [frames]; exact h.alive, fun k => ?_⟩
    rw [handles]
    split_ifs
    · exact h.unowned j
    · exact (Option.some_ne_none f).symm
    · exact h.unowned k
  · rcases hs.replaced fresh frames f with ⟨_, hf, _⟩ | ⟨_, hi, _⟩ | ⟨hn, _, hf⟩
    · have := h.kept.1
      rw [hf] at this
      cases this
    · exact absurd hi (h.unowned i)
    · refine ⟨by simpa only [Kept, hf] using h.kept, by rw [hf]; exact h.alive, fun k => ?_⟩
      rw [handles]
      split_ifs
      · exact hn
      · exact h.unowned k

/-- Move assignment of another object over one that owns a frame loses the frame. -/
theorem Sound.overwritten {s : State} (hs : Sound s) {i j : Nat} (ha : s.Enabled (.moveAssign i j))
    (hij : i ≠ j) {f : Nat} (hi : s.handle i = some f) : (s.moveAssign i j).Lost f := by
  refine ⟨(hs.owned i f hi).1, (hs.owned i f hi).2, fun k hk => ?_⟩
  rw [moveAssign_handle ha] at hk
  split_ifs at hk with hki hkj
  · exact hij (hs.exclusive i j f hi hk)
  · exact hki (hs.exclusive k i f hk hi)

/-- No other step loses a frame. -/
theorem Sound.nothing_lost {s : State} (hs : Sound s) {f : Nat} (hl : ¬ s.Lost f) {a : Action}
    (ha : s.Enabled a) (hp : s.SparesOwner a) : ¬ (s.next a).Lost f := by
  intro h
  have hkept := h.kept
  have halive := h.alive
  rcases step_effect ha with ⟨i, j, hsp, handles, frames⟩ | ⟨i, n, g, fate, fresh, handles, frames⟩
  · simp only [Kept, frames] at hkept halive
    refine hl ⟨hkept, halive, fun k hk => ?_⟩
    -- the object that owned `f` still does, unless `f` was moved to `i`
    have hnot := h.unowned k
    rw [handles] at hnot
    split_ifs at hnot with hki hkj
    · rcases hsp hp with hij | hi
      · exact hnot (by rw [← hij, ← hki]; exact hk)
      · rw [hki, hi] at hk
        cases hk
    · have := h.unowned i
      rw [handles, if_pos rfl, ← hkj] at this
      exact this hk
    · exact hnot hk
  · rcases hs.replaced fresh frames f with ⟨hn, _, _⟩ | ⟨_, hi, hf⟩ | ⟨_, hi, hf⟩
    · have := h.unowned i
      rw [handles, if_pos rfl] at this
      exact this hn
    · rcases fate.settles (hs.owned i f hi).2 with hg | hg | hg
      · rw [hf, hg] at halive
        cases halive
      · have := hkept.2.1
        rw [hf, hg] at this
        cases this
      · have := hkept.2.2
        rw [hf, hg] at this
        cases this
    · simp only [Kept, hf] at hkept halive
      refine hl ⟨hkept, halive, fun k hk => ?_⟩
      have hnot := h.unowned k
      rw [handles] at hnot
      split_ifs at hnot with hki
      · exact hi (hki ▸ hk)
      · exact hnot hk

/-- A step that does not spare an owner loses the frame it owned. -/
theorem Sound.lost_of_not_spares {s : State} (hs : Sound s) {a : Action} (ha : s.Enabled a)
    (hp : ¬ s.SparesOwner a) : ∃ f, (s.next a).Lost f := by
  cases a with
  | moveAssign i j =>
      obtain ⟨hij, hi⟩ := not_or.mp hp
      obtain ⟨f, hf⟩ := Option.ne_none_iff_exists'.mp hi
      exact ⟨f, hs.overwritten ha hij hf⟩
  | _ => exact absurd trivial hp

theorem Lost.run {s t : State} {as : List Action} (h : Run machine s as t) (hs : Sound s) {f : Nat}
    (hf : s.Lost f) : t.Lost f := by
  induction h with
  | nil => exact hf
  | cons ha _ ih => exact ih (hs.step ha) (hf.step hs ha)

/-- A run loses a frame exactly when one of its steps fails to spare an owner. -/
theorem Sound.lost_iff {s t : State} {as : List Action} (h : Run machine s as t) (hs : Sound s)
    (hl : ∀ f, ¬ s.Lost f) : (∀ f, ¬ t.Lost f) ↔ Along machine SparesOwner s as := by
  induction h with
  | nil => exact ⟨fun _ => trivial, fun _ => hl⟩
  | @cons s t a as ha hrun ih =>
      by_cases hp : s.SparesOwner a
      · have := ih (hs.step ha) fun f => hs.nothing_lost (hl f) ha hp
        exact this.trans ⟨fun h => ⟨hp, h⟩, fun h => h.2⟩
      · obtain ⟨f, hf⟩ := hs.lost_of_not_spares ha hp
        exact ⟨fun h => absurd (hf.run hrun (hs.step ha)) (h f), fun h => absurd h.1 hp⟩

theorem Sound.ownsOnce_iff {s : State} (hs : Sound s) : s.OwnsOnce ↔ ∀ f, ¬ s.Lost f := by
  constructor
  · exact fun h f hf => hf.not_accounted (h.accounted f hf.kept)
  · intro h
    have hacc : ∀ f, s.Kept f → s.Accounted f := fun f hf =>
      (hs.accounted_or_lost hf).resolve_right (h f)
    refine ⟨hacc, fun hnone f hf => ?_⟩
    rcases hacc f hf with ⟨_, i, hi, _⟩ | ⟨hd, _⟩
    · exact absurd (hnone i) (object_ne_none_of_handle hi)
    · exact hd

end State

/-- The handles own like `std::unique_ptr` after a run exactly when no step of the run assigned
    another object to a handle that owned a frame. -/
theorem unique_handle_iff {as : List Action} {s : State} (h : Run machine State.empty as s) :
    s.OwnsOnce ↔ Along machine State.SparesOwner State.empty as := by
  calc s.OwnsOnce ↔ ∀ f, ¬ s.Lost f := (State.Sound.run h).ownsOnce_iff
    _ ↔ Along machine State.SparesOwner State.empty as :=
      State.Sound.lost_iff h State.Sound.empty State.empty_not_lost

/-- A self move, a transfer, a `reset` with a new frame, and the end of every object. -/
theorem unique_handle_iff_concrete :
    (machine.exec State.empty [.construct 0 .typed (.promise 0), .moveAssign 0 0,
      .moveConstruct 1 0, .reset 1 (.handle (some 1)), .moveAssign 0 1, .destruct 1,
      .destruct 0]).OwnsOnce :=
  (unique_handle_iff (.of_legal (by decide))).mpr (by decide)

/-- Two objects of class `k` own a frame each, and the second is moved onto the first. -/
def overwriting (k : Kind) : List Action :=
  [.construct 0 k (.handle (some 0)), .construct 1 k (.handle (some 1)), .moveAssign 0 1,
    .destruct 0, .destruct 1]

/-- In both copies of the class, overwriting an owning handle leaks the frame it owned: it is not
    destroyed even when all objects are gone. -/
theorem overwritten_frame_leaks :
    (Run machine State.empty (overwriting .typed)
        (machine.exec State.empty (overwriting .typed)) ∧
      ¬ (machine.exec State.empty (overwriting .typed)).OwnsOnce ∧
      ((machine.exec State.empty (overwriting .typed)).frame 0).destroyed = 0) ∧
    (Run machine State.empty (overwriting .void)
        (machine.exec State.empty (overwriting .void)) ∧
      ¬ (machine.exec State.empty (overwriting .void)).OwnsOnce ∧
      ((machine.exec State.empty (overwriting .void)).frame 0).destroyed = 0) := by
  have hleak : ∀ k : Kind, machine.Legal State.empty (overwriting k) →
      ¬ Along machine State.SparesOwner State.empty (overwriting k) →
      ¬ (machine.exec State.empty (overwriting k)).OwnsOnce := by
    intro k hr hp h
    have hrun := Run.of_legal hr
    have hlost := (State.Sound.run hrun).ownsOnce_iff.mp h
    exact hp ((State.Sound.lost_iff hrun State.Sound.empty State.empty_not_lost).mp hlost)
  refine ⟨⟨.of_legal (by decide), hleak .typed (by decide) (by decide), by decide⟩,
    .of_legal (by decide), hleak .void (by decide) (by decide), by decide⟩

end WebAsio.Coro.UniqueHandle
