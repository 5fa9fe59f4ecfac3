import WebAsio.Coro.Destruction
import WebAsio.Coro.Lifecycle
import WebAsio.Library.Tenancy
import WebAsio.MemoryCache.Footprint

set_option autoImplicit false

/-! # Frames in the memory cache

Every frame is allocated from the cache of the thread that calls its coroutine and freed, with the
size it was allocated with, to the cache of the thread that destroys it. Other code uses the caches
too: the handlers given to Boost.Asio are stored there. This file puts the runtime and the caches
together; the caches alone promise something only to callers that free live blocks, once and with
their size, and that the runtime is such a caller takes all that is known about frames. -/

namespace WebAsio.Coro

open Custody Transition

variable {V E : Type}

namespace State

/-- The frame exists. -/
def IsAllocated (s : State V E) (f : FrameId) : Prop :=
  f < s.nextFrame ∧ (s.frame f).phase ≠ .destroyed

instance (s : State V E) (f : FrameId) : Decidable (s.IsAllocated f) :=
  inferInstanceAs (Decidable (f < s.nextFrame ∧ (s.frame f).phase ≠ .destroyed))

theorem freed_destroyed {s : State V E} {b : Book FrameId SuspId} (r : Accounts s b)
    {a : Action V E} (h : s.Enabled a) {x : FrameId} (hx : s.frees a = some x) :
    s.IsAllocated x ∧ ((s.next a).frame x).phase = .destroyed := by
  cases a <;> simp only [frees, reduceCtorEq, Option.some.injEq] at hx
  case destroy f =>
    subst hx
    have hp : (s.frame f).phase = .destroying := h
    refine ⟨⟨r.lt_of_born (by simp [hp]), by simp [hp]⟩, ?_⟩
    simp [next, s.destroyFrame_frame (r.custodian.caller_ne h)]
  case trampolineReturn f c k =>
    subst hx
    obtain ⟨t, ht⟩ := Phase.isRunning_iff.mp h.1
    refine ⟨⟨r.lt_of_born (by simp [ht]), by simp [ht]⟩, ?_⟩
    simp [next, State.trampolineReturn]
  case coReturn f e =>
    obtain ⟨-, -, -, t, ht⟩ := r.custodian.of_inBody h.1
    cases hk : (s.frame f).kind <;> simp only [hk, reduceCtorEq, Option.some.injEq] at hx
    all_goals
      subst hx
      refine ⟨⟨r.lt_of_born (by simp [ht]), by simp [ht]⟩, ?_⟩
      simp [next, coReturn, hk]

/-- A call makes one frame. -/
theorem created_allocated {s : State V E} {a : Action V E} (h : creates a = true) :
    (s.next a).nextFrame = s.nextFrame + 1 ∧
      ((s.next a).frame s.nextFrame).phase ≠ .destroyed := by
  cases a <;> simp only [creates, Bool.false_eq_true] at h
  case awaitAwait f c =>
    refine ⟨by simp [next], ?_⟩
    simp only [next, awaitAwaitSuspend, resume_destroyed, resetCaller_destroyed, ne_eq]
    grind
  case startAwait t c =>
    refine ⟨by simp [next], ?_⟩
    simp only [next, State.startAwait, resume_destroyed, resetCaller_destroyed, ne_eq]
    grind
  all_goals exact ⟨rfl, by simp [next]⟩

/-- Which frames exist after a step. -/
theorem isAllocated_next {s : State V E} {b : Book FrameId SuspId} (r : Accounts s b)
    {a : Action V E} (h : s.Enabled a) (x : FrameId) :
    (s.next a).IsAllocated x ↔
      (s.IsAllocated x ∧ s.frees a ≠ some x) ∨ creates a = true ∧ x = s.nextFrame := by
  have hold : x < s.nextFrame → (((s.next a).frame x).phase ≠ .destroyed ↔
      (s.frame x).phase ≠ .destroyed ∧ s.frees a ≠ some x) := by
    intro hx
    constructor
    · intro hp'
      exact ⟨fun hp => hp' (r.step_destroyed h hp), fun hf => hp' (freed_destroyed r h hf).2⟩
    · rintro ⟨hp, hf⟩ hp'
      exact hf (frees_of_destroyed (Nat.ne_of_lt hx) hp hp')
  unfold IsAllocated
  rcases hc : creates a with _ | _
  · rw [next_nextFrame hc]
    constructor
    · rintro ⟨hx, hp⟩
      obtain ⟨hp, hf⟩ := (hold hx).mp hp
      exact Or.inl ⟨⟨hx, hp⟩, hf⟩
    · rintro (⟨⟨hx, hp⟩, hf⟩ | ⟨hcr, -⟩)
      · exact ⟨hx, (hold hx).mpr ⟨hp, hf⟩⟩
      · cases hcr
  · obtain ⟨hn, hnew⟩ := created_allocated (s := s) hc
    rw [hn]
    constructor
    · rintro ⟨hx, hp⟩
      rcases Nat.lt_succ_iff_lt_or_eq.mp hx with hx | rfl
      · obtain ⟨hp, hf⟩ := (hold hx).mp hp
        exact Or.inl ⟨⟨hx, hp⟩, hf⟩
      · exact Or.inr ⟨rfl, rfl⟩
    · rintro (⟨⟨hx, hp⟩, hf⟩ | ⟨-, rfl⟩)
      · exact ⟨Nat.lt_succ_of_lt hx, (hold hx).mpr ⟨hp, hf⟩⟩
      · exact ⟨Nat.lt_succ_self _, hnew⟩

end State

/-! ## The runtime and the caches -/

open MemoryCache (Size)

/-- The runtime with the caches of its threads: for every frame its block and the size it was
    allocated with, and the blocks that other code has. -/
structure Housing (V E : Type) where
  runtime : State V E
  memory : MemoryCache.State
  block : FrameId → Nat
  size : FrameId → Size
  other : Nat → Bool

namespace Housing

def init : Housing V E := ⟨State.init, .empty, fun _ => 0, fun _ => 0, fun _ => false⟩

inductive Action (V E : Type)
  /-- a step of the runtime, by the thread `c`; a frame that it makes has size `size` -/
  | step (a : Coro.Action V E) (c : Nat) (size : Size)
  /-- a thread starts or ends, or other code allocates or frees -/
  | cache (m : MemoryCache.Action)

/-- The block that `alloc` returns. -/
def allocated (h : Housing V E) (c : Nat) (size : Size) : Nat :=
  match h.memory.cache c with
  | some e => (h.memory.alloc c e size).1
  | none => 0

/-- `promise_frame::operator new` and the body of the call, or that of the step and
    `promise_frame::operator delete`; the trampolines of `basic_detached` have the same two. -/
def step (h : Housing V E) (a : Coro.Action V E) (c : Nat) (size : Size) : Housing V E :=
  if State.creates a then
    { h with
      runtime := h.runtime.next a
      memory := h.memory.next (.alloc c size)
      block := Function.update h.block h.runtime.nextFrame (h.allocated c size)
      size := Function.update h.size h.runtime.nextFrame size }
  else
    match h.runtime.frees a with
    | some f =>
      { h with
        runtime := h.runtime.next a
        memory := h.memory.next (.free c (h.block f) (h.size f)) }
    | none => { h with runtime := h.runtime.next a }

def cache (h : Housing V E) (m : MemoryCache.Action) : Housing V E :=
  { h with
    memory := h.memory.next m
    other := match m with
      | .alloc c size => Function.update h.other (h.allocated c size) true
      | .free _ b _ => Function.update h.other b false
      | _ => h.other }

def next (h : Housing V E) : Action V E → Housing V E
  | .step a c size => h.step a c size
  | .cache m => h.cache m

/-- Threads use their caches while they run, and other code frees what it has. -/
def Enabled (h : Housing V E) : Action V E → Prop
  | .step a c _ => h.runtime.Enabled a ∧ (h.memory.cache c).isSome = true
  | .cache (.free c b size) => h.memory.Enabled (.free c b size) ∧ h.other b = true
  | .cache m => h.memory.Enabled m

instance (h : Housing V E) : (x : Action V E) → Decidable (h.Enabled x)
  | .step a c _ => inferInstanceAs (Decidable (h.runtime.Enabled a ∧ (h.memory.cache c).isSome = true))
  | .cache (.free c b size) =>
    inferInstanceAs (Decidable (h.memory.Enabled (.free c b size) ∧ h.other b = true))
  | .cache (.construct c) => inferInstanceAs (Decidable (h.memory.Enabled (.construct c)))
  | .cache (.alloc c size) => inferInstanceAs (Decidable (h.memory.Enabled (.alloc c size)))
  | .cache (.destroy c) => inferInstanceAs (Decidable (h.memory.Enabled (.destroy c)))

def machine : System (Housing V E) (Action V E) := ⟨Enabled, next⟩

instance (h : Housing V E) (x : Action V E) : Decidable (machine.enabled h x) :=
  inferInstanceAs (Decidable (h.Enabled x))

/-- The steps of the runtime in a run. -/
def steps (as : List (Action V E)) : List (Coro.Action V E) :=
  as.filterMap fun
    | .step a _ _ => some a
    | .cache _ => none

/-! ## What the caches do to the blocks in use -/

section Caches

variable {m : MemoryCache.State} {c : Nat} {e : MemoryCache.Cache}

theorem live_alloc (hm : m.Sound) (hc : m.cache c = some e) (size : Size) :
    m.live (m.alloc c e size).1 = none ∧
      (m.next (.alloc c size)).live =
        Function.update m.live (m.alloc c e size).1 (some size) := by
  refine ⟨(hm.alloc hc size).2.2.1, ?_⟩
  have hlive : (m.alloc c e size).2.live = m.live := by
    rcases m.alloc_spec c e size with ⟨-, k, -, b, -, heq⟩ | ⟨-, capacity, -, heq⟩
    · rw [heq]
      rfl
    · rw [heq]
      rfl
  simp only [MemoryCache.State.next, hc, MemoryCache.State.setLive, hlive]

theorem live_free (hc : m.cache c = some e) (b : Nat) (size : Size) :
    (m.next (.free c b size)).live = Function.update m.live b none := by
  simp only [MemoryCache.State.next, hc]
  rcases (m.setLive b none).free_spec c e b size with ⟨-, k, -, -, heq⟩ | ⟨-, heq⟩
  · rw [heq]
    rfl
  · rw [heq]
    rfl

theorem live_destroy (hc : m.cache c = some e) : (m.next (.destroy c)).live = m.live := by
  simp only [MemoryCache.State.next, hc]
  exact (MemoryCache.State.foldl_operatorDelete e.blocks m).2.2.2

theorem sound_of_reachable
    (h : Transition.Reachable MemoryCache.machine MemoryCache.State.empty m) :
    m.Sound ∧ m.Fitted :=
  h.invariant (I := fun m => m.Sound ∧ m.Fitted)
    ⟨MemoryCache.State.Sound.empty, MemoryCache.State.Fitted.empty⟩
    fun _ _ hm ha => ⟨(hm.1.step ha).1, hm.2.step hm.1 ha⟩

end Caches

/-! ## Every frame in its own block -/

/-- Who has blocks: frames, and other code. -/
def has (h : Housing V E) : FrameId ⊕ Nat → Option Nat
  | .inl f => if h.runtime.IsAllocated f then some (h.block f) else none
  | .inr b => if h.other b = true then some b else none

/-- The invariant of all runs. -/
structure Housed (h : Housing V E) : Prop where
  runtime : Reachable h.runtime
  memory : Transition.Reachable MemoryCache.machine MemoryCache.State.empty h.memory
  tenancy : Tenancy (fun b => h.memory.live b ≠ none) h.has
  sized : ∀ f, h.runtime.IsAllocated f → h.memory.live (h.block f) = some (h.size f)

variable {h : Housing V E}

theorem has_frame {f : FrameId} (hf : h.runtime.IsAllocated f) : h.has (.inl f) = some (h.block f) :=
  if_pos hf

theorem update_live {live : Nat → Option Size} {b c : Nat} {size : Size} :
    Function.update live b (some size) c ≠ none ↔ c = b ∨ live c ≠ none := by
  by_cases hc : c = b
  · simp [hc]
  · simp [hc]

theorem update_dead {live : Nat → Option Size} {b c : Nat} :
    Function.update live b none c ≠ none ↔ c ≠ b ∧ live c ≠ none := by
  by_cases hc : c = b
  · simp [hc]
  · simp [hc]

/-- A frame is made. -/
theorem Housed.create (hh : Housed h) {a : Coro.Action V E} (ha : h.runtime.Enabled a)
    (hcr : State.creates a = true) {c : Nat} {e : MemoryCache.Cache}
    (hc : h.memory.cache c = some e) (size : Size) : Housed (h.step a c size) := by
  obtain ⟨b, r⟩ := hh.runtime.accounts
  obtain ⟨hfresh, hlive⟩ := live_alloc (sound_of_reachable hh.memory).1 hc size
  have hstep : h.step a c size =
      { h with
        runtime := h.runtime.next a
        memory := h.memory.next (.alloc c size)
        block := Function.update h.block h.runtime.nextFrame (h.memory.alloc c e size).1
        size := Function.update h.size h.runtime.nextFrame size } := by
    simp only [step, if_pos hcr, allocated, hc]
  have hframes : ∀ x, (h.runtime.next a).IsAllocated x ↔
      h.runtime.IsAllocated x ∨ x = h.runtime.nextFrame := by
    intro x
    have hfrees : h.runtime.frees a = none := by
      cases a <;> simp only [State.creates, Bool.false_eq_true] at hcr <;> rfl
    rw [State.isAllocated_next r ha, hfrees, hcr]
    simp
  have hnew : ¬ h.runtime.IsAllocated h.runtime.nextFrame := fun hn => Nat.lt_irrefl _ hn.1
  rw [hstep]
  constructor
  · exact hh.runtime.step ha
  · exact hh.memory.step (by simp [MemoryCache.machine, MemoryCache.State.Enabled, hc])
  · refine hh.tenancy.enter (i := .inl h.runtime.nextFrame) (b := (h.memory.alloc c e size).1)
      (by simp [hfresh]) (if_neg hnew) (fun d => ?_) (fun j hj => ?_) ?_
    · rw [hlive]
      exact update_live
    · cases j with
      | inr d => rfl
      | inl f =>
          have hf : f ≠ h.runtime.nextFrame := fun hf => hj (congrArg Sum.inl hf)
          simp only [has, hframes, hf, or_false, Function.update_of_ne hf]
    · simp only [has, hframes, or_true, if_true, Function.update_self]
  · intro f hf
    simp only [hlive]
    by_cases hfn : f = h.runtime.nextFrame
    · simp only [hfn, Function.update_self]
    · have hfa := ((hframes f).mp hf).resolve_right hfn
      have hne : h.block f ≠ (h.memory.alloc c e size).1 := by
        intro hb
        rw [← hb, hh.sized f hfa] at hfresh
        cases hfresh
      simp only [Function.update_of_ne hfn, Function.update_of_ne hne]
      exact hh.sized f hfa

/-- A frame is destroyed. -/
theorem Housed.delete (hh : Housed h) {a : Coro.Action V E} (ha : h.runtime.Enabled a)
    (hcr : State.creates a = false) {f : FrameId} (hf : h.runtime.frees a = some f) {c : Nat}
    {e : MemoryCache.Cache} (hc : h.memory.cache c = some e) (size : Size) :
    Housed (h.step a c size) := by
  obtain ⟨b, r⟩ := hh.runtime.accounts
  have hfa : h.runtime.IsAllocated f := (State.freed_destroyed r ha hf).1
  have hlive := live_free hc (h.block f) (h.size f)
  have hstep : h.step a c size =
      { h with
        runtime := h.runtime.next a
        memory := h.memory.next (.free c (h.block f) (h.size f)) } := by
    simp only [step, hcr, Bool.false_eq_true, if_false, hf]
  have hframes : ∀ x, (h.runtime.next a).IsAllocated x ↔ h.runtime.IsAllocated x ∧ x ≠ f := by
    intro x
    rw [State.isAllocated_next r ha, hf, hcr]
    simp [eq_comm]
  rw [hstep]
  constructor
  · exact hh.runtime.step ha
  · refine hh.memory.step ?_
    simp [MemoryCache.machine, MemoryCache.State.Enabled, hc, hh.sized f hfa]
  · refine hh.tenancy.quit (i := .inl f) (b := h.block f) (has_frame hfa) (fun d => ?_)
      (fun j hj => ?_) ?_
    · rw [hlive]
      exact update_dead
    · cases j with
      | inr d => rfl
      | inl g =>
          have hg : g ≠ f := fun hg => hj (congrArg Sum.inl hg)
          simp only [has, hframes, ne_eq, hg, not_false_eq_true, and_true]
    · simp only [has, hframes, ne_eq, not_true_eq_false, and_false, if_false]
  · intro g hg
    obtain ⟨hga, hgf⟩ := (hframes g).mp hg
    have hne : h.block g ≠ h.block f := by
      intro hb
      have hgi := has_frame hga
      rw [hb] at hgi
      exact hgf (Sum.inl.inj (hh.tenancy.apart _ _ _ hgi (has_frame hfa)))
    simp only [hlive, Function.update_of_ne hne]
    exact hh.sized g hga

/-- No frame is made or destroyed. -/
theorem Housed.stay (hh : Housed h) {a : Coro.Action V E} (ha : h.runtime.Enabled a)
    (hcr : State.creates a = false) (hf : h.runtime.frees a = none) (c : Nat) (size : Size) :
    Housed (h.step a c size) := by
  obtain ⟨b, r⟩ := hh.runtime.accounts
  have hstep : h.step a c size = { h with runtime := h.runtime.next a } := by
    simp only [step, hcr, Bool.false_eq_true, if_false, hf]
  have hframes : ∀ x, (h.runtime.next a).IsAllocated x ↔ h.runtime.IsAllocated x := by
    intro x
    rw [State.isAllocated_next r ha, hf, hcr]
    simp
  rw [hstep]
  constructor
  · exact hh.runtime.step ha
  · exact hh.memory
  · refine hh.tenancy.congr (fun _ => Iff.rfl) fun j => ?_
    cases j with
    | inr d => rfl
    | inl f => simp only [has, hframes]
  · exact fun f hf => hh.sized f ((hframes f).mp hf)

/-- Other code allocates. -/
theorem Housed.lend (hh : Housed h) {c : Nat} {e : MemoryCache.Cache}
    (hc : h.memory.cache c = some e) (size : Size) : Housed (h.cache (.alloc c size)) := by
  obtain ⟨hfresh, hlive⟩ := live_alloc (sound_of_reachable hh.memory).1 hc size
  have hnone : h.has (.inr (h.memory.alloc c e size).1) = none := by
    cases hother : h.has (.inr (h.memory.alloc c e size).1) with
    | none => rfl
    | some b =>
        have hb := hh.tenancy.alive _ _ hother
        simp only [has] at hother
        split_ifs at hother
        cases hother
        exact absurd hfresh hb
  constructor
  · exact hh.runtime
  · exact hh.memory.step (by simp [MemoryCache.machine, MemoryCache.State.Enabled, hc])
  · refine hh.tenancy.enter (i := .inr (h.memory.alloc c e size).1)
      (b := (h.memory.alloc c e size).1) (by simp [hfresh]) hnone (fun d => ?_) (fun j hj => ?_) ?_
    · simp only [cache, hlive]
      exact update_live
    · cases j with
      | inl f => rfl
      | inr d =>
          have hd : d ≠ (h.memory.alloc c e size).1 := fun hd => hj (congrArg Sum.inr hd)
          simp only [has, cache, allocated, hc, Function.update_of_ne hd]
    · simp only [has, cache, allocated, hc, Function.update_self, if_true]
  · intro f hf
    have hsize := hh.sized f hf
    have hne : h.block f ≠ (h.memory.alloc c e size).1 := by
      intro hb
      rw [← hb, hsize] at hfresh
      cases hfresh
    simp only [cache, hlive, Function.update_of_ne hne]
    exact hsize

/-- Other code frees. -/
theorem Housed.reclaim (hh : Housed h) {c b : Nat} {size : Size}
    (hm : h.memory.Enabled (.free c b size)) (hb : h.other b = true) :
    Housed (h.cache (.free c b size)) := by
  obtain ⟨e, hc⟩ := Option.isSome_iff_exists.mp hm.1
  have hlive := live_free hc b size
  have hhas : h.has (.inr b) = some b := if_pos hb
  constructor
  · exact hh.runtime
  · exact hh.memory.step hm
  · refine hh.tenancy.quit (i := .inr b) (b := b) hhas (fun d => ?_) (fun j hj => ?_) ?_
    · simp only [cache, hlive]
      exact update_dead
    · cases j with
      | inl f => rfl
      | inr d =>
          have hd : d ≠ b := fun hd => hj (congrArg Sum.inr hd)
          simp only [has, cache, Function.update_of_ne hd]
    · simp [has, cache]
  · intro f hf
    have hne : h.block f ≠ b := by
      intro hfb
      have hfa : h.runtime.IsAllocated f := hf
      have hff := has_frame hfa
      rw [hfb] at hff
      cases hh.tenancy.apart _ _ _ hff hhas
    simp only [cache, hlive, Function.update_of_ne hne]
    exact hh.sized f hf

/-- A thread starts or ends. -/
theorem Housed.thread (hh : Housed h) {m : MemoryCache.Action} (hm : h.memory.Enabled m)
    (hlive : (h.memory.next m).live = h.memory.live) (hother : (h.cache m).other = h.other) :
    Housed (h.cache m) := by
  constructor
  · exact hh.runtime
  · exact hh.memory.step hm
  · refine hh.tenancy.congr (fun b => ?_) fun j => ?_
    · simp only [cache, hlive]
    · cases j with
      | inl f => rfl
      | inr d => simp only [has, hother]
  · intro f hf
    simp only [cache, hlive]
    exact hh.sized f hf

theorem Housed.init : Housed (Housing.init : Housing V E) := by
  constructor
  · exact Transition.Reachable.refl _
  · exact Transition.Reachable.refl _
  · constructor
    · intro i b hi
      cases i with
      | inl f => cases hi
      | inr b => cases hi
    · intro i j b hi
      cases i with
      | inl f => cases hi
      | inr b => cases hi
    · intro b hb
      exact absurd rfl hb
  · exact fun f hf => absurd hf.1 (Nat.not_lt_zero f)

theorem Housed.next (hh : Housed h) {x : Action V E} (hx : h.Enabled x) : Housed (h.next x) := by
  cases x with
  | step a c size =>
      obtain ⟨e, hc⟩ := Option.isSome_iff_exists.mp hx.2
      rcases hcr : State.creates a with _ | _
      · cases hf : h.runtime.frees a with
        | none => exact hh.stay hx.1 hcr hf c size
        | some f => exact hh.delete hx.1 hcr hf hc size
      · exact hh.create hx.1 hcr hc size
  | cache m =>
      cases m with
      | construct c => exact hh.thread hx rfl rfl
      | destroy c =>
          obtain ⟨e, hc⟩ := Option.isSome_iff_exists.mp hx
          exact hh.thread hx (live_destroy hc) rfl
      | alloc c size =>
          obtain ⟨e, hc⟩ := Option.isSome_iff_exists.mp hx
          exact hh.lend hc size
      | free c b size => exact hh.reclaim hx.1 hx.2

/-- The steps of the runtime in a run are a run of the runtime. -/
theorem run_steps {as : List (Action V E)} {h : Housing V E}
    (hrun : Run machine Housing.init as h) : Run Coro.runtime State.init (steps as) h.runtime := by
  refine hrun.history (I := fun as h => Run Coro.runtime State.init (steps as) h.runtime)
    (.nil _) fun as h x hr hx => ?_
  rw [steps, List.filterMap_append]
  cases x with
  | cache m =>
      simp only [List.filterMap_cons_none, List.filterMap_nil, List.append_nil]
      exact hr
  | step a c size =>
      have hruntime : (h.step a c size).runtime = h.runtime.next a := by
        unfold step
        split_ifs
        · rfl
        · split <;> rfl
      change Run Coro.runtime State.init (steps as ++ [a]) (h.step a c size).runtime
      rw [hruntime]
      exact hr.snoc hx.1

end Housing

/-- **Every frame has a block of its own.** In every run of the runtime on the caches of its threads,
    whichever threads call, resume and destroy its coroutines and whatever else is allocated: the
    caches are used as they may be, so what is known of their runs holds here; every frame that
    exists is in a live block of the size it was allocated with, large enough for it, and no two
    are in one; and a block is live only as long as a frame or other code has it. -/
theorem frames_housed {as : List (Housing.Action V E)} {h : Housing V E}
    (hrun : Run Housing.machine Housing.init as h) :
    Transition.Reachable MemoryCache.machine MemoryCache.State.empty h.memory ∧
      (∀ f, h.runtime.IsAllocated f → h.memory.live (h.block f) = some (h.size f) ∧
        (h.size f).toNat ≤ (h.memory.capacity (h.block f)).toNat) ∧
      (∀ f g, h.runtime.IsAllocated f → h.runtime.IsAllocated g → h.block f = h.block g → f = g) ∧
      ∀ b, h.memory.live b ≠ none →
        h.other b = true ∨ ∃ f, h.runtime.IsAllocated f ∧ h.block f = b := by
  have hh : h.Housed := hrun.invariant Housing.Housed.init fun _ _ hh hx => hh.next hx
  refine ⟨hh.memory, fun f hf => ⟨hh.sized f hf, ?_⟩, fun f g hf hg hb => ?_, fun b hb => ?_⟩
  · rw [(Housing.sound_of_reachable hh.memory).2.live _ _ (hh.sized f hf)]
    exact MemoryCache.le_room _
  · have hfb := Housing.has_frame hf
    rw [hb] at hfb
    exact Sum.inl.inj (hh.tenancy.apart _ _ _ hfb (Housing.has_frame hg))
  · obtain ⟨i, hi⟩ := hh.tenancy.used b hb
    cases i with
    | inl f =>
        simp only [Housing.has] at hi
        split_ifs at hi with hf
        exact Or.inr ⟨f, hf, Option.some.inj hi⟩
    | inr d =>
        simp only [Housing.has] at hi
        split_ifs at hi with hd
        exact Or.inl (Option.some.inj hi ▸ hd)

/-- A detached coroutine awaits a promise that returns at once. The frame of the callee is allocated
    by one thread and freed by another, and reused by other code. -/
def migrating : List (Housing.Action Unit Unit) :=
  [.cache (.construct 0), .cache (.construct 1), .step (.detach [] none false) 0 200,
    .cache (.alloc 0 64), .step (.create none) 0 300, .step (.awaitPromise 0 1) 0 0,
    .step (.coReturn 1 (.returned () none)) 0 0, .step (.awaitResume 0) 0 0, .step (.destroy 1) 1 0,
    .cache (.alloc 1 320), .step (.coReturn 0 (.returned () none)) 0 0, .cache (.free 0 1 64),
    .cache (.free 1 2 320)]

/-- Before the callee is destroyed, both frames have a block. -/
theorem frames_housed_migrating :
    let h := Housing.machine.exec Housing.init (migrating.take 7)
    h.memory.live (h.block 0) = some (h.size 0) ∧ h.block 0 ≠ h.block 1 := by
  have hrun := Run.of_legal (show Housing.machine.Legal Housing.init (migrating.take 7) by decide)
  exact ⟨((frames_housed hrun).2.1 0 (by decide)).1,
    fun hb => absurd ((frames_housed hrun).2.2.1 0 1 (by decide) (by decide) hb) (by decide)⟩

/-- **No memory is leaked** with the frames: when a run is over in which no hand-back was lost, only
    coroutines that were called and never awaited, the frame of `coro::main` and other code have
    blocks. -/
theorem frames_returned {as : List (Housing.Action V E)} {h : Housing V E}
    (hrun : Run Housing.machine Housing.init as h) (hq : Quiescent h.runtime)
    (hl : Along Coro.runtime (fun s a => ¬ LosesHandBack s a) State.init (Housing.steps as))
    (b : Nat) (hb : h.memory.live b ≠ none) :
    h.other b = true ∨ ∃ f, h.block f = b ∧ ((h.runtime.frame f).phase = .initial ∨
      (h.runtime.frame f).kind = .main ∧ (h.runtime.frame f).phase = .parked) := by
  have hh : h.Housed := hrun.invariant Housing.Housed.init fun _ _ hh hx => hh.next hx
  obtain ⟨i, hi⟩ := hh.tenancy.used b hb
  cases i with
  | inr d =>
      simp only [Housing.has] at hi
      split_ifs at hi with hd
      exact Or.inl (Option.some.inj hi ▸ hd)
  | inl f =>
      simp only [Housing.has] at hi
      split_ifs at hi with hf
      refine Or.inr ⟨f, Option.some.inj hi, ?_⟩
      rcases hq.accounted (Housing.run_steps hrun) hl f with hp | hp | hp | hp
      · exact absurd hp (hh.runtime.inherits.born f hf.1)
      · exact Or.inl hp
      · exact absurd hp hf.2
      · exact Or.inr hp

/-- And another coroutine is called, but never awaited. -/
def neverAwaited : List (Housing.Action Unit Unit) := migrating ++ [.step (.create none) 0 100]

def afterNeverAwaited : Housing Unit Unit := Housing.machine.exec Housing.init neverAwaited

theorem run_neverAwaited : Run Housing.machine Housing.init neverAwaited afterNeverAwaited :=
  .of_legal (by decide)

theorem live_neverAwaited :
    afterNeverAwaited.memory.live (afterNeverAwaited.block 2) ≠ none := by decide +kernel

theorem frames_returned_neverAwaited :
    afterNeverAwaited.other (afterNeverAwaited.block 2) = true ∨
      ∃ f, afterNeverAwaited.block f = afterNeverAwaited.block 2 ∧
        ((afterNeverAwaited.runtime.frame f).phase = .initial ∨
          (afterNeverAwaited.runtime.frame f).kind = .main ∧
            (afterNeverAwaited.runtime.frame f).phase = .parked) :=
  frames_returned run_neverAwaited (by decide) (by decide) _ live_neverAwaited

end WebAsio.Coro
