import WebAsio.Coro.Destruction

set_option autoImplicit false

/-! # The end of `detail::main`

The locals of `detail::main` are destroyed in reverse order: `coro`, whose destructor destroys the
frame of `co_main` by its raw handle, and then `ioc`, which drops all pending handlers. A handler
that `co_main` waits for owns the innermost of its callees, whose `caller` leads to the same frame.

The bootstrap runs the runtime until the run loop returns and then takes the steps of the two
destructors. The proof compares it with a runtime in which `coro` was not destroyed: as long as no
dropped handler is one that `co_main` waits for, the two differ in that frame alone. -/

namespace WebAsio.Coro

open State

variable {V E : Type}

/-- Where `detail::main` is: before `co_main` was called, inside the run loop, past it, or running
    the destructors. -/
inductive Stage
  | booting
  | looping
  | leaving
  | destroying
  deriving DecidableEq

/-- The runtime and the bootstrap; `coro` is the handle of the local of that name. -/
structure Bootstrap (V E : Type) where
  state : State V E
  stage : Stage
  coro : FrameId

inductive Bootstrap.Action (V E : Type)
  /-- `co_main` is called and resumed -/
  | start (ioc : Nat)
  /-- a step of a thread while the run loop serves the context -/
  | run (a : Coro.Action V E)
  /-- the run loop returns, for whatever reason -/
  | leave
  /-- `coro::main::~main` calls `handle_.destroy()` -/
  | destroyCoro
  /-- the destructor of `ioc` drops the handler `h` -/
  | drop (h : SuspId)
  /-- the destructors go on: a frame or a handler that belongs to a destroyed frame is destroyed -/
  | unwind (a : Coro.Action V E)

/-- What the destruction of a frame brings about. -/
def Action.Unwinds (s : State V E) : Action V E → Prop
  | .destroy _ | .discard _ => True
  | .drop h => (s.susp h).stage = .dropping
  | _ => False

instance (s : State V E) (a : Action V E) : Decidable (a.Unwinds s) :=
  match a with
  | .destroy _ | .discard _ => .isTrue trivial
  | .drop h => inferInstanceAs (Decidable ((s.susp h).stage = .dropping))
  | .detach .. | .startMain .. | .create .. | .awaitPromise .. | .awaitDeferred ..
  | .awaitTimer .. | .awaitAwait .. | .startAwait .. | .awaitDispatch .. | .awaitPost ..
  | .initiationThrows .. | .initiationReturns .. | .resumeAwaiting .. | .finalResumeAwaiting ..
  | .awaitResume .. | .setValue .. | .dispatchEnter .. | .plainResume .. | .resumeCompleted ..
  | .handlerResume .. | .trampolineInvoke .. | .trampolineReturn .. | .coReturn .. | .release ..
  | .retain .. | .unwind .. => .isFalse id

namespace Bootstrap

def initial : Bootstrap V E := ⟨State.init, .booting, 0⟩

def Enabled (B : Bootstrap V E) : Action V E → Prop
  | .start _ => B.stage = .booting
  | .run a => B.stage = .looping ∧ (∀ i, a ≠ .startMain i) ∧ B.state.Enabled a
  | .leave => B.stage = .looping
  | .destroyCoro => B.stage = .leaving
  | .drop h => B.stage = .destroying ∧ (B.state.susp h).stage = .asio
  | .unwind a => B.stage = .destroying ∧ a.Unwinds B.state ∧ B.state.Enabled a

instance (a : Coro.Action V E) : Decidable (∀ i, a ≠ .startMain i) :=
  match a with
  | .startMain i => .isFalse fun h => h i rfl
  | .detach .. | .create .. | .discard .. | .awaitPromise .. | .awaitDeferred .. | .awaitTimer ..
  | .awaitAwait .. | .startAwait .. | .awaitDispatch .. | .awaitPost .. | .initiationThrows ..
  | .initiationReturns .. | .resumeAwaiting .. | .finalResumeAwaiting .. | .awaitResume ..
  | .setValue .. | .dispatchEnter .. | .plainResume .. | .resumeCompleted .. | .handlerResume ..
  | .drop .. | .trampolineInvoke .. | .trampolineReturn .. | .coReturn .. | .destroy ..
  | .release .. | .retain .. | .unwind .. =>
    .isTrue fun _ h => by cases h

instance (B : Bootstrap V E) (a : Action V E) : Decidable (B.Enabled a) := by
  cases a <;> unfold Enabled <;> infer_instance

def next (B : Bootstrap V E) : Action V E → Bootstrap V E
  | .start i => ⟨B.state.next (.startMain i), .looping, B.state.nextFrame⟩
  | .run a => { B with state := B.state.next a }
  | .leave => { B with stage := .leaving }
  | .destroyCoro => { B with state := B.state.destroyHandle B.coro, stage := .destroying }
  | .drop h => { B with state := B.state.next (.drop h) }
  | .unwind a => { B with state := B.state.next a }

def machine : Transition.System (Bootstrap V E) (Action V E) := ⟨Enabled, next⟩

instance (B : Bootstrap V E) (a : Action V E) : Decidable (machine.enabled B a) :=
  inferInstanceAs (Decidable (B.Enabled a))

/-- No frame was destroyed twice, no handle misused and no `resume_context` touched late. -/
structure Intact (B : Bootstrap V E) : Prop where
  destroyed : ∀ f, (B.state.frame f).destroyed ≤ 1
  handles : ∀ f, Fault.destroyed f ∉ B.state.faults
  contexts : ∀ h, Fault.staleContext h ∉ B.state.faults

end Bootstrap

/-- A destruction is under way that will reach the frame `m`. -/
def State.Condemned (s : State V E) (m : FrameId) : Prop :=
  ∃ f, s.WaitsFor f m ∧ ((s.frame f).phase = .destroying ∨
    ∃ h, (s.susp h).stage = .dropping ∧ (s.susp h).kind ≠ .callback ∧ (s.susp h).handle = f)

/-- When `coro` is destroyed, `co_main` is at its final suspension point or suspended, and no
    destruction under way leads to it; no handler dropped after that is one that it waits for. -/
def Bootstrap.Orderly (B : Bootstrap V E) : Bootstrap.Action V E → Prop
  | .destroyCoro =>
    ((B.state.frame B.coro).phase = .parked ∨ (B.state.frame B.coro).phase = .suspended) ∧
      ¬ B.state.Condemned B.coro
  | .drop h => ¬ B.state.WaitsFor (B.state.susp h).handle B.coro
  | _ => True

/-! ## Changing one frame commutes with the destructors -/

namespace State

variable {s : State V E} {m : FrameId} {g : Frame V E → Frame V E}

theorem modFrame_comm {f : FrameId} (hf : f ≠ m) (g' : Frame V E → Frame V E) :
    (s.modFrame m g).modFrame f g' = (s.modFrame f g').modFrame m g := by
  unfold modFrame
  simp only [Function.update_of_ne hf, Function.update_of_ne hf.symm, Function.update_comm hf]

theorem destroyHandle_comm {f : FrameId} (hf : f ≠ m) :
    (s.modFrame m g).destroyHandle f = (s.destroyHandle f).modFrame m g := by
  have hframe : (s.modFrame m g).frame f = s.frame f := by rw [modFrame_frame, if_neg hf]
  unfold destroyHandle
  rw [hframe]
  cases (s.frame f).phase <;> first | exact modFrame_comm hf _ | rfl

theorem touch_comm {h : SuspId} (hframe : (s.susp h).frame ≠ m) (hhandle : (s.susp h).handle ≠ m) :
    (s.modFrame m g).touch h = (s.touch h).modFrame m g := by
  have hlive : (s.modFrame m g).contextLive h = s.contextLive h := by
    unfold contextLive
    simp only [modFrame_susp, modFrame_frame, if_neg hframe, if_neg hhandle]
  unfold touch
  rw [hlive]
  cases s.contextLive h <;> rfl

theorem modSusp_comm (h : SuspId) (k : Suspension V E → Suspension V E) :
    (s.modFrame m g).modSusp h k = (s.modSusp h k).modFrame m g := rfl

theorem endBy_comm (h : SuspId) (p : Party) (d : Deed) :
    (s.modFrame m g).endBy h p d = (s.endBy h p d).modFrame m g := rfl

/-- A handler of user code destroys no frame. -/
theorem handlerDrop_comm_callback {h : SuspId} (hk : (s.susp h).kind = .callback) :
    (s.modFrame m g).handlerDrop h = (s.handlerDrop h).modFrame m g := by
  simp only [handlerDrop, modFrame_susp, hk, AwaitKind.hasContext]
  rfl

theorem handlerDrop_comm {h : SuspId} (hframe : (s.susp h).frame ≠ m)
    (hhandle : (s.susp h).handle ≠ m) :
    (s.modFrame m g).handlerDrop h = (s.handlerDrop h).modFrame m g := by
  simp only [handlerDrop, modFrame_susp, touch_comm hframe hhandle, modSusp_comm, endBy_comm,
    destroyHandle_comm hhandle]
  cases (s.susp h).kind.hasContext with
  | true =>
      simp only [if_true]
      split_ifs <;> rfl
  | false =>
      rw [if_neg Bool.false_ne_true, if_neg Bool.false_ne_true]
      split_ifs <;> rfl

theorem destroyFrame_comm {f : FrameId} (hf : f ≠ m) (hcaller : (s.frame f).caller ≠ some m) :
    (s.modFrame m g).destroyFrame f = (s.destroyFrame f).modFrame m g := by
  have hframe : (s.modFrame m g).frame f = s.frame f := by rw [modFrame_frame, if_neg hf]
  simp only [destroyFrame, hframe, modFrame_comm hf, modFrame_susp, modSusp_comm]
  cases (s.frame f).awaiter with
  | bridge c h =>
      have hkeep : ∀ u : State V E, (if (s.susp h).stage = .held f then
            (u.modFrame m g).modSusp h fun r => { r with stage := .dropping }
          else u.modFrame m g) =
          (if (s.susp h).stage = .held f then u.modSusp h fun r => { r with stage := .dropping }
            else u).modFrame m g := fun u => by split_ifs <;> rfl
      cases hc : (s.frame f).caller with
      | none => exact hkeep _
      | some x =>
          have hx : x ≠ m := fun he => hcaller (he ▸ hc)
          exact (congrArg (destroyHandle · x) (hkeep _)).trans (destroyHandle_comm hx)
  | _ =>
      cases hc : (s.frame f).caller with
      | none => rfl
      | some x => exact destroyHandle_comm fun he => hcaller (he ▸ hc)

/-! ## Who waits for whom -/

theorem WaitsFor.trans {f x y : FrameId} (h : s.WaitsFor f x) (h' : s.WaitsFor x y) :
    s.WaitsFor f y := by
  induction h' with
  | refl => exact h
  | called hc _ ih => exact .called hc ih
  | bridged hk hcb _ ih => exact .bridged hk hcb ih

/-- What is destroyed takes its links along. -/
theorem WaitsFor.mono {s' : State V E}
    (hcaller : ∀ c x, (s'.frame c).caller = some x → (s.frame c).caller = some x)
    (hheld : ∀ k y, (s'.susp k).stage = .held y → (s.susp k).stage = .held y ∧
      (s'.susp k).kind = (s.susp k).kind ∧ (s'.susp k).handle = (s.susp k).handle)
    {f x : FrameId} (h : s'.WaitsFor f x) : s.WaitsFor f x := by
  induction h with
  | refl => exact .refl
  | called hc _ ih => exact .called (hcaller _ _ hc) ih
  | bridged hk hcb _ ih =>
      obtain ⟨hst, hkind, hhandle⟩ := hheld _ _ hk
      rw [hhandle]
      exact .bridged hst (hkind ▸ hcb) ih

/-- What is dropped spares `m` unless `m` waits for it. -/
theorem handlerDrop_spares {h : SuspId} (hm : ¬ s.Condemned m)
    (hw : (s.susp h).kind = .callback ∨ ¬ s.WaitsFor (s.susp h).handle m) :
    ¬ (s.handlerDrop h).Condemned m := by
  have hcaller : ∀ x, ((s.handlerDrop h).frame x).caller = (s.frame x).caller := by
    intro x
    rcases s.handlerDrop_frame h x with hx | ⟨_, _, hx⟩ <;> rw [hx]
  have hsusp : ∀ k, ((s.handlerDrop h).susp k).kind = (s.susp k).kind ∧
      ((s.handlerDrop h).susp k).handle = (s.susp k).handle ∧
      (((s.handlerDrop h).susp k).stage = (s.susp k).stage ∨
        ((s.handlerDrop h).susp k).stage = .gone) := by
    intro k
    simp only [handlerDrop]
    split_ifs <;> by_cases hk : k = h <;> simp [hk, Suspension.endBy]
  rintro ⟨f, hf, hp⟩
  have hf : s.WaitsFor f m := by
    refine hf.mono (fun c x hc => (hcaller c) ▸ hc) fun k y hk => ?_
    obtain ⟨hkind, hhandle, hst | hst⟩ := hsusp k
    · exact ⟨hst ▸ hk, hkind, hhandle⟩
    · rw [hst] at hk
      cases hk
  rcases hp with hp | ⟨k, hst, hcb, rfl⟩
  · rcases s.handlerDrop_frame h f with hx | ⟨hk, rfl, _⟩
    · exact hm ⟨f, hf, Or.inl (hx ▸ hp)⟩
    · exact hw.elim hk fun hw => hw hf
  · obtain ⟨hkind, hhandle, hst' | hst'⟩ := hsusp k
    · exact hm ⟨_, hf, Or.inr ⟨k, hst' ▸ hst, hkind ▸ hcb, hhandle.symm⟩⟩
    · rw [hst'] at hst
      cases hst

/-- The destruction of a frame is carried out: it spreads to what waits for the frame. -/
theorem destroyFrame_spares {f : FrameId} (hm : ¬ s.Condemned m)
    (hf : (s.frame f).phase = .destroying) (hc : (s.frame f).caller ≠ some f) :
    ¬ (s.destroyFrame f).Condemned m := by
  have hfm : ¬ s.WaitsFor f m := fun h => hm ⟨f, h, Or.inl hf⟩
  have hsusp : ∀ k, (s.destroyFrame f).susp k = s.susp k ∨ (s.susp k).stage = .held f ∧
      (s.destroyFrame f).susp k = { s.susp k with stage := .dropping } := by
    intro k
    by_cases hst : (s.susp k).stage = .held f
    · cases haw : (s.frame f).awaiter with
      | bridge c j =>
          by_cases hkj : k = j
          · exact Or.inr ⟨hst, s.destroyFrame_susp_held (hkj ▸ haw) hst⟩
          · left
            cases hg : (s.frame f).caller <;> simp only [destroyFrame, haw, hg] <;>
              split_ifs <;> simp [hkj]
      | _ => exact Or.inl (by cases hg : (s.frame f).caller <;> simp [destroyFrame, haw, hg])
    · exact Or.inl (s.destroyFrame_susp_other hst)
  rintro ⟨x, hx, hp⟩
  have hx : s.WaitsFor x m := by
    refine hx.mono (fun c y hcy => ?_) fun k y hk => ?_
    · rw [s.destroyFrame_frame hc] at hcy
      split_ifs at hcy
      · exact hcy
      · exact hcy
    · rcases hsusp k with h | ⟨_, h⟩
      · rw [h] at hk ⊢
        exact ⟨hk, rfl, rfl⟩
      · rw [h] at hk
        cases hk
  rcases hp with hp | ⟨k, hst, hcb, rfl⟩
  · rw [s.destroyFrame_frame hc] at hp
    split_ifs at hp with hxf hxc
    · exact hfm (WaitsFor.trans (.called hxc .refl) hx)
    · exact hm ⟨x, hx, Or.inl hp⟩
  · rcases hsusp k with h | ⟨hk, h⟩
    · rw [h] at hst hcb hx
      exact hm ⟨_, hx, Or.inr ⟨k, hst, hcb, rfl⟩⟩
    · rw [h] at hcb hx
      exact hfm (WaitsFor.trans (.bridged hk hcb .refl) hx)

end State

/-! ## The two destructors -/

open Custody

namespace Accounts

variable {s : State V E} {b : Book FrameId SuspId} {m : FrameId}

/-- The frame of `co_main` has no caller. -/
theorem main_caller (r : Accounts s b) (hm : (s.frame m).kind = .main)
    (hp : (s.frame m).phase = .parked ∨ (s.frame m).phase = .suspended) :
    (s.frame m).caller = none ∧ ∀ c h, (s.frame m).awaiter ≠ .bridge c h := by
  have hfits := r.custodian.fits m
  cases hb : b.status m <;> simp only [hb, Frame.Fits] at hfits <;> grind [Frame.Started]

/-- The frame of `co_main` stays what it is. -/
theorem main_step (r : Accounts s b) {a : Action V E} (ha : s.Enabled a)
    (hm : (s.frame m).kind = .main) : ((s.next a).frame m).kind = .main := by
  have hn : m ≠ s.nextFrame := by
    rintro rfl
    rw [r.custodian.unborn_frame (Nat.le_refl _)] at hm
    cases hm
  rcases next_retains (a := a) hn with h | ⟨ex, _, h⟩ | ⟨f, rfl⟩
  · rw [h.kind, hm]
  · rw [h.kind]
    exact hm
  · have hfresh : s.isFresh m = true := ha.2
    simp [isFresh, hm] at hfresh

/-- No awaitable in the frame of `co_main` belongs to a handler of another coroutine. -/
theorem context_ne_main (r : Accounts s b) (hm : (s.frame m).kind = .main) {h : SuspId}
    (ho : (s.susp h).isOpen = true) (hcb : (s.susp h).kind ≠ .callback)
    (hh : (s.susp h).handle ≠ m) : (s.susp h).frame ≠ m := by
  have hl := r.custodian.leased_of_open ho hcb
  rcases hfin : (s.susp h).kind.isFinal with _ | _
  · rw [(r.custodian.own _ h hl hfin).1]
    exact hh
  · rintro rfl
    have hspent := (r.custodian.final _ h hl hfin).2.2.1
    have hfits := r.custodian.fits (s.susp h).frame
    rw [hspent] at hfits
    rw [hfits.1] at hm
    cases hm

/-- Nobody waits for a promise that was never awaited. -/
theorem fresh_spares (r : Accounts s b) (hm : (s.frame m).kind = .main) {c : FrameId}
    (hc : s.isFresh c = true) : ¬ s.WaitsFor c m := by
  obtain ⟨hp, hk⟩ : (s.frame c).phase = .initial ∧ (s.frame c).kind = .promise := by
    simpa [isFresh] using hc
  have hfits := r.custodian.fits c
  rw [r.custodian.fresh_of_initial hp] at hfits
  have halone : ∀ x, s.WaitsFor c x → x = c := by
    intro x hx
    induction hx with
    | refl => rfl
    | called hcall _ ih =>
        rw [ih, hfits.2.2.2] at hcall
        cases hcall
    | @bridged k y hst _ _ ih =>
        obtain ⟨⟨d, hd⟩, _⟩ := (r.custodian.held y k).mp hst
        rw [ih, hfits.2.2.1] at hd
        cases hd
  intro hw
  rw [halone m hw, hk] at hm
  cases hm

/-- Nobody waits on behalf of a `co_main` that has returned. -/
theorem parked_alone (r : Accounts s b) (hp : (s.frame m).phase = .parked) :
    (∀ f, s.WaitsFor f m → f = m) ∧
      ∀ h, (s.susp h).isOpen = true → (s.susp h).kind ≠ .callback → (s.susp h).handle ≠ m := by
  have hfits := r.custodian.fits m
  have hopen : ∀ h, (s.susp h).isOpen = true → (s.susp h).kind ≠ .callback →
      (s.susp h).handle ≠ m := by
    rintro h ho hcb rfl
    rw [r.custodian.leased_of_open ho hcb] at hfits
    rcases hfits.2 with hp' | hp' <;> rw [hp] at hp' <;> cases hp'
  refine ⟨fun f hf => ?_, hopen⟩
  suffices H : ∀ x, s.WaitsFor f x → x = m → f = m from H m hf rfl
  intro x hx
  cases hx with
  | refl => exact id
  | called hc _ =>
      rintro rfl
      rw [(r.custodian.owned _ _).mpr hc] at hfits
      have hsuspended := hfits.2.1
      rw [hp] at hsuspended
      cases hsuspended
  | bridged hst hcb _ =>
      exact fun he => absurd he (hopen _ (by simp [Suspension.isOpen, hst]) hcb)

end Accounts

namespace Bootstrap

/-- Before the destructors run, `coro` has the frame of `co_main`. -/
structure Serving (B : Bootstrap V E) : Prop where
  accounts : ∃ b, Accounts B.state b
  counted : ∀ x, (B.state.frame x).Counted
  main : B.stage ≠ .booting → (B.state.frame B.coro).kind = .main

/-- But for the frame of `co_main`, now `fr`, the state is `s`, where that frame still is what it
    was before the destructors, `main`, and where no destruction reaches it. -/
structure Shadowed (B : Bootstrap V E) (s : State V E) (fr main : Frame V E) : Prop where
  state : B.state = s.modFrame B.coro fun _ => fr
  phase : fr.phase = .destroying ∨ fr.phase = .destroyed
  counted : fr.Counted
  alone : fr.caller = none ∧ ∀ c h, fr.awaiter ≠ .bridge c h
  accounts : ∃ b, Accounts s b
  others : ∀ x, (s.frame x).Counted
  frame : s.frame B.coro = main
  kind : main.kind = .main
  caller : main.caller = none
  spared : ¬ s.Condemned B.coro

/-- The invariant; `P` holds of the frame of `co_main` when the destructors start. -/
def Sound (P : Frame V E → Prop) (B : Bootstrap V E) : Prop :=
  (B.stage ≠ .destroying ∧ B.Serving) ∨
    (B.stage = .destroying ∧ ∃ s fr main, B.Shadowed s fr main ∧ P main)

theorem Serving.step {B : Bootstrap V E} (h : B.Serving) {a : Coro.Action V E}
    (ha : B.state.Enabled a) : Serving { B with state := B.state.next a } := by
  obtain ⟨b, r⟩ := h.accounts
  obtain ⟨b', _, r'⟩ := r.step ha
  exact ⟨⟨b', r'⟩, r.counted_step ha h.counted, fun hb => r.main_step ha (h.main hb)⟩

/-- `coro` is destroyed: the shadow is the state before. -/
theorem Serving.destroyCoro {B : Bootstrap V E} (h : B.Serving) (hst : B.stage = .leaving)
    (hp : (B.state.frame B.coro).phase = .parked ∨ (B.state.frame B.coro).phase = .suspended)
    (hspared : ¬ B.state.Condemned B.coro) :
    ∃ s fr, Shadowed { B with state := B.state.destroyHandle B.coro, stage := .destroying } s fr
      (B.state.frame B.coro) := by
  obtain ⟨b, r⟩ := h.accounts
  have hm := h.main (by simp [hst])
  have hcaller := r.main_caller hm hp
  refine ⟨B.state, { B.state.frame B.coro with phase := .destroying }, ?_, Or.inl rfl, ?_, hcaller,
    ⟨b, r⟩, h.counted, rfl, hm, hcaller.1, hspared⟩
  · exact B.state.destroyHandle_of (hp.elim (fun h => Or.inr (Or.inr h)) fun h => Or.inr (Or.inl h))
  · have hcount := h.counted B.coro
    unfold Frame.Counted at hcount ⊢
    rw [if_neg (by rcases hp with hp | hp <;> rw [hp] <;> simp)] at hcount
    rw [if_neg (by simp)]
    exact hcount

/-- A step that the shadow takes as well. -/
theorem Shadowed.step {B : Bootstrap V E} {s : State V E} {fr main : Frame V E}
    (h : B.Shadowed s fr main) {a : Coro.Action V E} (ha : s.Enabled a)
    (hcomm : B.state.next a = (s.next a).modFrame B.coro fun _ => fr)
    (hspared : ¬ (s.next a).Condemned B.coro) (hsame : (s.next a).frame B.coro = s.frame B.coro) :
    Shadowed { B with state := B.state.next a } (s.next a) fr main := by
  obtain ⟨b, r⟩ := h.accounts
  obtain ⟨b', _, r'⟩ := r.step ha
  exact ⟨hcomm, h.phase, h.counted, h.alone, ⟨b', r'⟩, r.counted_step ha h.others,
    hsame.trans h.frame, h.kind, h.caller, hspared⟩

theorem Shadowed.drop {B : Bootstrap V E} {s : State V E} {fr main : Frame V E}
    (h : B.Shadowed s fr main) {k : SuspId} (ha : s.Enabled (.drop k))
    (hw : (s.susp k).kind = .callback ∨ ¬ s.WaitsFor (s.susp k).handle B.coro) :
    Shadowed { B with state := B.state.next (.drop k) } (s.next (.drop k)) fr main := by
  obtain ⟨b, r⟩ := h.accounts
  have hhandle : (s.susp k).kind ≠ .callback → (s.susp k).handle ≠ B.coro := fun hcb he =>
    hw.elim hcb fun hw => hw (he ▸ .refl)
  refine h.step ha ?_ (handlerDrop_spares h.spared hw) ?_
  · rw [h.state]
    by_cases hcb : (s.susp k).kind = .callback
    · exact handlerDrop_comm_callback hcb
    · have ho : (s.susp k).isOpen = true := by
        rcases ha with hst | hst <;> simp [Suspension.isOpen, hst]
      have hm : (s.frame B.coro).kind = .main := by rw [h.frame, h.kind]
      exact handlerDrop_comm (r.context_ne_main hm ho hcb (hhandle hcb)) (hhandle hcb)
  · rcases s.handlerDrop_frame k B.coro with hx | ⟨hcb, hx, _⟩
    · exact hx
    · exact absurd hx.symm (hhandle hcb)

/-- Another frame is destroyed. -/
theorem Shadowed.destroy {B : Bootstrap V E} {s : State V E} {fr main : Frame V E}
    (h : B.Shadowed s fr main) {f : FrameId} (hf : f ≠ B.coro) (ha : s.Enabled (.destroy f)) :
    Shadowed { B with state := B.state.next (.destroy f) } (s.next (.destroy f)) fr main := by
  obtain ⟨b, r⟩ := h.accounts
  have hc := r.custodian.caller_ne ha
  have hp : (s.frame f).phase = .destroying := ha
  have hcoro : (s.frame f).caller ≠ some B.coro := fun he =>
    h.spared ⟨f, .called he .refl, Or.inl hp⟩
  refine h.step ha ?_ (destroyFrame_spares h.spared hp hc) ?_
  · rw [h.state]
    exact destroyFrame_comm hf hcoro
  · show (s.destroyFrame f).frame B.coro = s.frame B.coro
    rw [s.destroyFrame_frame hc, if_neg hf.symm, if_neg hcoro]

/-- The frame of `co_main` is destroyed. -/
theorem Shadowed.destroyMain {B : Bootstrap V E} {s : State V E} {fr main : Frame V E}
    (h : B.Shadowed s fr main) (ha : B.state.Enabled (.destroy B.coro)) :
    ∃ fr', Shadowed { B with state := B.state.next (.destroy B.coro) } s fr' main := by
  have hfr : B.state.frame B.coro = fr := by rw [h.state, modFrame_frame, if_pos rfl]
  have hp : fr.phase = .destroying := hfr ▸ ha
  have hstate : B.state.next (.destroy B.coro) = s.modFrame B.coro fun _ =>
      { fr with phase := .destroyed, awaiter := .none, caller := none, sharedThis := none,
                destroyed := fr.destroyed + 1 } := by
    show B.state.destroyFrame B.coro = _
    simp only [destroyFrame, hfr, h.alone.1]
    have hmod : (B.state.modFrame B.coro fun fr : Frame V E =>
        { fr with phase := .destroyed, awaiter := .none, caller := none, sharedThis := none,
                  destroyed := fr.destroyed + 1 }) = s.modFrame B.coro fun _ =>
        { fr with phase := .destroyed, awaiter := .none, caller := none, sharedThis := none,
                  destroyed := fr.destroyed + 1 } := by
      rw [h.state]
      simp only [modFrame, Function.update_self, Function.update_idem]
    cases haw : fr.awaiter with
    | bridge c k => exact absurd haw (h.alone.2 c k)
    | _ => exact hmod
  have hcount := h.counted
  unfold Frame.Counted at hcount
  rw [if_neg (by simp [hp])] at hcount
  exact ⟨_, hstate, Or.inr rfl, congrArg (· + 1) hcount, ⟨rfl, by simp⟩, h.accounts, h.others,
    h.frame, h.kind, h.caller, h.spared⟩

/-- A promise that was never awaited is destroyed. -/
theorem Shadowed.discard {B : Bootstrap V E} {s : State V E} {fr main : Frame V E}
    (h : B.Shadowed s fr main) {c : FrameId} (hc : c ≠ B.coro) (ha : s.Enabled (.discard c)) :
    Shadowed { B with state := B.state.next (.discard c) } (s.next (.discard c)) fr main := by
  obtain ⟨b, r⟩ := h.accounts
  have hm : (s.frame B.coro).kind = .main := by rw [h.frame, h.kind]
  have hframe : ∀ x, (s.destroyHandle c).frame x = s.frame x ∨ x = c ∧ (s.destroyHandle c).frame x =
      { s.frame x with phase := (s.frame x).phase.afterDestroy } := by
    intro x
    rw [destroyHandle_frame]
    split_ifs with hx
    · exact Or.inr ⟨hx, by rw [hx]⟩
    · exact Or.inl rfl
  refine h.step ha ?_ ?_ ?_
  · rw [h.state]
    exact destroyHandle_comm hc
  · rintro ⟨f, hf, hp⟩
    have hf : s.WaitsFor f B.coro := by
      refine hf.mono (fun x y hxy => ?_) fun k y hk => ?_
      · rcases hframe x with hx | ⟨_, hx⟩
        · exact (congrArg Frame.caller hx).symm.trans hxy
        · exact (congrArg Frame.caller hx).symm.trans hxy
      · exact ⟨(congrArg Suspension.stage (s.destroyHandle_susp c k)).symm.trans hk,
          congrArg Suspension.kind (s.destroyHandle_susp c k),
          congrArg Suspension.handle (s.destroyHandle_susp c k)⟩
    rcases hp with hp | ⟨k, hst, hcb, rfl⟩
    · rcases hframe f with hx | ⟨hfc, _⟩
      · exact h.spared ⟨f, hf, Or.inl ((congrArg Frame.phase hx).symm.trans hp)⟩
      · exact r.fresh_spares hm ha (hfc ▸ hf)
    · have hk : (s.next (.discard c)).susp k = s.susp k := s.destroyHandle_susp c k
      rw [hk] at hst hcb hf
      exact h.spared ⟨_, hf, Or.inr ⟨k, hst, hcb, rfl⟩⟩
  · rcases hframe B.coro with hx | ⟨hx, _⟩
    · exact hx
    · exact absurd hx.symm hc

theorem Shadowed.intact {B : Bootstrap V E} {s : State V E} {fr main : Frame V E}
    (h : B.Shadowed s fr main) : B.Intact := by
  obtain ⟨b, r⟩ := h.accounts
  have hcount : ∀ fr : Frame V E, fr.Counted → fr.destroyed ≤ 1 := by
    intro fr hfr
    rw [hfr]
    split_ifs <;> omega
  have hfaults : B.state.faults = s.faults := by rw [h.state, modFrame_faults]
  refine ⟨fun f => ?_, fun f hf => ?_, fun k hk => ?_⟩
  · rw [h.state, modFrame_frame]
    split_ifs
    · exact hcount _ h.counted
    · exact hcount _ (h.others f)
  · obtain ⟨x, hx⟩ := r.faults _ (hfaults ▸ hf)
    cases hx
  · obtain ⟨x, hx⟩ := r.faults _ (hfaults ▸ hk)
    cases hx

theorem Serving.intact {B : Bootstrap V E} (h : B.Serving) : B.Intact := by
  obtain ⟨b, r⟩ := h.accounts
  refine ⟨fun f => ?_, fun f hf => ?_, fun k hk => ?_⟩
  · rw [h.counted f]
    split_ifs <;> omega
  · obtain ⟨x, hx⟩ := r.faults _ hf
    cases hx
  · obtain ⟨x, hx⟩ := r.faults _ hk
    cases hx

theorem Sound.intact {P : Frame V E → Prop} {B : Bootstrap V E} (h : B.Sound P) : B.Intact := by
  rcases h with ⟨_, h⟩ | ⟨_, s, fr, main, h, _⟩
  · exact h.intact
  · exact h.intact

theorem Sound.initial (P : Frame V E → Prop) : Sound P (initial : Bootstrap V E) := by
  refine Or.inl
    ⟨by simp [Bootstrap.initial], ⟨Book.empty, .init⟩, fun x => ?_, fun h => absurd rfl h⟩
  exact Reachable.counted (Transition.Reachable.refl _) x

/-- What the shadow is, seen from a step of the destructors. -/
theorem Shadowed.unwind {B : Bootstrap V E} {s : State V E} {fr main : Frame V E}
    (h : B.Shadowed s fr main) {a : Coro.Action V E} (hu : a.Unwinds B.state)
    (ha : B.state.Enabled a) :
    ∃ s' fr', Shadowed { B with state := B.state.next a } s' fr' main := by
  have hsusp : ∀ k, B.state.susp k = s.susp k := fun k => by rw [h.state, modFrame_susp]
  have hframe : ∀ x, x ≠ B.coro → B.state.frame x = s.frame x := fun x hx => by
    rw [h.state, modFrame_frame, if_neg hx]
  cases a with
  | destroy f =>
      by_cases hf : f = B.coro
      · subst hf
        obtain ⟨fr', h'⟩ := h.destroyMain ha
        exact ⟨s, fr', h'⟩
      · exact ⟨_, fr, h.destroy hf ((congrArg Frame.phase (hframe f hf)).symm.trans ha)⟩
  | discard c =>
      have hc : c ≠ B.coro := by
        rintro rfl
        have hp : (B.state.frame B.coro).phase = .initial := by
          have hfresh : B.state.isFresh B.coro = true := ha
          simp only [isFresh, Bool.and_eq_true, beq_iff_eq] at hfresh
          exact hfresh.1
        rw [h.state, modFrame_frame, if_pos rfl] at hp
        rcases h.phase with hp' | hp' <;> rw [hp'] at hp <;> cases hp
      refine ⟨_, fr, h.discard hc ?_⟩
      show s.isFresh c = true
      unfold isFresh
      rw [← hframe c hc]
      exact ha
  | drop k =>
      have hst : (s.susp k).stage = .dropping := hsusp k ▸ hu
      refine ⟨_, fr, h.drop (Or.inr hst) ?_⟩
      by_cases hcb : (s.susp k).kind = .callback
      · exact Or.inl hcb
      · exact Or.inr fun hw => h.spared ⟨_, hw, Or.inr ⟨k, hst, hcb, rfl⟩⟩
  | _ => exact hu.elim

/-- Waiting is seen alike in the shadow. -/
theorem Shadowed.waitsFor {B : Bootstrap V E} {s : State V E} {fr main : Frame V E}
    (h : B.Shadowed s fr main) {f x : FrameId} (hw : s.WaitsFor f x) : B.state.WaitsFor f x := by
  refine hw.mono (fun c y hc => ?_) fun k y hk => ?_
  · by_cases hx : c = B.coro
    · rw [hx, h.frame, h.caller] at hc
      cases hc
    · rw [h.state, modFrame_frame, if_neg hx]
      exact hc
  · rw [h.state, modFrame_susp]
    exact ⟨hk, rfl, rfl⟩

theorem Shadowed.waitsFor_shadow {B : Bootstrap V E} {s : State V E} {fr main : Frame V E}
    (h : B.Shadowed s fr main) {f x : FrameId} (hw : B.state.WaitsFor f x) : s.WaitsFor f x := by
  refine hw.mono (fun c y hc => ?_) fun k y hk => ?_
  · rw [h.state, modFrame_frame] at hc
    split_ifs at hc
    · rw [h.alone.1] at hc
      cases hc
    · exact hc
  · rw [h.state, modFrame_susp] at hk ⊢
    exact ⟨hk, rfl, rfl⟩

theorem Sound.step {P : Frame V E → Prop} {B : Bootstrap V E} (h : B.Sound P) {a : Action V E}
    (ha : B.Enabled a) (ho : B.Orderly a) (hP : a = .destroyCoro → P (B.state.frame B.coro)) :
    (B.next a).Sound P := by
  cases a with
  | start i =>
      rcases h with ⟨_, h⟩ | ⟨hst, _⟩
      · obtain ⟨b, r⟩ := h.accounts
        obtain ⟨b', _, r'⟩ := r.step (a := .startMain i) trivial
        refine Or.inl ⟨by simp [Bootstrap.next], ⟨b', r'⟩,
          r.counted_step (a := .startMain i) trivial h.counted, ?_⟩
        intro _
        show ((B.state.newFrame _).frame B.state.nextFrame).kind = .main
        rw [newFrame_frame, if_pos rfl]
      · rw [show B.stage = .booting from ha] at hst
        cases hst
  | run a =>
      rcases h with ⟨hst, h⟩ | ⟨hst, _⟩
      · exact Or.inl ⟨hst, h.step ha.2.2⟩
      · rw [ha.1] at hst
        cases hst
  | leave =>
      rcases h with ⟨_, h⟩ | ⟨hst, _⟩
      · refine Or.inl ⟨by simp [Bootstrap.next], h.accounts, h.counted, fun _ => h.main ?_⟩
        rw [show B.stage = .looping from ha]
        simp
      · rw [show B.stage = .looping from ha] at hst
        cases hst
  | destroyCoro =>
      rcases h with ⟨_, h⟩ | ⟨hst, _⟩
      · obtain ⟨s, fr, h'⟩ := h.destroyCoro ha ho.1 ho.2
        exact Or.inr ⟨rfl, s, fr, _, h', hP rfl⟩
      · rw [show B.stage = .leaving from ha] at hst
        cases hst
  | drop k =>
      rcases h with ⟨hst, _⟩ | ⟨hst, s, fr, main, h, hmain⟩
      · exact absurd ha.1 hst
      · have hsusp : B.state.susp k = s.susp k := by rw [h.state, modFrame_susp]
        refine Or.inr
          ⟨hst, _, fr, main, ⟨h.drop (Or.inl (hsusp ▸ ha.2)) (Or.inr fun hw => ?_), hmain⟩⟩
        exact ho (hsusp.symm ▸ h.waitsFor hw)
  | unwind a =>
      rcases h with ⟨hst, _⟩ | ⟨hst, s, fr, main, h, hmain⟩
      · exact absurd ha.1 hst
      · obtain ⟨s', fr', h'⟩ := h.unwind ha.2.1 ha.2.2
        exact Or.inr ⟨hst, s', fr', main, h', hmain⟩

/-- `co_main` has returned when `coro` is destroyed. -/
def Finished (B : Bootstrap V E) : Action V E → Prop
  | .destroyCoro => (B.state.frame B.coro).phase = .parked
  | _ => True

theorem Sound.orderly {B : Bootstrap V E} (h : B.Sound fun main => main.phase = .parked)
    {a : Action V E} (ha : B.Enabled a) (hf : B.Finished a) : B.Orderly a := by
  cases a with
  | destroyCoro =>
      rcases h with ⟨_, h⟩ | ⟨hst, _⟩
      · obtain ⟨b, r⟩ := h.accounts
        have hp : (B.state.frame B.coro).phase = .parked := hf
        obtain ⟨halone, hopen⟩ := r.parked_alone hp
        refine ⟨Or.inl hp, ?_⟩
        rintro ⟨f, hw, hd⟩
        obtain rfl := halone f hw
        rcases hd with hd | ⟨k, hk, hcb, he⟩
        · rw [hp] at hd
          cases hd
        · exact hopen k (by simp [Suspension.isOpen, hk]) hcb he
      · rw [show B.stage = .leaving from ha] at hst
        cases hst
  | drop k =>
      rcases h with ⟨hst, _⟩ | ⟨_, s, fr, main, h, hmain⟩
      · exact absurd ha.1 hst
      · obtain ⟨b, r⟩ := h.accounts
        have hp : (s.frame B.coro).phase = .parked := by rw [h.frame, hmain]
        obtain ⟨halone, hopen⟩ := r.parked_alone hp
        intro hw
        have hsusp : B.state.susp k = s.susp k := by rw [h.state, modFrame_susp]
        have hst : (s.susp k).stage = .asio := hsusp ▸ ha.2
        have he := halone _ (h.waitsFor_shadow (hsusp ▸ hw))
        refine hopen k (by simp [Suspension.isOpen, hst]) (fun hcb => ?_) he
        rcases ((r.sound k).callback hcb).2 with ⟨x, hx⟩ | hx | hx <;> rw [hst] at hx <;> cases hx
  | _ => trivial

end Bootstrap

/-- When the destructors of `detail::main` meet no frame of the chain of `co_main` but its own, no
    frame is destroyed twice and no dropped handler touches a destroyed `resume_context`. -/
theorem entry_point_destroyed_once {as : List (Bootstrap.Action V E)} {B : Bootstrap V E}
    (h : Transition.Run Bootstrap.machine Bootstrap.initial as B)
    (ho : Transition.Along Bootstrap.machine Bootstrap.Orderly Bootstrap.initial as) :
    B.Intact :=
  (h.invariant_of (I := Bootstrap.Sound fun _ => True) ho (.initial _)
    fun _ _ hs ha ho => hs.step ha ho fun _ => trivial).intact

/-- Once `co_main` has returned, the destructors of `detail::main` are orderly. -/
theorem orderly_of_finished {as : List (Bootstrap.Action V E)} {B : Bootstrap V E}
    (h : Transition.Run Bootstrap.machine Bootstrap.initial as B)
    (hf : Transition.Along Bootstrap.machine Bootstrap.Finished Bootstrap.initial as) :
    Transition.Along Bootstrap.machine Bootstrap.Orderly Bootstrap.initial as := by
  refine h.along (J := Bootstrap.Sound fun main => main.phase = .parked) hf (.initial _)
    (fun _ _ hs ha hf => hs.orderly ha hf) fun B a hs ha hf => ?_
  refine hs.step ha (hs.orderly ha hf) ?_
  rintro rfl
  exact hf

/-- `co_main` returns while a detached coroutine waits for a timer, whose handler is then dropped.
    -/
def returnedMain : List (Bootstrap.Action Unit Unit) :=
  [.start 0, .run (.detach [] none false), .run (.awaitTimer 1), .run (.initiationReturns 1 0),
    .run (.resumeAwaiting 1 0), .run (.coReturn 0 (.returned () none)), .leave, .destroyCoro,
    .unwind (.destroy 0), .drop 0, .unwind (.destroy 1)]

theorem entry_point_destroyed_once_returned :
    (Bootstrap.machine.exec Bootstrap.initial returnedMain).Intact := by
  have hlegal : Bootstrap.machine.Legal Bootstrap.initial returnedMain := by decide
  have h := Transition.Run.of_legal hlegal
  exact entry_point_destroyed_once h (orderly_of_finished h
    ⟨trivial, trivial, trivial, trivial, trivial, trivial, trivial, rfl, trivial, trivial, trivial,
      trivial⟩)

/-- `co_main` waits for a timer in a callee, and the run loop ends. -/
def suspendedInCallee : List (Bootstrap.Action Unit Unit) :=
  [.start 0, .run (.create none), .run (.awaitPromise 0 1), .run (.awaitTimer 1),
    .run (.initiationReturns 1 0), .run (.resumeAwaiting 1 0), .leave, .destroyCoro,
    .unwind (.destroy 0), .drop 0, .unwind (.destroy 1)]

/-- `co_main` waits for a timer itself, and the run loop ends. -/
def suspendedItself : List (Bootstrap.Action Unit Unit) :=
  [.start 0, .run (.awaitTimer 0), .run (.initiationReturns 0 0), .run (.resumeAwaiting 0 0),
    .leave, .destroyCoro, .unwind (.destroy 0), .drop 0]

/-- The chain of the callee leads to the frame of `co_main`, whose handle is destroyed again; and
    the handler of the other timer touches its `resume_context` in the destroyed frame. -/
theorem entry_point_destroyed_twice :
    Bootstrap.machine.Legal Bootstrap.initial suspendedInCallee ∧
      Fault.destroyed 0 ∈
        (Bootstrap.machine.exec Bootstrap.initial suspendedInCallee).state.faults ∧
      ¬ (Bootstrap.machine.exec Bootstrap.initial suspendedInCallee).Intact ∧
      Bootstrap.machine.Legal Bootstrap.initial suspendedItself ∧
      Fault.staleContext 0 ∈
        (Bootstrap.machine.exec Bootstrap.initial suspendedItself).state.faults ∧
      ¬ (Bootstrap.machine.exec Bootstrap.initial suspendedItself).Intact :=
  ⟨by decide, by decide, fun h => absurd (by decide) (h.handles 0), by decide, by decide,
    fun h => absurd (by decide) (h.contexts 0)⟩

end WebAsio.Coro
