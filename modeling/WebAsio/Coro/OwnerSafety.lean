import WebAsio.Coro.Lifecycle

set_option autoImplicit false

/-! # The owner of a coroutine

A coroutine that is a member function of an object with `shared_from_this` holds a strong reference
to the object while its body runs. It lends the reference out while it waits for an operation: the
`completion_handler` keeps a weak one and tries to give the strong one back. -/

namespace WebAsio.Coro

open Custody State

variable {V E : Type} {s : State V E} {b : Book FrameId SuspId}

/-- The frame waits for an operation and has moved its `shared_this` away. -/
def State.Lends (s : State V E) (f : FrameId) : Prop :=
  ∃ k, (s.frame f).awaiter = .context k ∧ (s.susp k).kind.isCompletion = true ∧
    (s.susp k).isOpen = true ∧ ∀ m, (s.susp k).side ≠ .initiating m

/-- There is no body left to resume. -/
def Phase.isGone (p : Phase) : Prop := p = .unborn ∨ p = .destroying ∨ p = .destroyed

/-- Where the strong reference of each coroutine is, and where the weak one. -/
structure Guards (s : State V E) : Prop where
  lent : ∀ f, s.Lends f → (s.frame f).sharedThis = none
  kept : ∀ f, ¬ s.Lends f → ¬ (s.frame f).phase.isGone →
    (s.frame f).sharedThis = (s.frame f).thisObject
  saved : ∀ k o, (s.susp k).kind.isCompletion = true → (s.susp k).side = .exchanging o →
    o = (s.frame (s.susp k).frame).thisObject
  weak : ∀ k, (s.susp k).kind.isCompletion = true → (s.susp k).isOpen = true →
    (s.susp k).weakThis = (s.frame (s.susp k).frame).thisObject ∧
      (s.susp k).restoreSharedThis = (s.frame (s.susp k).frame).thisObject.isSome

theorem Guards.init : Guards (State.init : State V E) := by
  constructor <;> simp [State.init, State.Lends, Phase.isGone, AwaitKind.isCompletion]

/-! ## What a step does to the references -/

/-- An initiation ends by returning or by throwing. -/
theorem State.next_initiating {a : Action V E} {k : SuspId} {m : Bool}
    (hm : (s.susp k).side = .initiating m) :
    ((s.next a).susp k).side = .initiating m ∨ k = s.nextSusp ∨
      (∃ f, a = .initiationReturns f k) ∨ (∃ f e, a = .initiationThrows f k e) ∨
        (∃ f, a = .resumeAwaiting f k) ∨ ∃ f, a = .finalResumeAwaiting f k := by
  cases a <;> simp only [next]
  case initiationReturns f j => by_cases hj : k = j <;> simp [State.initiationReturns, hj, ← hm]
  case initiationThrows f j e =>
    by_cases hj : k = j <;> simp [State.initiationThrows, hj, ← hm]
  case resumeAwaiting f j =>
    by_cases hj : k = j
    · simp [hj]
    · simp only [State.resumeAwaiting]
      split_ifs <;> simp [hj, hm]
  case finalResumeAwaiting f j =>
    by_cases hj : k = j
    · simp [hj]
    · simp only [State.finalResumeAwaiting]
      split_ifs <;> simp [hj, hm]
  case coReturn f e =>
    simp only [coReturn]
    split
    · split
      · simp only [finalAwaitSuspend]
        split_ifs <;> split <;> grind
      · grind
    · grind
    · grind
  all_goals
    grind [completionAwaitSuspend, postAwaitSuspend, completionSetValue, State.dispatchEnter,
      State.resumeCompleted, State.trampolineInvoke, State.plainResume, State.trampolineReturn,
      State.handlerResume, State.handlerDrop, State.destroyFrame, State.awaitResume,
      coroAwaitSuspend_susp, awaitAwaitSuspend_susp, startAwait_susp, dispatchAwaitSuspend,
      Suspension.endBy]

/-- A reference is saved on the stack where the initiation returns. -/
theorem State.next_saved {a : Action V E} {k : SuspId} {o : Option OwnerId} (hk : k ≠ s.nextSusp)
    (hs : ((s.next a).susp k).side = .exchanging o) :
    (s.susp k).side = .exchanging o ∨
      ∃ f, a = .initiationReturns f k ∧ o = (s.frame f).sharedThis := by
  cases a <;> simp only [next] at hs
  case initiationReturns f j =>
    by_cases hj : k = j
    · subst hj
      exact .inr ⟨f, rfl, by simpa [State.initiationReturns] using hs.symm⟩
    · exact .inl (by simpa [State.initiationReturns, hj] using hs)
  case coReturn f e =>
    left
    revert hs
    simp only [coReturn]
    split
    · split
      · simp only [finalAwaitSuspend]
        split_ifs <;> split <;> grind
      · grind
    · grind
    · grind
  all_goals
    left
    revert hs
    grind [completionAwaitSuspend, postAwaitSuspend, completionSetValue, State.initiationThrows,
      State.dispatchEnter, State.resumeCompleted, State.trampolineInvoke,
      State.plainResume, State.trampolineReturn, State.resumeAwaiting, State.finalResumeAwaiting,
      State.handlerResume, State.handlerDrop, State.destroyFrame, State.awaitResume,
      coroAwaitSuspend_susp, awaitAwaitSuspend_susp, startAwait_susp, dispatchAwaitSuspend,
      Suspension.endBy]

namespace Accounts

/-- A handler of an operation that was told to resume leads to a suspended frame. -/
theorem lease_of_claimed (r : Accounts s b) {k : SuspId} {t : Site}
    (h : (s.susp k).stage = .claimed t) (hk : (s.susp k).kind.isCompletion = true) :
    b.status (s.susp k).frame = .leased k ∧ (s.susp k).handle = (s.susp k).frame ∧
      (s.frame (s.susp k).frame).awaiter = .context k ∧
        (s.frame (s.susp k).frame).phase = .suspended := by
  have hfin : (s.susp k).kind.isFinal = false ∧ (s.susp k).kind ≠ .callback := by
    revert hk; cases (s.susp k).kind <;> simp [AwaitKind.isCompletion, AwaitKind.isFinal]
  have hl := r.custodian.leased_of_open (by simp [Suspension.isOpen, h]) hfin.2
  obtain ⟨hf, ha, hp⟩ := r.custodian.own _ k hl hfin.1
  have hside : (s.susp k).side = .left := by
    have := (r.sound k).context (AwaitKind.hasContext_of_isCompletion hk)
    cases this <;> simp_all [HandlerStage.isPending]
  rw [hf]
  exact ⟨hl, rfl, ha, hp.mpr hside⟩

/-- The owner is locked through the weak reference before the frame is resumed. -/
theorem handlerResume_frame (r : Accounts s b) {k : SuspId} {t : Site}
    (h : (s.susp k).stage = .claimed t) (hk : (s.susp k).kind.isCompletion = true) (y : FrameId) :
    (s.handlerResume k t).frame y =
      if y = (s.susp k).frame then
        if (s.susp k).restoreSharedThis then
          if (s.susp k).weakThis.any s.ownerAlive then
            { s.frame y with phase := .resuming t, sharedThis := (s.susp k).weakThis }
          else { s.frame y with phase := .destroying, sharedThis := none }
        else { s.frame y with phase := .resuming t }
      else s.frame y := by
  obtain ⟨-, hh, -, hp⟩ := r.lease_of_claimed h hk
  simp only [State.handlerResume]
  rw [ownerAlive_congr (s := s) (by simp) (by simp) (by simp)
    (by intro j; simp only [modSusp_susp, touch_susp]; split <;> simp_all)]
  by_cases hy : y = (s.susp k).frame
  · subst hy
    split_ifs <;>
      simp_all [resume_frame, destroyHandle_frame, Phase.afterResume, Phase.afterDestroy]
  · split_ifs <;> simp_all [resume_frame, destroyHandle_frame]

/-- The steps that move the strong reference of a frame. -/
theorem next_sharedThis (r : Accounts s b) {a : Action V E} (h : s.Enabled a) {x : FrameId}
    (hx : x ≠ s.nextFrame) :
    ((s.next a).frame x).sharedThis = (s.frame x).sharedThis ∨
      ((s.next a).frame x).phase.isGone ∧ ((s.next a).frame x).sharedThis = none ∨
      (∃ k, a = .initiationReturns x k ∧ ((s.next a).frame x).sharedThis = none) ∨
      (∃ k, a = .resumeAwaiting x k ∧ (s.susp k).kind.isCompletion = true ∧
        ((s.next a).frame x).phase.isResuming = true ∧
          ((s.next a).frame x).sharedThis = (s.susp k).side.saved) ∨
      ∃ k t, a = .handlerResume k t ∧ (s.susp k).frame = x ∧
        (s.susp k).kind.isCompletion = true ∧ (s.susp k).restoreSharedThis = true ∧
        (s.susp k).weakThis.any s.ownerAlive = true ∧
        ((s.next a).frame x).phase.isResuming = true ∧
          ((s.next a).frame x).sharedThis = (s.susp k).weakThis := by
  cases a <;> simp only [next]
  case awaitPromise f c =>
    obtain ⟨hcp, hcc, hne⟩ := r.custodian.of_call h
    left
    rw [s.coroAwaitSuspend_frame hcp hcc hne]
    grind
  case awaitAwait f c =>
    obtain ⟨hcp, hcc, hne, hcn⟩ := r.custodian.of_callAwait h
    left
    rw [s.awaitAwaitSuspend_frame hcp hcc hne hcn]
    grind
  case startAwait t c =>
    obtain ⟨hcp, hcc, hcn⟩ := r.custodian.of_startAwait h
    left
    rw [s.startAwait_frame hcp hcc hcn]
    grind
  case coReturn f e =>
    cases hk : (s.frame f).kind
    case promise =>
      obtain ⟨g, hg, ho, hgp, hgf, hret⟩ := r.custodian.returned r.stored e h.1 hk
      left
      rcases hb : s.handBack f with _ | ex | ex <;> simp only [Returned, hb] at hret <;>
        obtain ⟨-, -, hfr⟩ := hret <;> rw [hfr] <;> grind [finished]
    all_goals
      simp only [coReturn, hk, modFrame_frame]
      grind [Phase.isGone]
  case destroy f =>
    rw [s.destroyFrame_frame (r.custodian.caller_ne h)]
    grind [Phase.isGone]
  case initiationReturns f k =>
    by_cases hf : x = f
    · subst hf
      exact .inr (.inr (.inl ⟨k, rfl, by simp [State.initiationReturns]⟩))
    · exact .inl (by simp [State.initiationReturns, hf])
  case resumeAwaiting f k =>
    by_cases hf : x = f
    · subst hf
      by_cases hr : (s.susp k).word.resumeAwaiting.resumes = true
      · by_cases hk : (s.susp k).kind.isCompletion = true
        · exact .inr (.inr (.inr (.inl ⟨k, rfl, hk,
            by simp [State.resumeAwaiting, hr, Phase.isResuming],
            by simp [State.resumeAwaiting, hr, hk]⟩)))
        · exact .inl (by simp [State.resumeAwaiting, hr, hk])
      · left
        by_cases hd : (s.susp k).word.resumeAwaiting.destroys = true <;>
          simp [State.resumeAwaiting, hr, hd, destroyHandle_frame]
    · left
      simp only [State.resumeAwaiting]
      split_ifs <;> simp [hf, destroyHandle_frame]
  case handlerResume k t =>
    by_cases hk : (s.susp k).kind.isCompletion = true
    · rw [r.handlerResume_frame h hk]
      by_cases hxk : x = (s.susp k).frame
      · split_ifs with hrestore halive
        · exact .inr (.inr (.inr (.inr ⟨k, t, rfl, hxk.symm, hk, hrestore, halive, rfl, rfl⟩)))
        · exact .inr (.inl ⟨by simp [Phase.isGone], rfl⟩)
        · exact .inl rfl
      · exact .inl (by rw [if_neg hxk])
    · left
      simp only [State.handlerResume]
      rw [if_neg (by simp [hk])]
      grind
  case drop k =>
    left
    simp only [State.handlerDrop]
    split_ifs <;> grind
  all_goals
    simp only [Enabled, inBody] at h
    left
    grind [completionAwaitSuspend, postAwaitSuspend, completionSetValue, State.initiationThrows,
      State.dispatchEnter, State.resumeCompleted, State.trampolineInvoke,
      State.plainResume, State.trampolineReturn, State.finalResumeAwaiting,
      State.awaitResume, dispatchAwaitSuspend, Frame.setExecutor]

/-- The object a coroutine is a member function of never changes. -/
theorem thisObject_eq (r : Accounts s b) {a : Action V E} (h : s.Enabled a) {x : FrameId}
    (hx : x ≠ s.nextFrame) : ((s.next a).frame x).thisObject = (s.frame x).thisObject := by
  rcases next_retains (a := a) hx with hr | ⟨ex, -, hr⟩ | ⟨f, rfl⟩
  · exact hr.thisObject
  · exact hr.thisObject
  · obtain ⟨hcp, hcc, hne⟩ := r.custodian.of_call h
    simp [next, s.coroAwaitSuspend_frame hcp hcc hne]

/-- What holds of a frame that lends its reference. -/
theorem of_lends (r : Accounts s b) {x : FrameId} {k : SuspId}
    (ha : (s.frame x).awaiter = .context k) (hk : (s.susp k).kind.isCompletion = true)
    (ho : (s.susp k).isOpen = true) :
    b.status x = .leased k ∧ (s.susp k).frame = x ∧ (s.susp k).handle = x ∧
      (s.susp k).kind.isFinal = false ∧
        ((∃ t, (s.frame x).phase = .suspending t) ∨ (s.frame x).phase = .suspended) := by
  have hfin : (s.susp k).kind.isFinal = false ∧ (s.susp k).kind ≠ .callback := by
    revert hk; cases (s.susp k).kind <;> simp [AwaitKind.isCompletion, AwaitKind.isFinal]
  have hl := r.custodian.leased_of_open ho hfin.2
  have hown := (r.custodian.own _ k hl hfin.1).1
  have hf := (r.custodian.context x k ha).2
  obtain rfl : (s.susp k).handle = x := hown.symm.trans hf
  have hfit := r.custodian.fits (s.susp k).handle
  rw [hl] at hfit
  exact ⟨hl, hf, rfl, hfin.1, hfit.2.imp Phase.isSuspending_iff.mp id⟩

/-- The handler of a new operation takes a weak reference from the frame that starts it. -/
theorem next_operation (r : Accounts s b) {a : Action V E} (h : s.Enabled a)
    (hk : ((s.next a).susp s.nextSusp).kind.isCompletion = true) :
    ∃ f, s.inBody f = true ∧ ((s.next a).susp s.nextSusp).frame = f ∧
      ((s.next a).susp s.nextSusp).side ≠ .left ∧
      (∃ m, ((s.next a).susp s.nextSusp).side = .initiating m) ∧
        ((s.next a).susp s.nextSusp).weakThis = (s.frame f).sharedThis ∧
          ((s.next a).susp s.nextSusp).restoreSharedThis = (s.frame f).sharedThis.isSome := by
  have hnew : s.susp s.nextSusp = {} := r.custodian.newSusp _ (Nat.le_refl _)
  cases a <;> simp only [next] at hk ⊢
  case awaitDeferred f => exact ⟨f, h, by simp [completionAwaitSuspend]⟩
  case awaitTimer f => exact ⟨f, h, by simp [completionAwaitSuspend]⟩
  case awaitAwait f c => exact ⟨f, h.1, by simp⟩
  case coReturn f e =>
    exfalso
    revert hk
    simp only [coReturn]
    split
    · split
      · simp only [finalAwaitSuspend]
        split_ifs <;> split <;> grind [AwaitKind.isCompletion, dispatchContext_kind]
      · grind [AwaitKind.isCompletion]
    · grind [AwaitKind.isCompletion]
    · grind [AwaitKind.isCompletion]
  all_goals
    exfalso
    revert hk
    grind [postAwaitSuspend, completionSetValue, State.initiationThrows, State.initiationReturns,
      State.dispatchEnter, State.resumeCompleted, State.trampolineInvoke,
      State.plainResume, State.trampolineReturn, State.resumeAwaiting, State.finalResumeAwaiting,
      State.handlerResume, State.handlerDrop, State.destroyFrame, State.awaitResume,
      coroAwaitSuspend_susp, startAwait_susp, dispatchAwaitSuspend, dispatchContext_kind,
      Suspension.endBy, AwaitKind.isCompletion]

/-- A frame begins to lend its reference where the initiation returns. -/
theorem lends_of_next (r : Accounts s b) {a : Action V E} (h : s.Enabled a) {x : FrameId}
    (hl : (s.next a).Lends x) : s.Lends x ∨ ∃ k, a = .initiationReturns x k := by
  obtain ⟨k, ha, hk, ho, hm⟩ := hl
  have hnew : k = s.nextSusp → False := by
    rintro rfl
    obtain ⟨f, -, -, -, ⟨m, hi⟩, -⟩ := r.next_operation h hk
    exact hm m hi
  rcases r.next_context h ha with haw | ⟨hn, -⟩
  · have hstep : (s.susp k).kind.isCompletion = true ∧ (s.susp k).isOpen = true := by
      rcases next_susp h k with he | he | ⟨he, -⟩
      · exact he ▸ ⟨hk, ho⟩
      · exact ⟨he.names.1 ▸ hk, he.opened ho⟩
      · exact absurd he hnew
    by_cases hi : ∃ m, (s.susp k).side = .initiating m
    · obtain ⟨m, hi⟩ := hi
      rcases next_initiating (a := a) hi with hs | hs | ⟨f, rfl⟩ | ⟨f, e, rfl⟩ | ⟨f, rfl⟩ | ⟨f, rfl⟩
      · exact absurd hs (hm m)
      · exact absurd hs hnew
      · obtain rfl : x = f := by
          rw [← (r.custodian.context x k haw).2, (r.custodian.context f k h.2.1).2]
        exact .inr ⟨k, rfl⟩
      · have hstage := h.2.2.2.1
        simp [next, State.initiationThrows, Suspension.isOpen, Suspension.endBy, hstage] at ho
      · rw [h.2.2] at hi
        simp at hi
      · rw [h.2.2] at hi
        simp at hi
    · exact .inl ⟨k, haw, hstep.1, hstep.2, fun m hm => hi ⟨m, hm⟩⟩
  · exact absurd hn hnew

/-- A frame lends its reference until it is resumed or destroyed. -/
theorem lends_next (r : Accounts s b) {a : Action V E} (h : s.Enabled a) {x : FrameId}
    (hl : s.Lends x) (hp : (∃ t, ((s.next a).frame x).phase = .suspending t) ∨
      ((s.next a).frame x).phase = .suspended) : (s.next a).Lends x := by
  obtain ⟨b', -, r'⟩ := r.step h
  obtain ⟨k, ha, hk, ho, hm⟩ := hl
  obtain ⟨hb, -, -, -, hx⟩ := r.of_lends ha hk ho
  have hrun : (s.frame x).phase.isRunning = false ∧
      ((s.next a).frame x).phase.isRunning = false ∧
        ((s.next a).frame x).phase ≠ .destroyed := by
    rcases hx with ⟨t, hx⟩ | hx <;> rcases hp with ⟨u, hp⟩ | hp <;> simp [hx, hp, Phase.isRunning]
  have hne : x ≠ s.nextFrame := Nat.ne_of_lt (r.custodian.lt_of_started (by simp [hb]))
  have haw := (r.next_awaiter_eq h hne hrun.1 hrun.2.1 hrun.2.2).trans ha
  have hlt := r.custodian.lease_lt hb
  have hkind : ((s.next a).susp k).kind = (s.susp k).kind ∧
      ∀ m, ((s.next a).susp k).side ≠ .initiating m := by
    rcases next_susp h k with he | he | ⟨he, -⟩
    · rw [he]
      exact ⟨rfl, hm⟩
    · exact ⟨he.names.1, fun m hi => hm m (he.initiating hi)⟩
    · exact absurd he (Nat.ne_of_lt hlt)
  refine ⟨k, haw, hkind.1 ▸ hk, ?_, hkind.2⟩
  -- a frame that is suspended by its own awaiter waits for an open suspension
  have hfit := r'.custodian.fits x
  cases hb' : b'.status x <;> simp only [hb', Frame.Fits] at hfit
  case leased j =>
    rcases r'.custodian.lease_awaiter hb' with ⟨-, hj⟩ | ⟨-, hj⟩
    · obtain rfl : k = j := by simpa [haw] using hj
      exact ((r'.custodian.leased x k).mp hb').2.1
    · simp [haw, Awaiter.callee] at hj
  all_goals grind [Awaiter.callee]

end Accounts

/-! ## The invariant along runs -/

namespace Guards

/-- The side that resumes a frame gives it its reference back first. -/
theorem woken (i : Guards s) (r : Accounts s b) {a : Action V E} (h : s.Enabled a) {x : FrameId}
    {t : Site} (hl : s.Lends x) (hp : ((s.next a).frame x).phase = .resuming t) :
    ((s.next a).frame x).sharedThis = (s.frame x).thisObject := by
  have hnone := i.lent x hl
  obtain ⟨k, ha, hk, ho, hm⟩ := hl
  obtain ⟨hb, hf, hh, hfin, hx⟩ := r.of_lends ha hk ho
  have hkcb : ∀ j, (s.susp j).handle = x → (s.susp j).isOpen = true →
      (s.susp j).kind ≠ .callback → j = k := by
    intro j hj hjo hjcb
    have := (r.custodian.leased x j).mpr ⟨hj, hjo, hjcb⟩
    simpa [hb] using this.symm
  rcases (r.next_resuming h hp) with hold | hw
  · rcases hx with ⟨u, hx⟩ | hx <;> simp [hx] at hold
  cases hw with
  | @eager j hjp hja hside hw =>
      obtain rfl : k = j := by simpa [ha] using hja
      have hres : (s.susp k).word.resumeAwaiting.resumes = true := by rw [hw]; rfl
      have hsaved := i.saved k _ hk h.2.2
      rw [hf] at hsaved
      simp [next, State.resumeAwaiting, hres, hk, hsaved]
  | @threw j e hjp hja hside =>
      obtain rfl : k = j := by simpa [ha] using hja
      exact absurd hside (hm _)
  | @handBack c j hjp hja hjx hside hw =>
      have hjo : (s.susp j).isOpen = true := by simp [Suspension.isOpen, hside]
      have hjcb : (s.susp j).kind ≠ .callback := fun hc => hside ((r.sound j).callback hc).1
      obtain rfl := hkcb j hjx hjo hjcb
      have :=
        (r.custodian.leased_of_finalizing hjo hjcb (by simp [hjp, Phase.isFinalizing]) hja).2.1
      simp [hfin] at this
  | @plain j ex hjx hst hjk ht he =>
      have hjcb : (s.susp j).kind ≠ .callback := by rcases hjk with hjk | hjk <;> simp [hjk]
      obtain rfl := hkcb j hjx (by simp [Suspension.isOpen, hst]) hjcb
      rcases hjk with hjk | hjk <;> simp [hjk, AwaitKind.isCompletion] at hk
  | @handler j hjx hst =>
      have hjcb : (s.susp j).kind ≠ .callback := by
        have := (r.sound j).invoked ⟨t, .inr hst⟩
        intro hc
        simp [hc, AwaitKind.hasContext] at this
      obtain rfl := hkcb j hjx (by simp [Suspension.isOpen, hst]) hjcb
      obtain ⟨hweak, hrestore⟩ := i.weak j hk ho
      rw [hf] at hweak hrestore
      simp only [next, r.handlerResume_frame hst hk, hf, if_true] at hp ⊢
      rw [hrestore, hweak] at hp ⊢
      rcases hthis : (s.frame x).thisObject with _ | o
      · simp [hnone]
      · simp only [hthis, Option.isSome_some, if_true] at hp ⊢
        split_ifs at hp ⊢
        simp_all
  | @direct c e hjp hck hg hd =>
      have := (r.custodian.owned x c).mpr hg
      simp [hb] at this

/-- A body that runs, or a frame inside an initiation, has not lent its reference. -/
theorem not_lends (r : Accounts s b) {x : FrameId} (h : (s.frame x).phase.isRunning = true ∨
    ∃ k m, (s.frame x).awaiter = .context k ∧ (s.susp k).side = .initiating m) : ¬ s.Lends x := by
  rintro ⟨k, ha, hk, ho, hm⟩
  rcases h with h | ⟨j, m, hj, hjm⟩
  · obtain ⟨-, -, -, -, hx⟩ := r.of_lends ha hk ho
    rcases hx with ⟨t, hx⟩ | hx <;> simp [hx, Phase.isRunning] at h
  · obtain rfl : k = j := by simpa [ha] using hj
    exact hm m hjm

theorem kept_step (i : Guards s) (r : Accounts s b) {a : Action V E} (h : s.Enabled a)
    {x : FrameId} (hx : x ≠ s.nextFrame) (hl : ¬ (s.next a).Lends x)
    (hp : ¬ ((s.next a).frame x).phase.isGone) :
    ((s.next a).frame x).sharedThis = ((s.next a).frame x).thisObject := by
  rw [r.thisObject_eq h hx]
  have hphase := r.next_phase h hx
  by_cases hlend : s.Lends x
  · -- it is resumed by this step, as it neither lends any longer nor is gone
    obtain ⟨k, ha, hk, ho, hm⟩ := hlend
    have hkeeps := r.lends_next h ⟨k, ha, hk, ho, hm⟩
    obtain ⟨t, ht⟩ : ∃ t, ((s.next a).frame x).phase = .resuming t := by
      obtain ⟨-, -, -, -, hxp⟩ := r.of_lends ha hk ho
      generalize hq : ((s.next a).frame x).phase = q at hphase hp hkeeps
      rcases hxp with ⟨t, hxp⟩ | hxp <;> rw [hxp] at hphase <;> cases hphase <;>
        simp_all [Phase.isGone]
    exact i.woken r h ⟨k, ha, hk, ho, hm⟩ ht
  · have hgone : ¬ (s.frame x).phase.isGone := by
      intro hg
      apply hp
      generalize ((s.next a).frame x).phase = q at hphase
      rcases hg with hg | hg | hg <;> rw [hg] at hphase <;> cases hphase <;> simp_all [Phase.isGone]
    have hkept := i.kept x hlend hgone
    rcases r.next_sharedThis h hx with hs | hs | ⟨k, rfl, -⟩ | ⟨k, rfl, hk, -⟩ |
      ⟨k, t, rfl, hf, hk, -⟩
    · rw [hs, hkept]
    · exact absurd hs.1 hp
    · -- the initiation returns, so the frame lends its reference now
      refine absurd ⟨k, ?_, ?_, ?_, ?_⟩ hl
      · simpa [next, State.initiationReturns] using h.2.1
      · obtain ⟨-, -, hm | hm⟩ := h <;>
          simpa [next, State.initiationReturns] using (r.sound k).initiating ⟨_, hm⟩
      · simp [next, State.initiationReturns, Suspension.isOpen]
      · simp [next, State.initiationReturns]
    · refine absurd ⟨k, h.2.1, hk, ?_, ?_⟩ hlend
      · rw [Suspension.isOpen, h.2.2]
        simp
      · rw [h.2.2]
        simp
    · obtain ⟨-, -, ha, -⟩ := r.lease_of_claimed h hk
      have hstage : (s.susp k).stage = .claimed t := h
      have hside : (s.susp k).side = .left := by
        have := (r.sound k).context (AwaitKind.hasContext_of_isCompletion hk)
        cases this <;> simp_all [HandlerStage.isPending]
      exact absurd ⟨k, hf ▸ ha, hk, by simp [Suspension.isOpen, hstage], by simp [hside]⟩ hlend

theorem lent_step (i : Guards s) (r : Accounts s b) {a : Action V E} (h : s.Enabled a)
    {x : FrameId} (hx : x ≠ s.nextFrame) (hl : (s.next a).Lends x) :
    ((s.next a).frame x).sharedThis = none := by
  obtain ⟨b', -, r'⟩ := r.step h
  have hphase : ¬ ((s.next a).frame x).phase.isGone ∧
      ((s.next a).frame x).phase.isResuming = false := by
    obtain ⟨k, ha, hk, ho, -⟩ := hl
    obtain ⟨-, -, -, -, hxp⟩ := r'.of_lends ha hk ho
    rcases hxp with ⟨t, hxp⟩ | hxp <;> simp [hxp, Phase.isGone, Phase.isResuming]
  rcases r.lends_of_next h hl with hlend | ⟨k, rfl⟩
  · have hnone := i.lent x hlend
    rcases r.next_sharedThis h hx with hs | hs | ⟨k, -, hs⟩ | ⟨k, -, -, hs, -⟩ |
      ⟨k, t, -, -, -, -, -, hs, -⟩
    · rw [hs, hnone]
    · exact absurd hs.1 hphase.1
    · exact hs
    · simp [hphase.2] at hs
    · simp [hphase.2] at hs
  · simp [next, State.initiationReturns]

theorem step (i : Guards s) (r : Accounts s b) {a : Action V E} (h : s.Enabled a) :
    Guards (s.next a) := by
  have hborn : ∀ x, x = s.nextFrame → (¬ (s.next a).Lends x) ∧
      (¬ ((s.next a).frame x).phase.isGone →
        ((s.next a).frame x).sharedThis = ((s.next a).frame x).thisObject) := by
    rintro x rfl
    by_cases hb : (s.next a).nextFrame = s.nextFrame
    · obtain ⟨b', -, r'⟩ := r.step h
      rw [State.Lends, r'.custodian.unborn_frame (Nat.le_of_eq hb)]
      simp
    · have hn := (next_born hb).2
      exact ⟨fun ⟨k, ha, _⟩ => hn.awaiter k ha, fun _ => hn.owner⟩
  -- the frame of an open suspension existed before
  have hold : ∀ k, (s.susp k).isOpen = true → (s.susp k).kind.isCompletion = true →
      (s.susp k).frame ≠ s.nextFrame := by
    intro k ho hk
    have hfin : (s.susp k).kind.isFinal = false ∧ (s.susp k).kind ≠ .callback := by
      revert hk; cases (s.susp k).kind <;> simp [AwaitKind.isCompletion, AwaitKind.isFinal]
    have hl := r.custodian.leased_of_open ho hfin.2
    rw [(r.custodian.own _ k hl hfin.1).1]
    exact Nat.ne_of_lt (r.custodian.lt_of_started (by simp [hl]))
  constructor
  case lent =>
    intro x hl
    by_cases hx : x = s.nextFrame
    · exact absurd hl (hborn x hx).1
    · exact i.lent_step r h hx hl
  case kept =>
    intro x hl hp
    by_cases hx : x = s.nextFrame
    · exact (hborn x hx).2 hp
    · exact i.kept_step r h hx hl hp
  case saved =>
    intro k o hk hs
    rcases next_susp h k with he | he | ⟨rfl, -⟩
    · rw [he] at hk hs ⊢
      rw [r.thisObject_eq h (hold k (by simp [Suspension.isOpen, hs]) hk)]
      exact i.saved k o hk hs
    · have hn : k ≠ s.nextSusp := by
        rintro rfl
        have := he.side (by simp [hs])
        simp [r.custodian.newSusp _ (Nat.le_refl _)] at this
      have ho := he.opened (by simp [Suspension.isOpen, hs])
      rw [he.names.1] at hk
      rw [he.names.2.1, r.thisObject_eq h (hold k ho hk)]
      rcases next_saved hn hs with hs | ⟨f, rfl, rfl⟩
      · exact i.saved k o hk hs
      · rw [(r.custodian.context f k h.2.1).2]
        obtain ⟨hfp, hfa, hfs⟩ := h
        obtain ⟨t, ht⟩ := Phase.isSuspending_iff.mp hfp
        refine i.kept f (not_lends r (.inr ?_)) (by simp [ht, Phase.isGone])
        rcases hfs with hfs | hfs
        · exact ⟨k, _, hfa, hfs⟩
        · exact ⟨k, _, hfa, hfs⟩
    · obtain ⟨f, -, -, -, ⟨m, hm⟩, -⟩ := r.next_operation h hk
      simp [hm] at hs
  case weak =>
    intro k hk ho
    rcases next_susp h k with he | he | ⟨rfl, -⟩
    · rw [he] at hk ho ⊢
      rw [r.thisObject_eq h (hold k ho hk)]
      exact i.weak k hk ho
    · have ho' := he.opened ho
      rw [he.names.1] at hk
      rw [he.names.2.1, r.thisObject_eq h (hold k ho' hk), he.names.2.2.2.1, he.names.2.2.2.2]
      exact i.weak k hk ho'
    · obtain ⟨f, hb, hf, -, -, hw, hr⟩ := r.next_operation h hk
      obtain ⟨hfa, -, -, t, ht⟩ := r.custodian.of_inBody hb
      have hn : f ≠ s.nextFrame := Nat.ne_of_lt (r.custodian.lt_of_started (by simp [hfa]))
      have hkept := i.kept f (not_lends r (.inl (by simp [ht, Phase.isRunning])))
        (by simp [ht, Phase.isGone])
      rw [hf, hw, hr, r.thisObject_eq h hn, hkept]
      exact ⟨rfl, rfl⟩

end Guards

theorem Reachable.guards (hs : Reachable s) : Guards s :=
  hs.invariant_with (J := fun s => ∃ b, Accounts s b) (fun _ hu => Reachable.accounts hu)
    Guards.init fun _ _ ⟨_, r⟩ i ha => i.step r ha

/-! ## A lost owner -/

@[simp] theorem State.finalAwaitSuspend_roots (c g : FrameId) :
    (s.finalAwaitSuspend c g).external = s.external ∧
      (s.finalAwaitSuspend c g).stack = s.stack := by
  simp only [finalAwaitSuspend]
  split_ifs <;> split <;> simp

/-- Most steps leave the strong references outside the frames alone. -/
theorem State.next_roots {a : Action V E} (hrel : ∀ o, a ≠ .release o) (hret : ∀ o, a ≠ .retain o)
    (hun : ∀ o, a ≠ .unwind o) (hra : ∀ f k, a ≠ .resumeAwaiting f k) :
    (s.next a).external = s.external ∧ (s.next a).stack = s.stack := by
  cases a <;> simp only [next]
  case release o => exact absurd rfl (hrel o)
  case retain o => exact absurd rfl (hret o)
  case unwind o => exact absurd rfl (hun o)
  case resumeAwaiting f k => exact absurd rfl (hra f k)
  case coReturn f e =>
    simp only [coReturn]
    split
    · split <;> simp
    · simp
    · simp
  case finalResumeAwaiting c k =>
    simp only [State.finalResumeAwaiting]
    split_ifs <;> simp
  case handlerResume k t =>
    simp only [State.handlerResume]
    split_ifs <;> simp
  case drop k =>
    simp only [handlerDrop]
    split_ifs <;> simp
  case destroy f =>
    simp only [destroyFrame]
    split <;> split <;> (try split) <;> simp
  case awaitResume f =>
    simp only [State.awaitResume]
    split <;> simp
  case trampolineInvoke x c k =>
    simp only [State.trampolineInvoke]
    split <;> simp [completionSetValue]
  all_goals
    simp [coroAwaitSuspend, completionAwaitSuspend, awaitAwaitSuspend, State.startAwait,
      postAwaitSuspend, completionSetValue, State.initiationThrows, State.dispatchEnter,
      State.resumeCompleted, State.initiationReturns, State.plainResume, State.trampolineReturn,
      dispatchAwaitSuspend]

theorem State.next_external {a : Action V E} {o : OwnerId} (h : (s.next a).external o = true) :
    s.external o = true ∨ a = .retain o := by
  by_cases hrel : ∃ p, a = .release p
  · obtain ⟨p, rfl⟩ := hrel
    by_cases hp : o = p <;> simp_all [next]
  by_cases hret : ∃ p, a = .retain p
  · obtain ⟨p, rfl⟩ := hret
    by_cases hp : o = p <;> simp_all [next]
  left
  cases a with
  | resumeAwaiting f k =>
      simp only [next, State.resumeAwaiting] at h
      split_ifs at h <;> simpa [leave] using h
  | unwind p => exact h
  | release p => exact absurd ⟨p, rfl⟩ hrel
  | retain p => exact absurd ⟨p, rfl⟩ hret
  | _ => rwa [(next_roots (by simp) (by simp) (by simp) (by simp)).1] at h

theorem State.next_stack {a : Action V E} {o : OwnerId} (h : o ∈ (s.next a).stack) :
    o ∈ s.stack ∨ ∃ f k, a = .resumeAwaiting f k ∧ (s.susp k).side.saved = some o := by
  cases a with
  | unwind p => exact .inl (List.mem_of_mem_erase h)
  | resumeAwaiting f k =>
      simp only [next, State.resumeAwaiting] at h
      by_cases hr : (s.susp k).word.resumeAwaiting.resumes = true
      · rw [if_pos hr] at h
        exact .inl (by simpa using h)
      · rw [if_neg hr, (leave_roots _ _).2, List.mem_append, Option.mem_toList] at h
        refine h.symm.imp (fun h => ?_) fun h => ⟨f, k, rfl, h⟩
        split_ifs at h <;> simpa using h
  | release p => exact .inl h
  | retain p => exact .inl h
  | _ => exact .inl (by rwa [(next_roots (by simp) (by simp) (by simp) (by simp)).2] at h)

/-- A new frame takes its owner from the call. -/
theorem State.next_born_owner {a : Action V E} {o : OwnerId}
    (hn : (s.next a).nextFrame ≠ s.nextFrame)
    (ho : ((s.next a).frame s.nextFrame).thisObject = some o) :
    a = .create (some o) ∨ ∃ t, a = .detach t (some o) true := by
  cases a with
  | create p => exact .inl (by simpa [next] using ho)
  | detach t p alone =>
      cases alone with
      | false => simp [next] at ho
      | true => exact .inr ⟨t, by simpa [next] using ho⟩
  | startMain i => simp [next] at ho
  | awaitAwait f c =>
      obtain ⟨-, ht, -⟩ := (resetCaller_retains _ c s.nextFrame s.nextFrame).trans
        (resume_retains _ c (s.frame f).phase.site s.nextFrame)
      simp only [next, awaitAwaitSuspend] at ho
      rw [ht] at ho
      simp at ho
  | startAwait t c =>
      obtain ⟨-, ht, -⟩ := (resetCaller_retains _ c s.nextFrame s.nextFrame).trans
        (resume_retains _ c t s.nextFrame)
      simp only [next, State.startAwait] at ho
      rw [ht] at ho
      simp at ho
  | _ => exact absurd (next_nextFrame rfl) hn

namespace Guards

theorem holds_step (r : Accounts s b) {a : Action V E} (h : s.Enabled a) {x : FrameId}
    {o : OwnerId} (hx : x ≠ s.nextFrame) (hh : (s.next a).holds x o = true) :
    s.ownerAlive o = true := by
  have hholds : ∀ y, (s.frame y).sharedThis = some o ∨
      (∃ k, (s.frame y).awaiter = .context k ∧ (s.susp k).side.saved = some o) →
        s.ownerAlive o = true := by
    intro y hy
    refine s.ownerAlive_iff.mpr (.inr (.inr ⟨y, ?_, ?_⟩))
    · by_contra hn
      simp [r.custodian.unborn_frame (Nat.le_of_not_lt hn)] at hy
    · rcases hy with hy | ⟨k, hy, hk⟩ <;> simp [holds, *]
  simp only [holds, Bool.or_eq_true, beq_iff_eq] at hh
  rcases hh with hh | hh
  · rcases r.next_sharedThis h hx with hs | hs | ⟨k, -, hs⟩ | ⟨k, rfl, -, -, hs⟩ |
      ⟨k, t, -, -, -, -, halive, -, hs⟩
    · exact hholds x (.inl (hs ▸ hh))
    · simp [hs.2] at hh
    · simp [hs] at hh
    · exact hholds x (.inr ⟨k, h.2.1, hs ▸ hh⟩)
    · rw [hs] at hh
      simpa [hh] using halive
  · split at hh
    case h_2 => simp at hh
    case h_1 k ha =>
      have hside : ((s.next a).susp k).side = .exchanging (some o) := by
        cases hs : ((s.next a).susp k).side <;> simp_all [AwaitSide.saved]
      rcases r.next_context h ha with haw | ⟨rfl, -⟩
      · have hn : k ≠ s.nextSusp := Nat.ne_of_lt (r.custodian.context x k haw).1
        rcases next_saved hn hside with hs | ⟨f, -, hs⟩
        · exact hholds x (.inr ⟨k, haw, by simp [hs, AwaitSide.saved]⟩)
        · exact hholds f (.inl hs.symm)
      · -- a new suspension saves nothing
        rcases next_susp h s.nextSusp with he | he | ⟨-, he⟩
        · simp [he, r.custodian.newSusp _ (Nat.le_refl _)] at hside
        · have := he.side (by simp [hside])
          simp [r.custodian.newSusp _ (Nat.le_refl _)] at this
        · generalize (s.next a).susp s.nextSusp = q at he hside
          cases he <;> simp at hside

/-- An owner that is gone does not come back. -/
theorem ownerAlive_step (r : Accounts s b) {a : Action V E} (h : s.Enabled a) {o : OwnerId}
    (ha : (s.next a).ownerAlive o = true) : s.ownerAlive o = true := by
  rcases (ownerAlive_iff _).mp ha with he | hm | ⟨x, hx, hh⟩
  · rcases next_external he with he | rfl
    · exact s.ownerAlive_iff.mpr (.inl he)
    · exact h
  · rcases next_stack hm with hm | ⟨f, k, rfl, hs⟩
    · exact s.ownerAlive_iff.mpr (.inr (.inl hm))
    · refine s.ownerAlive_iff.mpr (.inr (.inr ⟨f, ?_, by simp [holds, h.2.1, hs]⟩))
      by_contra hn
      have := h.2.1
      simp [r.custodian.unborn_frame (Nat.le_of_not_lt hn)] at this
  · by_cases hn : x = s.nextFrame
    · subst hn
      have hgrow : (s.next a).nextFrame ≠ s.nextFrame := fun he => by simp [he] at hx
      have hb := (next_born hgrow).2
      have hown : ((s.next a).frame s.nextFrame).thisObject = some o := by
        simp only [holds, Bool.or_eq_true, beq_iff_eq] at hh
        rcases hh with hh | hh
        · rw [← hb.owner, hh]
        · split at hh
          · rename_i k hk
            exact absurd hk (hb.awaiter k)
          · simp at hh
      rcases next_born_owner hgrow hown with rfl | ⟨t, rfl⟩
      · exact h o rfl
      · exact h o rfl
    · exact holds_step r h hn hh

theorem ownerAlive_run {s' : State V E} {as : List (Action V E)} (hs : Reachable s)
    (hr : Transition.Run runtime s as s') {o : OwnerId} (ha : s'.ownerAlive o = true) :
    s.ownerAlive o = true := by
  induction hr with
  | nil => exact ha
  | cons hstep _ ih =>
      obtain ⟨b, r⟩ := hs.accounts
      exact ownerAlive_step r hstep (ih (hs.step hstep) ha)

theorem thisObject_run {s' : State V E} {as : List (Action V E)} (hs : Reachable s)
    (hr : Transition.Run runtime s as s') {f : FrameId} {o : OwnerId}
    (ho : (s.frame f).thisObject = some o) : (s'.frame f).thisObject = some o := by
  induction hr with
  | nil => exact ho
  | cons hstep _ ih =>
      obtain ⟨b, r⟩ := hs.accounts
      refine ih (hs.step hstep) ?_
      have hn : f ≠ _ := fun hn => by
        rw [hn, r.custodian.unborn_frame (Nat.le_refl _)] at ho
        simp at ho
      exact (r.thisObject_eq hstep hn).trans ho

end Guards

/-- **Owner safety.** A coroutine is called as a member function of the owner `o`. In every state of
    every run from there:
    its body runs only while it holds `o`; while it is suspended on an operation it does not; a
    handler told to resume it locks `o` and resumes it, or destroys it if `o` is gone; once `o` is
    gone it never runs again; and where the operation completed eagerly, or its initiation threw,
    it goes on holding `o`. -/
theorem owner_safety {s₀ s : State V E} {a : Action V E} {as : List (Action V E)} {o : OwnerId}
    (hs : Reachable s₀) (ha : runtime.enabled s₀ a)
    (hc : a = .create (some o) ∨ ∃ t, a = .detach t (some o) true)
    (hr : Transition.Run runtime (s₀.next a) as s) :
    (∀ t, (s.frame s₀.nextFrame).phase = .running t ∨ (s.frame s₀.nextFrame).phase = .resuming t →
      (s.frame s₀.nextFrame).sharedThis = some o ∧ s.ownerAlive o = true) ∧
    (∀ k, (s.frame s₀.nextFrame).phase = .suspended →
      (s.frame s₀.nextFrame).awaiter = .context k → (s.susp k).kind.isCompletion = true →
      (s.frame s₀.nextFrame).sharedThis = none ∧ s.holds s₀.nextFrame o = false) ∧
    (∀ k t, s.Enabled (.handlerResume k t) → (s.susp k).frame = s₀.nextFrame →
      (s.susp k).kind.isCompletion = true →
      if s.ownerAlive o then
        ((s.next (.handlerResume k t)).frame s₀.nextFrame).phase = .resuming t ∧
          ((s.next (.handlerResume k t)).frame s₀.nextFrame).sharedThis = some o
      else ((s.next (.handlerResume k t)).frame s₀.nextFrame).phase = .destroying) ∧
    (s.ownerAlive o = false → ∀ bs s', Transition.Run runtime s bs s' → ∀ t,
      (s'.frame s₀.nextFrame).phase ≠ .running t ∧ (s'.frame s₀.nextFrame).phase ≠ .resuming t) ∧
    (∀ k, s.Enabled (.resumeAwaiting s₀.nextFrame k) → (s.susp k).word = .completed →
      ((s.next (.resumeAwaiting s₀.nextFrame k)).frame s₀.nextFrame).phase.isResuming = true ∧
        ((s.next (.resumeAwaiting s₀.nextFrame k)).frame s₀.nextFrame).sharedThis = some o) ∧
    ∀ k e, s.Enabled (.initiationThrows s₀.nextFrame k e) →
      ((s.next (.initiationThrows s₀.nextFrame k e)).frame s₀.nextFrame).phase.isResuming = true ∧
        ((s.next (.initiationThrows s₀.nextFrame k e)).frame s₀.nextFrame).sharedThis =
          some o := by
  have hs' : Reachable s := (hs.step ha).run hr
  have hthis : ∀ bs s', Transition.Run runtime s bs s' →
      (s'.frame s₀.nextFrame).thisObject = some o := by
    intro bs s' hbs
    refine Guards.thisObject_run (hs.step ha) (hr.append hbs) ?_
    rcases hc with rfl | ⟨t, rfl⟩ <;> simp [runtime, next]
  -- whenever the body runs it holds its owner, so the owner is alive
  have hrun : ∀ bs s', Transition.Run runtime s bs s' → ∀ t,
      (s'.frame s₀.nextFrame).phase = .running t ∨ (s'.frame s₀.nextFrame).phase = .resuming t →
        (s'.frame s₀.nextFrame).sharedThis = some o ∧ s'.ownerAlive o = true := by
    intro bs s' hbs t hp
    have hsr : Reachable s' := hs'.run hbs
    obtain ⟨b, r⟩ := hsr.accounts
    have hl : ¬ s'.Lends s₀.nextFrame := by
      rintro ⟨k, hk, hkc, hko, -⟩
      obtain ⟨-, -, -, -, hx⟩ := r.of_lends hk hkc hko
      rcases hp with hp | hp <;> rcases hx with ⟨u, hx⟩ | hx <;> simp [hp] at hx
    have hshared := hsr.guards.kept s₀.nextFrame hl
      (by rcases hp with hp | hp <;> simp [hp, Phase.isGone])
    rw [hthis bs s' hbs] at hshared
    refine ⟨hshared, (ownerAlive_iff _).mpr
      (.inr (.inr ⟨s₀.nextFrame, ?_, by simp [holds, hshared]⟩))⟩
    by_contra hn
    simp [r.custodian.unborn_frame (Nat.le_of_not_lt hn)] at hshared
  obtain ⟨b, r⟩ := hs'.accounts
  have i := hs'.guards
  have hnow := hthis [] s (.nil s)
  refine ⟨hrun [] s (.nil s), fun k hp hk hkc => ?_, fun k t hen hf hkc => ?_,
    fun hgone bs s' hbs t => ?_, fun k hen hw => ?_, fun k e hen => ?_⟩
  · -- the awaiting side has left, and the handler is still to come
    have hb : ∃ j, b.status s₀.nextFrame = .leased j := by
      have hfit := r.custodian.fits s₀.nextFrame
      cases hb : b.status s₀.nextFrame <;> simp only [hb, Frame.Fits] at hfit <;>
        grind [Awaiter.callee]
    obtain ⟨j, hj⟩ := hb
    rcases r.custodian.lease_awaiter hj with ⟨hfin, haj⟩ | ⟨-, haj⟩
    · obtain rfl : k = j := by simpa [hk] using haj
      have hside := (r.custodian.own _ k hj hfin).2.2.mp hp
      have ho := ((r.custodian.leased _ k).mp hj).2.1
      have hnone := i.lent _ ⟨k, hk, hkc, ho, by simp [hside]⟩
      exact ⟨hnone, by simp [holds, hnone, hk, hside, AwaitSide.saved]⟩
    · simp [hk, Awaiter.callee] at haj
  · have hstage : (s.susp k).stage = .claimed t := hen
    obtain ⟨hweak, hrestore⟩ := i.weak k hkc (by simp [Suspension.isOpen, hstage])
    rw [hf, hnow] at hweak hrestore
    simp only [next, r.handlerResume_frame hstage hkc, hf, if_true, hweak, hrestore,
      Option.isSome_some, Option.any_some]
    split_ifs <;> simp
  · refine ⟨fun hp => ?_, fun hp => ?_⟩
    · have := Guards.ownerAlive_run hs' hbs (hrun bs s' hbs t (.inl hp)).2
      simp [hgone] at this
    · have := Guards.ownerAlive_run hs' hbs (hrun bs s' hbs t (.inr hp)).2
      simp [hgone] at this
  · have hp : ((s.next (.resumeAwaiting s₀.nextFrame k)).frame s₀.nextFrame).phase =
        .resuming (s.frame s₀.nextFrame).phase.site := by
      simp [next, State.resumeAwaiting, hw, ContextState.resumeAwaiting]
    have hstep : Transition.Run runtime s [.resumeAwaiting s₀.nextFrame k]
        (s.next (.resumeAwaiting s₀.nextFrame k)) := .cons hen (.nil _)
    exact ⟨by rw [hp]; rfl, (hrun _ _ hstep _ (.inr hp)).1⟩
  · have hp : ((s.next (.initiationThrows s₀.nextFrame k e)).frame s₀.nextFrame).phase =
        .resuming (s.frame s₀.nextFrame).phase.site := by
      simp [next, State.initiationThrows]
    have hstep : Transition.Run runtime s [.initiationThrows s₀.nextFrame k e]
        (s.next (.initiationThrows s₀.nextFrame k e)) := .cons hen (.nil _)
    exact ⟨by rw [hp]; rfl, (hrun _ _ hstep _ (.inr hp)).1⟩

/-- A member coroutine is awaited and its operation completes eagerly. -/
def eagerMember : List (Action Unit Unit) :=
  [.awaitPromise 0 1, .awaitDeferred 1, .setValue 0 [] (.ok ()), .resumeCompleted 0 [],
    .initiationReturns 1 0, .resumeAwaiting 1 0]

theorem owner_safety_eager :
    let s₀ : State Unit Unit := State.after [.detach [] none false]
    ((runtime.exec (s₀.next (.create (some 5))) eagerMember).frame s₀.nextFrame).sharedThis =
      some 5 := by
  intro s₀
  have hs : Reachable s₀ := .after (by decide)
  have hr : Transition.Run runtime (s₀.next (.create (some 5))) eagerMember _ :=
    .of_legal (by decide)
  exact ((owner_safety hs (by decide) (.inl rfl) hr).1 [] (by decide)).1

end WebAsio.Coro
