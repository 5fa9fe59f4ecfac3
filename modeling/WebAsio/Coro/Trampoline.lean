import WebAsio.Coro.StrandExit

set_option autoImplicit false

/-! # The trampolines of `await`

What the steps of the runtime do to a trampoline and to the promise it drives: a trampoline keeps
its awaitable as long as it exists, a promise has one caller in its life, and a promise that is over
is destroyed by that caller alone. -/

namespace WebAsio.Coro

open Custody State

variable {V E : Type} {s : State V E} {b : Book FrameId SuspId}

/-- A frame that was started does not wait to be started again. -/
theorem Phase.Next.not_fresh {p q : Phase} (h : p.Next q) (hi : p ≠ .initial) (hu : p ≠ .unborn) :
    q ≠ .initial ∧ q ≠ .unborn := by
  cases h <;> first | exact ⟨hi, hu⟩ | exact ⟨by simp, by simp⟩

theorem State.nextSusp_le (s : State V E) (a : Action V E) : s.nextSusp ≤ (s.next a).nextSusp := by
  cases a <;> simp only [next]
  case awaitPromise | awaitAwait | startAwait => simp
  case coReturn f e =>
    simp only [coReturn, finalAwaitSuspend]
    split
    · split
      · split_ifs
        · split <;> simp
        · split <;> simp
        · split <;> simp
      · simp
    · simp
    · simp
  all_goals
    grind [completionAwaitSuspend, dispatchAwaitSuspend, postAwaitSuspend,
      State.initiationThrows, State.initiationReturns, State.resumeAwaiting,
      State.finalResumeAwaiting, State.awaitResume, completionSetValue, State.dispatchEnter,
      State.plainResume, State.resumeCompleted, State.handlerResume, handlerDrop,
      State.trampolineInvoke, State.trampolineReturn, destroyFrame]

/-- A handler that a trampoline holds stays there until the trampoline invokes it or is destroyed.
    -/
theorem State.next_held {a : Action V E} (ha : s.Enabled a) {h : SuspId} {x : FrameId}
    (hh : h < s.nextSusp) (hx : (s.susp h).stage = .held x) :
    ((s.next a).susp h).stage = .held x ∨ (∃ c, a = .trampolineInvoke x c h) ∨
      a = .destroy x ∧ ((s.next a).susp h).stage = .dropping := by
  have hne : h ≠ s.nextSusp := Nat.ne_of_lt hh
  cases a <;> simp only [next]
  case coReturn f e =>
    left
    simp only [coReturn, finalAwaitSuspend]
    split
    · split
      · split_ifs
        · split <;> simp [hne, hx]
        · split <;> simp [hne, hx]
        · split <;> simp [hne, hx]
      · simp [hx]
    · simp [hx]
    · simp [hx]
  case destroy f =>
    by_cases hf : f = x
    · subst hf
      cases haw : (s.frame f).awaiter with
      | bridge c j =>
          by_cases hj : h = j
          · exact Or.inr (Or.inr ⟨rfl, by rw [s.destroyFrame_susp_held (hj ▸ haw) hx]⟩)
          · left
            cases hg : (s.frame f).caller <;> simp only [destroyFrame, haw, hg] <;>
              split_ifs <;> simp [hj, hx]
      | _ => exact Or.inl (by cases hg : (s.frame f).caller <;> simp [destroyFrame, haw, hg, hx])
    · left
      rw [s.destroyFrame_susp_other (by rw [hx]; simpa using Ne.symm hf), hx]
  case trampolineInvoke y c j =>
    by_cases hj : h = j
    · subst hj
      obtain rfl : x = y := by simpa [hx] using ha.2.2
      exact Or.inr (Or.inl ⟨c, rfl⟩)
    · left
      simp only [State.trampolineInvoke]
      split_ifs <;> simp [completionSetValue, hj, hx]
  all_goals
    left
    simp only [Enabled] at ha
    grind [completionAwaitSuspend, postAwaitSuspend, completionSetValue, State.initiationThrows,
      State.dispatchEnter, State.resumeCompleted, State.initiationReturns,
      State.plainResume, State.trampolineReturn, State.resumeAwaiting, State.finalResumeAwaiting,
      State.handlerResume, State.handlerDrop, State.awaitResume, coroAwaitSuspend_susp,
      awaitAwaitSuspend_susp, startAwait_susp, dispatchAwaitSuspend, Suspension.endBy]

/-- A handler about to be destroyed is destroyed next. -/
theorem State.next_dropping {a : Action V E} (ha : s.Enabled a) {h : SuspId}
    (hh : h < s.nextSusp) (hx : (s.susp h).stage = .dropping) :
    ((s.next a).susp h).stage = .dropping ∨ a = .drop h := by
  have hne : h ≠ s.nextSusp := Nat.ne_of_lt hh
  cases a <;> simp only [next]
  case coReturn f e =>
    left
    simp only [coReturn, finalAwaitSuspend]
    split
    · split
      · split_ifs
        · split <;> simp [hne, hx]
        · split <;> simp [hne, hx]
        · split <;> simp [hne, hx]
      · simp [hx]
    · simp [hx]
    · simp [hx]
  case destroy f =>
    left
    rw [s.destroyFrame_susp_other (by simp [hx]), hx]
  case drop j =>
    by_cases hj : h = j
    · exact Or.inr (by rw [hj])
    · left
      simp only [handlerDrop]
      split_ifs <;> simp [hj, hx]
  all_goals
    left
    simp only [Enabled] at ha
    grind [completionAwaitSuspend, postAwaitSuspend, completionSetValue, State.initiationThrows,
      State.dispatchEnter, State.resumeCompleted, State.initiationReturns, State.trampolineInvoke,
      State.plainResume, State.trampolineReturn, State.resumeAwaiting, State.finalResumeAwaiting,
      State.handlerResume, State.awaitResume, coroAwaitSuspend_susp, awaitAwaitSuspend_susp,
      startAwait_susp, dispatchAwaitSuspend, Suspension.endBy]

namespace Accounts

/-- Only `await` makes a trampoline, and only a new one. -/
theorem next_bridge (r : Accounts s b) {a : Action V E} (h : s.Enabled a) {x c : FrameId}
    {k : SuspId} (hx : ((s.next a).frame x).awaiter = .bridge c k) :
    (s.frame x).awaiter = .bridge c k ∨
      x = s.nextFrame ∧ k = s.nextSusp ∧
        ((∃ f, a = .awaitAwait f c) ∨ ∃ t, a = .startAwait t c) := by
  cases a <;> simp only [next] at hx
  case awaitPromise f d =>
    obtain ⟨hcp, hcc, hne⟩ := r.custodian.of_call h
    rw [s.coroAwaitSuspend_frame hcp hcc hne] at hx
    grind
  case awaitAwait f d =>
    obtain ⟨hcp, hcc, hne, hcn⟩ := r.custodian.of_callAwait h
    rw [s.awaitAwaitSuspend_frame hcp hcc hne hcn] at hx
    grind
  case startAwait t d =>
    obtain ⟨hcp, hcc, hcn⟩ := r.custodian.of_startAwait h
    rw [s.startAwait_frame hcp hcc hcn] at hx
    grind
  case coReturn f e =>
    cases hkind : (s.frame f).kind
    case promise =>
      obtain ⟨g, hg, ho, hgp, hgf, hret⟩ := r.custodian.returned r.stored e h.1 hkind
      rcases hb : s.handBack f with _ | ex | ex <;> simp only [Returned, hb] at hret <;>
        obtain ⟨-, -, hfr⟩ := hret <;> rw [hfr] at hx <;> grind [finished]
    all_goals
      simp only [coReturn, hkind, modFrame_frame] at hx
      grind
  all_goals
    grind [completionAwaitSuspend, postAwaitSuspend, completionSetValue, State.initiationThrows,
      State.dispatchEnter, State.resumeCompleted, State.trampolineInvoke, State.initiationReturns,
      State.plainResume, State.trampolineReturn, State.resumeAwaiting, State.finalResumeAwaiting,
      State.handlerResume, State.handlerDrop, State.destroyFrame, State.awaitResume,
      dispatchAwaitSuspend]

/-- A frame gets a callee when it calls a promise that was never awaited. -/
theorem next_callee (r : Accounts s b) {a : Action V E} (h : s.Enabled a) {x c : FrameId}
    (hx : ((s.next a).frame x).awaiter.callee = some c) :
    (s.frame x).awaiter.callee = some c ∨ s.isFresh c = true ∧
      ((s.next a).frame c).phase.isRunning = true ∧ (a = .awaitPromise x c ∨
        x = s.nextFrame ∧ ((∃ f, a = .awaitAwait f c) ∨ ∃ t, a = .startAwait t c)) := by
  rcases next_awaiter (s := s) (a := a) (x := x) with haw | haw | ⟨f, d, rfl⟩ | ⟨f, d, rfl⟩ |
    ⟨t, d, rfl⟩
  · exact Or.inl (haw ▸ hx)
  · rw [haw] at hx
    cases hx
  · obtain ⟨hcp, hcc, hne⟩ := r.custodian.of_call h
    have hfresh : s.isFresh d = true := h.2
    have hf := s.coroAwaitSuspend_frame hcp hcc hne
    simp only [next, hf] at hx ⊢
    grind [Awaiter.callee]
  · obtain ⟨hcp, hcc, hne, hcn⟩ := r.custodian.of_callAwait h
    have hfresh : s.isFresh d = true := h.2
    have hf := s.awaitAwaitSuspend_frame hcp hcc hne hcn
    simp only [next, hf] at hx ⊢
    grind [Awaiter.callee]
  · obtain ⟨hcp, hcc, hcn⟩ := r.custodian.of_startAwait h
    have hfresh : s.isFresh d = true := h
    have hf := s.startAwait_frame hcp hcc hcn (t := t)
    simp only [next, hf] at hx ⊢
    grind [Awaiter.callee]

/-- A promise that is over is destroyed by the frame that awaits it. -/
theorem reaped (r : Accounts s b) {a : Action V E} (h : s.Enabled a) {c : FrameId}
    (hp : (s.frame c).phase.isFinalizing = true ∨ (s.frame c).phase = .parked)
    (hk : (s.frame c).kind = .promise) :
    ((((s.next a).frame c).phase.isFinalizing = true ∨ ((s.next a).frame c).phase = .parked) ∧
        ((s.next a).frame c).result = (s.frame c).result) ∨
      (∃ f, a = .awaitResume f ∧ (s.frame f).awaiter = .coro c) ∨
        ∃ x k, a = .trampolineReturn x c k := by
  have hn : c ≠ s.nextFrame := by
    rintro rfl
    rw [r.custodian.unborn_frame (Nat.le_refl _)] at hp
    rcases hp with hp | hp <;> cases hp
  -- no handler and no callee leads to a frame that is over
  have hhandle : ∀ k, (s.susp k).isOpen = true → (s.susp k).kind ≠ .callback →
      (s.susp k).handle ≠ c := by
    rintro k ho hcb rfl
    have hf := r.custodian.fits (s.susp k).handle
    rw [r.custodian.leased_of_open ho hcb] at hf
    rcases hf.2 with hf | hf <;> grind
  have hcaller : ∀ x, (s.frame x).caller ≠ some c := by
    intro x hx
    have hf := r.custodian.fits c
    rw [(r.custodian.owned c x).mpr hx] at hf
    grind [Frame.Fits]
  cases a <;> simp only [next]
  case awaitPromise f d =>
    obtain ⟨hcp, hcc, hne⟩ := r.custodian.of_call h
    obtain ⟨-, -, -, t, ht⟩ := r.custodian.of_inBody h.1
    rw [s.coroAwaitSuspend_frame hcp hcc hne]
    grind
  case awaitAwait f d =>
    obtain ⟨hcp, hcc, hne, hcn⟩ := r.custodian.of_callAwait h
    obtain ⟨-, -, -, t, ht⟩ := r.custodian.of_inBody h.1
    rw [s.awaitAwaitSuspend_frame hcp hcc hne hcn]
    grind
  case startAwait t d =>
    obtain ⟨hcp, hcc, hcn⟩ := r.custodian.of_startAwait h
    rw [s.startAwait_frame hcp hcc hcn]
    grind
  case coReturn f e =>
    obtain ⟨hfa, -, -, t, ht⟩ := r.custodian.of_inBody h.1
    cases hkind : (s.frame f).kind
    case promise =>
      obtain ⟨g, hg, ho, hgp, hgf, hret⟩ := r.custodian.returned r.stored e h.1 hkind
      rcases hb : s.handBack f with _ | ex | ex <;> simp only [Returned, hb] at hret <;>
        obtain ⟨-, -, hfr⟩ := hret <;> rw [hfr] <;> grind
    all_goals
      simp only [coReturn, hkind, modFrame_frame]
      grind
  case awaitResume f =>
    obtain ⟨t, ht⟩ := Phase.isResuming_iff.mp h.1
    cases haw : (s.frame f).awaiter with
    | coro d =>
        by_cases hd : c = d
        · exact Or.inr (Or.inl ⟨f, rfl, hd ▸ haw⟩)
        · left
          simp only [State.awaitResume, haw]
          grind
    | _ =>
        left
        simp only [State.awaitResume, haw]
        grind
  case trampolineReturn x d k =>
    by_cases hd : c = d
    · exact Or.inr (Or.inr ⟨x, k, by rw [hd]⟩)
    · left
      obtain ⟨t, ht⟩ := Phase.isRunning_iff.mp h.1
      simp only [State.trampolineReturn]
      grind
  case destroy f =>
    have hf : (s.frame f).phase = .destroying := h
    rw [s.destroyFrame_frame (r.custodian.caller_ne h)]
    have := hcaller f
    grind
  case plainResume k ex =>
    have hk : (s.susp k).handle ≠ c := hhandle k (by simp [Suspension.isOpen, h.1])
      (by rcases h.2.1 with hk | hk <;> rw [hk] <;> simp)
    simp only [State.plainResume]
    grind
  case handlerResume k t =>
    have hst : (s.susp k).stage = .claimed t := h
    have hk : (s.susp k).handle ≠ c := hhandle k (by simp [Suspension.isOpen, hst]) fun hcb => by
      have := (r.sound k).invoked ⟨t, Or.inr hst⟩
      rw [hcb] at this
      cases this
    simp only [State.handlerResume]
    split_ifs <;> grind
  case drop k =>
    by_cases hcb : (s.susp k).kind = .callback
    · simp only [handlerDrop, hcb, AwaitKind.hasContext]
      grind
    · have hk : (s.susp k).handle ≠ c :=
        hhandle k (by rcases h with hst | hst <;> simp [Suspension.isOpen, hst]) hcb
      rcases s.handlerDrop_frame k c with hx | ⟨_, hx, _⟩
      · rw [hx]
        exact Or.inl ⟨hp, rfl⟩
      · exact absurd hx.symm hk
  case finalResumeAwaiting d k =>
    have hside := h.2.2
    have hk : (s.susp k).handle ≠ c := hhandle k (by rw [Suspension.isOpen, hside]; simp)
      fun hcb => by
        have := ((r.sound k).callback hcb).1
        rw [hside] at this
        cases this
    simp only [State.finalResumeAwaiting]
    split_ifs <;> grind
  case resumeAwaiting f k =>
    obtain ⟨t, ht⟩ := Phase.isSuspending_iff.mp h.1
    simp only [State.resumeAwaiting]
    split_ifs <;> grind
  all_goals
    simp only [Enabled, inBody, isFresh] at h
    left
    grind [completionAwaitSuspend, postAwaitSuspend, completionSetValue, State.initiationThrows,
      State.dispatchEnter, State.resumeCompleted, State.trampolineInvoke, State.initiationReturns,
      dispatchAwaitSuspend, Frame.setExecutor]

/-- A promise keeps its caller until its body ends or it is destroyed. -/
theorem next_called (r : Accounts s b) {a : Action V E} (h : s.Enabled a) {c x : FrameId}
    (hc : (s.frame c).caller = some x) :
    ((s.next a).frame c).caller = some x ∧ (∀ e, a ≠ .coReturn c e) ∨
      (∃ e, a = .coReturn c e ∧ ((s.next a).frame c).result = Outcome.finish e ∧
        (((s.next a).frame c).phase.isFinalizing = true ∨ ((s.next a).frame c).phase = .parked)) ∨
      a = .destroy c ∧ ((s.next a).frame c).phase = .destroyed := by
  have hn : c ≠ s.nextFrame := by
    rintro rfl
    rw [r.custodian.unborn_frame (Nat.le_refl _)] at hc
    cases hc
  cases a <;> simp only [next]
  case awaitPromise f d =>
    obtain ⟨hcp, hcc, hne⟩ := r.custodian.of_call h
    rw [s.coroAwaitSuspend_frame hcp hcc hne]
    grind
  case awaitAwait f d =>
    obtain ⟨hcp, hcc, hne, hcn⟩ := r.custodian.of_callAwait h
    rw [s.awaitAwaitSuspend_frame hcp hcc hne hcn]
    grind
  case startAwait t d =>
    obtain ⟨hcp, hcc, hcn⟩ := r.custodian.of_startAwait h
    rw [s.startAwait_frame hcp hcc hcn]
    grind
  case coReturn f e =>
    obtain ⟨hfa, -, -, t, ht⟩ := r.custodian.of_inBody h.1
    cases hkind : (s.frame f).kind
    case promise =>
      obtain ⟨g, hg, ho, hgp, hgf, hret⟩ := r.custodian.returned r.stored e h.1 hkind
      rcases hb : s.handBack f with _ | ex | ex <;> simp only [Returned, hb] at hret <;>
        obtain ⟨-, -, hfr⟩ := hret <;> rw [hfr] <;> grind [finished]
    all_goals
      have hf : c ≠ f := by
        rintro rfl
        rw [r.promise_of_caller h.1 hc] at hkind
        cases hkind
      simp only [coReturn, hkind, modFrame_frame]
      grind
  case destroy f =>
    rw [s.destroyFrame_frame (r.custodian.caller_ne h)]
    grind
  case drop k =>
    refine Or.inl ⟨?_, (by simp)⟩
    rcases s.handlerDrop_frame k c with hx | ⟨_, _, hx⟩ <;> rw [hx] <;> exact hc
  all_goals
    refine Or.inl ⟨?_, (by simp)⟩
    grind [completionAwaitSuspend, postAwaitSuspend, completionSetValue, State.initiationThrows,
      State.dispatchEnter, State.resumeCompleted, State.trampolineInvoke, State.initiationReturns,
      State.plainResume, State.trampolineReturn, State.resumeAwaiting, State.finalResumeAwaiting,
      State.handlerResume, State.awaitResume, dispatchAwaitSuspend, Frame.setExecutor]

/-- A trampoline that was resumed invokes its handler and runs until that returns. -/
theorem next_active (r : Accounts s b) {a : Action V E} (h : s.Enabled a) {x : FrameId} {t : Site}
    (hp : (s.frame x).phase = .resuming t ∨ (s.frame x).phase = .running t)
    (hk : (s.frame x).kind = .trampoline) :
    ((s.next a).frame x).phase = (s.frame x).phase ∧
        ((s.next a).frame x).awaiter = (s.frame x).awaiter ∨
      (∃ c k, a = .trampolineInvoke x c k) ∨ ∃ c k, a = .trampolineReturn x c k := by
  have hn : x ≠ s.nextFrame := by
    rintro rfl
    rw [r.custodian.unborn_frame (Nat.le_refl _)] at hp
    rcases hp with hp | hp <;> cases hp
  cases a <;> simp only [next]
  case awaitPromise f d =>
    obtain ⟨hcp, hcc, hne⟩ := r.custodian.of_call h
    obtain ⟨-, -, hkf, -⟩ := r.custodian.of_inBody h.1
    rw [s.coroAwaitSuspend_frame hcp hcc hne]
    grind
  case awaitAwait f d =>
    obtain ⟨hcp, hcc, hne, hcn⟩ := r.custodian.of_callAwait h
    obtain ⟨-, -, hkf, -⟩ := r.custodian.of_inBody h.1
    rw [s.awaitAwaitSuspend_frame hcp hcc hne hcn]
    grind
  case startAwait t d =>
    obtain ⟨hcp, hcc, hcn⟩ := r.custodian.of_startAwait h
    rw [s.startAwait_frame hcp hcc hcn]
    grind
  case coReturn f e =>
    obtain ⟨hfa, -, hkf, t, ht⟩ := r.custodian.of_inBody h.1
    cases hkind : (s.frame f).kind
    case promise =>
      obtain ⟨g, hg, ho, hgp, hgf, hret⟩ := r.custodian.returned r.stored e h.1 hkind
      rcases hb : s.handBack f with _ | ex | ex <;> simp only [Returned, hb] at hret <;>
        obtain ⟨-, -, hfr⟩ := hret <;> rw [hfr] <;> grind [finished]
    all_goals
      simp only [coReturn, hkind, modFrame_frame]
      grind
  case trampolineReturn y d k =>
    by_cases hy : y = x
    · exact Or.inr (Or.inr ⟨d, k, by rw [hy]⟩)
    · left
      simp only [State.trampolineReturn]
      grind [Phase.afterDestroy]
  case trampolineInvoke y d k =>
    by_cases hy : y = x
    · exact Or.inr (Or.inl ⟨d, k, by rw [hy]⟩)
    · left
      simp only [State.trampolineInvoke]
      split_ifs <;> grind [completionSetValue]
  case destroy f =>
    rw [s.destroyFrame_frame (r.custodian.caller_ne h)]
    have hf : (s.frame f).phase = .destroying := h
    grind [Phase.afterDestroy]
  case drop k =>
    left
    rcases s.handlerDrop_frame k x with hx | ⟨_, _, hx⟩
    · rw [hx]
      exact ⟨rfl, rfl⟩
    · rw [hx]
      rcases hp with hp | hp <;> rw [hp] <;> exact ⟨rfl, rfl⟩
  all_goals
    simp only [Enabled, inBody, isFresh] at h
    left
    grind [completionAwaitSuspend, postAwaitSuspend, completionSetValue, State.initiationThrows,
      State.dispatchEnter, State.resumeCompleted, State.initiationReturns,
      State.plainResume, State.resumeAwaiting, State.finalResumeAwaiting, State.handlerResume,
      State.awaitResume, dispatchAwaitSuspend, Frame.setExecutor, Phase.afterDestroy,
      Phase.afterResume]

/-- The type of a promise does not change. -/
theorem next_kind (r : Accounts s b) {a : Action V E} (h : s.Enabled a) {x : FrameId}
    (hx : (s.frame x).phase ≠ .unborn) : ((s.next a).frame x).kind = (s.frame x).kind := by
  have hn : x ≠ s.nextFrame := by
    rintro rfl
    rw [r.custodian.unborn_frame (Nat.le_refl _)] at hx
    exact hx rfl
  rcases next_retains (a := a) hn with hr | ⟨ex, _, hr⟩ | ⟨f, rfl⟩
  · exact hr.kind
  · exact hr.kind
  · obtain ⟨hcp, hcc, hne⟩ := r.custodian.of_call h
    simp [next, s.coroAwaitSuspend_frame hcp hcc hne]

end Accounts

/-- Whatever a frame calls has been started. -/
theorem Reachable.callee_called (hs : Reachable s) {g c : FrameId}
    (hg : (s.frame g).awaiter.callee = some c) :
    (s.frame c).phase ≠ .initial ∧ (s.frame c).phase ≠ .unborn := by
  revert g c
  refine hs.invariant_with (J := fun s => ∃ b, Accounts s b)
    (I := fun s => ∀ {g c}, (s.frame g).awaiter.callee = some c →
      (s.frame c).phase ≠ .initial ∧ (s.frame c).phase ≠ .unborn)
    (fun _ hu => Reachable.accounts hu) (fun h => by cases h) ?_
  rintro s a ⟨b, r⟩ hI ha g c hg
  rcases r.next_callee ha hg with hold | ⟨_, hrun, _⟩
  · obtain ⟨hi, hu⟩ := hI hold
    have hn : c ≠ s.nextFrame := by
      rintro rfl
      rw [r.custodian.unborn_frame (Nat.le_refl _)] at hu
      exact hu rfl
    exact (r.next_phase ha hn).not_fresh hi hu
  · obtain ⟨t, ht⟩ := Phase.isRunning_iff.mp hrun
    show ((s.next a).frame c).phase ≠ .initial ∧ ((s.next a).frame c).phase ≠ .unborn
    rw [ht]
    exact ⟨by simp, by simp⟩

end WebAsio.Coro
