import WebAsio.Coro.Inheritance

set_option autoImplicit false

/-! # The life of a frame

Inversion lemmas for the steps of the runtime: how the phase of a frame can change, by which action,
at which site, a suspended frame is resumed, and which frame a step destroys. -/

namespace WebAsio.Coro

open Custody State

variable {V E : Type}

/-- The changes of phase. Between two suspensions a body stays at one site. -/
inductive Phase.Next : Phase → Phase → Prop
  | same {p : Phase} : Next p p
  | start {t : Site} : Next .initial (.running t)
  | await {t : Site} : Next (.running t) (.suspending t)
  | suspend {t : Site} : Next (.running t) .suspended
  | leave {t : Site} : Next (.suspending t) .suspended
  | proceed {t : Site} : Next (.suspending t) (.resuming t)
  | abandon {t : Site} : Next (.suspending t) .destroying
  | finalize {t : Site} : Next (.running t) (.finalizing t)
  | finish {t : Site} : Next (.running t) .parked
  | park {t : Site} : Next (.finalizing t) .parked
  | wake {t : Site} : Next .suspended (.resuming t)
  | resume {t : Site} : Next (.resuming t) (.running t)
  | quit {t : Site} : Next (.running t) .destroyed
  | destroy {p : Phase} : p = .initial ∨ p = .suspended ∨ p = .parked → Next p .destroying
  | bury : Next .destroying .destroyed

theorem Phase.next_afterDestroy (p : Phase) : p.Next p.afterDestroy := by
  cases p <;> first | exact .same | exact .destroy (by simp)

theorem Phase.next_afterResume (p : Phase) (t : Site) : p.Next (p.afterResume t) := by
  cases p <;> first | exact .same | exact .start | exact .wake

theorem State.next_destroyHandle {s s' : State V E} {f x : FrameId}
    (h : (s'.frame x).phase = (s.frame x).phase) :
    (s.frame x).phase.Next ((s'.destroyHandle f).frame x).phase := by
  rw [destroyHandle_frame]
  split
  · subst_vars; exact h ▸ Phase.next_afterDestroy _
  · exact h ▸ .same

theorem State.next_resume {s s' : State V E} {f x : FrameId} {t : Site}
    (h : (s'.frame x).phase = (s.frame x).phase) :
    (s.frame x).phase.Next ((s'.resume f t).frame x).phase := by
  rw [resume_frame]
  split
  · subst_vars; exact h ▸ Phase.next_afterResume _ _
  · exact h ▸ .same

namespace Accounts

variable {s : State V E} {b : Book FrameId SuspId}

theorem lt_of_born (r : Accounts s b) {x : FrameId} (hx : (s.frame x).phase ≠ .unborn) :
    x < s.nextFrame := by
  by_contra hn
  rw [r.custodian.unborn_frame (Nat.le_of_not_lt hn)] at hx
  exact hx rfl

/-- The next frame is still not made after a step, unless the step makes it. -/
theorem next_unborn (r : Accounts s b) {a : Action V E} (h : s.Enabled a) :
    (s.next a).frame s.nextFrame = {} ∨
      (s.next a).nextFrame ≠ s.nextFrame ∧ s.Newborn ((s.next a).frame s.nextFrame) := by
  by_cases hgrow : (s.next a).nextFrame = s.nextFrame
  · obtain ⟨b', -, r'⟩ := r.step h
    exact Or.inl (r'.custodian.unborn_frame (Nat.le_of_eq hgrow))
  · exact Or.inr ⟨hgrow, (next_born hgrow).2⟩

theorem next_phase (r : Accounts s b) {a : Action V E} (h : s.Enabled a) {x : FrameId}
    (hx : x ≠ s.nextFrame) : (s.frame x).phase.Next ((s.next a).frame x).phase := by
  cases a <;> simp only [next]
  case awaitPromise f c =>
    obtain ⟨-, -, -, t, ht⟩ := r.custodian.of_inBody h.1
    obtain ⟨hcp, hcc, hne⟩ := r.custodian.of_call h
    rw [s.coroAwaitSuspend_frame hcp hcc hne]
    grind [Phase.Next]
  case awaitAwait f c =>
    obtain ⟨-, -, -, t, ht⟩ := r.custodian.of_inBody h.1
    obtain ⟨hcp, hcc, hne, hcn⟩ := r.custodian.of_callAwait h
    rw [s.awaitAwaitSuspend_frame hcp hcc hne hcn]
    grind [Phase.Next, Phase.site]
  case startAwait t c =>
    obtain ⟨hcp, hcc, hcn⟩ := r.custodian.of_startAwait h
    rw [s.startAwait_frame hcp hcc hcn]
    grind [Phase.Next]
  case discard c => exact next_destroyHandle rfl
  case initiationThrows f k e =>
    obtain ⟨t, ht⟩ := Phase.isSuspending_iff.mp h.1
    by_cases hf : x = f
    · subst hf; simpa [State.initiationThrows, ht, Phase.site] using Phase.Next.proceed
    · simpa [State.initiationThrows, hf] using Phase.Next.same
  case initiationReturns f k =>
    by_cases hf : x = f
    · subst hf; simpa [State.initiationReturns] using Phase.Next.same
    · simpa [State.initiationReturns, hf] using Phase.Next.same
  case resumeAwaiting f k =>
    obtain ⟨t, ht⟩ := Phase.isSuspending_iff.mp h.1
    by_cases hf : x = f
    · subst hf
      by_cases hr : (s.susp k).word.resumeAwaiting.resumes = true
      · simpa [State.resumeAwaiting, hr, ht, Phase.site] using Phase.Next.proceed
      by_cases hd : (s.susp k).word.resumeAwaiting.destroys = true
      · simpa [State.resumeAwaiting, hr, hd, ht, destroyHandle_frame, Phase.afterDestroy] using
          Phase.Next.abandon
      · simpa [State.resumeAwaiting, hr, hd, ht] using Phase.Next.leave
    · simp only [State.resumeAwaiting]
      split_ifs <;> simpa [hf, destroyHandle_frame] using Phase.Next.same
  case finalResumeAwaiting c k =>
    obtain ⟨t, ht⟩ := Phase.isFinalizing_iff.mp h.1
    have hside : (s.susp k).side ≠ .left := by rw [h.2.2]; simp
    have hcb : (s.susp k).kind ≠ .callback := fun hk => hside ((r.sound k).callback hk).1
    obtain ⟨hl, hfin, -⟩ := r.custodian.leased_of_finalizing
      (by simp [Suspension.isOpen, hside]) hcb h.1 h.2.1
    have hgp := (r.custodian.final _ k hl hfin).2.1
    have hgc : (s.susp k).handle ≠ c := by rintro he; simp [he ▸ hgp] at ht
    simp only [State.finalResumeAwaiting]
    split_ifs <;> by_cases hxc : x = c <;> by_cases hxh : x = (s.susp k).handle <;>
      simp_all [resume_frame, destroyHandle_frame, Phase.afterResume, Phase.afterDestroy] <;>
      grind [Phase.Next]
  case awaitResume f =>
    obtain ⟨t, ht⟩ := Phase.isResuming_iff.mp h.1
    by_cases hf : x = f
    · subst hf
      suffices hp : ((s.awaitResume x).frame x).phase = .running t by
        rw [hp, ht]; exact .resume
      cases haw : (s.frame x).awaiter with
      | coro c =>
          by_cases hc : x = c
          · subst hc
            simp [State.awaitResume, haw, destroyHandle_frame, ht, Phase.afterDestroy, Phase.site]
          · simp [State.awaitResume, haw, destroyHandle_frame, hc, ht, Phase.site]
      | _ => simp [State.awaitResume, haw, ht, Phase.site]
    · cases haw : (s.frame f).awaiter with
      | coro c =>
          simp only [State.awaitResume, haw, modFrame_frame, hf, if_false]
          exact next_destroyHandle (by simp)
      | _ => simpa [State.awaitResume, haw, hf] using Phase.Next.same
  case coReturn f e =>
    obtain ⟨hfa, -, -, t, ht⟩ := r.custodian.of_inBody h.1
    cases hk : (s.frame f).kind
    case promise =>
      obtain ⟨g, hg, ho, hgp, hgf, hret⟩ := r.custodian.returned r.stored e h.1 hk
      rcases hb : s.handBack f with _ | ex | ex <;> simp only [Returned, hb] at hret <;>
        obtain ⟨-, -, hfr⟩ := hret <;> rw [hfr] <;> grind [Phase.Next, Phase.site, finished]
    all_goals
      simp only [coReturn, hk, modFrame_frame]
      grind [Phase.Next]
  case destroy f =>
    have hp : (s.frame f).phase = .destroying := h
    rw [s.destroyFrame_frame (r.custodian.caller_ne h)]
    have := Phase.next_afterDestroy (s.frame x).phase
    grind [Phase.Next]
  case handlerResume k t =>
    simp only [State.handlerResume]
    split_ifs
    · refine next_resume ?_
      simp only [endBy_frame, modFrame_frame]
      split <;> simp_all
    · refine next_destroyHandle ?_
      simp only [endBy_frame, modSusp_frame, modFrame_frame]
      split <;> simp_all
    · exact next_resume (by simp)
  case drop k =>
    simp only [State.handlerDrop]
    split_ifs
    · exact next_destroyHandle (by simp)
    · simpa using Phase.Next.same
    · exact .same
    · exact next_destroyHandle (by simp)
  case trampolineReturn y c k =>
    obtain ⟨t, ht⟩ := Phase.isRunning_iff.mp h.1
    by_cases hy : x = y
    · subst hy
      simpa [State.trampolineReturn, ht] using Phase.Next.quit
    · simp only [State.trampolineReturn, modFrame_frame, hy, if_false]
      exact next_destroyHandle rfl
  case plainResume k ex => exact next_resume (by simp)
  all_goals
    simp only [Enabled, inBody] at h
    grind [Phase.Next, Phase.site, completionAwaitSuspend, dispatchAwaitSuspend, postAwaitSuspend,
      completionSetValue, State.dispatchEnter, State.plainResume, State.resumeCompleted,
      State.trampolineInvoke, Phase.next_afterResume]

end Accounts

/-! ## Who resumes a frame -/

/-- The action resumes the frame `f`, by a thread at `t`. -/
inductive Wakes (s : State V E) (f : FrameId) (t : Site) : Action V E → Prop
  /-- the handler was invoked before `f` had left its `await_suspend` -/
  | eager {k : SuspId} : (s.frame f).phase = .suspending t → (s.frame f).awaiter = .context k →
      (s.susp k).side ≠ .left → (s.susp k).word = .completed → Wakes s f t (.resumeAwaiting f k)
  | threw {k : SuspId} {e : E} : (s.frame f).phase = .suspending t →
      (s.frame f).awaiter = .context k → (s.susp k).side = .initiating true →
      Wakes s f t (.initiationThrows f k e)
  /-- the handler was invoked before the callee `c` had left its `await_suspend` -/
  | handBack {c : FrameId} {k : SuspId} : (s.frame c).phase = .finalizing t →
      (s.frame c).awaiter = .context k → (s.susp k).handle = f → (s.susp k).side ≠ .left →
      (s.susp k).word = .completed → Wakes s f t (.finalResumeAwaiting c k)
  | plain {k : SuspId} {ex : Executor} : (s.susp k).handle = f → (s.susp k).stage = .asio →
      (s.susp k).kind = .post ∨ (s.susp k).kind = .finalDefer → (s.susp k).target = some ex →
      t = ex.site → Wakes s f t (.plainResume k ex)
  | handler {k : SuspId} : (s.susp k).handle = f → (s.susp k).stage = .claimed t →
      Wakes s f t (.handlerResume k t)
  /-- the callee `c` returns and its caller goes on at once -/
  | direct {c : FrameId} {e : BodyEnd V E} : (s.frame c).phase = .running t →
      (s.frame c).kind = .promise → (s.frame c).caller = some f → s.handBack c = .direct →
      Wakes s f t (.coReturn c e)

/-- Only the frame that is resumed starts to resume. -/
theorem State.resuming_of_resume {s s' : State V E} {f x : FrameId} {t u : Site}
    (hp : (s'.frame x).phase = (s.frame x).phase)
    (hx : ((s'.resume f t).frame x).phase = .resuming u) :
    (s.frame x).phase = .resuming u ∨ x = f ∧ t = u := by
  rw [resume_frame] at hx
  split at hx
  · subst_vars
    rw [Phase.afterResume_eq_resuming, hp] at hx
    exact hx.imp id fun h => ⟨rfl, h.2⟩
  · exact .inl (hp ▸ hx)

theorem State.resuming_of_destroyHandle {s s' : State V E} {f x : FrameId} {u : Site}
    (hp : (s'.frame x).phase = (s.frame x).phase)
    (hx : ((s'.destroyHandle f).frame x).phase = .resuming u) :
    (s.frame x).phase = .resuming u := by
  rw [destroyHandle_frame] at hx
  split at hx
  · subst_vars
    rwa [Phase.afterDestroy_eq_resuming, hp] at hx
  · exact hp ▸ hx

namespace Accounts

variable {s : State V E} {b : Book FrameId SuspId}

theorem word_of_resumes {w : ContextState} (h : w.resumeAwaiting.resumes = true) :
    w = .completed := by
  cases w <;> first | rfl | simp [ContextState.resumeAwaiting] at h

theorem next_resuming (r : Accounts s b) {a : Action V E} (h : s.Enabled a) {x : FrameId}
    {t : Site} (hx : ((s.next a).frame x).phase = .resuming t) :
    (s.frame x).phase = .resuming t ∨ Wakes s x t a := by
  cases a <;> simp only [next] at hx
  case awaitPromise f c =>
    obtain ⟨hcp, hcc, hne⟩ := r.custodian.of_call h
    rw [s.coroAwaitSuspend_frame hcp hcc hne] at hx
    grind
  case awaitAwait f c =>
    obtain ⟨-, -, -, t, ht⟩ := r.custodian.of_inBody h.1
    obtain ⟨hcp, hcc, hne, hcn⟩ := r.custodian.of_callAwait h
    rw [s.awaitAwaitSuspend_frame hcp hcc hne hcn] at hx
    grind
  case startAwait t c =>
    obtain ⟨hcp, hcc, hcn⟩ := r.custodian.of_startAwait h
    rw [s.startAwait_frame hcp hcc hcn] at hx
    grind
  case initiationThrows f k e =>
    obtain ⟨t', ht⟩ := Phase.isSuspending_iff.mp h.1
    by_cases hf : x = f
    · subst hf
      obtain rfl : t' = t := by simpa [State.initiationThrows, ht, Phase.site] using hx
      exact .inr (.threw ht h.2.1 h.2.2.1)
    · exact .inl (by simpa [State.initiationThrows, hf] using hx)
  case resumeAwaiting f k =>
    obtain ⟨t', ht⟩ := Phase.isSuspending_iff.mp h.1
    by_cases hf : x = f
    · subst hf
      by_cases hr : (s.susp k).word.resumeAwaiting.resumes = true
      · obtain rfl : t' = t := by simpa [State.resumeAwaiting, hr, ht, Phase.site] using hx
        exact .inr (.eager ht h.2.1 (by rw [h.2.2]; simp) (word_of_resumes hr))
      by_cases hd : (s.susp k).word.resumeAwaiting.destroys = true
      · simp [State.resumeAwaiting, hr, hd, destroyHandle_frame, Phase.afterDestroy] at hx
      · simp [State.resumeAwaiting, hr, hd] at hx
    · left
      simp only [State.resumeAwaiting] at hx
      split_ifs at hx <;> simpa [hf, destroyHandle_frame] using hx
  case finalResumeAwaiting c k =>
    obtain ⟨t', ht⟩ := Phase.isFinalizing_iff.mp h.1
    have hside : (s.susp k).side ≠ .left := by rw [h.2.2]; simp
    simp only [State.finalResumeAwaiting] at hx
    split_ifs at hx with hr hd
    · by_cases hxh : x = (s.susp k).handle
      · by_cases hxc : x = c
        · simp [resume_frame, ← hxh, hxc] at hx
        · have hx' : (s.frame x).phase = .resuming t ∨ (s.frame x).phase = .suspended ∧ t' = t := by
            simpa [resume_frame, ← hxh, hxc, ht, Phase.site] using hx
          refine hx'.imp id fun hp => ?_
          obtain rfl : t' = t := hp.2
          exact .handBack ht h.2.1 hxh.symm hside (word_of_resumes hr)
      · left
        by_cases hxc : x = c <;> simp_all [resume_frame]
    · left
      by_cases hxh : x = (s.susp k).handle <;> by_cases hxc : x = c <;>
        simp_all [destroyHandle_frame]
    · left
      by_cases hxc : x = c <;> simp_all
  case coReturn f e =>
    obtain ⟨hfa, -, -, t', ht⟩ := r.custodian.of_inBody h.1
    cases hk : (s.frame f).kind
    case promise =>
      obtain ⟨g, hg, ho, hgp, hgf, hret⟩ := r.custodian.returned r.stored e h.1 hk
      rcases hb : s.handBack f with _ | ex | ex <;> simp only [Returned, hb] at hret <;>
        obtain ⟨-, -, hfr⟩ := hret <;> rw [hfr] at hx
      case direct =>
        by_cases hxg : x = g
        · subst hxg
          obtain rfl : t' = t := by simpa [hgf, ht, Phase.site] using hx
          exact .inr (.direct ht hk hg hb)
        · left
          by_cases hxf : x = f <;> simp_all [finished]
      all_goals
        left
        by_cases hxf : x = f <;> simp_all [finished]
    all_goals
      left
      simp only [coReturn, hk, modFrame_frame] at hx
      grind
  case plainResume k ex =>
    refine (resuming_of_resume (by simp) hx).imp id fun hw => ?_
    exact .plain hw.1.symm h.1 h.2.1 h.2.2 hw.2.symm
  case handlerResume k t' =>
    have hwake : x = (s.susp k).handle ∧ t' = t → Wakes s x t (.handlerResume k t') := by
      rintro ⟨hxh, rfl⟩
      exact .handler hxh.symm h
    simp only [State.handlerResume] at hx
    split_ifs at hx
    · refine (resuming_of_resume ?_ hx).imp id hwake
      simp only [endBy_frame, modFrame_frame]
      split <;> simp_all
    · refine .inl (resuming_of_destroyHandle ?_ hx)
      simp only [endBy_frame, modSusp_frame, modFrame_frame]
      split <;> simp_all
    · exact (resuming_of_resume (by simp) hx).imp id hwake
  case awaitResume f =>
    left
    cases haw : (s.frame f).awaiter with
    | coro c => simp only [State.awaitResume, haw] at hx; grind
    | _ => simp only [State.awaitResume, haw] at hx; grind
  case destroy f =>
    left
    simp only [destroyFrame] at hx
    grind
  case drop k =>
    left
    simp only [handlerDrop] at hx
    split_ifs at hx
    · exact resuming_of_destroyHandle (by simp) hx
    · simpa using hx
    · exact hx
    · exact resuming_of_destroyHandle (by simp) hx
  case trampolineReturn =>
    left
    simp only [State.trampolineReturn] at hx
    grind
  all_goals
    simp only [Enabled, inBody] at h
    left
    grind [completionAwaitSuspend, dispatchAwaitSuspend, postAwaitSuspend, completionSetValue,
      State.dispatchEnter, State.resumeCompleted, State.trampolineInvoke, State.initiationReturns]

/-- A frame that is woken is suspended, or still inside its own `await_suspend`. -/
theorem suspended_of_wakes (r : Accounts s b) {a : Action V E} {f : FrameId} {t : Site}
    (h : Wakes s f t a) :
    (s.frame f).phase = .suspended ∨ ∃ t, (s.frame f).phase = .suspending t := by
  have hleased : ∀ k, (s.susp k).handle = f → (s.susp k).isOpen = true →
      (s.susp k).kind ≠ .callback →
      (s.frame f).phase = .suspended ∨ ∃ t, (s.frame f).phase = .suspending t := by
    intro k hf ho hcb
    have hfit := r.custodian.fits f
    rw [(r.custodian.leased f k).mpr ⟨hf, ho, hcb⟩] at hfit
    exact hfit.2.symm.imp id Phase.isSuspending_iff.mp
  cases h with
  | eager hp => exact .inr ⟨t, hp⟩
  | threw hp => exact .inr ⟨t, hp⟩
  | @handBack c k hp ha hf hside =>
      exact hleased k hf (by simp [Suspension.isOpen, hside])
        fun hk => hside ((r.sound k).callback hk).1
  | @plain k ex hf hst hk =>
      exact hleased k hf (by simp [Suspension.isOpen, hst])
        (by rcases hk with hk | hk <;> simp [hk])
  | @handler k hf hst =>
      refine hleased k hf (by simp [Suspension.isOpen, hst]) fun hk => ?_
      have := (r.sound k).invoked ⟨t, .inr hst⟩
      simp [hk, AwaitKind.hasContext] at this
  | @direct c e hp hk hg =>
      have hf := r.custodian.fits f
      rw [(r.custodian.owned f c).mpr hg] at hf
      exact .inl hf.2.1

/-- The awaiter of a frame changes only where its body goes on or ends. -/
theorem next_awaiter_eq (r : Accounts s b) {a : Action V E} (h : s.Enabled a) {x : FrameId}
    (hx : x ≠ s.nextFrame) (hrun : (s.frame x).phase.isRunning = false)
    (hrun' : ((s.next a).frame x).phase.isRunning = false)
    (hd' : ((s.next a).frame x).phase ≠ .destroyed) :
    ((s.next a).frame x).awaiter = (s.frame x).awaiter := by
  cases a <;> simp only [next] at hrun' hd' ⊢
  case awaitPromise f c =>
    obtain ⟨-, -, -, t, ht⟩ := r.custodian.of_inBody h.1
    obtain ⟨hcp, hcc, hne⟩ := r.custodian.of_call h
    rw [s.coroAwaitSuspend_frame hcp hcc hne]
    grind
  case awaitAwait f c =>
    obtain ⟨-, -, -, t, ht⟩ := r.custodian.of_inBody h.1
    obtain ⟨hcp, hcc, hne, hcn⟩ := r.custodian.of_callAwait h
    rw [s.awaitAwaitSuspend_frame hcp hcc hne hcn]
    grind
  case startAwait t c =>
    obtain ⟨hcp, hcc, hcn⟩ := r.custodian.of_startAwait h
    rw [s.startAwait_frame hcp hcc hcn]
    grind
  case coReturn f e =>
    obtain ⟨hfa, -, -, t, ht⟩ := r.custodian.of_inBody h.1
    cases hk : (s.frame f).kind
    case promise =>
      obtain ⟨g, hg, ho, hgp, hgf, hret⟩ := r.custodian.returned r.stored e h.1 hk
      rcases hb : s.handBack f with _ | ex | ex <;> simp only [Returned, hb] at hret <;>
        obtain ⟨-, -, hfr⟩ := hret <;> rw [hfr] <;> grind
    all_goals
      simp only [coReturn, hk, modFrame_frame]
      grind
  case awaitResume f =>
    obtain ⟨t, ht⟩ := Phase.isResuming_iff.mp h.1
    by_cases hf : x = f
    · subst hf
      have hp := r.next_phase (a := .awaitResume x) h hx
      cases haw : (s.frame x).awaiter with
      | coro c =>
          by_cases hc : x = c <;>
            simp_all [State.awaitResume, destroyHandle_frame, Phase.site, Phase.isRunning]
      | _ => simp_all [State.awaitResume, Phase.isRunning]
    · cases haw : (s.frame f).awaiter with
      | coro c =>
          by_cases hc : x = c <;> simp [State.awaitResume, haw, hf, hc, destroyHandle_frame]
          simp_all
      | _ => simp [State.awaitResume, haw, hf]
  case destroy f =>
    have hp : (s.frame f).phase = .destroying := h
    rw [s.destroyFrame_frame (r.custodian.caller_ne h)] at hd' ⊢
    grind
  case handlerResume k t =>
    simp only [State.handlerResume]
    split_ifs <;> grind
  case drop k =>
    simp only [handlerDrop]
    split_ifs <;> grind
  all_goals
    simp only [Enabled, inBody] at h
    grind [completionAwaitSuspend, dispatchAwaitSuspend, postAwaitSuspend, completionSetValue,
      State.dispatchEnter, State.resumeCompleted, State.trampolineInvoke, State.initiationReturns,
      State.initiationThrows, State.resumeAwaiting, State.finalResumeAwaiting, State.plainResume,
      State.trampolineReturn]

/-- The frame resumed before, or this step resumes it; its awaiter is the same. -/
theorem resumed (r : Accounts s b) {a : Action V E} (h : s.Enabled a) {x : FrameId} {t : Site}
    (hx : ((s.next a).frame x).phase = .resuming t) :
    ((s.next a).frame x).awaiter = (s.frame x).awaiter ∧
      ((s.frame x).phase = .resuming t ∨ Wakes s x t a) := by
  have hw := r.next_resuming h hx
  have hrun : (s.frame x).phase.isRunning = false ∧ x ≠ s.nextFrame := by
    have hsome : (s.frame x).phase.isRunning = false ∧ (s.frame x).phase ≠ .unborn := by
      rcases hw with hp | hw
      · simp [hp, Phase.isRunning]
      · have hs := r.suspended_of_wakes hw
        rcases hs with hs | ⟨t, hs⟩ <;> simp [hs, Phase.isRunning]
    refine ⟨hsome.1, ?_⟩
    rintro rfl
    exact hsome.2 (by rw [r.custodian.unborn_frame (Nat.le_refl _)])
  exact ⟨r.next_awaiter_eq h hrun.2 hrun.1 (by simp [hx, Phase.isRunning]) (by simp [hx]), hw⟩

/-- What a coroutine waits for in its own `await_suspend` is not its end. -/
theorem of_own_context (r : Accounts s b) {f : FrameId} {k : SuspId}
    (hp : (s.frame f).phase = .suspended ∨ ∃ t, (s.frame f).phase = .suspending t)
    (ha : (s.frame f).awaiter = .context k) :
    b.status f = .leased k ∧ (s.susp k).kind.isFinal = false ∧ (s.susp k).kind ≠ .callback := by
  have hfits := r.custodian.fits f
  have hl : ∃ j, b.status f = .leased j := by
    cases hb : b.status f <;> simp only [hb, Frame.Fits] at hfits <;>
      grind [Awaiter.callee, Phase.isFinalizing]
  obtain ⟨j, hj⟩ := hl
  rcases r.custodian.lease_awaiter hj with ⟨hfin, haj⟩ | ⟨-, haj⟩
  · obtain rfl : k = j := by simpa [ha] using haj
    exact ⟨hj, hfin, ((r.custodian.leased f k).mp hj).2.2⟩
  · simp [ha, Awaiter.callee] at haj

/-- After an operation a coroutine goes on where it was, or where the handler is. -/
theorem of_wakes_completion (r : Accounts s b) {a : Action V E} {f : FrameId} {t : Site}
    {k : SuspId} (hw : Wakes s f t a) (ha : (s.frame f).awaiter = .context k)
    (hk : (s.susp k).kind.isCompletion = true) :
    (s.frame f).phase = .suspending t ∨ (s.susp k).stage = .claimed t := by
  obtain ⟨hl, hfin, hcb⟩ := r.of_own_context (r.suspended_of_wakes hw) ha
  have hsame : ∀ {j}, (s.susp j).handle = f → (s.susp j).isOpen = true →
      (s.susp j).kind ≠ .callback → j = k := by
    intro j hj ho hcb
    have hlj := r.custodian.leased_of_open ho hcb
    rw [hj, hl] at hlj
    exact (Status.leased.inj hlj).symm
  cases hw with
  | eager hp => exact Or.inl hp
  | threw hp => exact Or.inl hp
  | @handBack c j hp haj hj hside =>
      have hcbj : (s.susp j).kind ≠ .callback := fun hk => hside ((r.sound j).callback hk).1
      obtain rfl := hsame hj (by simp [Suspension.isOpen, hside]) hcbj
      have hc := (r.custodian.context c j haj).2
      rw [(r.custodian.context f j ha).2] at hc
      rw [hc] at hl
      obtain ⟨g, hg⟩ := r.custodian.spent_of_finalizing (f := c) (by simp [hp, Phase.isFinalizing])
      rw [hl] at hg
      cases hg
  | @plain j ex hj hst hkind =>
      have hcbj : (s.susp j).kind ≠ .callback := by rcases hkind with h | h <;> simp [h]
      obtain rfl := hsame hj (by simp [Suspension.isOpen, hst]) hcbj
      rcases hkind with h | h <;> simp [h, AwaitKind.isCompletion] at hk
  | @handler j hj hst =>
      have hctx := (r.sound j).invoked ⟨t, Or.inr hst⟩
      have hcbj : (s.susp j).kind ≠ .callback := fun h => by simp [h, AwaitKind.hasContext] at hctx
      obtain rfl := hsame hj (by simp [Suspension.isOpen, hst]) hcbj
      exact Or.inr hst
  | @direct c e hpc hkc hcaller =>
      rw [(r.custodian.owned f c).mpr hcaller] at hl
      cases hl

end Accounts

/-! ## How a frame comes to wait for a handler -/

/-- The action makes the body of `x` wait for a new handler, or ends it with one. -/
inductive Opens (x : FrameId) : Action V E → Prop
  | awaitDeferred : Opens x (.awaitDeferred x)
  | awaitTimer : Opens x (.awaitTimer x)
  | awaitAwait (c : FrameId) : Opens x (.awaitAwait x c)
  | awaitDispatch (ex : ExecutorArg) : Opens x (.awaitDispatch x ex)
  | awaitPost (ex : ExecutorArg) : Opens x (.awaitPost x ex)
  | coReturn (e : BodyEnd V E) : Opens x (.coReturn x e)

namespace Accounts

variable {s : State V E} {b : Book FrameId SuspId}

theorem next_context (r : Accounts s b) {a : Action V E} (h : s.Enabled a) {x : FrameId}
    {k : SuspId} (hx : ((s.next a).frame x).awaiter = .context k) :
    (s.frame x).awaiter = .context k ∨ k = s.nextSusp ∧ Opens x a := by
  cases a <;> simp only [next] at hx
  case awaitPromise f c =>
    obtain ⟨hcp, hcc, hne⟩ := r.custodian.of_call h
    rw [s.coroAwaitSuspend_frame hcp hcc hne] at hx
    grind
  case awaitAwait f c =>
    obtain ⟨hcp, hcc, hne, hcn⟩ := r.custodian.of_callAwait h
    rw [s.awaitAwaitSuspend_frame hcp hcc hne hcn] at hx
    grind [Opens]
  case startAwait t c =>
    obtain ⟨hcp, hcc, hcn⟩ := r.custodian.of_startAwait h
    rw [s.startAwait_frame hcp hcc hcn] at hx
    grind
  case coReturn f e =>
    cases hkind : (s.frame f).kind
    case promise =>
      obtain ⟨g, hg, ho, hgp, hgf, hret⟩ := r.custodian.returned r.stored e h.1 hkind
      rcases hb : s.handBack f with _ | ex | ex <;> simp only [Returned, hb] at hret <;>
        obtain ⟨-, -, hfr⟩ := hret <;> rw [hfr] at hx <;> grind [finished, Opens]
    all_goals
      simp only [coReturn, hkind, modFrame_frame] at hx
      grind
  all_goals
    grind [completionAwaitSuspend, postAwaitSuspend, completionSetValue, State.initiationThrows,
      State.dispatchEnter, State.resumeCompleted, State.trampolineInvoke, State.initiationReturns,
      State.plainResume, State.trampolineReturn, State.resumeAwaiting, State.finalResumeAwaiting,
      State.handlerResume, State.handlerDrop, State.destroyFrame, State.awaitResume,
      dispatchAwaitSuspend, Opens]

end Accounts

/-! ## What a step destroys -/

namespace State

/-- The frame whose memory a step gives back. -/
def frees (s : State V E) : Action V E → Option FrameId
  | .destroy f => some f
  | .trampolineReturn b _ _ => some b
  | .coReturn f _ =>
    match (s.frame f).kind with
    | .promise | .main => none
    | _ => some f
  | _ => none

theorem resetCaller_destroyed (s : State V E) (c f x : FrameId) :
    ((s.resetCaller c f).frame x).phase = .destroyed ↔ (s.frame x).phase = .destroyed := by
  unfold resetCaller
  split <;> grind

theorem resume_destroyed (s : State V E) (f x : FrameId) (t : Site) :
    ((s.resume f t).frame x).phase = .destroyed ↔ (s.frame x).phase = .destroyed := by
  grind

theorem finalAwaitSuspend_destroyed (s : State V E) (c g x : FrameId)
    (h : ((s.finalAwaitSuspend c g).frame x).phase = .destroyed) :
    (s.frame x).phase = .destroyed := by
  simp only [finalAwaitSuspend] at h
  split_ifs at h
  · split at h <;> grind
  · split at h <;> grind
  · split at h <;> grind

/-- Only a step that gives back its memory destroys a frame. -/
theorem frees_of_destroyed {s : State V E} {a : Action V E} {x : FrameId} (hx : x ≠ s.nextFrame)
    (hp : (s.frame x).phase ≠ .destroyed) (hp' : ((s.next a).frame x).phase = .destroyed) :
    s.frees a = some x := by
  cases a <;> simp only [next] at hp'
  case coReturn f e =>
    simp only [coReturn] at hp'
    cases hk : (s.frame f).kind <;> simp only [hk] at hp'
    case promise =>
      split at hp'
      · have := finalAwaitSuspend_destroyed _ _ _ _ hp'
        grind
      · grind
    all_goals grind [frees]
  all_goals
    grind [frees, resetCaller_destroyed, coroAwaitSuspend, awaitAwaitSuspend, startAwait,
      completionAwaitSuspend, dispatchAwaitSuspend, postAwaitSuspend, State.initiationThrows,
      State.initiationReturns, State.resumeAwaiting, State.finalResumeAwaiting, State.awaitResume,
      completionSetValue, State.dispatchEnter, State.plainResume, State.resumeCompleted,
      State.handlerResume, handlerDrop, State.trampolineInvoke, State.trampolineReturn,
      destroyFrame]

end State

/-- A frame that is to be destroyed is left alone until its `destroy()` is executed. -/
theorem Accounts.next_destroying {s : State V E} {b : Book FrameId SuspId} (r : Accounts s b)
    {a : Action V E} (h : s.Enabled a) {x : FrameId} (hp : (s.frame x).phase = .destroying)
    (ha : a ≠ .destroy x) : ((s.next a).frame x).phase = .destroying := by
  have hn : x ≠ s.nextFrame := Nat.ne_of_lt (r.lt_of_born (by simp [hp]))
  have hnext := r.next_phase h hn
  rw [hp] at hnext
  generalize hq : ((s.next a).frame x).phase = q at hnext
  cases hnext with
  | same => rfl
  | destroy => rfl
  | bury =>
      -- those who give back other frames are executed
      have hfrees := frees_of_destroyed hn (by simp [hp]) hq
      cases a <;> simp only [frees, reduceCtorEq, Option.some.injEq] at hfrees
      case destroy f => exact absurd (congrArg Action.destroy hfrees) ha
      case trampolineReturn y c k =>
        obtain ⟨t, ht⟩ := Phase.isRunning_iff.mp h.1
        rw [hfrees, hp] at ht
        cases ht
      case coReturn f e =>
        obtain ⟨-, -, -, t, ht⟩ := r.custodian.of_inBody h.1
        cases hk : (s.frame f).kind <;> simp only [hk, reduceCtorEq, Option.some.injEq] at hfrees
        all_goals
          rw [hfrees, hp] at ht
          cases ht

end WebAsio.Coro
