import WebAsio.Coro.Accounting

set_option autoImplicit false

/-! # Every suspension is ended exactly once

The protocol of `resume_context`, over all runs: as long as a suspension is open its awaitable
exists and its coroutine is suspended; it is closed by one deed of one party, the one that the end
of its handler allows; and a deed is done to the coroutine when it is recorded. For a
`final_awaitable` the coroutine is the caller while the context is in the frame of the callee. -/

namespace WebAsio.Coro

open Custody State

variable {V E : Type}

/-- What the end of a suspension looks like: nothing was done while it was open, then one thing,
    and the result of an operation is there before the coroutine reads it. -/
structure Suspension.EndsOnce (r : Suspension V E) : Prop where
  pending : r.isOpen = true → r.ended = []
  closed : r.isOpen = false →
    ∃ e ft, r.ended = [e] ∧ e.on = r.handle ∧ r.fate = some ft ∧ ft.allows e
  stored : r.kind.isCompletion = true → (∃ e ∈ r.ended, e.deed = .resumed) → r.value ≠ none

theorem Suspension.Sound.endsOnce {r : Suspension V E} (w : r.Sound)
    (hc : r.kind.hasContext = true) : r.EndsOnce := by
  refine ⟨fun ho => ?_, fun ho => ?_, fun hk ⟨e, he, hd⟩ => (w.stored hk).mpr ?_⟩
  · cases w.context hc <;> simp_all [isOpen]
  · cases w.context hc <;> simp_all [isOpen, HandlerStage.isPending]
  · cases w.context hc with
    | finished e' ft _ _ hended _ hfate hallows =>
        rw [hended] at he
        obtain rfl : e = e' := by simpa using he
        -- a resumed coroutine had its handler invoked, or its initiation threw
        cases ft <;> simp_all [Fate.allows, Settled]
    | _ => simp_all

/-- The deed happens between the two states: the coroutine was suspended, and now it is not. -/
def Ending.Happens (e : Ending) (s s' : State V E) : Prop :=
  ((s.frame e.on).phase.isSuspending = true ∨ (s.frame e.on).phase = .suspended) ∧
    match e.deed with
    | .resumed => (s'.frame e.on).phase.isResuming = true
    | .destroyed => (s'.frame e.on).phase = .destroying

/-- `final_awaitable` begins a suspension at most. -/
theorem State.finalAwaitSuspend_ended (s : State V E) (c g : FrameId)
    (hnew : s.susp s.nextSusp = {}) (k : SuspId) :
    ((s.finalAwaitSuspend c g).susp k).ended = (s.susp k).ended := by
  simp only [finalAwaitSuspend]
  split_ifs
  · split <;> grind [dispatchContext]
  · split <;> grind
  · split <;> grind

namespace Custodian

variable {s : State V E} {b : Book FrameId SuspId}

/-- A deed recorded by a step is done by that step. -/
theorem ended_step (r : Custodian s b) (w : ∀ k, (s.susp k).Sound) {a : Action V E}
    (h : s.Enabled a) (k : SuspId) :
    ((s.next a).susp k).ended = (s.susp k).ended ∨
      ∃ e, ((s.next a).susp k).ended = (s.susp k).ended ++ [e] ∧ e.on = (s.susp k).handle ∧
        e.Happens s (s.next a) := by
  cases a <;> simp only [next]
  case initiationThrows f j e =>
    obtain ⟨hp, haw, -, -, -⟩ := h
    have hl := (r.leased_of_context hp haw).1
    by_cases hk : k = j
    · subst hk
      have hf := ((r.leased f k).mp hl).1
      exact .inr ⟨⟨.awaiting, .resumed, f⟩, by simp [initiationThrows, Suspension.endBy, hf],
        hf.symm, .inl hp, by simp [initiationThrows, Phase.isResuming]⟩
    · exact .inl (by simp [initiationThrows, hk])
  case resumeAwaiting f j =>
    obtain ⟨hp, haw, -⟩ := h
    have hl := (r.leased_of_context hp haw).1
    by_cases hk : k = j
    · subst hk
      have hf := ((r.leased f k).mp hl).1
      by_cases hr : (s.susp k).word.resumeAwaiting.resumes = true
      · exact .inr ⟨⟨.awaiting, .resumed, f⟩, by simp [resumeAwaiting, hr, Suspension.endBy, hf],
          hf.symm, .inl hp, by simp [resumeAwaiting, hr, Phase.isResuming]⟩
      by_cases hd : (s.susp k).word.resumeAwaiting.destroys = true
      · exact .inr ⟨⟨.awaiting, .destroyed, f⟩,
          by simp [resumeAwaiting, hr, hd, Suspension.endBy, hf], hf.symm, .inl hp,
          by simp [resumeAwaiting, hr, hd, destroyHandle_frame, Phase.afterDestroy]⟩
      · exact .inl (by simp [resumeAwaiting, hr, hd])
    · left
      simp only [resumeAwaiting]
      split_ifs <;> simp [hk]
  case finalResumeAwaiting c j =>
    obtain ⟨hp, haw, hside⟩ := h
    have hne : (s.susp j).side ≠ .left := by rw [hside]; simp
    have hop : (s.susp j).isOpen = true := by simp [Suspension.isOpen, hne]
    have hcb : (s.susp j).kind ≠ .callback := fun hk => hne ((w j).callback hk).1
    obtain ⟨hl, hfin, -⟩ := r.leased_of_finalizing hop hcb hp haw
    have hgp := (r.final _ j hl hfin).2.1
    have hgc : (s.susp j).handle ≠ c := by rintro he; simp [he ▸ hgp, Phase.isFinalizing] at hp
    by_cases hk : k = j
    · subst hk
      simp only [finalResumeAwaiting]
      split_ifs with hr hd
      · exact .inr ⟨⟨.awaiting, .resumed, (s.susp k).handle⟩, by simp [Suspension.endBy], rfl,
          .inr hgp, by simp [resume_frame, hgc, hgp, Phase.afterResume, Phase.isResuming]⟩
      · exact .inr ⟨⟨.awaiting, .destroyed, (s.susp k).handle⟩, by simp [Suspension.endBy], rfl,
          .inr hgp, by simp [destroyHandle_frame, hgc, hgp, Phase.afterDestroy]⟩
      · exact .inl (by simp)
    · left
      simp only [finalResumeAwaiting]
      split_ifs <;> simp [hk]
  case plainResume j ex =>
    obtain ⟨hst, hkind, -⟩ := h
    have hp := r.suspended_of_left (h := j) (by simp [Suspension.isOpen, hst])
      (by rcases hkind with hk | hk <;> simp [hk]) (by cases (w j).plain hkind <;> assumption)
    by_cases hk : k = j
    · subst hk
      exact .inr ⟨⟨.handler, .resumed, (s.susp k).handle⟩, by simp [plainResume, Suspension.endBy],
        rfl, .inr hp, by simp [plainResume, resume_frame, hp, Phase.afterResume, Phase.isResuming]⟩
    · exact .inl (by simp [plainResume, hk])
  case handlerResume j t =>
    have hst : (s.susp j).stage = .claimed t := h
    have hctx := (w j).invoked ⟨t, .inr hst⟩
    have hside : (s.susp j).side = .left := by
      cases (w j).context hctx <;> simp_all [HandlerStage.isPending]
    have hp := r.suspended_of_left (h := j) (by simp [Suspension.isOpen, hst])
      (by intro hc; simp [hc, AwaitKind.hasContext] at hctx) hside
    -- what becomes of `shared_this` does not matter here
    have hrestored : ∀ o, (if (s.susp j).handle = (s.susp j).frame then
        { s.frame (s.susp j).frame with sharedThis := o } else s.frame (s.susp j).handle).phase =
          .suspended := by
      intro o
      split <;> simp_all
    by_cases hk : k = j
    · subst hk
      right
      simp only [handlerResume]
      split_ifs with hc ho
      · exact ⟨⟨.handler, .resumed, (s.susp k).handle⟩, by simp [Suspension.endBy], rfl, .inr hp,
          by simp [resume_frame, hrestored, Phase.afterResume, Phase.isResuming]⟩
      · exact ⟨⟨.handler, .destroyed, (s.susp k).handle⟩, by simp [Suspension.endBy], rfl, .inr hp,
          by simp [destroyHandle_frame, hrestored, Phase.afterDestroy]⟩
      · exact ⟨⟨.handler, .resumed, (s.susp k).handle⟩, by simp [Suspension.endBy], rfl, .inr hp,
          by simp [resume_frame, hp, Phase.afterResume, Phase.isResuming]⟩
    · left
      simp only [handlerResume]
      split_ifs <;> simp [hk]
  case drop j =>
    have hop : (s.susp j).isOpen = true := by
      have hst : (s.susp j).stage = .asio ∨ (s.susp j).stage = .dropping := h
      rcases hst with hst | hst <;> simp [Suspension.isOpen, hst]
    by_cases hk : k = j
    · subst hk
      simp only [handlerDrop]
      split_ifs with hctx hd hcb
      · have hside : (s.susp k).side = .left := by
          cases (w k).context hctx <;> simp_all [ContextState.destroy]
        have hp := r.suspended_of_left hop
          (by intro hc; simp [hc, AwaitKind.hasContext] at hctx) hside
        exact .inr ⟨⟨.handler, .destroyed, (s.susp k).handle⟩, by simp [Suspension.endBy], rfl,
          .inr hp, by simp [destroyHandle_frame, hp, Phase.afterDestroy]⟩
      · exact .inl (by simp)
      · exact .inl (by simp)
      · have hkind : (s.susp k).kind = .post ∨ (s.susp k).kind = .finalDefer := by
          cases hkind : (s.susp k).kind <;> simp_all [AwaitKind.hasContext]
        have hp := r.suspended_of_left hop (by simpa using hcb)
          (by cases (w k).plain hkind <;> assumption)
        exact .inr ⟨⟨.handler, .destroyed, (s.susp k).handle⟩, by simp [Suspension.endBy], rfl,
          .inr hp, by simp [destroyHandle_frame, hp, Phase.afterDestroy]⟩
    · left
      simp only [handlerDrop]
      split_ifs <;> simp [hk]
  all_goals left
  case coReturn f e =>
    have hnew := r.newSusp s.nextSusp (Nat.le_refl _)
    simp only [coReturn]
    split
    · split
      · rw [finalAwaitSuspend_ended _ _ _ (by exact hnew)]
        rfl
      · rfl
    all_goals rfl
  case destroy f =>
    simp only [destroyFrame]
    grind
  all_goals
    have hnew := r.newSusp s.nextSusp (Nat.le_refl _)
    grind [completionAwaitSuspend, awaitAwaitSuspend_susp, startAwait_susp, dispatchAwaitSuspend,
      dispatchContext, postAwaitSuspend, coroAwaitSuspend_susp, State.initiationReturns,
      State.awaitResume, completionSetValue, State.dispatchEnter, State.resumeCompleted,
      State.trampolineInvoke, State.trampolineReturn]

end Custodian

/-- The caller that a `final_awaitable` acts on is suspended, and the frame with the context is
    the callee its awaiter still refers to. -/
def HandsBack (s : State V E) (r : Suspension V E) : Prop :=
  (s.frame r.handle).phase = .suspended ∧ (s.frame r.handle).awaiter.callee = some r.frame ∧
    ((s.frame r.frame).phase.isFinalizing = true ∨ (s.frame r.frame).phase = .parked)

theorem Custodian.handsBack {s : State V E} {b : Book FrameId SuspId} (r : Custodian s b)
    {h : SuspId} (ho : (s.susp h).isOpen = true) (hk : (s.susp h).kind = .final) :
    HandsBack s (s.susp h) := by
  have hl := r.leased_of_open ho (by simp [hk])
  obtain ⟨ha, hp, hs, -, -⟩ := r.final _ h hl (by rw [hk]; rfl)
  have hc := r.fits (s.susp h).frame
  rw [hs] at hc
  exact ⟨hp, ha, hc.2.1⟩

/-- **Exactly-once resume protocol.** In every reachable state a suspension with a `resume_context`
    was ended at most once, and when it is over exactly once, as its handler's end demands; while
    it is open its context exists and its coroutine waits. No party ever touches a context late or
    stores a result twice, and the next step does to a coroutine what it records. -/
theorem Reachable.exactly_once {s : State V E} (hs : Reachable s) :
    (∀ h, (s.susp h).kind.hasContext = true →
      (s.susp h).EndsOnce ∧
      ((s.susp h).isOpen = true → s.contextLive h = true ∧
        ((s.susp h).kind = .final → HandsBack s (s.susp h)))) ∧
    (∀ h, Fault.staleContext h ∉ s.faults ∧ Fault.alreadySet h ∉ s.faults) ∧
    ∀ a h, s.Enabled a →
      ((s.next a).susp h).ended = (s.susp h).ended ∨
        ∃ e, ((s.next a).susp h).ended = (s.susp h).ended ++ [e] ∧ e.on = (s.susp h).handle ∧
          e.Happens s (s.next a) := by
  obtain ⟨b, r⟩ := hs.accounts
  refine ⟨fun h hc => ⟨(r.sound h).endsOnce hc, fun ho => ?_⟩, fun h => ⟨?_, ?_⟩,
    fun a h ha => r.custodian.ended_step r.sound ha h⟩
  · have hcb : (s.susp h).kind ≠ .callback := by
      intro hk; simp [hk, AwaitKind.hasContext] at hc
    exact ⟨r.custodian.contextLive ho hcb, fun hk => r.custodian.handsBack ho hk⟩
  · exact fun hm => by simpa using r.faults _ hm
  · exact fun hm => by simpa using r.faults _ hm

/-- A detached coroutine awaits an operation whose handler is invoked before `await_suspend` makes
    its exchange. -/
def eagerCompletion : List (Action Unit Unit) :=
  [.detach [] none false, .awaitDeferred 0, .setValue 0 [] (.ok ()), .resumeCompleted 0 [],
    .initiationReturns 0 0, .resumeAwaiting 0 0]

theorem exactly_once_eager :
    ((State.after eagerCompletion).susp 0).ended = [⟨.awaiting, .resumed, 0⟩] ∧
    ((State.after eagerCompletion).susp 0).EndsOnce :=
  ⟨by decide, ((Reachable.exactly_once (.after (by decide))).1 0 (by decide)).1⟩

end WebAsio.Coro
