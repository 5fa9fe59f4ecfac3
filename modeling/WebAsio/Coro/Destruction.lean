import WebAsio.Coro.Resumption
import Mathlib.Algebra.BigOperators.Group.Finset.Basic
import Mathlib.Algebra.Order.BigOperators.Group.Finset

set_option autoImplicit false

/-! # Frames are destroyed once, and all of them

What the book of custody says about destruction. No handle is misused in any run. Once a handler is
dropped, the chain of frames that waits for it is doomed: none of its bodies goes on, and all of its
frames are destroyed. The one thing that leaks is the callee whose `final_awaitable` made a handler
that is dropped, since nothing but the frame of the destroyed caller still refers to it. -/

namespace WebAsio.Coro

open Custody State

variable {V E : Type}

/-! ## Each frame is destroyed at most once -/

/-- A frame is destroyed once, and stays destroyed. -/
def Frame.Counted (fr : Frame V E) : Prop := fr.destroyed = if fr.phase = .destroyed then 1 else 0

namespace Frame.Counted

theorem resume {s : State V E} {f x : FrameId} {t : Site} (h : (s.frame x).Counted) :
    ((s.resume f t).frame x).Counted := by
  simp only [resume_frame]
  split
  · subst_vars
    simpa [Counted] using h
  · exact h

theorem destroyHandle {s : State V E} {f x : FrameId} (h : (s.frame x).Counted) :
    ((s.destroyHandle f).frame x).Counted := by
  simp only [destroyHandle_frame]
  split
  · subst_vars
    simpa [Counted] using h
  · exact h

end Frame.Counted

theorem Accounts.counted_step {s : State V E} {b : Book FrameId SuspId} {a : Action V E}
    (r : Accounts s b) (h : s.Enabled a) (hc : ∀ x, (s.frame x).Counted) (x : FrameId) :
    ((s.next a).frame x).Counted := by
  have hx := hc x
  cases a <;> simp only [next]
  case awaitPromise f c =>
    obtain ⟨-, -, -, t, ht⟩ := r.custodian.of_inBody h.1
    obtain ⟨hcp, hcc, hne⟩ := r.custodian.of_call h
    rw [s.coroAwaitSuspend_frame hcp hcc hne]
    grind [Frame.Counted]
  case awaitAwait f c =>
    obtain ⟨-, -, -, t, ht⟩ := r.custodian.of_inBody h.1
    obtain ⟨hcp, hcc, hne, hcn⟩ := r.custodian.of_callAwait h
    rw [s.awaitAwaitSuspend_frame hcp hcc hne hcn]
    grind [Frame.Counted]
  case startAwait t c =>
    obtain ⟨hcp, hcc, hcn⟩ := r.custodian.of_startAwait h
    rw [s.startAwait_frame hcp hcc hcn]
    grind [Frame.Counted]
  case coReturn f e =>
    obtain ⟨hfa, -, -, t, ht⟩ := r.custodian.of_inBody h.1
    cases hk : (s.frame f).kind
    case promise =>
      obtain ⟨g, hg, ho, hgp, hgf, hret⟩ := r.custodian.returned r.stored e h.1 hk
      rcases hb : s.handBack f with _ | ex | ex <;> simp only [Returned, hb] at hret <;>
        obtain ⟨-, -, hfr⟩ := hret <;> rw [hfr] <;> grind [Frame.Counted, finished]
    all_goals
      simp only [coReturn, hk, modFrame_frame]
      grind [Frame.Counted]
  case resumeAwaiting f h' =>
    obtain ⟨t, ht⟩ := Phase.isSuspending_iff.mp h.1
    by_cases hr : (s.susp h').word.resumeAwaiting.resumes = true
    · simp only [State.resumeAwaiting, hr, if_true]
      grind [Frame.Counted]
    by_cases hd : (s.susp h').word.resumeAwaiting.destroys = true
    · simp only [State.resumeAwaiting, hr, hd, if_true]
      refine Frame.Counted.destroyHandle (s := State.endBy _ _ _ _) ?_
      grind [Frame.Counted]
    · simp only [State.resumeAwaiting, hr, hd]
      grind [Frame.Counted]
  case finalResumeAwaiting f h' =>
    obtain ⟨t, ht⟩ := Phase.isFinalizing_iff.mp h.1
    simp only [State.finalResumeAwaiting]
    split_ifs
    · refine Frame.Counted.resume ?_
      grind [Frame.Counted]
    · refine Frame.Counted.destroyHandle ?_
      grind [Frame.Counted]
    · grind [Frame.Counted]
  case handlerResume h' t =>
    have hy := hc (s.susp h').frame
    simp only [State.handlerResume]
    split_ifs
    · refine Frame.Counted.resume ?_
      grind [Frame.Counted]
    · refine Frame.Counted.destroyHandle ?_
      grind [Frame.Counted]
    · exact Frame.Counted.resume (by simpa using hx)
  case drop h' =>
    simp only [State.handlerDrop]
    split_ifs
    · exact Frame.Counted.destroyHandle (by simpa using hx)
    · simpa using hx
    · exact hx
    · exact Frame.Counted.destroyHandle (by simpa using hx)
  case awaitResume f =>
    obtain ⟨t, ht⟩ := Phase.isResuming_iff.mp h.1
    cases haw : (s.frame f).awaiter with
    | coro c =>
        simp only [State.awaitResume, haw]
        grind [Frame.Counted]
    | _ =>
        simp only [State.awaitResume, haw]
        grind [Frame.Counted]
  case destroy f =>
    have hp : (s.frame f).phase = .destroying := h
    rw [s.destroyFrame_frame (r.custodian.caller_ne h)]
    grind [Frame.Counted, Phase.afterDestroy]
  case trampolineReturn x' c h' =>
    obtain ⟨t, ht⟩ := Phase.isRunning_iff.mp h.1
    simp only [State.trampolineReturn]
    have hd : ((s.destroyHandle c).frame x').phase = .running t := by
      simp only [destroyHandle_frame]
      split
      · subst_vars; simp [ht, Phase.afterDestroy]
      · exact ht
    have := (hc x').destroyHandle (f := c)
    have := hx.destroyHandle (f := c)
    grind [Frame.Counted]
  case discard => exact hx.destroyHandle
  case plainResume => exact Frame.Counted.resume hx
  case dispatchEnter => exact hx
  case resumeCompleted => simpa [State.resumeCompleted] using hx
  all_goals
    simp only [Enabled, inBody] at h
    grind [Frame.Counted, Frame.setExecutor, completionAwaitSuspend, dispatchAwaitSuspend,
      postAwaitSuspend, State.initiationThrows, State.initiationReturns, completionSetValue,
      State.trampolineInvoke]

/-- Every frame was destroyed as often as its phase says. -/
theorem Reachable.counted {s : State V E} (hs : Reachable s) (x : FrameId) :
    (s.frame x).Counted := by
  revert x
  refine hs.invariant_with (J := fun s => ∃ b, Accounts s b)
    (I := fun s => ∀ x, (s.frame x).Counted) (fun _ hu => Reachable.accounts hu)
    (fun _ => by simp [Frame.Counted, State.init]) ?_
  rintro s a ⟨b, r⟩ hc ha x
  exact r.counted_step ha hc x

/-! ## Frames that are over -/

/-- `destroy()` was called on the frame. -/
def Phase.isOver : Phase → Bool
  | .destroying | .destroyed => true
  | _ => false

namespace Accounts

variable {s : State V E} {b : Book FrameId SuspId}

theorem isOver_iff (r : Accounts s b) (x : FrameId) :
    (s.frame x).phase.isOver = true ↔ b.status x = .ending ∨ b.status x = .dead := by
  have hx := r.custodian.fits x
  cases hb : b.status x <;> simp only [hb, Frame.Fits] at hx <;> grind [Phase.isOver]

/-- Nothing brings a frame back. -/
theorem step_isOver (r : Accounts s b) {a : Action V E} (h : s.Enabled a) {x : FrameId}
    (hx : (s.frame x).phase.isOver = true) : ((s.next a).frame x).phase.isOver = true := by
  obtain ⟨b', m, r'⟩ := r.step h
  exact (r'.isOver_iff x).mpr (ending_moves m.moves ((r.isOver_iff x).mp hx))

end Accounts

/-- A coroutine that a suspension destroyed is over. -/
theorem Reachable.over_of_ended {s : State V E} (hs : Reachable s) :
    ∀ h, ∀ e ∈ (s.susp h).ended, e.deed = .destroyed → (s.frame e.on).phase.isOver = true := by
  refine hs.invariant_with (J := fun s => ∃ b, Accounts s b)
    (I := fun s => ∀ h, ∀ e ∈ (s.susp h).ended, e.deed = .destroyed →
      (s.frame e.on).phase.isOver = true)
    (fun _ hu => Reachable.accounts hu) (by simp [State.init]) ?_
  rintro s a ⟨b, r⟩ hI ha h e he hd
  change e ∈ ((s.next a).susp h).ended at he
  rcases r.custodian.ended_step r.sound ha h with hsame | ⟨e', hnew, -, hhap⟩
  · exact r.step_isOver ha (hI h e (hsame ▸ he) hd)
  · rw [hnew, List.mem_append, List.mem_singleton] at he
    rcases he with he | rfl
    · exact r.step_isOver ha (hI h e he hd)
    · rw [Ending.Happens, hd] at hhap
      have hp : ((s.next a).frame e.on).phase = .destroying := hhap.2
      change ((s.next a).frame e.on).phase.isOver = true
      rw [hp]
      rfl

/-! ## A dropped handler ends the chain that waits for it -/

/-- `x` belongs to the chain of frames that wait, directly or not, for `f`: `x` is the caller of a
    frame of the chain, or it awaits the operation that a trampoline of the chain completes. -/
inductive State.WaitsFor (s : State V E) (f : FrameId) : FrameId → Prop
  | refl : WaitsFor s f f
  | called {x c : FrameId} : (s.frame c).caller = some x → WaitsFor s f c → WaitsFor s f x
  | bridged {k : SuspId} {y : FrameId} : (s.susp k).stage = .held y →
      (s.susp k).kind ≠ .callback → WaitsFor s f y → WaitsFor s f (s.susp k).handle

/-- The step of a destructor, or of an `await_suspend` under way, that nobody else can prevent. -/
def Action.CleansUp (s : State V E) : Action V E → Prop
  | .destroy _ | .initiationReturns .. | .resumeAwaiting .. | .finalResumeAwaiting .. => True
  | .drop h => (s.susp h).stage = .dropping
  | _ => False

namespace Accounts

variable {s : State V E} {b : Book FrameId SuspId}

theorem above_of_waitsFor (r : Accounts s b) {f x : FrameId} (h : s.WaitsFor f x) :
    Above b f x := by
  induction h with
  | refl => exact .refl
  | called hc _ ih => exact .owned ((r.custodian.owned _ _).mpr hc) ih
  | @bridged k y hst hcb _ ih =>
      have hop : (s.susp k).isOpen = true := by simp [Suspension.isOpen, hst]
      have hl := r.custodian.leased_of_open hop hcb
      refine .kept hl ?_ ih
      rw [r.custodian.token k, if_pos (r.custodian.lease_lt hl)]
      simp [Suspension.token, hcb, hop, hst]

/-- The frame whose handler was dropped is doomed, or dead already. -/
theorem doomed_of_dropped (r : Accounts s b) {h : SuspId} (hk : (s.susp h).kind ≠ .callback)
    (hfate : (s.susp h).fate = some .dropped) (hside : (s.susp h).side ≠ .initiating true)
    (hover : ∀ e ∈ (s.susp h).ended, e.deed = .destroyed → (s.frame e.on).phase.isOver = true) :
    Doomed b (s.susp h).handle ∨ b.status (s.susp h).handle = .dead := by
  have hended : ∀ e ft, (s.susp h).ended = [e] → e.on = (s.susp h).handle →
      (s.susp h).fate = some ft → ft.allows e →
      Doomed b (s.susp h).handle ∨ b.status (s.susp h).handle = .dead := by
    intro e ft he hon hft hallows
    obtain rfl : ft = .dropped := by simpa [hfate] using hft.symm
    have := hover e (by simp [he]) hallows
    rw [hon, r.isOver_iff] at this
    exact this.imp .ending id
  by_cases hctx : (s.susp h).kind.hasContext = true
  · cases (r.sound h).context hctx with
    | dropped hne hst hw _ _ =>
        have hop : (s.susp h).isOpen = true := by simp [Suspension.isOpen, hne]
        have hl := r.custodian.leased_of_open hop hk
        refine .inl (.condemned hl ?_)
        rw [r.custodian.token h, if_pos (r.custodian.lease_lt hl)]
        simp [Suspension.token, hk, hop, hst, hw, hside]
    | finished e ft _ _ he hon hft hallows => exact hended e ft he hon hft hallows
    | _ => simp_all
  · have hkind : (s.susp h).kind = .post ∨ (s.susp h).kind = .finalDefer := by
      cases hkind : (s.susp h).kind <;> simp_all [AwaitKind.hasContext]
    cases (r.sound h).plain hkind with
    | queued _ _ hnone _ => simp [hfate] at hnone
    | finished e ft _ _ he hon hft hallows => exact hended e ft he hon hft hallows

/-- So is every frame of the chain that waits for it. -/
theorem doomed_of_waitsFor (r : Accounts s b) (hs : Reachable s) {h : SuspId}
    (hk : (s.susp h).kind ≠ .callback) (hfate : (s.susp h).fate = some .dropped)
    (hside : (s.susp h).side ≠ .initiating true) {x : FrameId}
    (hx : s.WaitsFor (s.susp h).handle x) : Doomed b x ∨ b.status x = .dead := by
  rcases r.doomed_of_dropped hk hfate hside (hs.over_of_ended h) with hf | hf
  · exact .inl (hf.above (r.above_of_waitsFor hx))
  · -- nobody waits for a dead frame
    rcases (r.above_of_waitsFor hx).inProgress r.wf with rfl | hp
    · exact .inr hf
    · simp [hf, Status.inProgress] at hp

/-- As long as a frame is doomed, the next step towards its end can be taken. -/
theorem cleansUp_of_doomed (r : Accounts s b) {x : FrameId} (h : Doomed b x) :
    ∃ a : Action V E, a.CleansUp s ∧ s.Enabled a := by
  induction h with
  | @ending x hx =>
      have hp := r.custodian.fits x
      rw [hx] at hp
      exact ⟨.destroy x, trivial, hp⟩
  | @condemned x k hx hk =>
      have hlt := r.custodian.lease_lt hx
      obtain ⟨hkx, hop, hcb⟩ := (r.custodian.leased x k).mp hx
      rw [r.custodian.token k, if_pos hlt] at hk
      by_cases hst : (s.susp k).stage = .dropping
      · exact ⟨.drop k, hst, .inr hst⟩
      -- the handler is gone, and the awaiting side is still to make its exchange
      obtain ⟨hgone, hin⟩ : (s.susp k).stage = .gone ∧ (s.susp k).side ≠ .initiating true := by
        grind [Suspension.token]
      have hleft : (s.susp k).side ≠ .left := by
        intro hl; simp [Suspension.isOpen, hgone, hl] at hop
      rcases hfin : (s.susp k).kind.isFinal with _ | _
      · obtain ⟨-, haw, hp⟩ := r.custodian.own x k hx hfin
        have hsus : (s.frame x).phase.isSuspending = true := by
          have hf := r.custodian.fits x
          rw [hx] at hf
          exact hf.2.resolve_right fun h => hleft (hp.mp h)
        cases hm : (s.susp k).side
        case initiating m =>
          cases m
          · exact ⟨.initiationReturns x k, trivial, hsus, haw, .inr hm⟩
          · exact absurd hm hin
        case exchanging => exact ⟨.resumeAwaiting x k, trivial, hsus, haw, by rw [hm]; rfl⟩
        case left => exact absurd hm hleft
      · obtain ⟨-, -, hs, haw, hp⟩ := r.custodian.final x k hx hfin
        have hfz : (s.frame (s.susp k).frame).phase.isFinalizing = true := by
          have hf := r.custodian.fits (s.susp k).frame
          rw [hs] at hf
          exact hf.2.1.resolve_right fun h => hleft (hp.mp h)
        refine ⟨.finalResumeAwaiting (s.susp k).frame k, trivial, hfz, haw, ?_⟩
        have hinit := (r.sound k).initiating
        rcases hm : (s.susp k).side with m | o | _
        · have := hinit ⟨m, hm⟩
          cases hkd : (s.susp k).kind <;> simp_all [AwaitKind.isCompletion, AwaitKind.isFinal]
        · rfl
        · exact absurd hm hleft
  | owned _ _ ih => exact ih
  | kept _ _ _ ih => exact ih

end Accounts

/-! ## Cleaning up comes to an end -/

/-- The exchanges and destructions still to come for a suspension. -/
def Suspension.left (r : Suspension V E) : Nat :=
  (match r.side with
    | .initiating _ => 2
    | .exchanging _ => 1
    | .left => 0) +
  match r.stage with
    | .held _ => 2
    | .dropping => 1
    | _ => 0

/-- How much is left to clean up, at most. -/
def State.left (s : State V E) : Nat :=
  (∑ f ∈ Finset.range s.nextFrame, if (s.frame f).phase = .destroyed then 0 else 1) +
    ∑ h ∈ Finset.range s.nextSusp, (s.susp h).left

/-- Less is left when no frame and no suspension has more left, and one of them has less. -/
theorem State.left_lt {s s' : State V E} (hf : s'.nextFrame = s.nextFrame)
    (hh : s'.nextSusp = s.nextSusp)
    (hphase : ∀ x, (s.frame x).phase = .destroyed → (s'.frame x).phase = .destroyed)
    (hleft : ∀ k, (s'.susp k).left ≤ (s.susp k).left)
    (hlt : (∃ x < s.nextFrame, (s.frame x).phase ≠ .destroyed ∧
        (s'.frame x).phase = .destroyed) ∨
      ∃ k < s.nextSusp, (s'.susp k).left < (s.susp k).left) : s'.left < s.left := by
  have hle : ∀ x, (if (s'.frame x).phase = .destroyed then 0 else 1) ≤
      if (s.frame x).phase = .destroyed then 0 else 1 := by
    intro x
    have := hphase x
    split_ifs <;> simp_all
  rw [State.left, State.left, hf, hh]
  rcases hlt with ⟨x, hx, hne, hd⟩ | ⟨k, hk, hlt⟩
  · refine Nat.add_lt_add_of_lt_of_le (Finset.sum_lt_sum (fun x _ => hle x) ⟨x, ?_, ?_⟩)
      (Finset.sum_le_sum fun k _ => hleft k)
    · simpa using hx
    · simp [hne, hd]
  · refine Nat.add_lt_add_of_le_of_lt (Finset.sum_le_sum fun x _ => hle x)
      (Finset.sum_lt_sum (fun k _ => hleft k) ⟨k, ?_, hlt⟩)
    simpa using hk

namespace Accounts

variable {s : State V E} {b : Book FrameId SuspId}

/-- What is destroyed stays so. -/
theorem step_destroyed (r : Accounts s b) {a : Action V E} (h : s.Enabled a) {x : FrameId}
    (hx : (s.frame x).phase = .destroyed) : ((s.next a).frame x).phase = .destroyed := by
  obtain ⟨b', m, r'⟩ := r.step h
  have hd : b.status x = .dead := by
    have hf := r.custodian.fits x
    cases hb : b.status x <;> simp only [hb, Frame.Fits] at hf <;> grind
  have hf' := r'.custodian.fits x
  rw [dead_moves m.moves hd] at hf'
  exact hf'.1

theorem left_lt (r : Accounts s b) {a : Action V E} (h : s.Enabled a) (hc : a.CleansUp s) :
    (s.next a).left < s.left := by
  have hd : ∀ x, (s.frame x).phase = .destroyed → ((s.next a).frame x).phase = .destroyed :=
    fun x => r.step_destroyed h
  have hlt : ∀ k, (s.susp k).isOpen = true → k < s.nextSusp := by
    intro k hk
    by_contra hn
    simp [r.custodian.newSusp k (Nat.le_of_not_lt hn), Suspension.isOpen] at hk
  cases a <;> simp only [Action.CleansUp] at hc
  case destroy f =>
    have hp : (s.frame f).phase = .destroying := h
    have hcf := r.custodian.caller_ne h
    refine State.left_lt (by simp [next]) (by simp [next]) hd (fun k => ?_)
      (.inl ⟨f, ?_, by simp [hp], by simp [next, s.destroyFrame_frame hcf]⟩)
    · by_cases hk : (s.susp k).stage = .held f
      · obtain ⟨⟨c, hc⟩, -⟩ := (r.custodian.held f k).mp hk
        simp [next, s.destroyFrame_susp_held hc hk, Suspension.left, hk]
      · simp [next, s.destroyFrame_susp_other hk]
    · exact r.custodian.lt_of_started (by simp [r.custodian.ending_of_destroying hp])
  case drop k =>
    refine State.left_lt ?_ ?_ hd (fun j => ?_) (.inr ⟨k, hlt k ?_, ?_⟩)
    · simp only [next, handlerDrop]; split_ifs <;> simp
    · simp only [next, handlerDrop]; split_ifs <;> simp
    · by_cases hj : j = k
      · subst hj
        simp only [next, handlerDrop]
        split_ifs <;> simp [Suspension.left, hc, Suspension.endBy]
      · simp only [next, handlerDrop]
        split_ifs <;> simp [hj]
    · simp [Suspension.isOpen, hc]
    · simp only [next, handlerDrop]
      split_ifs <;> simp [Suspension.left, hc, Suspension.endBy]
  case initiationReturns f k =>
    have hside := h.2.2
    refine State.left_lt (by simp [next, State.initiationReturns])
      (by simp [next, State.initiationReturns]) hd (fun j => ?_) (.inr ⟨k, hlt k ?_, ?_⟩)
    · by_cases hj : j = k
      · subst hj
        rcases hside with hm | hm <;> simp [next, State.initiationReturns, Suspension.left, hm]
      · simp [next, State.initiationReturns, hj]
    · rcases hside with hm | hm <;> simp [Suspension.isOpen, hm]
    · rcases hside with hm | hm <;> simp [next, State.initiationReturns, Suspension.left, hm]
  case resumeAwaiting f k =>
    have hside := h.2.2
    have hk : ((s.next (.resumeAwaiting f k)).susp k).left < (s.susp k).left := by
      simp only [next, State.resumeAwaiting]
      rw [Suspension.left, Suspension.left, hside]
      split_ifs <;> simp [Suspension.endBy]
    refine State.left_lt ?_ ?_ hd (fun j => ?_) (.inr ⟨k, hlt k ?_, hk⟩)
    · simp only [next, State.resumeAwaiting]; split_ifs <;> simp
    · simp only [next, State.resumeAwaiting]; split_ifs <;> simp
    · by_cases hj : j = k
      · rw [hj]
        exact Nat.le_of_lt hk
      · simp only [next, State.resumeAwaiting]
        split_ifs <;> simp [hj]
    · rw [Suspension.isOpen, hside]; simp
  case finalResumeAwaiting c k =>
    have hside := h.2.2
    have hk : ((s.next (.finalResumeAwaiting c k)).susp k).left < (s.susp k).left := by
      simp only [next, State.finalResumeAwaiting]
      rw [Suspension.left, Suspension.left, hside]
      split_ifs <;> simp [Suspension.endBy]
    refine State.left_lt ?_ ?_ hd (fun j => ?_) (.inr ⟨k, hlt k ?_, hk⟩)
    · simp only [next, State.finalResumeAwaiting]; split_ifs <;> simp
    · simp only [next, State.finalResumeAwaiting]; split_ifs <;> simp
    · by_cases hj : j = k
      · rw [hj]
        exact Nat.le_of_lt hk
      · simp only [next, State.finalResumeAwaiting]
        split_ifs <;> simp [hj]
    · rw [Suspension.isOpen, hside]; simp

/-- Cleaning up can be carried through until a doomed frame is destroyed. -/
theorem destroyed_of_doomed (r : Accounts s b) {x : FrameId}
    (hx : Doomed b x ∨ b.status x = .dead) :
    ∃ as s', Transition.Run runtime s as s' ∧
      Transition.Along runtime (fun s a => a.CleansUp s) s as ∧
      (s'.frame x).phase = .destroyed := by
  induction hn : s.left using Nat.strong_induction_on generalizing s b with
  | _ n ih =>
      rcases hx with hx | hx
      · obtain ⟨a, hc, ha⟩ := r.cleansUp_of_doomed hx
        obtain ⟨b', m, r'⟩ := r.step ha
        obtain ⟨as, s', hrun, hclean, hd⟩ := ih _ (hn ▸ r.left_lt ha hc) r'
          (doomed_run r.wf m.moves (.inl hx)) rfl
        exact ⟨a :: as, s', .cons ha hrun, ⟨hc, hclean⟩, hd⟩
      · have hp := r.custodian.fits x
        rw [hx] at hp
        exact ⟨[], s, .nil s, trivial, hp.1⟩

end Accounts

/-- No body of the chain of frames above a dropped handler goes on. -/
theorem Reachable.stopped_of_waitsFor {s s' : State V E} (hs : Reachable s) {h : SuspId}
    (hk : (s.susp h).kind ≠ .callback) (hfate : (s.susp h).fate = some .dropped)
    (hside : (s.susp h).side ≠ .initiating true) {x : FrameId}
    (hx : s.WaitsFor (s.susp h).handle x) {as : List (Action V E)}
    (hrun : Transition.Run runtime s as s') :
    (s'.frame x).phase.isRunning = false ∧ (s'.frame x).phase.isResuming = false := by
  obtain ⟨b, r⟩ := hs.accounts
  obtain ⟨b', m, r'⟩ := r.run hrun
  have hact : b'.status x ≠ .active :=
    (doomed_run r.wf m (r.doomed_of_waitsFor hs hk hfate hside hx)).elim Doomed.not_active
      fun hd => by simp [hd]
  exact ⟨Bool.eq_false_iff.mpr fun hp => hact (r'.custodian.active_of_running (.inl hp)),
    Bool.eq_false_iff.mpr fun hp => hact (r'.custodian.active_of_running (.inr hp))⟩

/-- **No frame is destroyed twice or used after destruction.** No handle is ever resumed or
    destroyed but on a suspended frame, and no frame is destroyed more than once. Once the handler
    on which a frame waits has been dropped, no body of the chain of frames above it goes on in
    any run; each of them is destroyed exactly once, or cleaning up can go on and be carried
    through until it is. -/
theorem Reachable.chain_destroyed {s : State V E} (hs : Reachable s) :
    (∀ f, Fault.resumed f ∉ s.faults ∧ Fault.destroyed f ∉ s.faults ∧
      (s.frame f).destroyed = if (s.frame f).phase = .destroyed then 1 else 0) ∧
    ∀ h, (s.susp h).kind ≠ .callback → (s.susp h).fate = some .dropped →
      (s.susp h).side ≠ .initiating true →
      ∀ x, s.WaitsFor (s.susp h).handle x →
      ∀ as s', Transition.Run runtime s as s' →
        (s'.frame x).phase.isRunning = false ∧ (s'.frame x).phase.isResuming = false ∧
          ((s'.frame x).phase = .destroyed ∧ (s'.frame x).destroyed = 1 ∨
            ∃ a : Action V E, a.CleansUp s' ∧ s'.Enabled a) ∧
          ∃ bs s'', Transition.Run runtime s' bs s'' ∧
            Transition.Along runtime (fun s a => a.CleansUp s) s' bs ∧
            (s''.frame x).phase = .destroyed ∧ (s''.frame x).destroyed = 1 := by
  obtain ⟨b, r⟩ := hs.accounts
  refine ⟨fun f => ⟨?_, ?_, hs.counted f⟩, fun h hk hfate hside x hx as s' hrun => ?_⟩
  · exact fun hm => by simpa using r.faults _ hm
  · exact fun hm => by simpa using r.faults _ hm
  have hxs := r.doomed_of_waitsFor hs hk hfate hside hx
  obtain ⟨b', m, r'⟩ := r.run hrun
  have hs' : Reachable s' := Transition.Reachable.run hs hrun
  have hx' := doomed_run r.wf m hxs
  obtain ⟨hrunning, hresuming⟩ := hs.stopped_of_waitsFor hk hfate hside hx hrun
  refine ⟨hrunning, hresuming, ?_, ?_⟩
  · rcases hx' with hd | hd
    · exact .inr (r'.cleansUp_of_doomed hd)
    · have hp := r'.custodian.fits x
      rw [hd] at hp
      exact .inl ⟨hp.1, by rw [hs'.counted x, if_pos hp.1]⟩
  · obtain ⟨bs, s'', hrun', hclean, hd⟩ := r'.destroyed_of_doomed hx'
    have hc := Reachable.counted (Transition.Reachable.run hs' hrun') x
    exact ⟨bs, s'', hrun', hclean, hd, by rw [hc, if_pos hd]⟩

/-- A detached coroutine awaits a promise that waits for an operation, whose handler is dropped. -/
def droppedOperation : List (Action Unit Unit) :=
  [.detach [] none false, .create none, .awaitPromise 0 1, .awaitDeferred 1, .initiationReturns 1 0,
    .resumeAwaiting 1 0, .drop 0]

theorem chain_destroyed_dropped :
    let s : State Unit Unit := State.after droppedOperation
    s.WaitsFor 1 0 ∧ (s.frame 0).phase = .suspended ∧
      ∃ bs s', Transition.Run runtime s bs s' ∧ (s'.frame 0).phase = .destroyed := by
  intro s
  have hs : Reachable s := .after (by decide)
  have hw : s.WaitsFor 1 0 := .called (c := 1) (by decide) .refl
  obtain ⟨-, -, -, bs, s', hrun, -, hd, -⟩ :=
    (Reachable.chain_destroyed hs).2 0 (by decide) (by decide) (by decide) 0 hw [] s (.nil s)
  exact ⟨hw, by decide, bs, s', hrun, hd⟩

/-! ## What leaks -/

/-- Nobody is executing the frame, and it is not about to be destroyed. -/
def Phase.isResting : Phase → Bool
  | .unborn | .initial | .suspended | .parked | .destroyed => true
  | _ => false

/-- The run is over: no thread executes a coroutine, and every handler given to Boost.Asio was
    invoked or dropped. -/
def Quiescent (s : State V E) : Prop :=
  (∀ f < s.nextFrame, (s.frame f).phase.isResting = true) ∧
    ∀ h < s.nextSusp, (s.susp h).stage = .gone ∨ ∃ y < s.nextFrame, (s.susp h).stage = .held y

instance (s : State V E) : Decidable (Quiescent s) := by
  unfold Quiescent; infer_instance

/-- The frame was never started, or it has been destroyed. That of `coro::main`, which stays at its
    final suspension point, belongs to the `coro::main` object. -/
def Frame.Accounted (fr : Frame V E) : Prop :=
  fr.phase = .unborn ∨ fr.phase = .initial ∨ fr.phase = .destroyed ∨
    fr.kind = .main ∧ fr.phase = .parked

instance (fr : Frame V E) : Decidable fr.Accounted := by
  unfold Frame.Accounted; infer_instance

namespace Accounts

variable {s : State V E} {b : Book FrameId SuspId}

theorem accounted_iff (r : Accounts s b) (x : FrameId) :
    (s.frame x).Accounted ↔ (b.status x).accounted = true := by
  have hx := r.custodian.fits x
  cases hb : b.status x <;> simp only [hb, Frame.Fits] at hx <;>
    simp only [Frame.Accounted, Status.accounted] <;> grind

theorem quiet (r : Accounts s b) (hq : Quiescent s) : Quiet b := by
  have hrest : ∀ x, (s.frame x).phase.isResting = true := by
    intro x
    by_cases hx : x < s.nextFrame
    · exact hq.1 x hx
    · rw [r.custodian.unborn_frame (Nat.le_of_not_lt hx)]; rfl
  intro x
  have hx := r.custodian.fits x
  have hxr := hrest x
  refine ⟨fun hb => ?_, fun hb => ?_, fun k hb => ?_⟩
  · rw [hb] at hx
    grind [Frame.Fits, Phase.isResting]
  · rw [hb] at hx
    grind [Frame.Fits, Phase.isResting]
  · have hlt := r.custodian.lease_lt hb
    obtain ⟨-, hop, hcb⟩ := (r.custodian.leased x k).mp hb
    rcases hq.2 k hlt with hst | ⟨y, -, hst⟩
    · -- the awaiting side would be inside an `await_suspend`
      have hleft : (s.susp k).side ≠ .left := by
        intro hl; simp [Suspension.isOpen, hst, hl] at hop
      rw [hb] at hx
      rcases hfin : (s.susp k).kind.isFinal with _ | _
      · have := (r.custodian.own x k hb hfin).2.2
        grind [Frame.Fits, Phase.isResting]
      · obtain ⟨-, -, hs, -, hp⟩ := r.custodian.final x k hb hfin
        have hc := r.custodian.fits (s.susp k).frame
        have hcr := hrest (s.susp k).frame
        rw [hs] at hc
        grind [Frame.Fits, Phase.isResting]
    · exact ⟨y, by rw [r.custodian.token k, if_pos hlt]; simp [Suspension.token, hcb, hop, hst]⟩

end Accounts

/-- Every frame that was started is destroyed when a run without lost hand-backs is over. -/
theorem Accounts.accounted_of_keeps {s s' : State V E} {b : Book FrameId SuspId}
    {as : List (Action V E)} (r : Accounts s b) (hp : Reapable b)
    (hrun : Transition.Run runtime s as s')
    (hl : Transition.Along runtime (fun s a => ¬ LosesHandBack s a) s as) (hq : Quiescent s')
    (f : FrameId) : (s'.frame f).Accounted := by
  obtain ⟨b', r', hp'⟩ := r.run_reapable hrun hl hp
  exact (r'.accounted_iff f).mpr ((r'.quiet hq).accounted r'.wf hp' f)

/-- So it is when a run is over in which no hand-back was lost. -/
theorem Quiescent.accounted {s : State V E} {as : List (Action V E)} (hq : Quiescent s)
    (hrun : Transition.Run runtime State.init as s)
    (hl : Transition.Along runtime (fun s a => ¬ LosesHandBack s a) State.init as) (f : FrameId) :
    (s.frame f).Accounted :=
  Accounts.init.accounted_of_keeps (fun _ _ hc => by simp [Book.empty] at hc) hrun hl hq f

/-- A step that loses a hand-back leaves a callee behind that no run destroys. -/
theorem Accounts.leaks {s s' : State V E} {b : Book FrameId SuspId} {a : Action V E}
    {as : List (Action V E)} (r : Accounts s b) (ha : s.Enabled a) (hl : LosesHandBack s a)
    (hover : ∀ h, ∀ e ∈ ((s.next a).susp h).ended, e.deed = .destroyed →
      ((s.next a).frame e.on).phase.isOver = true)
    (hrun : Transition.Run runtime (s.next a) as s') : ∃ c, ¬ (s'.frame c).Accounted := by
  cases a <;> simp only [LosesHandBack] at hl
  case drop h =>
    have hst : (s.susp h).stage = .asio ∨ (s.susp h).stage = .dropping := ha
    have hop : (s.susp h).isOpen = true := by
      rcases hst with hst | hst <;> simp [Suspension.isOpen, hst]
    have hcb : (s.susp h).kind ≠ .callback := by
      intro hk; simp [hk, AwaitKind.isFinal] at hl
    have hlease := r.custodian.leased_of_open hop hcb
    obtain ⟨-, -, hspent, -, -⟩ := r.custodian.final _ h hlease hl
    obtain ⟨b₁, m₁, r₁⟩ := r.step ha
    -- the handler is gone, so its caller is doomed
    have hdrop : ((s.next (.drop h)).susp h).fate = some .dropped ∧
        ((s.next (.drop h)).susp h).kind = (s.susp h).kind ∧
        ((s.next (.drop h)).susp h).handle = (s.susp h).handle ∧
        ((s.next (.drop h)).susp h).side = (s.susp h).side := by
      simp only [next, handlerDrop]
      split_ifs <;> simp [Suspension.endBy]
    obtain ⟨hfate, hkind, hhandle, hside⟩ := hdrop
    have hin : (s.susp h).side ≠ .initiating true := by
      intro hm
      have := (r.sound h).initiating ⟨true, hm⟩
      cases hk : (s.susp h).kind <;> simp_all [AwaitKind.isFinal, AwaitKind.isCompletion]
    have hf := r₁.doomed_of_dropped (h := h) (hkind ▸ hcb) hfate (hside ▸ hin) (hover h)
    rw [hhandle] at hf
    -- the callee is still parked behind it
    have hne : (s.susp h).frame ≠ (s.susp h).handle := by
      intro he
      rw [he, hlease] at hspent
      simp at hspent
    have hsame : (s.next (.drop h)).frame (s.susp h).frame = s.frame (s.susp h).frame := by
      simp only [next, handlerDrop]
      split_ifs <;> simp [destroyHandle_frame, hne]
    have hc := r.custodian.fits (s.susp h).frame
    have hc₁ := r₁.custodian.fits (s.susp h).frame
    rw [hspent] at hc
    rw [hsame] at hc₁
    have hspent₁ : b₁.status (s.susp h).frame = .spent (s.susp h).handle := by
      rcases spent_moves m₁.moves hspent with h' | h' | h'
      · exact h'
      · rw [h'] at hc₁; grind [Frame.Fits]
      · rw [h'] at hc₁; grind [Frame.Fits]
    obtain ⟨b', m', r'⟩ := r₁.run hrun
    have hspent' := leaked_moves r₁.wf m' hspent₁ hf
    refine ⟨(s.susp h).frame, fun hacc => ?_⟩
    have := (r'.accounted_iff _).mp hacc
    simp [hspent', Status.accounted] at this

/-- A run that leaves no frame behind lost no hand-back. -/
theorem keeps_of_accounted {as : List (Action V E)} {s s' : State V E}
    (hrun : Transition.Run runtime s as s') (hs : Reachable s)
    (hacc : ∀ f, (s'.frame f).Accounted) :
    Transition.Along runtime (fun s a => ¬ LosesHandBack s a) s as := by
  induction hrun with
  | nil => exact trivial
  | cons ha hrun ih =>
      obtain ⟨b, r⟩ := hs.accounts
      refine ⟨fun hl => ?_, ih (hs.step ha) hacc⟩
      obtain ⟨c, hc⟩ := r.leaks ha hl (Reachable.over_of_ended (hs.step ha)) hrun
      exact hc (hacc c)

/-- **No frame is leaked, unless a hand-back is lost.** When a run is over, every frame that was
    started has been destroyed if and only if no step of the run dropped a handler that a
    `final_awaitable` had made. -/
theorem no_leak_iff {as : List (Action V E)} {s : State V E}
    (hrun : Transition.Run runtime State.init as s) (hq : Quiescent s) :
    (∀ f, (s.frame f).Accounted) ↔
      Transition.Along runtime (fun s a => ¬ LosesHandBack s a) State.init as := by
  constructor
  · exact keeps_of_accounted hrun (Transition.Reachable.refl _)
  · exact fun hl f => Accounts.init.accounted_of_keeps
      (fun c f hc => by simp [Book.empty] at hc) hrun hl hq f

/-- A callee hops to another executor than its caller's and returns; the handler by which its
    `final_awaitable` would resume the caller is dropped. -/
def droppedHandBack : List (Action Unit Unit) :=
  [.detach [] none false, .awaitPost 0 ⟨.context 0, false⟩, .plainResume 0 (.context 0),
    .awaitResume 0, .create none, .awaitPromise 0 1, .awaitPost 1 ⟨.context 1, false⟩,
    .plainResume 1 (.context 1), .awaitResume 1, .coReturn 1 (.returned () none),
    .finalResumeAwaiting 1 2, .drop 2, .destroy 0]

/-- The callee is never destroyed. -/
theorem leak_dropped_hand_back :
    Transition.Run runtime State.init droppedHandBack (State.after droppedHandBack) ∧
      Quiescent (State.after droppedHandBack) ∧
      ((State.after droppedHandBack).frame 1).kind = .promise ∧
      ((State.after droppedHandBack).frame 1).phase = .parked ∧
      ¬ ∀ f, ((State.after droppedHandBack).frame f).Accounted :=
  ⟨.of_legal (by decide), by decide, by decide, by decide, fun h => absurd (h 1) (by decide)⟩

/-- A detached coroutine awaits a promise that waits for an operation, and the handler is dropped;
    then the chain is destroyed. -/
def destroyedChain : List (Action Unit Unit) := droppedOperation ++ [.destroy 1, .destroy 0]

theorem no_leak_iff_dropped_operation :
    Quiescent (State.after destroyedChain) ∧
      ∀ f, ((State.after destroyedChain).frame f).Accounted := by
  have hr : Transition.Run runtime State.init destroyedChain (State.after destroyedChain) :=
    .of_legal (by decide)
  exact ⟨by decide, (no_leak_iff hr (by decide)).mpr (by decide)⟩

end WebAsio.Coro
