import WebAsio.Coro.Effects
import WebAsio.Coro.Ownership

set_option autoImplicit false

/-! # Every step of the runtime is accounted for in the book

Each action of the runtime is matched by moves of the book of custody, and while the two agree no
handle is misused and no `resume_context` is touched late. Only reads through `caller_executor`
are left to the invariant of executor inheritance. -/

namespace WebAsio.Coro

open Custody State

variable {V E : Type}

/-- The read of an executor through the reference of a running body fails: the frame it leads to
    is not there. -/
def ReadsDangling (s : State V E) (x : Fault) : Prop :=
  ∃ g f, s.inBody g = true ∧ (f = s.executorRef g ∨ f = (s.frame g).callerExecutor) ∧
    ((s.frame f).phase = .destroyed ∨ (s.frame f).phase = .unborn) ∧ x = .danglingExecutor f

/-- The step to `s'` is accounted for: the book moves along, and nothing new went wrong. If `q`
    holds, no hand-back is condemned. -/
def Accounted (q : Prop) (s : State V E) (b : Book FrameId SuspId) (s' : State V E) : Prop :=
  ∃ b', MovesIf q b b' ∧ Custodian s' b' ∧ ∀ x ∈ s'.faults, x ∈ s.faults ∨ ReadsDangling s x

/-- A `caller_executor` that leads to another frame leads to an executor stored there. -/
def Stored (s : State V E) : Prop :=
  ∀ x < s.nextFrame, (s.frame x).callerExecutor ≠ x →
    (s.frame (s.frame x).callerExecutor).executor ≠ none

namespace Custodian

variable {s : State V E} {b : Book FrameId SuspId} {q : Prop}

theorem accounted_one {s' : State V E} {b' : Book FrameId SuspId} (m : Move b b')
    (h : ∀ k, b.token k = .loose → b'.token k ≠ .condemned) (r : Custodian s' b')
    (hx : s'.faults = s.faults) : Accounted q s b s' :=
  ⟨b', .single m h, r, fun _ hm => .inl (hx ▸ hm)⟩

/-- What holds of a frame whose body is being executed. -/
theorem of_inBody (r : Custodian s b) {f : FrameId} (h : s.inBody f = true) :
    b.status f = .active ∧ (s.frame f).awaiter = .none ∧ (s.frame f).kind ≠ .trampoline ∧
      ∃ t, (s.frame f).phase = .running t := by
  simp only [inBody, Bool.and_eq_true, bne_iff_ne, ne_eq] at h
  have ha := r.active_of_running (.inl h.1)
  have hf := r.fits f
  rw [ha] at hf
  obtain ⟨t, ht⟩ := Phase.isRunning_iff.mp h.1
  refine ⟨ha, ?_, h.2, t, ht⟩
  grind [Frame.Fits]

/-- What holds of the frame of a promise that was not awaited yet. -/
theorem of_isFresh (r : Custodian s b) {c : FrameId} (h : s.isFresh c = true) :
    b.status c = .fresh ∧ (s.frame c).phase = .initial ∧ (s.frame c).kind = .promise ∧
      (s.frame c).awaiter = .none ∧ (s.frame c).caller = none := by
  simp only [isFresh, Bool.and_eq_true, beq_iff_eq] at h
  have hc := r.fresh_of_initial h.1
  have hf := r.fits c
  rw [hc] at hf
  exact ⟨hc, hf⟩

theorem lt_of_started (r : Custodian s b) {f : FrameId} (h : b.status f ≠ .unborn) :
    f < s.nextFrame := by
  by_contra hn
  exact h (r.newFrame f (Nat.le_of_not_lt hn))

/-- The promise that a step starts was not awaited before, and is none of its other frames. -/
theorem of_call (r : Custodian s b) {f c : FrameId} (h : s.Enabled (.awaitPromise f c)) :
    (s.frame c).phase = .initial ∧ (s.frame c).caller = none ∧ f ≠ c := by
  obtain ⟨hcs, hcp, -, -, hcc⟩ := r.of_isFresh h.2
  exact ⟨hcp, hcc, by rintro rfl; simp [(r.of_inBody h.1).1] at hcs⟩

theorem of_callAwait (r : Custodian s b) {f c : FrameId} (h : s.Enabled (.awaitAwait f c)) :
    (s.frame c).phase = .initial ∧ (s.frame c).caller = none ∧ f ≠ c ∧ c ≠ s.nextFrame := by
  obtain ⟨hcs, hcp, -, -, hcc⟩ := r.of_isFresh h.2
  exact ⟨hcp, hcc, by rintro rfl; simp [(r.of_inBody h.1).1] at hcs,
    Nat.ne_of_lt (r.lt_of_started (by simp [hcs]))⟩

theorem of_startAwait (r : Custodian s b) {t : Site} {c : FrameId}
    (h : s.Enabled (.startAwait t c)) :
    (s.frame c).phase = .initial ∧ (s.frame c).caller = none ∧ c ≠ s.nextFrame := by
  obtain ⟨hcs, hcp, -, -, hcc⟩ := r.of_isFresh h
  exact ⟨hcp, hcc, Nat.ne_of_lt (r.lt_of_started (by simp [hcs]))⟩

/-- A frame that is being destroyed is not its own caller. -/
theorem caller_ne (r : Custodian s b) {f : FrameId} (h : s.Enabled (.destroy f)) :
    (s.frame f).caller ≠ some f := by
  intro hg
  have ho := (r.owned f f).mpr hg
  rw [r.ending_of_destroying h] at ho
  simp at ho

/-! ## Beginnings -/

theorem accounted_detach (r : Custodian s b) (t : Site) (o : Option OwnerId) (alone : Bool) :
    Accounted q s b (s.next (.detach t o alone)) := by
  refine accounted_one (.launch (r.newFrame _ (Nat.le_refl _))) (by grind)
    (r.born (.inr rfl) rfl rfl ?_) rfl
  simp only [Frame.Fits]
  exact ⟨⟨by simp, by simp⟩, .inl ⟨rfl, by simp⟩⟩

theorem accounted_startMain (r : Custodian s b) (i : Nat) :
    Accounted q s b (s.next (.startMain i)) := by
  refine accounted_one (.launch (r.newFrame _ (Nat.le_refl _))) (by grind)
    (r.born (.inr rfl) rfl rfl ?_) rfl
  simp only [Frame.Fits]
  exact ⟨⟨by simp, by simp⟩, .inl ⟨rfl, by simp⟩⟩

theorem accounted_create (r : Custodian s b) (o : Option OwnerId) :
    Accounted q s b (s.next (.create o)) := by
  refine accounted_one (.create (r.newFrame _ (Nat.le_refl _))) (by grind)
    (r.born (.inl rfl) rfl rfl ?_) rfl
  simp [Frame.Fits]

theorem accounted_discard (r : Custodian s b) {c : FrameId} (h : s.isFresh c = true) :
    Accounted q s b (s.next (.discard c)) := by
  obtain ⟨hc, hp, -, -, -⟩ := r.of_isFresh h
  simp only [next, s.destroyHandle_of (.inl hp)]
  refine accounted_one (.discard hc) (by grind)
    (r.discard hc (by simp) (fun x hx => by simp [hx]) ?_ ?_ ?_) rfl <;> simp

theorem accounted_awaitPromise (r : Custodian s b) {f c : FrameId} (hf : s.inBody f = true)
    (hc : s.isFresh c = true) : Accounted q s b (s.next (.awaitPromise f c)) := by
  obtain ⟨hfa, hfw, hfk, t, ht⟩ := r.of_inBody hf
  obtain ⟨hcs, hcp, -, hca, hcc⟩ := r.of_isFresh hc
  have hne : f ≠ c := by rintro rfl; simp [hfa] at hcs
  have hfr := s.coroAwaitSuspend_frame hcp hcc hne
  refine ⟨_, .single (.call hfa (r.clear hfa (by rw [hfw]; rfl)) hcs) (by grind), ?_, ?_⟩
  · refine r.call hfa hfw hfk hcs ⟨?_, ?_, ?_, ?_⟩ ⟨?_, ?_, ?_, ?_⟩ ?_ ?_ ?_ ?_ <;>
      simp +contextual [next, hfr, hne, Phase.isRunning]
  · intro x hx
    simp only [next, s.coroAwaitSuspend_faults hcp hcc hne] at hx
    exact (s.mem_touchExecutor_faults hx).imp id fun h => ⟨f, _, hf, .inl rfl, h⟩

theorem accounted_startAwait (r : Custodian s b) {t : Site} {c : FrameId}
    (hc : s.isFresh c = true) : Accounted q s b (s.next (.startAwait t c)) := by
  obtain ⟨hcs, hcp, -, hca, hcc⟩ := r.of_isFresh hc
  have hne : c ≠ s.nextFrame := Nat.ne_of_lt (r.lt_of_started (by simp [hcs]))
  have hfr := s.startAwait_frame (t := t) hcp hcc hne
  refine accounted_one (.attach (r.newFrame _ (Nat.le_refl _)) hcs) (by grind) ?_ ?_
  · refine r.attach hcs ⟨?_, ?_, ?_, ?_⟩ ?_ ?_ ?_ ?_ ?_ ?_ <;>
      simp +contextual [next, hfr, Ne.symm hne, Phase.isRunning]
  · simp only [next, startAwait]
    rw [resetCaller_of_none _ (by simpa [hne] using hcc), resume_faults] <;> simp [hcp, hne]

theorem accounted_awaitAwait (r : Custodian s b) {f c : FrameId} (hf : s.inBody f = true)
    (hc : s.isFresh c = true) : Accounted q s b (s.next (.awaitAwait f c)) := by
  obtain ⟨hfa, hfw, hfk, t, ht⟩ := r.of_inBody hf
  obtain ⟨hcs, hcp, -, hca, hcc⟩ := r.of_isFresh hc
  have hne : f ≠ c := by rintro rfl; simp [hfa] at hcs
  have hcn : c ≠ s.nextFrame := Nat.ne_of_lt (r.lt_of_started (by simp [hcs]))
  have hfn : f ≠ s.nextFrame := Nat.ne_of_lt (r.lt_of_started (by simp [hfa]))
  have hfr := s.awaitAwaitSuspend_frame hcp hcc hne hcn
  have hk : b.token s.nextSusp = .unused := by have := r.token s.nextSusp; grind
  refine accounted_one (.bridge hfa (r.clear hfa (by rw [hfw]; rfl)) hk
    (r.newFrame _ (Nat.le_refl _)) hcs) (by grind) ?_ ?_
  · refine r.bridge (o := (s.frame f).sharedThis) hfa hfw hfk hcs ⟨?_, ?_, ?_, ?_⟩
      ⟨?_, ?_, ?_, ?_⟩ ?_ ?_ ?_ ?_ ?_ ?_ <;>
      simp +contextual [next, hfr, hne, hfn, Ne.symm hcn, Phase.isRunning, Phase.isSuspending]
  · simp only [next, awaitAwaitSuspend]
    rw [resetCaller_of_none _ (by simpa [hcn, Ne.symm hne] using hcc), resume_faults] <;>
      simp [hcp, hcn, Ne.symm hne]

/-! ## Waiting for a handler -/

/-- The new suspension is the frame's own and its handler can still come. -/
theorem accounted_lease (r : Custodian s b) {f : FrameId} {s' : State V E}
    (hf : s.inBody f = true) (e : Leases s s' f) (hx : s'.faults = s.faults) :
    Accounted q s b s' := by
  obtain ⟨hfa, hfw, hfk, t, ht⟩ := r.of_inBody hf
  have hk : b.token s.nextSusp = .unused := by have := r.token s.nextSusp; grind
  exact accounted_one (.lease hfa (r.clear hfa (by rw [hfw]; rfl)) hk) (by grind)
    (r.lease hfa hfw hfk e) hx

theorem accounted_completion (r : Custodian s b) {f : FrameId} {k : AwaitKind}
    (hf : s.inBody f = true) (hk : k.isCompletion = true) :
    Accounted q s b (s.completionAwaitSuspend f k) := by
  have hkf : k.isFinal = false ∧ k ≠ .callback := by
    cases k <;> simp_all [AwaitKind.isFinal, AwaitKind.isCompletion]
  refine r.accounted_lease hf ⟨?_, ?_, ?_, ?_, ?_, ?_, ?_, ?_, ?_, ?_, ?_, ?_, ?_⟩ rfl <;>
    simp +contextual [completionAwaitSuspend, hkf, Suspension.isOpen, Suspension.token,
      Phase.isSuspending]

theorem accounted_awaitDispatch (r : Custodian s b) {f : FrameId} (ex : ExecutorArg)
    (hf : s.inBody f = true) : Accounted q s b (s.next (.awaitDispatch f ex)) := by
  refine r.accounted_lease hf ⟨?_, ?_, ?_, ?_, ?_, ?_, ?_, ?_, ?_, ?_, ?_, ?_, ?_⟩ rfl <;>
    simp +contextual [next, dispatchAwaitSuspend, Frame.setExecutor, Phase.isSuspending,
      AwaitKind.isFinal, Suspension.isOpen]
  unfold dispatchContext
  split <;> simp [Suspension.token, Suspension.isOpen]

theorem accounted_awaitPost (r : Custodian s b) {f : FrameId} (ex : ExecutorArg)
    (hf : s.inBody f = true) : Accounted q s b (s.next (.awaitPost f ex)) := by
  refine r.accounted_lease hf ⟨?_, ?_, ?_, ?_, ?_, ?_, ?_, ?_, ?_, ?_, ?_, ?_, ?_⟩ rfl <;>
    simp +contextual [next, postAwaitSuspend, Frame.setExecutor, AwaitKind.isFinal,
      Suspension.isOpen, Suspension.token]

/-- A frame inside the `await_suspend` of its own awaitable is leased to that suspension. -/
theorem leased_of_context (r : Custodian s b) {f : FrameId} {h : SuspId}
    (hp : (s.frame f).phase.isSuspending = true) (ha : (s.frame f).awaiter = .context h) :
    b.status f = .leased h ∧ (s.susp h).kind.isFinal = false := by
  obtain ⟨k, hk⟩ := r.leased_of_suspending hp
  rcases r.lease_awaiter hk with ⟨hfin, hak⟩ | ⟨-, hak⟩
  · obtain rfl : h = k := by simpa [ha] using hak
    exact ⟨hk, hfin⟩
  · simp [ha, Awaiter.callee] at hak

/-- A callee inside the `await_suspend` of its `final_awaitable` hands back a leased caller. -/
theorem leased_of_finalizing (r : Custodian s b) {c : FrameId} {h : SuspId}
    (ho : (s.susp h).isOpen = true) (hk : (s.susp h).kind ≠ .callback)
    (hp : (s.frame c).phase.isFinalizing = true) (ha : (s.frame c).awaiter = .context h) :
    b.status (s.susp h).handle = .leased h ∧ (s.susp h).kind.isFinal = true ∧
      (s.susp h).frame = c := by
  have hl := r.leased_of_open ho hk
  have hfr := (r.context c h ha).2
  obtain ⟨g, hg⟩ := r.spent_of_finalizing hp
  rcases r.lease_awaiter hl with ⟨hfin, -⟩ | ⟨hfin, -⟩
  · have hown := (r.own _ h hl hfin).1
    rw [← hown, hfr, hg] at hl
    simp at hl
  · exact ⟨hl, hfin, hfr⟩

/-- Only a final awaitable hands back the caller of a finished callee. -/
theorem not_handBack (r : Custodian s b) {h : SuspId} (hfin : (s.susp h).kind.isFinal = false)
    (f c : FrameId) (hc : b.status c = .spent f) : b.status f ≠ .leased h := by
  intro hf
  have ha := (r.own f h hf hfin).2.1
  have := r.spent c f hc
  grind [Awaiter.callee]

theorem accounted_moves (r : Custodian s b) {s' : State V E} {h : SuspId} (e : Moves s s' h)
    (ht : (s'.susp h).token = (s.susp h).token ∨
      (s.susp h).token = .loose ∧ (s'.susp h).token = .condemned ∧
        (q → (s.susp h).kind.isFinal = false)) (hx : s'.faults = s.faults) :
    Accounted q s b s' := by
  have hlt : h < s.nextSusp := by
    by_contra hn
    have := e.opened
    rw [r.newSusp h (Nat.le_of_not_lt hn)] at this
    simp [Suspension.isOpen] at this
  have hb : b.token h = (s.susp h).token := by rw [r.token h, if_pos hlt]
  have r' := r.moves e
  rcases ht with ht | ⟨hl, hc, hfin⟩
  · rw [ht, ← hb, Book.setToken_self] at r'
    exact ⟨b, .refl, r', fun _ hm => .inl (hx ▸ hm)⟩
  · rw [hc] at r'
    exact ⟨_, .condemn (hb.trans hl) (fun hq => r.not_handBack (hfin hq)), r',
      fun _ hm => .inl (hx ▸ hm)⟩

theorem accounted_ends (r : Custodian s b) {s' : State V E} {f : FrameId} {h : SuspId}
    {u : Status FrameId SuspId} (hl : b.status f = .leased h) (e : Ends s s' f h)
    (hst : u = .active ∧ (s'.frame f).phase.isResuming = true ∧
        ((s.susp h).kind = .deferred → (s'.susp h).value ≠ none) ∧ (s.susp h).token = .loose ∨
      u = .ending ∧ (s'.frame f).phase = .destroying ∧
        ((s.susp h).token = .condemned ∨
          (s.susp h).token = .loose ∧ (q → (s.susp h).kind.isFinal = false)))
    (hx : s'.faults = s.faults) : Accounted q s b s' := by
  have hb : b.token h = (s.susp h).token := by rw [r.token h, if_pos (r.lease_lt hl)]
  have r' : Custodian s' ((b.set f u).setToken h .settled) :=
    r.ends hl e (hst.imp (fun h => ⟨h.1, h.2.1, h.2.2.1⟩) fun h => ⟨h.1, h.2.1⟩)
  rcases hst with ⟨rfl, -, -, ht⟩ | ⟨rfl, -, ht | ⟨ht, hfin⟩⟩
  · exact accounted_one (.wake hl (hb.trans ht)) (by grind) r' hx
  · exact accounted_one (.abandon hl (hb.trans ht)) (by grind) r' hx
  · -- a dropped handler first condemns its token
    have hc : ((b.setToken h .condemned).set f .ending).setToken h .settled =
        (b.set f .ending).setToken h .settled := by
      simp [Book.set, Book.setToken]
    refine ⟨_, (MovesIf.condemn (hb.trans ht) fun hq => r.not_handBack (hfin hq)).trans
      (MovesIf.single (.abandon (f := f) (k := h) (by simpa using hl) (by simp)) (by grind)),
      hc ▸ r', fun _ hm => .inl (hx ▸ hm)⟩

/-! ## The awaiting side -/

theorem accounted_initiationThrows (r : Custodian s b) {f : FrameId} {h : SuspId} {e : E}
    (ha : s.Enabled (.initiationThrows f h e)) :
    Accounted q s b (s.next (.initiationThrows f h e)) := by
  obtain ⟨hp, haw, hside, hstage, hfate⟩ := ha
  obtain ⟨hl, hfin⟩ := r.leased_of_context hp haw
  obtain ⟨hfh, hop, hcb⟩ := (r.leased f h).mp hl
  have hlive := s.touch_of_live (r.contextLive hop hcb)
  have hne : ∀ x, x ≠ f → (s.next (.initiationThrows f h e)).frame x = s.frame x := by
    intro x hx; simp [next, initiationThrows, hx]
  refine r.accounted_ends (u := .active) hl
    ⟨?_, ?_, ?_, ?_, ?_, ?_, ?_, ?_, ?_, fun x hx => .inl (hne x hx),
      fun hf => absurd hf (by simp [hfin])⟩ (.inl ⟨rfl, ?_, ?_, ?_⟩) ?_
  case refine_9 =>
    intro x
    by_cases hx : x = f
    · subst hx; simp [next, initiationThrows]
    · simp [hne x hx]
  all_goals simp +contextual [next, initiationThrows, Suspension.endBy, Suspension.isOpen, hstage,
    hlive, Phase.isResuming, Suspension.token, hside, hcb]

theorem accounted_initiationReturns (r : Custodian s b) (w : ∀ k, (s.susp k).Sound) {f : FrameId}
    {h : SuspId} (ha : s.Enabled (.initiationReturns f h)) :
    Accounted q s b (s.next (.initiationReturns f h)) := by
  obtain ⟨hp, haw, hside⟩ := ha
  obtain ⟨hl, hfin⟩ := r.leased_of_context hp haw
  obtain ⟨hfh, hop, hcb⟩ := (r.leased f h).mp hl
  have hne : (s.susp h).side ≠ .left := by rcases hside with h | h <;> simp [h]
  have hlive := s.touch_of_live (r.contextLive hop hcb)
  refine r.accounted_moves (h := h) ⟨?_, ?_, ?_, hop, ?_, ?_, ?_, ?_, ?_, ?_, ?_⟩ ?_
    (by simp [next, initiationReturns, hlive])
  case refine_10 =>
    intro x
    by_cases hx : x = f
    · subst hx; exact .inr ⟨by simp [next, initiationReturns], hp⟩
    · exact .inl (by simp [next, initiationReturns, hx])
  case refine_11 =>
    -- a handler dropped by an initiation that might have thrown is condemned now
    cases (w h).stands_of_side hne <;>
      grind [next, initiationReturns, Suspension.token, Suspension.isOpen, HandlerStage.isPending]
  all_goals simp +contextual [next, initiationReturns, Suspension.isOpen, hne]

theorem accounted_resumeAwaiting (r : Custodian s b) (w : ∀ k, (s.susp k).Sound) {f : FrameId}
    {h : SuspId} (ha : s.Enabled (.resumeAwaiting f h)) :
    Accounted q s b (s.next (.resumeAwaiting f h)) := by
  obtain ⟨hp, haw, hside⟩ := ha
  obtain ⟨hl, hfin⟩ := r.leased_of_context hp haw
  obtain ⟨hfh, hop, hcb⟩ := (r.leased f h).mp hl
  have hfr := (r.own f h hl hfin).1
  have hlive := s.touch_of_live (r.contextLive hop hcb)
  have hne : (s.susp h).side ≠ .left := by rw [hside]; simp
  have hin : (s.susp h).side ≠ .initiating true := by rw [hside]; simp
  clear hside
  have hother : ∀ x, x ≠ f → (s.next (.resumeAwaiting f h)).frame x = s.frame x := by
    intro x hx
    simp only [next, resumeAwaiting]
    split_ifs <;> simp [hx, destroyHandle_frame]
  cases (w h).stands_of_side hne with
  | racing _ hpend hw _ _ =>
      refine ⟨b, .refl, r.leaves hl ⟨?_, hne, hpend, ?_, ?_, ?_, ?_, ?_⟩, fun x hx => .inl ?_⟩ <;>
        simp_all +contextual [next, resumeAwaiting, ContextState.resumeAwaiting]
  | completed _ hst hw hfate _ =>
      have hv : (s.susp h).kind = .deferred → (s.susp h).value ≠ none := fun hk =>
        ((w h).stored (by rw [hk]; rfl)).mpr (.inr (.inr (.inl hfate)))
      refine r.accounted_ends (u := .active) hl
        ⟨?_, ?_, ?_, ?_, ?_, ?_, ?_, ?_, ?_, fun x hx => .inl (hother x hx),
          fun hf => absurd hf (by simp [hfin])⟩
        (.inl ⟨rfl, ?_, ?_, ?_⟩) ?_
      case refine_9 =>
        intro x
        by_cases hx : x = f
        · subst hx; simp [next, resumeAwaiting, hw, ContextState.resumeAwaiting]
        · simp [hother x hx]
      all_goals simp +contextual [next, resumeAwaiting, hw, ContextState.resumeAwaiting, hlive, hst,
        Suspension.endBy, Suspension.isOpen, Suspension.token, Phase.isResuming, hv, hne, hcb]
  | dropped _ hst hw hfate _ =>
      refine r.accounted_ends (u := .ending) hl
        ⟨?_, ?_, ?_, ?_, ?_, ?_, ?_, ?_, ?_, fun x hx => .inl (hother x hx),
          fun hf => absurd hf (by simp [hfin])⟩
        (.inr ⟨rfl, ?_, .inl ?_⟩) ?_
      case refine_9 =>
        intro x
        by_cases hx : x = f
        · subst hx
          simp [next, resumeAwaiting, hw, ContextState.resumeAwaiting, destroyHandle_frame]
        · simp [hother x hx]
      case refine_12 =>
        simp only [next, resumeAwaiting, hw, ContextState.resumeAwaiting, hlive]
        simp [destroyHandle_faults]
      all_goals simp +contextual [next, resumeAwaiting, hw, ContextState.resumeAwaiting, hlive, hst,
        Suspension.endBy, Suspension.isOpen, Suspension.token, hne, hin, hcb,
        destroyHandle_frame, Phase.afterDestroy]
  | awaiting hl' => contradiction
  | claimed _ hl' => contradiction
  | finished _ _ hl' => contradiction

theorem accounted_finalResumeAwaiting (r : Custodian s b) (w : ∀ k, (s.susp k).Sound)
    {c : FrameId} {h : SuspId} (ha : s.Enabled (.finalResumeAwaiting c h)) :
    Accounted q s b (s.next (.finalResumeAwaiting c h)) := by
  obtain ⟨hp, haw, hside⟩ := ha
  have hne : (s.susp h).side ≠ .left := by rw [hside]; simp
  have hin : (s.susp h).side ≠ .initiating true := by rw [hside]; simp
  clear hside
  have hop : (s.susp h).isOpen = true := by simp [Suspension.isOpen, hne]
  have hcb : (s.susp h).kind ≠ .callback := fun hk => hne ((w h).callback hk).1
  obtain ⟨hl, hfin, hfr⟩ := r.leased_of_finalizing hop hcb hp haw
  obtain ⟨-, hgp, hcs, -, -⟩ := r.final _ h hl hfin
  have hlive := s.touch_of_live (r.contextLive hop hcb)
  have hcg : (s.susp h).handle ≠ c := by
    intro he
    rw [hfr, ← he, hl] at hcs
    simp at hcs
  have hother : ∀ x, x ≠ (s.susp h).handle → x ≠ c →
      (s.next (.finalResumeAwaiting c h)).frame x = s.frame x := by
    intro x hx hxc
    simp only [next, finalResumeAwaiting]
    split_ifs <;> simp [hx, hxc, destroyHandle_frame, resume_frame]
  have hphase : ∀ x, x ≠ (s.susp h).handle →
      (s.next (.finalResumeAwaiting c h)).frame x = s.frame x ∨ (s.susp h).kind.isFinal = true ∧
        x = (s.susp h).frame ∧ ((s.next (.finalResumeAwaiting c h)).frame x).phase = .parked := by
    intro x hx
    by_cases hxc : x = c
    · refine .inr ⟨hfin, hxc.trans hfr.symm, ?_⟩
      subst hxc
      simp only [next, finalResumeAwaiting]
      split_ifs <;> simp [hx, destroyHandle_frame, resume_frame]
    · exact .inl (hother x hx hxc)
  have hparks : (s.susp h).kind.isFinal = true →
      ((s.next (.finalResumeAwaiting c h)).frame (s.susp h).frame).phase = .parked := by
    intro _
    rw [hfr]
    simp only [next, finalResumeAwaiting]
    split_ifs <;> simp [Ne.symm hcg, destroyHandle_frame, resume_frame]
  have hlinks : ∀ x, ((s.next (.finalResumeAwaiting c h)).frame x).kind = (s.frame x).kind ∧
      ((s.next (.finalResumeAwaiting c h)).frame x).awaiter = (s.frame x).awaiter ∧
      ((s.next (.finalResumeAwaiting c h)).frame x).caller = (s.frame x).caller ∧
      ((s.next (.finalResumeAwaiting c h)).frame x).result = (s.frame x).result := by
    intro x
    simp only [next, finalResumeAwaiting]
    split_ifs <;> by_cases hx : x = (s.susp h).handle <;> by_cases hxc : x = c <;>
      simp_all [destroyHandle_frame, resume_frame]
  cases (w h).stands_of_side hne with
  | racing _ hpend hw _ _ =>
      refine ⟨b, .refl, r.leaves hl ⟨?_, hne, hpend, ?_, ?_, ?_, ?_, ?_⟩, fun x hx => .inl ?_⟩ <;>
        simp_all +contextual [next, finalResumeAwaiting, ContextState.resumeAwaiting]
  | completed _ hst hw hfate _ =>
      refine r.accounted_ends (u := .active) hl
        ⟨?_, ?_, ?_, ?_, ?_, ?_, ?_, ?_, hlinks, hphase, hparks⟩ (.inl ⟨rfl, ?_, ?_, ?_⟩) ?_
      case refine_12 =>
        simp only [next, finalResumeAwaiting, hw, ContextState.resumeAwaiting, hlive, if_true]
        rw [resume_faults] <;> simp [hcg, hgp]
      case refine_10 => intro hk; rw [hk] at hfin; simp [AwaitKind.isFinal] at hfin
      all_goals simp +contextual [next, finalResumeAwaiting, hw, ContextState.resumeAwaiting, hst,
        Suspension.endBy, Suspension.isOpen, Suspension.token, Phase.isResuming, hne, hcb,
        resume_frame, hcg, hgp, Phase.afterResume]
  | dropped _ hst hw hfate _ =>
      refine r.accounted_ends (u := .ending) hl
        ⟨?_, ?_, ?_, ?_, ?_, ?_, ?_, ?_, hlinks, hphase, hparks⟩ (.inr ⟨rfl, ?_, .inl ?_⟩) ?_
      case refine_11 =>
        simp only [next, finalResumeAwaiting, hw, ContextState.resumeAwaiting, hlive, if_true]
        simp [destroyHandle_faults, hcg, hgp]
      all_goals simp +contextual [next, finalResumeAwaiting, hw, ContextState.resumeAwaiting, hst,
        Suspension.endBy, Suspension.isOpen, Suspension.token, hne, hin, hcb,
        destroyHandle_frame, hcg, hgp, Phase.afterDestroy]
  | awaiting hl' => contradiction
  | claimed _ hl' => contradiction
  | finished _ _ hl' => contradiction

/-! ## The handler side -/

theorem accounted_setValue (r : Custodian s b) (w : ∀ k, (s.susp k).Sound) {h : SuspId} {t : Site}
    {v : Except E V} (ha : s.Enabled (.setValue h t v)) :
    Accounted q s b (s.next (.setValue h t v)) := by
  obtain ⟨hst, hk⟩ := ha
  have hop : (s.susp h).isOpen = true := by simp [Suspension.isOpen, hst]
  have hcb : (s.susp h).kind ≠ .callback := by intro hc; simp [hc, AwaitKind.isCompletion] at hk
  have hlive := s.touch_of_live (r.contextLive hop hcb)
  have hstands := (w h).context (AwaitKind.hasContext_of_isCompletion hk)
  have hnone : (s.susp h).value = none := by
    by_contra hv
    have := ((w h).stored hk).mp hv
    cases hstands <;> grind [Suspension.Settled]
  refine r.accounted_moves (h := h) ⟨?_, ?_, ?_, hop, ?_, ?_, ?_, ?_, ?_, ?_, ?_⟩ (.inl ?_) ?_ <;>
    simp +contextual [next, completionSetValue, Suspension.isOpen, Suspension.token, hst, hlive,
      hnone]

theorem accounted_dispatchEnter (r : Custodian s b) {h : SuspId} {ex : Executor}
    (ha : s.Enabled (.dispatchEnter h ex)) : Accounted q s b (s.next (.dispatchEnter h ex)) := by
  obtain ⟨hst, hk, -⟩ := ha
  have hop : (s.susp h).isOpen = true := by simp [Suspension.isOpen, hst]
  refine r.accounted_moves (h := h) ⟨?_, ?_, ?_, hop, ?_, ?_, ?_, ?_, ?_, ?_, ?_⟩ (.inl ?_) ?_ <;>
    simp +contextual [next, dispatchEnter, Suspension.isOpen, Suspension.token, hst]

theorem accounted_resumeCompleted (r : Custodian s b) (w : ∀ k, (s.susp k).Sound) {h : SuspId}
    {t : Site} (ha : s.Enabled (.resumeCompleted h t)) :
    Accounted q s b (s.next (.resumeCompleted h t)) := by
  have hst : (s.susp h).stage = .invoked t := ha
  have hop : (s.susp h).isOpen = true := by simp [Suspension.isOpen, hst]
  have hctx := (w h).invoked ⟨t, .inl hst⟩
  have hcb : (s.susp h).kind ≠ .callback := by intro hc; simp [hc, AwaitKind.hasContext] at hctx
  have hlive := s.touch_of_live (r.contextLive hop hcb)
  refine r.accounted_moves (h := h) ⟨?_, ?_, ?_, hop, ?_, ?_, ?_, ?_, ?_, ?_, ?_⟩ (.inl ?_) ?_ <;>
    cases (w h).context hctx <;>
    simp_all +contextual [next, resumeCompleted, Suspension.isOpen, Suspension.token,
      ContextState.resumeCompleted, HandlerStage.isPending]

/-- The frame whose handler resumes or destroys it, when the awaiting side has left. -/
theorem suspended_of_left (r : Custodian s b) {h : SuspId} (ho : (s.susp h).isOpen = true)
    (hk : (s.susp h).kind ≠ .callback) (hs : (s.susp h).side = .left) :
    (s.frame (s.susp h).handle).phase = .suspended := by
  have hl := r.leased_of_open ho hk
  rcases hfin : (s.susp h).kind.isFinal with _ | _
  · exact (r.own _ h hl hfin).2.2.mpr hs
  · exact (r.final _ h hl hfin).2.1

/-- A callee that handed its caller to a handler is parked. -/
theorem parks_of_left (r : Custodian s b) {s' : State V E} {h : SuspId}
    (ho : (s.susp h).isOpen = true) (hk : (s.susp h).kind ≠ .callback)
    (hs : (s.susp h).side = .left)
    (hother : ∀ x, x ≠ (s.susp h).handle → s'.frame x = s.frame x)
    (hfin : (s.susp h).kind.isFinal = true) : (s'.frame (s.susp h).frame).phase = .parked := by
  have hl := r.leased_of_open ho hk
  obtain ⟨-, -, hc, -, hpark⟩ := r.final _ h hl hfin
  rw [hother _ (by rintro he; rw [he, hl] at hc; simp at hc)]
  exact hpark.mpr hs

theorem accounted_plainResume (r : Custodian s b) (w : ∀ k, (s.susp k).Sound) {h : SuspId}
    {ex : Executor} (ha : s.Enabled (.plainResume h ex)) :
    Accounted q s b (s.next (.plainResume h ex)) := by
  obtain ⟨hst, hk, -⟩ := ha
  have hop : (s.susp h).isOpen = true := by simp [Suspension.isOpen, hst]
  have hcb : (s.susp h).kind ≠ .callback := by rcases hk with hk | hk <;> simp [hk]
  have hside : (s.susp h).side = .left := by cases (w h).plain hk <;> assumption
  have hl := r.leased_of_open hop hcb
  have hp := r.suspended_of_left hop hcb hside
  have hother : ∀ x, x ≠ (s.susp h).handle →
      (s.next (.plainResume h ex)).frame x = s.frame x := by
    intro x hx; simp [next, plainResume, resume_frame, hx]
  refine r.accounted_ends (u := .active) hl
    ⟨?_, ?_, ?_, ?_, ?_, ?_, ?_, ?_, ?_, fun x hx => .inl (hother x hx),
      r.parks_of_left hop hcb hside hother⟩ (.inl ⟨rfl, ?_, ?_, ?_⟩) ?_
  case refine_9 =>
    intro x
    by_cases hx : x = (s.susp h).handle
    · subst hx; simp [next, plainResume, resume_frame]
    · simp [hother x hx]
  case refine_10 =>
    simp [next, plainResume, resume_frame, hp, Phase.afterResume, Phase.isResuming]
  case refine_11 => intro hd; rw [hd] at hk; simp at hk
  case refine_13 =>
    simp only [next, plainResume]
    rw [resume_faults] <;> simp [hp]
  all_goals simp +contextual [next, plainResume, Suspension.endBy, Suspension.isOpen,
    Suspension.token, hst, hside, hcb]

theorem accounted_handlerResume (r : Custodian s b) (w : ∀ k, (s.susp k).Sound) {h : SuspId}
    {t : Site} (ha : s.Enabled (.handlerResume h t)) :
    Accounted q s b (s.next (.handlerResume h t)) := by
  have hst : (s.susp h).stage = .claimed t := ha
  have hop : (s.susp h).isOpen = true := by simp [Suspension.isOpen, hst]
  have hctx := (w h).invoked ⟨t, .inr hst⟩
  have hcb : (s.susp h).kind ≠ .callback := by intro hc; simp [hc, AwaitKind.hasContext] at hctx
  have hlive := s.touch_of_live (r.contextLive hop hcb)
  have hl := r.leased_of_open hop hcb
  have hstands := (w h).context hctx
  obtain ⟨hside, hfate⟩ : (s.susp h).side = .left ∧ (s.susp h).fate = some .invoked := by
    cases hstands <;> simp_all [HandlerStage.isPending]
  have hp := r.suspended_of_left hop hcb hside
  have hv : (s.susp h).kind = .deferred → (s.susp h).value ≠ none := fun hk =>
    ((w h).stored (by rw [hk]; rfl)).mpr (.inr (.inl ⟨t, hst⟩))
  -- only an awaitable of the frame itself restores `shared_this`
  have hfr : (s.susp h).kind.isCompletion = true → (s.susp h).frame = (s.susp h).handle := by
    intro hk
    refine (r.own _ h hl ?_).1
    cases hc : (s.susp h).kind <;> simp_all [AwaitKind.isCompletion, AwaitKind.isFinal]
  have hother : ∀ x, x ≠ (s.susp h).handle →
      (s.next (.handlerResume h t)).frame x = s.frame x := by
    intro x hx
    simp only [next, handlerResume]
    split_ifs with hc <;> simp_all [destroyHandle_frame, resume_frame]
  have hlinks : ∀ x, ((s.next (.handlerResume h t)).frame x).kind = (s.frame x).kind ∧
      ((s.next (.handlerResume h t)).frame x).awaiter = (s.frame x).awaiter ∧
      ((s.next (.handlerResume h t)).frame x).caller = (s.frame x).caller ∧
      ((s.next (.handlerResume h t)).frame x).result = (s.frame x).result := by
    intro x
    by_cases hx : x = (s.susp h).handle
    · subst hx
      simp only [next, handlerResume]
      split_ifs with hc <;> simp_all [destroyHandle_frame, resume_frame]
    · simp [hother x hx]
  have hsusp : ∀ k, k ≠ h → (s.next (.handlerResume h t)).susp k = s.susp k := by
    intro k hk
    simp only [next, handlerResume]
    split_ifs <;> simp [hk]
  have hend : (((s.next (.handlerResume h t)).frame (s.susp h).handle).phase = .resuming t ∧
      (s.next (.handlerResume h t)).susp h =
        ({ s.susp h with stage := .gone } : Suspension V E).endBy .handler .resumed ∨
      ((s.next (.handlerResume h t)).frame (s.susp h).handle).phase = .destroying ∧
        (s.susp h).kind.isCompletion = true ∧ (s.next (.handlerResume h t)).susp h =
          ({ s.susp h with stage := .gone, fate := some .ownerLost } : Suspension V E).endBy
            .handler .destroyed) ∧ (s.next (.handlerResume h t)).faults = s.faults := by
    simp only [next, handlerResume, hlive]
    split_ifs with hc ho
    · rw [resume_faults] <;>
        simp_all [resume_frame, Phase.afterResume]
    · rw [destroyHandle_faults] <;>
        simp_all [destroyHandle_frame, Phase.afterDestroy]
    · rw [resume_faults] <;>
        simp_all [resume_frame, Phase.afterResume]
  have hnames : (s.next (.handlerResume h t)).nextSusp = s.nextSusp ∧
      (s.next (.handlerResume h t)).nextFrame = s.nextFrame := by
    simp only [next, handlerResume]
    split_ifs <;> simp
  have hxs : ∀ x, (s.susp h).stage ≠ .held x := by simp [hst]
  obtain ⟨⟨hph, hs'⟩ | ⟨hph, hk, hs'⟩, hx⟩ := hend
  · refine r.accounted_ends (u := .active) hl
      ⟨?_, ?_, ?_, ?_, hxs, hsusp, hnames.1, hnames.2, hlinks, fun x hx => .inl (hother x hx),
      r.parks_of_left hop hcb hside hother⟩
      (.inl ⟨rfl, ?_, ?_, ?_⟩) hx <;>
    simp_all [Suspension.endBy, Suspension.isOpen, Suspension.token, Phase.isResuming]
  · have hfin : (s.susp h).kind.isFinal = false := by
      cases hc : (s.susp h).kind <;> simp_all [AwaitKind.isCompletion, AwaitKind.isFinal]
    refine r.accounted_ends (u := .ending) hl
      ⟨?_, ?_, ?_, ?_, hxs, hsusp, hnames.1, hnames.2, hlinks, fun x hx => .inl (hother x hx),
      r.parks_of_left hop hcb hside hother⟩
      (.inr ⟨rfl, hph, .inr ⟨?_, fun _ => hfin⟩⟩) hx <;>
    simp_all [Suspension.endBy, Suspension.isOpen, Suspension.token]

theorem accounted_drop (r : Custodian s b) (w : ∀ k, (s.susp k).Sound) {h : SuspId}
    (ha : s.Enabled (.drop h)) (hq : q → (s.susp h).kind.isFinal = false) :
    Accounted q s b (s.next (.drop h)) := by
  have hst : (s.susp h).stage = .asio ∨ (s.susp h).stage = .dropping := ha
  have hop : (s.susp h).isOpen = true := by
    rcases hst with hst | hst <;> simp [Suspension.isOpen, hst]
  have hxs : ∀ x, (s.susp h).stage ≠ .held x := by rcases hst with hst | hst <;> simp [hst]
  by_cases hcb : (s.susp h).kind = .callback
  · have hside := ((w h).callback hcb).1
    refine r.accounted_moves (h := h) ⟨?_, ?_, ?_, hop, ?_, ?_, ?_, ?_, ?_, ?_, ?_⟩ (.inl ?_) ?_ <;>
      simp +contextual [next, handlerDrop, hcb, AwaitKind.hasContext, Suspension.token, hxs]
  have hl := r.leased_of_open hop hcb
  have hlive := s.touch_of_live (r.contextLive hop hcb)
  have htok : (s.susp h).token = .condemned ∨ (s.susp h).token = .loose := by
    rcases hst with hst | hst <;> simp [Suspension.token, hop, hcb, hst]
  by_cases hearly : (s.susp h).kind.hasContext = true ∧ (s.susp h).word = .initializing
  · obtain ⟨hctx, hw⟩ := hearly
    have hside : (s.susp h).side ≠ .left := by
      cases (w h).context hctx <;> simp_all [HandlerStage.isPending]
    have hbr := (w h).bridged
    refine r.accounted_moves (h := h) ⟨?_, ?_, ?_, hop, ?_, ?_, ?_, ?_, ?_, ?_, ?_⟩ ?_ ?_
    case refine_11 =>
      simp only [next, handlerDrop, hctx, hw, ContextState.destroy]
      grind [Suspension.token, Suspension.isOpen]
    all_goals simp +contextual [next, handlerDrop, hctx, hw, ContextState.destroy, hlive, hxs,
      Suspension.isOpen, hside]
  · -- the awaiting side has left, so the handler destroys the coroutine
    have hleft : (s.susp h).side = .left ∧ ((s.susp h).kind.hasContext = true →
        (s.susp h).word = .awaiting) := by
      by_cases hctx : (s.susp h).kind.hasContext = true
      · cases (w h).context hctx <;> simp_all [HandlerStage.isPending]
      · have hk : (s.susp h).kind = .post ∨ (s.susp h).kind = .finalDefer := by
          cases hk : (s.susp h).kind <;> simp_all [AwaitKind.hasContext]
        cases (w h).plain hk <;> simp_all
    obtain ⟨hside, hw⟩ := hleft
    have hp := r.suspended_of_left hop hcb hside
    have hdes : (s.susp h).kind.hasContext = true → (s.susp h).word.destroy.destroys = true :=
      fun hc => by rw [hw hc]; rfl
    have hother : ∀ x, x ≠ (s.susp h).handle → (s.next (.drop h)).frame x = s.frame x := by
      intro x hx
      simp only [next, handlerDrop]
      split_ifs <;> simp [hx, destroyHandle_frame]
    have hlinks : ∀ x, ((s.next (.drop h)).frame x).kind = (s.frame x).kind ∧
        ((s.next (.drop h)).frame x).awaiter = (s.frame x).awaiter ∧
        ((s.next (.drop h)).frame x).caller = (s.frame x).caller ∧
        ((s.next (.drop h)).frame x).result = (s.frame x).result := by
      intro x
      simp only [next, handlerDrop]
      split_ifs <;> by_cases hx : x = (s.susp h).handle <;> simp_all [destroyHandle_frame]
    have hsusp : ∀ k, k ≠ h → (s.next (.drop h)).susp k = s.susp k := by
      intro k hk
      simp only [next, handlerDrop]
      split_ifs <;> simp [hk]
    have hnames : (s.next (.drop h)).nextSusp = s.nextSusp ∧
        (s.next (.drop h)).nextFrame = s.nextFrame := by
      simp only [next, handlerDrop]
      split_ifs <;> simp
    have hend : ((s.next (.drop h)).frame (s.susp h).handle).phase = .destroying ∧
        (∃ wd, (s.next (.drop h)).susp h =
          ({ s.susp h with word := wd, stage := .gone, fate := some .dropped } :
            Suspension V E).endBy .handler .destroyed) ∧
        (s.next (.drop h)).faults = s.faults := by
      by_cases hctx : (s.susp h).kind.hasContext = true
      · refine ⟨?_, ⟨.destroyed, ?_⟩, ?_⟩ <;>
          simp [next, handlerDrop, hctx, hdes hctx, hlive, destroyHandle_frame, hp,
            Phase.afterDestroy, destroyHandle_faults]
      · refine ⟨?_, ⟨(s.susp h).word, ?_⟩, ?_⟩ <;>
          simp [next, handlerDrop, hctx, hcb, destroyHandle_frame, hp, Phase.afterDestroy,
            destroyHandle_faults]
    obtain ⟨hph, ⟨wd, hs'⟩, hx⟩ := hend
    refine r.accounted_ends (u := .ending) hl
      ⟨?_, ?_, ?_, ?_, hxs, hsusp, hnames.1, hnames.2, hlinks, fun x hx => .inl (hother x hx),
      r.parks_of_left hop hcb hside hother⟩
      (.inr ⟨rfl, hph, htok.imp id fun h => ⟨h, hq⟩⟩) hx <;>
    simp [hs', Suspension.endBy, Suspension.isOpen, hside]

/-! ## Trampolines and the ends of bodies -/

/-- A callee whose caller goes on has left its `await_suspend`. -/
theorem parked_of_active (r : Custodian s b) {f c : FrameId} (hf : b.status f = .active)
    (hc : b.status c = .spent f) : (s.frame c).phase = .parked := by
  have hcs := r.fits c
  rw [hc] at hcs
  rcases hcs.2.1 with hfin | hp
  · obtain ⟨k, hk, hside, hcb⟩ := r.finalizing c hfin
    have hop : (s.susp k).isOpen = true := by simp [Suspension.isOpen, hside]
    obtain ⟨hl, hkf, hfr⟩ := r.leased_of_finalizing hop hcb hfin hk
    have hsp := (r.final _ k hl hkf).2.2.1
    rw [hfr, hc] at hsp
    obtain rfl : f = (s.susp k).handle := by simpa using hsp
    rw [hf] at hl
    simp at hl
  · exact hp

theorem accounted_awaitResume (r : Custodian s b) {f : FrameId}
    (ha : s.Enabled (.awaitResume f)) : Accounted q s b (s.next (.awaitResume f)) := by
  obtain ⟨hp, hk⟩ := ha
  have hfa := r.active_of_running (.inr hp)
  have hff := r.fits f
  rw [hfa] at hff
  have hcallee : ∀ c, (s.frame f).awaiter.callee = some c →
      b.status c = .spent f ∧ (s.frame c).phase = .parked ∧ c ≠ f := fun c hc => by
    have hs := r.reaps f c hfa hc
    exact ⟨hs, r.parked_of_active hfa hs, by rintro rfl; simp [hfa] at hs⟩
  have hnb : ∀ c h, (s.frame f).awaiter ≠ .bridge c h := fun c h hb =>
    hk (hff.1.bridges.mpr ⟨c, h, hb⟩)
  have hother : ∀ x, x ≠ f → (s.frame f).awaiter.callee ≠ some x →
      (s.next (.awaitResume f)).frame x = s.frame x := by
    intro x hx hc
    cases haw : (s.frame f).awaiter with
    | coro c =>
        have hxc : x ≠ c := by rintro rfl; simp [haw, Awaiter.callee] at hc
        simp [next, awaitResume, haw, destroyHandle_frame, hx, hxc]
    | _ => simp [next, awaitResume, haw, hx]
  have hown : ((s.next (.awaitResume f)).frame f).kind = (s.frame f).kind ∧
      ((s.next (.awaitResume f)).frame f).caller = (s.frame f).caller ∧
      ((s.next (.awaitResume f)).frame f).awaiter = .none ∧
      ((s.next (.awaitResume f)).frame f).phase.isRunning = true := by
    cases haw : (s.frame f).awaiter with
    | coro c =>
        have hfc := (hcallee c (by rw [haw]; rfl)).2.2
        simp [next, awaitResume, haw, destroyHandle_frame, Ne.symm hfc, Phase.isRunning]
    | _ => simp [next, awaitResume, haw, Phase.isRunning]
  have hdes : ∀ c, (s.frame f).awaiter.callee = some c →
      ((s.next (.awaitResume f)).frame c).kind = (s.frame c).kind ∧
      ((s.next (.awaitResume f)).frame c).caller = (s.frame c).caller ∧
      ((s.next (.awaitResume f)).frame c).awaiter = (s.frame c).awaiter ∧
      ((s.next (.awaitResume f)).frame c).phase = .destroying := by
    intro c hc
    obtain ⟨-, hpark, hcf⟩ := hcallee c hc
    cases haw : (s.frame f).awaiter with
    | coro c' =>
        obtain rfl : c' = c := by simpa [haw, Awaiter.callee] using hc
        simp [next, awaitResume, haw, destroyHandle_frame, hcf, hpark, Phase.afterDestroy]
    | bridge c' h => exact absurd haw (hnb c' h)
    | _ => simp [haw, Awaiter.callee] at hc
  obtain ⟨b', hb', r'⟩ := r.proceed hfa hk hown hother hdes
    (by cases haw : (s.frame f).awaiter <;> simp [next, awaitResume, haw])
    (by cases haw : (s.frame f).awaiter <;> simp [next, awaitResume, haw])
    (by cases haw : (s.frame f).awaiter <;> simp [next, awaitResume, haw])
  refine ⟨b', ?_, r', fun x hx => .inl ?_⟩
  · rcases hb' with rfl | ⟨c, hc, rfl⟩
    · exact .refl
    · exact .single (.reap hfa hc) (by grind)
  · -- neither `bug_abort` nor a misused handle
    cases haw : (s.frame f).awaiter with
    | none => simpa [next, awaitResume, haw] using hx
    | context h =>
        have hv := (r.woken f h hfa haw).2
        by_cases hd : (s.susp h).kind = .deferred
        · have := hv hd
          cases hval : (s.susp h).value <;> simp_all [next, awaitResume]
        · have hd' : ((s.susp h).kind == .deferred) = false := by simpa using hd
          simpa [next, awaitResume, haw, hd'] using hx
    | coro c =>
        obtain ⟨hs, hpark, -⟩ := hcallee c (by rw [haw]; rfl)
        have hcs := r.fits c
        rw [hs] at hcs
        have hres : (s.frame c).result.get.isNone = false := by
          cases hr : (s.frame c).result <;> simp_all [Frame.Fits, Outcome.get]
        simpa [next, awaitResume, haw, hres, destroyHandle_faults, hpark] using hx
    | bridge c h => exact absurd haw (hnb c h)

theorem accounted_trampolineInvoke (r : Custodian s b) (w : ∀ k, (s.susp k).Sound)
    {x c : FrameId} {h : SuspId} (ha : s.Enabled (.trampolineInvoke x c h)) :
    Accounted q s b (s.next (.trampolineInvoke x c h)) := by
  obtain ⟨hp, haw, hst⟩ := ha
  have hxa := r.active_of_running (.inr hp)
  have hxs := r.fits x
  rw [hxa] at hxs
  have hkind : (s.frame x).kind = .trampoline := hxs.1.bridges.mpr ⟨c, h, haw⟩
  have hop : (s.susp h).isOpen = true := by simp [Suspension.isOpen, hst]
  have hside := (w h).bridged (.inl ⟨x, hst⟩)
  have hlt : h < s.nextSusp := by
    by_contra hn
    simp [r.newSusp h (Nat.le_of_not_lt hn)] at hst
  by_cases hcb : (s.susp h).kind = .callback
  · have e : Invokes s (s.next (.trampolineInvoke x c h)) x h := by
      refine ⟨?_, hst, ?_, ?_, ?_, ?_, ?_, ?_, ?_⟩ <;>
        simp +contextual [next, trampolineInvoke, hcb, Phase.isRunning]
    have r' := r.invokes hxa haw hkind e
    · refine ⟨b, .refl, ?_, fun y hy => .inl ?_⟩
      · have ht : ((s.next (.trampolineInvoke x c h)).susp h).token = b.token h := by
          rw [r.token h, if_pos hlt]
          simp [next, trampolineInvoke, hcb, Suspension.token]
        rwa [ht, Book.setToken_self] at r'
      · simpa [next, trampolineInvoke, hcb] using hy
  · have hdef : (s.susp h).kind = .deferred := by
      rcases hside with hk | hk
      · exact hk.1
      · exact absurd hk hcb
    have hl := r.leased_of_open hop hcb
    have hown := r.own _ h hl (by rw [hdef]; rfl)
    have hhx : (s.susp h).handle ≠ x := by
      rintro he
      rw [he, hxa] at hl
      simp at hl
    have hlive :
        (s.modFrame x fun fr => { fr with phase := .running (s.frame x).phase.site }).touch h =
          s.modFrame x fun fr => { fr with phase := .running (s.frame x).phase.site } := by
      refine touch_of_live _ ?_
      have := r.contextLive hop hcb
      simpa [State.contextLive, hown.1, hhx] using this
    have hnone : (s.susp h).value.isSome = false := by
      by_contra hv
      have hset := ((w h).stored (by rw [hdef]; rfl)).mp (by
        intro hn; simp [hn] at hv)
      cases (w h).context (by rw [hdef]; rfl) <;> grind [Suspension.Settled]
    have e : Invokes s (s.next (.trampolineInvoke x c h)) x h := by
      refine ⟨?_, hst, ?_, ?_, ?_, ?_, ?_, ?_, ?_⟩ <;>
        simp +contextual [next, trampolineInvoke, completionSetValue, hcb, Phase.isRunning]
    have r' := r.invokes hxa haw hkind e
    have ht : ((s.next (.trampolineInvoke x c h)).susp h).token = .loose := by
      simp [next, trampolineInvoke, completionSetValue, hcb, Suspension.token, Suspension.isOpen]
    rw [ht] at r'
    have hkept : b.token h = .kept x := by
      rw [r.token h, if_pos hlt]
      simp [Suspension.token, hop, hcb, hst]
    refine ⟨_, .single (.loosen hxa hkept) (by grind), r', fun y hy => .inl ?_⟩
    simpa [next, trampolineInvoke, completionSetValue, hcb, hlive, hnone] using hy

theorem accounted_trampolineReturn (r : Custodian s b) {x c : FrameId} {h : SuspId}
    (ha : s.Enabled (.trampolineReturn x c h)) :
    Accounted q s b (s.next (.trampolineReturn x c h)) := by
  obtain ⟨hp, haw, hst⟩ := ha
  have hxa := r.active_of_running (.inl hp)
  have hxs := r.fits x
  rw [hxa] at hxs
  have hkind : (s.frame x).kind = .trampoline := hxs.1.bridges.mpr ⟨c, h, haw⟩
  have hspent := r.reaps x c hxa (by rw [haw]; rfl)
  have hpark := r.parked_of_active hxa hspent
  have hne : c ≠ x := by rintro rfl; simp [hxa] at hspent
  have hxx : ((s.next (.trampolineReturn x c h)).frame x).phase = .destroyed ∧
      ((s.next (.trampolineReturn x c h)).frame x).awaiter = .none ∧
        ((s.next (.trampolineReturn x c h)).frame x).caller = (s.frame x).caller := by
    simp [next, trampolineReturn, destroyHandle_frame, Ne.symm hne]
  obtain ⟨-, r'⟩ := r.bridgeEnds hxa haw hst hxx
    (by simp [next, trampolineReturn, destroyHandle_frame, hne, hpark, Phase.afterDestroy])
    (fun y hy hyc => by simp [next, trampolineReturn, destroyHandle_frame, hy, hyc])
    (by simp [next, trampolineReturn]) (by simp [next, trampolineReturn])
    (by simp [next, trampolineReturn])
  refine ⟨_, (MovesIf.single (.reap hxa hspent) (by grind)).trans
    (MovesIf.single (.quit ?_ ?_ ?_ ?_) (by grind)), r', fun y hy => .inl ?_⟩
  · simp [Ne.symm hne, hxa]
  · -- `c` was the one finished callee
    intro y hy
    have hy' := r.spent y x
    grind [Awaiter.callee]
  · have := r.owned
    have := hxs.1.called
    grind
  · intro k hk
    have hheld := (r.held x k).mp
    have htok := r.token k
    grind [Suspension.token]
  · simpa [next, trampolineReturn, destroyHandle_faults, hpark] using hy

/-- What is known when the body of a promise ends: its caller waits for it. -/
theorem owned_of_inBody (r : Custodian s b) {f : FrameId} (h : s.inBody f = true)
    (hk : (s.frame f).kind = .promise) :
    ∃ g, (s.frame f).caller = some g ∧ b.status g = .owned f ∧ (s.frame g).phase = .suspended ∧
      g ≠ f := by
  obtain ⟨hfa, -, -, -⟩ := r.of_inBody h
  have hfs := r.fits f
  rw [hfa] at hfs
  obtain ⟨g, hg⟩ := Option.ne_none_iff_exists'.mp (hfs.1.called.mp hk)
  have ho := (r.owned g f).mpr hg
  have hgs := r.fits g
  rw [ho] at hgs
  exact ⟨g, hg, ho, hgs.2.1, by rintro rfl; simp [hfa] at ho⟩

/-- What the end of a promise's body does. -/
theorem returned (r : Custodian s b) (hst : Stored s) {f : FrameId} (e : BodyEnd V E)
    (h : s.inBody f = true) (hk : (s.frame f).kind = .promise) :
    ∃ g, (s.frame f).caller = some g ∧ b.status g = .owned f ∧ (s.frame g).phase = .suspended ∧
      g ≠ f ∧ Returned s (s.coReturn f e) f g e := by
  obtain ⟨g, hg, ho, hgp, hgf⟩ := r.owned_of_inBody h hk
  exact ⟨g, hg, ho, hgp, hgf, (s.coReturn_returned e hk hg hgp hgf
    (hst f (r.lt_of_started (by simp [(r.of_inBody h).1])))).1⟩

/-- A running body keeps no handler. -/
theorem not_kept (r : Custodian s b) {f : FrameId} (haw : (s.frame f).awaiter = .none)
    (k : SuspId) : b.token k ≠ .kept f := by
  intro hk
  have hheld := (r.held f k).mp
  have htok := r.token k
  grind [Suspension.token]

theorem accounted_coReturn_promise (r : Custodian s b) (hst : Stored s) {f : FrameId}
    {e : BodyEnd V E} (ha : s.inBody f = true) (hk : (s.frame f).kind = .promise) :
    Accounted q s b (s.next (.coReturn f e)) := by
  obtain ⟨hfa, haw, -, t, ht⟩ := r.of_inBody ha
  obtain ⟨g, hg, ho, hgp, hgf⟩ := r.owned_of_inBody ha hk
  have hres := Outcome.finish_ne_nothing e
  have huk : b.token s.nextSusp = .unused := by have := r.token s.nextSusp; grind
  have hclear := r.clear hfa (by rw [haw]; rfl)
  obtain ⟨hret, hnf, hfaults⟩ := s.coReturn_returned e hk hg hgp hgf
    (hst f (r.lt_of_started (by simp [hfa])))
  have hx : ∀ x ∈ (s.coReturn f e).faults, x ∈ s.faults ∨ ReadsDangling s x := by
    intro x hx
    rcases hfaults with h | h <;> rw [h] at hx
    · exact .inl hx
    · exact (s.mem_touchExecutor_faults hx).imp id fun h => ⟨f, _, ha, .inr rfl, h⟩
  rcases hb : s.handBack f with _ | ex | ex <;> simp only [Returned, hb] at hret <;>
    obtain ⟨hns, hsu, hfr⟩ := hret
  case direct =>
    refine ⟨_, .single (.passBack hfa hclear (r.not_kept haw) ho) (by grind), r.passBack hfa haw ho
      ⟨?_, ?_, ?_, ?_⟩ ?_ ?_ ?_ ?_ hsu hns hnf, hx⟩ <;>
    simp +contextual [next, hfr, finished, hk, haw, hres, hgf, Phase.isResuming]
  case dispatch =>
    refine ⟨_, .single (.passOn hfa hclear (r.not_kept haw) ho huk) (by grind), r.passOn hfa haw ho
      ⟨?_, ?_, ?_, ?_⟩ ?_ ?_ ?_ ?_ hns hnf, hx⟩
    case refine_7 =>
      simp only [next, hsu, hfr, if_true, finished]
      unfold dispatchContext
      split <;> simp [AwaitKind.isFinal, Suspension.isOpen, Suspension.token]
    all_goals simp +contextual [next, hfr, hsu, finished, hk, hres, Phase.isFinalizing]
  case defer =>
    refine ⟨_, .single (.passOn hfa hclear (r.not_kept haw) ho huk) (by grind), r.passOn hfa haw ho
      ⟨?_, ?_, ?_, ?_⟩ ?_ ?_ ?_ ?_ hns hnf, hx⟩ <;>
    simp +contextual [next, hfr, hsu, finished, hk, hres, AwaitKind.isFinal, Suspension.isOpen,
      Suspension.token]

theorem accounted_coReturn (r : Custodian s b) (hst : Stored s) {f : FrameId} {e : BodyEnd V E}
    (ha : s.Enabled (.coReturn f e)) : Accounted q s b (s.next (.coReturn f e)) := by
  have hin : s.inBody f = true := ha.1
  by_cases hk : (s.frame f).kind = .promise
  · exact r.accounted_coReturn_promise hst hin hk
  obtain ⟨hfa, haw, hkt, t, ht⟩ := r.of_inBody hin
  have hfs := r.fits f
  rw [hfa] at hfs
  have hclear := r.clear hfa (by rw [haw]; rfl)
  have hnone : ∀ y, b.status y ≠ .owned f := by
    have := r.owned
    have := hfs.1.called
    grind
  have hkept := r.not_kept haw
  by_cases hm : (s.frame f).kind = .main
  · refine accounted_one (.retire hfa hclear hnone hkept) (by grind) ?_
      (by simp [next, coReturn, hm])
    refine r.quit hfa haw hk ?_ (.inr ⟨rfl, hm, ?_⟩) ?_ ?_ ?_ ?_ <;>
      simp +contextual [next, coReturn, hm]
  · have hd : (s.frame f).kind = .detached := by
      cases hc : (s.frame f).kind <;> simp_all
    refine accounted_one (.quit hfa hclear hnone hkept) (by grind) ?_ (by simp [next, coReturn, hd])
    refine r.quit hfa haw hk ?_ (.inl ⟨rfl, ?_⟩) ?_ ?_ ?_ ?_ <;>
      simp +contextual [next, coReturn, hd]

theorem accounted_destroy (r : Custodian s b) {f : FrameId} (ha : s.Enabled (.destroy f)) :
    Accounted q s b (s.next (.destroy f)) := by
  have hp : (s.frame f).phase = .destroying := ha
  have hfe := r.ending_of_destroying hp
  have hcaller : ∀ g, (s.frame f).caller = some g → g ≠ f ∧ (s.frame g).phase = .suspended := by
    intro g hg
    have ho := (r.owned g f).mpr hg
    have hgs := r.fits g
    rw [ho] at hgs
    exact ⟨by rintro rfl; simp [hfe] at ho, hgs.2.1⟩
  have hcf : (s.frame f).caller ≠ some f := fun h => (hcaller f h).1 rfl
  have hframe := s.destroyFrame_frame hcf
  have hheld := r.held f
  refine accounted_one (.bury hfe) ?_ (r.bury hfe ?_ ?_ ?_ ?_ ?_ ?_ ?_)
    (s.destroyFrame_faults hcaller)
  · intro k hk
    grind
  · simp [next, hframe]
  · intro g hg
    obtain ⟨hgf, hgp⟩ := hcaller g hg
    simp [next, hframe, hgf, hg, hgp, Phase.afterDestroy]
  · intro x hx hxc
    simp [next, hframe, hx, hxc]
  · intro k hk
    obtain ⟨⟨c, hc⟩, -⟩ := (r.held f k).mp hk
    exact s.destroyFrame_susp_held hc hk
  · exact fun k hk => s.destroyFrame_susp_other hk
  · simp [next]
  · simp [next]

end Custodian

/-! ## Along runs -/

/-- The action destroys a handler that a `final_awaitable` made, so a hand-back is lost. -/
def LosesHandBack (s : State V E) : Action V E → Prop
  | .drop h => (s.susp h).kind.isFinal = true
  | _ => False

instance (s : State V E) (a : Action V E) : Decidable (LosesHandBack s a) :=
  match a with
  | .drop h => inferInstanceAs (Decidable ((s.susp h).kind.isFinal = true))
  | .detach .. | .startMain .. | .create .. | .discard .. | .awaitPromise .. | .awaitDeferred ..
  | .awaitTimer .. | .awaitAwait .. | .startAwait .. | .awaitDispatch .. | .awaitPost ..
  | .initiationThrows .. | .initiationReturns .. | .resumeAwaiting .. | .finalResumeAwaiting ..
  | .awaitResume .. | .setValue .. | .dispatchEnter .. | .plainResume .. | .resumeCompleted ..
  | .handlerResume .. | .trampolineInvoke .. | .trampolineReturn .. | .coReturn .. | .destroy ..
  | .release .. | .retain .. | .unwind .. => .isFalse id

/-- **Every step of the runtime is accounted for.** -/
theorem Custodian.step {s : State V E} {b : Book FrameId SuspId} {a : Action V E}
    (r : Custodian s b) (w : ∀ k, (s.susp k).Sound) (hst : Stored s) (h : s.Enabled a) :
    Accounted (¬ LosesHandBack s a) s b (s.next a) := by
  have hstill : ∀ s' : State V E, (∀ x, s'.frame x = s.frame x) → (∀ k, s'.susp k = s.susp k) →
      s'.nextSusp = s.nextSusp → s'.nextFrame = s.nextFrame → s'.faults = s.faults →
      Accounted (¬ LosesHandBack s a) s b s' := fun s' hf hs hns hnf hx =>
    ⟨b, .refl, r.congr hf hs hns hnf, fun _ hm => .inl (hx ▸ hm)⟩
  cases a with
  | detach t o alone => exact r.accounted_detach t o alone
  | startMain i => exact r.accounted_startMain i
  | create o => exact r.accounted_create o
  | discard c => exact r.accounted_discard h
  | awaitPromise f c => exact r.accounted_awaitPromise h.1 h.2
  | awaitDeferred f => exact r.accounted_completion h rfl
  | awaitTimer f => exact r.accounted_completion h rfl
  | awaitAwait f c => exact r.accounted_awaitAwait h.1 h.2
  | startAwait t c => exact r.accounted_startAwait h
  | awaitDispatch f ex => exact r.accounted_awaitDispatch ex h
  | awaitPost f ex => exact r.accounted_awaitPost ex h
  | initiationThrows f k e => exact r.accounted_initiationThrows h
  | initiationReturns f k => exact r.accounted_initiationReturns w h
  | resumeAwaiting f k => exact r.accounted_resumeAwaiting w h
  | finalResumeAwaiting c k => exact r.accounted_finalResumeAwaiting w h
  | awaitResume f => exact r.accounted_awaitResume h
  | setValue k t v => exact r.accounted_setValue w h
  | dispatchEnter k ex => exact r.accounted_dispatchEnter h
  | plainResume k ex => exact r.accounted_plainResume w h
  | resumeCompleted k t => exact r.accounted_resumeCompleted w h
  | handlerResume k t => exact r.accounted_handlerResume w h
  | drop k => exact r.accounted_drop w h fun hq => by simpa [LosesHandBack] using hq
  | trampolineInvoke x c k => exact r.accounted_trampolineInvoke w h
  | trampolineReturn x c k => exact r.accounted_trampolineReturn h
  | coReturn f e => exact r.accounted_coReturn hst h
  | destroy f => exact r.accounted_destroy h
  | release o => exact hstill _ (fun _ => rfl) (fun _ => rfl) rfl rfl rfl
  | retain o => exact hstill _ (fun _ => rfl) (fun _ => rfl) rfl rfl rfl
  | unwind o => exact hstill _ (fun _ => rfl) (fun _ => rfl) rfl rfl rfl

/-- A step of the runtime loses no stored executor. -/
theorem Custodian.executor_some {s : State V E} {b : Book FrameId SuspId} {a : Action V E}
    (r : Custodian s b) (h : s.Enabled a) {y : FrameId} (hy : (s.frame y).executor ≠ none) :
    ((s.next a).frame y).executor ≠ none := by
  have hn : y ≠ s.nextFrame := by
    rintro rfl
    simp [r.unborn_frame (Nat.le_refl s.nextFrame)] at hy
  rcases next_retains (a := a) hn with hr | ⟨ex, -, hr⟩ | ⟨f, rfl⟩
  · rwa [hr.executor]
  · simp [hr.executor, Frame.setExecutor]
  · obtain ⟨hcp, hcc, hne⟩ := r.of_call h
    simpa [next, s.coroAwaitSuspend_frame hcp hcc hne] using hy

theorem Stored.step {s : State V E} {b : Book FrameId SuspId} {a : Action V E} (hst : Stored s)
    (r : Custodian s b) (h : s.Enabled a) : Stored (s.next a) := by
  intro x hx hce
  by_cases hn : x = s.nextFrame
  · subst hn
    exact absurd (next_born (Nat.ne_of_gt hx)).2.callerExecutor hce
  have hlt : x < s.nextFrame := by
    by_cases hb : (s.next a).nextFrame = s.nextFrame
    · rwa [hb] at hx
    · rw [(next_born hb).1] at hx
      exact Nat.lt_of_le_of_ne (Nat.le_of_lt_succ hx) hn
  rcases next_retains (a := a) hn with hr | ⟨ex, -, hr⟩ | ⟨f, rfl⟩
  · rw [hr.callerExecutor] at hce ⊢
    exact r.executor_some h (hst x hlt hce)
  · rw [hr.callerExecutor] at hce ⊢
    exact r.executor_some h (hst x hlt hce)
  · obtain ⟨hcp, hcc, hne⟩ := r.of_call h
    refine r.executor_some h ?_
    -- the callee takes its caller's reference only when an executor is stored there
    simp only [next, s.coroAwaitSuspend_frame hcp hcc hne, if_true] at hce ⊢
    split at hce <;> rename_i hg
    · rw [if_pos hg]
      exact Option.ne_none_iff_isSome.mpr hg
    · rw [if_neg hg]
      exact hst x hlt hce

/-- The state and the book agree, and nothing but a read through `caller_executor` went wrong. -/
structure Accounts (s : State V E) (b : Book FrameId SuspId) : Prop where
  wf : Wf b
  custodian : Custodian s b
  sound : ∀ k, (s.susp k).Sound
  stored : Stored s
  faults : ∀ x ∈ s.faults, ∃ f, x = .danglingExecutor f

theorem Accounts.init : Accounts (State.init : State V E) Book.empty :=
  ⟨.empty, .init, fun _ => .default, fun x hx => absurd hx (Nat.not_lt_zero x),
    by simp [State.init]⟩

theorem Accounts.step {s : State V E} {b : Book FrameId SuspId} {a : Action V E}
    (r : Accounts s b) (h : s.Enabled a) :
    ∃ b', MovesIf (¬ LosesHandBack s a) b b' ∧ Accounts (s.next a) b' := by
  obtain ⟨b', m, r', hx⟩ := r.custodian.step r.sound r.stored h
  refine ⟨b', m, r.wf.moves m.moves, r', ?_, r.stored.step r.custodian h, fun x hm =>
    (hx x hm).elim (r.faults x) fun ⟨_, f, _, _, _, hf⟩ => ⟨f, hf⟩⟩
  intro k
  rcases State.next_susp h k with hk | hk | ⟨-, hk⟩
  · exact hk ▸ r.sound k
  · exact hk.sound (r.sound k)
  · exact hk.sound

/-- The book follows every run. -/
theorem Accounts.run {s s' : State V E} {b : Book FrameId SuspId} {as : List (Action V E)}
    (hr : Transition.Run runtime s as s') (r : Accounts s b) :
    ∃ b', Moves b b' ∧ Accounts s' b' := by
  induction hr generalizing b with
  | nil => exact ⟨b, .refl, r⟩
  | cons ha _ ih =>
      obtain ⟨b₁, m₁, r₁⟩ := r.step ha
      obtain ⟨b₂, m₂, r₂⟩ := ih r₁
      exact ⟨b₂, m₁.moves.trans m₂, r₂⟩

/-- In a run that loses no hand-back every finished callee keeps a caller to reap it. -/
theorem Accounts.run_reapable {s s' : State V E} {b : Book FrameId SuspId}
    {as : List (Action V E)} (hr : Transition.Run runtime s as s')
    (hl : Transition.Along runtime (fun s a => ¬ LosesHandBack s a) s as) (r : Accounts s b)
    (hp : Reapable b) : ∃ b', Accounts s' b' ∧ Reapable b' := by
  induction hr generalizing b with
  | nil => exact ⟨b, r, hp⟩
  | cons ha _ ih =>
      obtain ⟨b₁, m₁, r₁⟩ := r.step ha
      exact ih hl.2 r₁ (hp.moves r.wf hl.1 m₁)

/-- Every reachable state has a book. -/
theorem Reachable.accounts {s : State V E} (hs : Reachable s) : ∃ b, Accounts s b := by
  obtain ⟨as, hr⟩ := hs
  obtain ⟨b, -, r⟩ := Accounts.init.run hr
  exact ⟨b, r⟩

end WebAsio.Coro
