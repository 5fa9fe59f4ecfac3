import WebAsio.Coro.Lifecycle

set_option autoImplicit false

/-! # Executor affinity of hops

A hop and a `final_awaitable` queue a handler on an executor, and whoever runs the handler is
inside that executor. The awaiting side, however, resumes the coroutine itself when it finds the
word completed: rightly so if the handler ran inline, wrongly so if another thread was fast enough
to run it. `Hasty` is that step of the other thread. -/

namespace WebAsio.Coro

open Custody State

variable {V E : Type}

/-- The handler is a `dispatch_handler`, queued on an executor. -/
def AwaitKind.isQueued : AwaitKind → Bool
  | .dispatch | .post | .final | .finalDefer => true
  | _ => false

/-- The handler runs, or would run, at the site `t`. -/
def Suspension.HandlerAt (r : Suspension V E) (t : Site) : Prop :=
  (r.stage = .asio ∧ ∃ ex, r.target = some ex ∧ t = ex.site) ∨ r.stage = .invoked t ∨
    r.stage = .claimed t

/-- The awaiting side of `k` is inside `await_suspend`, at the site `t`. -/
def State.AwaiterAt (s : State V E) (k : SuspId) (t : Site) : Prop :=
  (s.susp k).side ≠ .left ∧ t = (s.frame (s.susp k).frame).phase.site

/-- A `dispatch_handler` that runs at one place stays there. -/
theorem Suspension.Step.handlerAt {r r' : Suspension V E} {t : Site} (h : r.Step r') (w : r.Sound)
    (hk : r.kind.isQueued = true) (ht : r'.HandlerAt t) : r.HandlerAt t := by
  have hkc : r.kind.isCompletion = false ∧ r.kind ≠ .callback := by
    revert hk; cases r.kind <;> simp [AwaitKind.isQueued, AwaitKind.isCompletion]
  have hkd : r.kind ≠ .deferred := by rintro he; simp [he, AwaitKind.isQueued] at hk
  have hheld := w.bridged
  unfold HandlerAt at ht ⊢
  cases h <;> grind [endBy]

namespace Accounts

variable {s : State V E} {b : Book FrameId SuspId}

/-- While the awaiting side is in `await_suspend`, its frame is, too. -/
theorem site_of_side (r : Accounts s b) {k : SuspId} (h : (s.susp k).side ≠ .left) :
    (∃ t, (s.frame (s.susp k).frame).phase = .suspending t ∨
      (s.frame (s.susp k).frame).phase = .finalizing t) ∧
      (s.frame (s.susp k).frame).awaiter = .context k := by
  have ho : (s.susp k).isOpen = true := by simp [Suspension.isOpen, h]
  have hcb : (s.susp k).kind ≠ .callback := fun hk => h ((r.sound k).callback hk).1
  have hl := r.custodian.leased_of_open ho hcb
  have hfit := r.custodian.fits (s.susp k).handle
  rw [hl] at hfit
  rcases hfin : (s.susp k).kind.isFinal with _ | _
  · obtain ⟨hfr, ha, hp⟩ := r.custodian.own _ k hl hfin
    rw [hfr]
    refine ⟨?_, ha⟩
    rcases hfit.2 with hs | hs
    · exact (Phase.isSuspending_iff.mp hs).imp fun t => .inl
    · exact absurd (hp.mp hs) h
  · obtain ⟨-, -, hs, ha, hp⟩ := r.custodian.final _ k hl hfin
    refine ⟨?_, ha⟩
    have hc := r.custodian.fits (s.susp k).frame
    rw [hs] at hc
    rcases hc.2.1 with hf | hf
    · exact (Phase.isFinalizing_iff.mp hf).imp fun t => .inr
    · exact absurd (hp.mp hf) h

/-- A suspension that exists keeps its names, and its awaiting side stays where it is. -/
theorem awaiterAt_step (r : Accounts s b) {a : Action V E} (h : s.Enabled a) {k : SuspId}
    {t : Site} (hk : k < s.nextSusp) (ht : (s.next a).AwaiterAt k t) : s.AwaiterAt k t := by
  obtain ⟨b', m, r'⟩ := r.step h
  obtain ⟨hside', rfl⟩ := ht
  have hframe : ((s.next a).susp k).frame = (s.susp k).frame := by
    rcases next_susp h k with he | he | ⟨he, -⟩
    · rw [he]
    · exact he.names.2.1
    · exact absurd he (Nat.ne_of_lt hk)
  have hside : (s.susp k).side ≠ .left := by
    rcases next_susp h k with he | he | ⟨he, -⟩
    · rwa [he] at hside'
    · exact he.side hside'
    · exact absurd he (Nat.ne_of_lt hk)
  refine ⟨hside, ?_⟩
  obtain ⟨⟨t, ht⟩, haw⟩ := r.site_of_side hside
  obtain ⟨⟨t', ht'⟩, -⟩ := r'.site_of_side hside'
  have hne : (s.susp k).frame ≠ s.nextFrame := by
    intro hn
    rw [hn, r.custodian.unborn_frame (Nat.le_refl _)] at haw
    simp at haw
  have hp := r.next_phase h hne
  rw [hframe] at ht' ⊢
  rcases ht with ht | ht <;> rcases ht' with ht' | ht' <;> rw [ht, ht'] at hp ⊢ <;>
    cases hp <;> simp_all

/-- Only its own hops change the executors of a frame. -/
theorem executor_eq (r : Accounts s b) {a : Action V E} (h : s.Enabled a) {x : FrameId}
    (hx : x ≠ s.nextFrame) (hb : s.inBody x = false) :
    ((s.next a).frame x).executor = (s.frame x).executor ∧
      ((s.next a).frame x).innerExecutor = (s.frame x).innerExecutor := by
  rcases next_retains (a := a) hx with hr | ⟨ex, ha, -⟩ | ⟨f, rfl⟩
  · exact ⟨hr.executor, hr.innerExecutor⟩
  · have hbody : s.inBody x = true := by rcases ha with rfl | rfl <;> exact h
    simp [hb] at hbody
  · obtain ⟨hcp, hcc, hne⟩ := r.custodian.of_call h
    simp [next, s.coroAwaitSuspend_frame hcp hcc hne]

/-- The executor of a frame does not change while the frame is away from its body. -/
theorem getExecutor_away (r : Accounts s b) (i : Inherits s) {a : Action V E} (h : s.Enabled a)
    {g : FrameId} (hg : (s.frame g).phase.isSuspending = true ∨ (s.frame g).phase = .suspended ∨
      (s.frame g).phase.isResuming = true) :
    (s.next a).getExecutor g = s.getExecutor g := by
  have hlt : g < s.nextFrame := by
    by_contra hn
    simp [r.custodian.unborn_frame (Nat.le_of_not_lt hn), Phase.isSuspending,
      Phase.isResuming] at hg
  have hbody : s.inBody g = false := by
    unfold inBody
    cases hp : (s.frame g).phase <;> simp_all [Phase.isRunning, Phase.isSuspending,
      Phase.isResuming]
  obtain ⟨l, hl⟩ := i.exists_chain r g hlt (by
    cases hp : (s.frame g).phase <;> simp_all [Phase.isFinalizing, Phase.isSuspending,
      Phase.isResuming])
  have hretains : (s.frame g).Retains ((s.next a).frame g) := by
    rcases next_retains (a := a) (Nat.ne_of_lt hlt) with hr | ⟨ex, ha, -⟩ | ⟨f, rfl⟩
    · exact hr
    · have : s.inBody g = true := by rcases ha with rfl | rfl <;> exact h
      simp [hbody] at this
    · have := (r.custodian.of_call h).1
      simp [this, Phase.isSuspending, Phase.isResuming] at hg
  -- the frame it refers to is a suspended one as well
  have hmem := (i.of_chain hl g (by simp)).2.2
  have href : s.inBody (s.executorRef g) = false := by
    rcases List.mem_cons.mp hmem with he | hm
    · rw [he, hbody]
    · by_contra hb
      have := hl.awaits _ hm
      simp [(r.custodian.of_inBody (by simpa using hb)).2.1, Awaiter.callee] at this
  have hborn := (i.alive_of_chain r hl _ hmem).1
  have hne : s.executorRef g ≠ s.nextFrame := by
    intro he
    rw [he, r.custodian.unborn_frame (Nat.le_refl _)] at hborn
    simp at hborn
  rw [getExecutor, getExecutor, Inherits.executorRef_eq hretains, (r.executor_eq h hne href).1]

/-- In particular while it is suspended. -/
theorem getExecutor_eq (r : Accounts s b) (i : Inherits s) {a : Action V E} (h : s.Enabled a)
    {g : FrameId} (hg : (s.frame g).phase = .suspended ∨ ∃ t, (s.frame g).phase = .resuming t) :
    (s.next a).getExecutor g = s.getExecutor g := by
  refine r.getExecutor_away i h (.inr ?_)
  rcases hg with hg | ⟨t, hg⟩
  · exact .inl hg
  · exact .inr (by rw [hg]; rfl)

/-- A callee reads its caller's executor through its own pointer. -/
theorem callerExecutor_of_caller (r : Accounts s b) (i : Inherits s) {f g : FrameId}
    (hb : s.inBody f = true) (hg : (s.frame f).caller = some g) :
    (s.getExecutor g = none ∧ (s.frame f).callerExecutor = f) ∨
      (s.frame f).callerExecutor ≠ f ∧
        (s.frame (s.frame f).callerExecutor).executor = s.getExecutor g ∧
          (s.getExecutor g).isSome = true := by
  have ho := (r.custodian.owned g f).mpr hg
  have hgf := r.custodian.fits g
  rw [ho] at hgf
  obtain ⟨-, hgp, hga⟩ := hgf
  have hlink := i.link g f hga (by simp [hgp])
  by_cases hs : (s.getExecutor g).isSome = true
  · rw [if_pos hs] at hlink
    refine .inr ⟨?_, ?_, hs⟩
    · -- the frame that `g` refers to is suspended
      rw [hlink]
      intro he
      have hlt := r.custodian.lt_of_started (f := g) (by simp [ho])
      obtain ⟨l, hl⟩ := i.exists_chain r g hlt (by simp [hgp, Phase.isFinalizing])
      have hmem := (i.of_chain hl g (by simp)).2.2
      rw [he] at hmem
      rcases List.mem_cons.mp hmem with rfl | hm
      · simp [inBody, hgp, Phase.isRunning] at hb
      · have := hl.awaits _ hm
        simp [(r.custodian.of_inBody hb).2.1, Awaiter.callee] at this
    · rw [hlink, getExecutor]
  · rw [if_neg hs] at hlink
    exact .inl ⟨by simpa using hs, hlink⟩

/-- How a callee hands its caller back, in terms of the executors of the two. -/
theorem handBack_eq (r : Accounts s b) (i : Inherits s) {f g : FrameId}
    (hb : s.inBody f = true) (hg : (s.frame f).caller = some g) :
    s.handBack f =
      match (s.frame f).executor, s.getExecutor g with
      | none, _ => .direct
      | some _, some ex =>
        if (s.frame f).innerExecutor.isNone then .dispatch ex else .defer ex
      | some _, none =>
        match (s.frame f).innerExecutor with
        | some ex => .defer ex
        | none => .direct := by
  have hinner : (s.frame f).executor = none → (s.frame f).innerExecutor = none := by
    intro he
    have := (i.adopts f).executor
    rw [(i.adopts f).innerExecutor]
    cases hl : (s.frame f).adopted.head? <;> simp_all
  rcases hown : (s.frame f).executor with _ | own
  · simp [handBack, hown, hinner hown]
  rcases r.callerExecutor_of_caller i hb hg with ⟨hnone, hself⟩ | ⟨hother, hread, hsome⟩
  · rcases hin : (s.frame f).innerExecutor with _ | ex <;>
      simp [handBack, hown, hself, hnone, hin]
  · obtain ⟨ex, hex⟩ := Option.isSome_iff_exists.mp hsome
    simp [handBack, hown, hother, hread, hex]

end Accounts

/-! ## The invariant -/

/-- The handler of a hop runs on another thread while the hopping side still has its exchange to
    make. -/
def Hasty (s : State V E) : Action V E → Prop
  | .resumeCompleted h _ =>
    ((s.susp h).kind = .dispatch ∨ (s.susp h).kind = .final) ∧ (s.susp h).word = .initializing
  | _ => False

instance (s : State V E) (a : Action V E) : Decidable (Hasty s a) :=
  match a with
  | .resumeCompleted h _ => inferInstanceAs (Decidable
      (((s.susp h).kind = .dispatch ∨ (s.susp h).kind = .final) ∧ (s.susp h).word = .initializing))
  | .detach .. | .startMain .. | .create .. | .discard .. | .awaitPromise .. | .awaitDeferred ..
  | .awaitTimer .. | .awaitAwait .. | .startAwait .. | .awaitDispatch .. | .awaitPost ..
  | .initiationThrows .. | .initiationReturns .. | .resumeAwaiting .. | .finalResumeAwaiting ..
  | .awaitResume .. | .setValue .. | .dispatchEnter .. | .plainResume .. | .handlerResume ..
  | .drop .. | .trampolineInvoke .. | .trampolineReturn .. | .coReturn .. | .destroy ..
  | .release .. | .retain .. | .unwind .. => .isFalse id

/-- The thread at `t` is inside the executor of the hop `r`. -/
def Suspension.Inside (r : Suspension V E) (t : Site) : Prop := ∀ ex, r.target = some ex → ex ∈ t

/-- Whoever will resume a coroutine after a hop, or has just done so, is inside the executor. -/
structure Affine (s : State V E) : Prop where
  hop : ∀ f k, (s.frame f).awaiter = .context k →
    (s.susp k).kind = .dispatch ∨ (s.susp k).kind = .post →
    (s.susp k).target = (s.frame f).executor ∧ (s.frame f).executor ≠ none
  back : ∀ k, (s.susp k).isOpen = true → (s.susp k).kind.isFinal = true →
    ∀ ex, s.getExecutor (s.susp k).handle = some ex → (s.susp k).target = some ex
  handler : ∀ k t, (s.susp k).kind.isQueued = true → (s.susp k).HandlerAt t → (s.susp k).Inside t
  awaiter : ∀ k t, (s.susp k).kind.isQueued = true → s.AwaiterAt k t →
    (s.susp k).word = .completed → (s.susp k).Inside t
  hopped : ∀ f k t, (s.frame f).phase = .resuming t → (s.frame f).awaiter = .context k →
    (s.susp k).kind = .dispatch ∨ (s.susp k).kind = .post → (s.susp k).Inside t
  returned : ∀ g c t, (s.frame g).phase = .resuming t → (s.frame g).awaiter = .coro c →
    (s.frame c).executor ≠ none → ∀ ex, s.getExecutor g = some ex → ex ∈ t

variable {s : State V E} {b : Book FrameId SuspId}

theorem Affine.init : Affine (State.init : State V E) := by
  constructor <;> simp [State.init, AwaitKind.isQueued, AwaitKind.isFinal]

theorem Suspension.Begins.handlerAt {r : Suspension V E} (h : r.Begins)
    (hk : r.kind.isQueued = true) {t : Site} (ht : r.HandlerAt t) : r.Inside t := by
  unfold HandlerAt Inside at *
  cases h
  case dispatch =>
    unfold dispatchContext at ht ⊢
    split at ht <;> simp_all
  case plain => simp_all
  case completion hc => cases ‹AwaitKind› <;> simp_all [AwaitKind.isQueued, AwaitKind.isCompletion]
  all_goals simp [AwaitKind.isQueued] at hk

/-- A handler that ran inline ran where the body of the new suspension's frame is. -/
theorem Accounts.inline (r : Accounts s b) {a : Action V E} (h : s.Enabled a)
    (hw : ((s.next a).susp s.nextSusp).word = .completed) :
    ((s.next a).susp s.nextSusp).Inside
      ((s.next a).frame ((s.next a).susp s.nextSusp).frame).phase.site := by
  have hnew : s.susp s.nextSusp = {} := r.custodian.newSusp _ (Nat.le_refl _)
  have hinline : ∀ (r : Suspension V E) (ex : Executor) (t : Site), r.word = .initializing →
      (dispatchContext r ex t).word = .completed → (dispatchContext r ex t).Inside t := by
    intro r ex t hr hc
    unfold dispatchContext at hc ⊢
    split at hc <;> simp_all [Suspension.Inside]
  cases a <;> simp only [next] at hw ⊢
  case awaitDispatch f ex =>
    obtain ⟨-, -, -, t, ht⟩ := r.custodian.of_inBody h
    simp only [dispatchAwaitSuspend, modFrame_susp, newSusp_susp, if_true] at hw ⊢
    simpa [Phase.site] using hinline _ _ _ rfl hw
  case coReturn f e =>
    obtain ⟨-, -, -, t, ht⟩ := r.custodian.of_inBody h.1
    cases hk : (s.frame f).kind
    case promise =>
      obtain ⟨g, hg, ho, hgp, hgf, hret⟩ := r.custodian.returned r.stored e h.1 hk
      rcases hb : s.handBack f with _ | ex | ex <;> simp only [Returned, hb] at hret <;>
        obtain ⟨-, hs, hfr⟩ := hret
      case dispatch =>
        rw [hs, if_pos rfl] at hw ⊢
        simpa [hfr, finished, Phase.site] using hinline _ _ _ rfl hw
      all_goals simp [hs, hnew] at hw
    all_goals simp [coReturn, hk, hnew] at hw
  all_goals
    exfalso
    revert hw
    simp only [Enabled, inBody] at h
    grind [completionAwaitSuspend, postAwaitSuspend, completionSetValue, State.initiationThrows,
      State.dispatchEnter, State.resumeCompleted, State.trampolineInvoke, State.initiationReturns,
      State.plainResume, State.trampolineReturn, State.resumeAwaiting, State.finalResumeAwaiting,
      State.handlerResume, State.handlerDrop, State.destroyFrame, State.awaitResume,
      coroAwaitSuspend_susp, awaitAwaitSuspend_susp, startAwait_susp]

/-! ## What the steps do to hops -/

/-- A word is completed by the handler, or by its inline call. -/
theorem State.next_word {a : Action V E} {k : SuspId}
    (hw : ((s.next a).susp k).word = .completed) :
    (s.susp k).word = .completed ∨ k = s.nextSusp ∨ ∃ t, a = .resumeCompleted k t := by
  cases a <;> simp only [next] at hw
  case coReturn f e =>
    revert hw
    simp only [coReturn]
    split
    · split
      · simp only [finalAwaitSuspend]
        split_ifs <;> split <;> grind
      · grind
    · grind
    · grind
  case resumeCompleted h t =>
    by_cases hk : k = h
    · exact .inr (.inr ⟨t, by rw [hk]⟩)
    · exact .inl (by simpa [State.resumeCompleted, hk] using hw)
  all_goals
    revert hw
    grind [completionAwaitSuspend, postAwaitSuspend, completionSetValue, State.initiationThrows,
      State.dispatchEnter, State.trampolineInvoke, State.initiationReturns, State.plainResume,
      State.trampolineReturn, State.resumeAwaiting, State.finalResumeAwaiting,
      State.handlerResume, State.handlerDrop, State.destroyFrame, State.awaitResume,
      coroAwaitSuspend_susp, awaitAwaitSuspend_susp, startAwait_susp, dispatchAwaitSuspend,
      ContextState.resumeAwaiting_word, ContextState.destroy_word, Suspension.endBy]

/-- Only the end of a callee begins to hand a caller back. -/
theorem Accounts.next_final (r : Accounts s b) {a : Action V E} (h : s.Enabled a)
    (hk : ((s.next a).susp s.nextSusp).kind.isFinal = true) :
    ∃ f e g ex, a = .coReturn f e ∧ (s.frame f).caller = some g ∧
      (s.frame g).phase = .suspended ∧ ((s.next a).susp s.nextSusp).frame = f ∧
        ((s.next a).susp s.nextSusp).handle = g ∧
          ((s.next a).susp s.nextSusp).target = some ex ∧
            (s.handBack f = .dispatch ex ∨ s.handBack f = .defer ex) := by
  have hnew : s.susp s.nextSusp = {} := r.custodian.newSusp _ (Nat.le_refl _)
  cases a <;> simp only [next] at hk
  case coReturn f e =>
    cases hkind : (s.frame f).kind
    case promise =>
      obtain ⟨g, hg, -, hgp, -, hret⟩ := r.custodian.returned r.stored e h.1 hkind
      rcases hb : s.handBack f with _ | ex | ex <;> simp only [Returned, hb] at hret <;>
        obtain ⟨-, hs, -⟩ := hret
      · simp [hs, hnew, AwaitKind.isFinal] at hk
      · exact ⟨f, e, g, ex, rfl, hg, hgp, by simp [next, hs], by simp [next, hs],
          by simp [next, hs], .inl hb⟩
      · exact ⟨f, e, g, ex, rfl, hg, hgp, by simp [next, hs], by simp [next, hs],
          by simp [next, hs], .inr hb⟩
    all_goals simp [coReturn, hkind, hnew, AwaitKind.isFinal] at hk
  all_goals
    exfalso
    revert hk
    grind [completionAwaitSuspend, postAwaitSuspend, completionSetValue, State.initiationThrows,
      State.dispatchEnter, State.resumeCompleted, State.trampolineInvoke, State.initiationReturns,
      State.plainResume, State.trampolineReturn, State.resumeAwaiting, State.finalResumeAwaiting,
      State.handlerResume, State.handlerDrop, State.destroyFrame, State.awaitResume,
      coroAwaitSuspend_susp, awaitAwaitSuspend_susp, startAwait_susp, dispatchAwaitSuspend,
      AwaitKind.isFinal, dispatchContext_kind, Suspension.endBy]

/-- The awaiter of a hop is set up by the hop. -/
theorem Accounts.next_hop (r : Accounts s b) {a : Action V E} (h : s.Enabled a) {x : FrameId}
    {k : SuspId} (hx : ((s.next a).frame x).awaiter = .context k)
    (hk : ((s.next a).susp k).kind = .dispatch ∨ ((s.next a).susp k).kind = .post) :
    (s.frame x).awaiter = .context k ∨
      k = s.nextSusp ∧ ∃ ex, a = .awaitDispatch x ex ∨ a = .awaitPost x ex := by
  refine (r.next_context h hx).imp id fun ⟨hn, ho⟩ => ⟨hn, ?_⟩
  subst hn
  cases ho with
  | awaitDispatch ex => exact ⟨ex, .inl rfl⟩
  | awaitPost ex => exact ⟨ex, .inr rfl⟩
  | awaitDeferred => simp [next, completionAwaitSuspend] at hk
  | awaitTimer => simp [next, completionAwaitSuspend] at hk
  | awaitAwait c => simp [next] at hk
  | coReturn e =>
      -- the end of a callee hands its caller back, which is no hop
      rcases next_susp h s.nextSusp with he | he | ⟨-, he⟩
      · simp [he, r.custodian.newSusp _ (Nat.le_refl _)] at hk
      · simp [he.names.1, r.custodian.newSusp _ (Nat.le_refl _)] at hk
      · cases hkind : (s.frame x).kind
        case promise =>
          obtain ⟨g, -, -, -, -, hret⟩ := r.custodian.returned r.stored e h.1 hkind
          rcases hb : s.handBack x with _ | ex | ex <;> simp only [Returned, hb] at hret <;>
            obtain ⟨-, hs, -⟩ := hret <;>
            simp [next, hs, r.custodian.newSusp _ (Nat.le_refl _)] at hk
        all_goals simp [next, coReturn, hkind, r.custodian.newSusp _ (Nat.le_refl _)] at hk

/-- The handler of `k`, or the awaiting side because of it, resumes a coroutine at `t`. -/
def State.ResumesAt (s : State V E) (k : SuspId) (t : Site) : Prop :=
  (s.susp k).HandlerAt t ∨ s.AwaiterAt k t ∧ (s.susp k).word = .completed

/-- A frame goes on because of its own suspension, or because the callee it awaits is over. -/
theorem Wakes.cases (r : Accounts s b) {a : Action V E} {f : FrameId} {t : Site}
    (h : Wakes s f t a) :
    (∃ k, (s.frame f).awaiter = .context k ∧ ((s.susp k).kind.isQueued = true → s.ResumesAt k t)) ∨
      (∃ k, (s.susp k).handle = f ∧ (s.susp k).isOpen = true ∧ (s.susp k).kind.isFinal = true ∧
        (s.frame f).awaiter.callee = some (s.susp k).frame ∧ s.ResumesAt k t) ∨
      ∃ c e, a = .coReturn c e ∧ s.inBody c = true ∧ (s.frame c).caller = some f ∧
        (s.frame f).awaiter.callee = some c ∧ s.handBack c = .direct ∧
          (s.frame c).phase = .running t := by
  -- a handler that is not over leads to a frame that waits for it
  have hopen : ∀ k, (s.susp k).handle = f → (s.susp k).isOpen = true →
      (s.susp k).kind ≠ .callback → s.ResumesAt k t →
      (∃ k, (s.frame f).awaiter = .context k ∧
          ((s.susp k).kind.isQueued = true → s.ResumesAt k t)) ∨
        ∃ k, (s.susp k).handle = f ∧ (s.susp k).isOpen = true ∧ (s.susp k).kind.isFinal = true ∧
          (s.frame f).awaiter.callee = some (s.susp k).frame ∧ s.ResumesAt k t := by
    intro k hf ho hcb hres
    have hl := (r.custodian.leased f k).mpr ⟨hf, ho, hcb⟩
    rcases r.custodian.lease_awaiter hl with ⟨-, ha⟩ | ⟨hfin, ha⟩
    · exact .inl ⟨k, ha, fun _ => hres⟩
    · exact .inr ⟨k, hf, ho, hfin, ha, hres⟩
  cases h with
  | @eager k hp ha hside hw =>
      have hfr := (r.custodian.context f k ha).2
      exact .inl ⟨k, ha, fun _ => .inr ⟨⟨hside, by rw [hfr, hp]; rfl⟩, hw⟩⟩
  | @threw k e hp ha hside =>
      refine .inl ⟨k, ha, fun hq => ?_⟩
      have := (r.sound k).initiating ⟨_, hside⟩
      revert hq this
      cases (s.susp k).kind <;> simp [AwaitKind.isQueued, AwaitKind.isCompletion]
  | @handBack c k hp ha hf hside hw =>
      have ho : (s.susp k).isOpen = true := by simp [Suspension.isOpen, hside]
      have hcb : (s.susp k).kind ≠ .callback := fun hk => hside ((r.sound k).callback hk).1
      have hfr := (r.custodian.context c k ha).2
      exact (hopen k hf ho hcb (.inr ⟨⟨hside, by rw [hfr, hp]; rfl⟩, hw⟩)).imp id .inl
  | @plain k ex hf hst hk ht he =>
      have hcb : (s.susp k).kind ≠ .callback := by rcases hk with hk | hk <;> simp [hk]
      exact (hopen k hf (by simp [Suspension.isOpen, hst]) hcb
        (.inl (.inl ⟨hst, ex, ht, he⟩))).imp id .inl
  | @handler k hf hst =>
      have hcb : (s.susp k).kind ≠ .callback := by
        have := (r.sound k).invoked ⟨t, .inr hst⟩
        intro hk
        simp [hk, AwaitKind.hasContext] at this
      exact (hopen k hf (by simp [Suspension.isOpen, hst]) hcb (.inl (.inr (.inr hst)))).imp id .inl
  | @direct c e hp hk hg hb =>
      have hbody : s.inBody c = true := by simp [inBody, hp, hk, Phase.isRunning]
      have ho := (r.custodian.owned f c).mpr hg
      have hf := r.custodian.fits f
      rw [ho] at hf
      exact .inr (.inr ⟨c, e, rfl, hbody, hg, hf.2.2, hb, hp⟩)

/-! ## Along runs -/

namespace Affine

/-- A suspension that existed before keeps the executor it was queued on. -/
theorem target_eq {a : Action V E} (h : s.Enabled a) {k : SuspId} (hk : k < s.nextSusp) :
    ((s.next a).susp k).target = (s.susp k).target ∧
      ((s.next a).susp k).kind = (s.susp k).kind ∧
        ((s.next a).susp k).handle = (s.susp k).handle := by
  rcases next_susp h k with he | he | ⟨he, -⟩
  · simp [he]
  · exact ⟨he.target, he.names.1, he.names.2.2.1⟩
  · exact absurd he (Nat.ne_of_lt hk)

theorem resumesAt_inside (i : Affine s) {k : SuspId} {t : Site}
    (hk : (s.susp k).kind.isQueued = true) (h : s.ResumesAt k t) : (s.susp k).Inside t :=
  h.elim (i.handler k t hk) fun h => i.awaiter k t hk h.1 h.2

theorem hop_step (i : Affine s) (r : Accounts s b) {a : Action V E} (h : s.Enabled a)
    {f : FrameId} {k : SuspId} (hf : ((s.next a).frame f).awaiter = .context k)
    (hk : ((s.next a).susp k).kind = .dispatch ∨ ((s.next a).susp k).kind = .post) :
    ((s.next a).susp k).target = ((s.next a).frame f).executor ∧
      ((s.next a).frame f).executor ≠ none := by
  rcases r.next_hop h hf hk with ha | ⟨rfl, ex, hop⟩
  · have hlt := (r.custodian.context f k ha).1
    obtain ⟨ht, hkind, -⟩ := target_eq h hlt
    have hbody : s.inBody f = false := by
      by_contra hb
      simp [(r.custodian.of_inBody (by simpa using hb)).2.1] at ha
    have hne : f ≠ s.nextFrame := by
      rintro rfl
      simp [r.custodian.unborn_frame (Nat.le_refl _)] at ha
    rw [ht, (r.executor_eq h hne hbody).1]
    exact i.hop f k ha (hkind ▸ hk)
  · rcases hop with rfl | rfl <;>
      simp [next, dispatchAwaitSuspend, postAwaitSuspend, Frame.setExecutor]

theorem back_step (i : Affine s) (r : Accounts s b) (n : Inherits s) {a : Action V E}
    (h : s.Enabled a) {k : SuspId} (ho : ((s.next a).susp k).isOpen = true)
    (hk : ((s.next a).susp k).kind.isFinal = true) (ex : Executor)
    (hex : (s.next a).getExecutor ((s.next a).susp k).handle = some ex) :
    ((s.next a).susp k).target = some ex := by
  have hold : (s.susp k).isOpen = true → (s.susp k).kind.isFinal = true →
      ((s.next a).susp k).handle = (s.susp k).handle → (s.susp k).target = some ex := by
    intro ho hk hh
    have hcb : (s.susp k).kind ≠ .callback := by rintro he; simp [he, AwaitKind.isFinal] at hk
    have hp := (r.custodian.final _ k (r.custodian.leased_of_open ho hcb) hk).2.1
    rw [hh, r.getExecutor_eq n h (.inl hp)] at hex
    exact i.back k ho hk ex hex
  rcases next_susp h k with he | he | ⟨rfl, -⟩
  · rw [he] at ho hk ⊢
    exact hold ho hk (by rw [he])
  · rw [he.target]
    exact hold (he.opened ho) (he.names.1 ▸ hk) he.names.2.2.1
  · -- a callee ends
    obtain ⟨f, e, g, ex', rfl, hg, hgp, -, hh, ht, hb⟩ := r.next_final h hk
    rw [hh, r.getExecutor_eq n h (.inl hgp)] at hex
    have heq := r.handBack_eq n h.1 hg
    rw [hex] at heq
    rw [ht]
    rcases hown : (s.frame f).executor with _ | own <;> rw [hown] at heq <;> dsimp only at heq
    · rcases hb with hb | hb <;> simp [hb] at heq
    · split at heq <;> rcases hb with hb | hb <;> simp_all

theorem awaiter_step (i : Affine s) (r : Accounts s b) {a : Action V E} (h : s.Enabled a)
    (hh : ¬ Hasty s a) {k : SuspId} {t : Site}
    (hk : ((s.next a).susp k).kind.isQueued = true) (ht : (s.next a).AwaiterAt k t)
    (hw : ((s.next a).susp k).word = .completed) : ((s.next a).susp k).Inside t := by
  by_cases hlt : k < s.nextSusp
  · obtain ⟨htarget, hkind, -⟩ := target_eq h hlt
    have hs := r.awaiterAt_step h hlt ht
    rw [hkind] at hk
    rcases next_word hw with hold | rfl | ⟨t', rfl⟩
    · intro ex hex
      exact i.awaiter k t hk hs hold ex (htarget ▸ hex)
    · exact absurd hlt (Nat.lt_irrefl _)
    · -- no handler is run while the awaiting side is still to come
      exfalso
      have hstage : (s.susp k).stage = .invoked t' := h
      have hctx := (r.sound k).invoked ⟨t', .inl hstage⟩
      refine hh ⟨?_, ?_⟩
      · revert hk hctx
        cases (s.susp k).kind <;> simp [AwaitKind.isQueued, AwaitKind.hasContext]
      · have hside := hs.1
        cases (r.sound k).stands_of_side hside with
        | racing _ _ hi => exact hi
        | _ => simp_all
  · obtain rfl : k = s.nextSusp := by
      rcases next_susp h k with he | he | ⟨he, -⟩
      · exact absurd (by rw [he, r.custodian.newSusp k (Nat.le_of_not_lt hlt)]) ht.1
      · have := he.side ht.1
        exact absurd (by rw [r.custodian.newSusp k (Nat.le_of_not_lt hlt)]) this
      · exact he
    rw [ht.2]
    exact r.inline h hw

theorem hopped_step (i : Affine s) (r : Accounts s b) {a : Action V E} (h : s.Enabled a)
    {f : FrameId} {k : SuspId} {t : Site} (hp : ((s.next a).frame f).phase = .resuming t)
    (hf : ((s.next a).frame f).awaiter = .context k)
    (hk : ((s.next a).susp k).kind = .dispatch ∨ ((s.next a).susp k).kind = .post) :
    ((s.next a).susp k).Inside t := by
  obtain ⟨haw, hw⟩ := r.resumed h hp
  rw [haw] at hf
  obtain ⟨htarget, hkind, -⟩ := target_eq h (r.custodian.context f k hf).1
  rw [hkind] at hk
  intro ex hex
  rw [htarget] at hex
  rcases hw with hold | hw
  · exact i.hopped f k t hold hf hk ex hex
  rcases hw.cases r with ⟨j, hj, hres⟩ | ⟨j, -, -, -, hj, -⟩ | ⟨c, -, -, -, -, hj, -⟩
  · obtain rfl : k = j := by simpa [hf] using hj
    have hq : (s.susp k).kind.isQueued = true := by
      rcases hk with hk | hk <;> simp [hk, AwaitKind.isQueued]
    exact i.resumesAt_inside hq (hres hq) ex hex
  · simp [hf, Awaiter.callee] at hj
  · simp [hf, Awaiter.callee] at hj

theorem returned_step (i : Affine s) (r : Accounts s b) (n : Inherits s) {a : Action V E}
    (h : s.Enabled a) {g c : FrameId} {t : Site} (hp : ((s.next a).frame g).phase = .resuming t)
    (hg : ((s.next a).frame g).awaiter = .coro c) (hc : ((s.next a).frame c).executor ≠ none)
    (ex : Executor) (hex : (s.next a).getExecutor g = some ex) : ex ∈ t := by
  obtain ⟨haw, hw⟩ := r.resumed h hp
  rw [haw] at hg
  have hcallee : (s.frame g).awaiter.callee = some c := by rw [hg]; rfl
  have hsus : (s.frame g).phase = .suspended ∨ ∃ t, (s.frame g).phase = .resuming t := by
    rcases hw with hp | hw
    · exact .inr ⟨t, hp⟩
    · rcases r.suspended_of_wakes hw with hs | ⟨t', hs⟩
      · exact .inl hs
      · -- a frame inside its own `await_suspend` awaits no callee
        obtain ⟨k, hk⟩ := r.custodian.leased_of_suspending (f := g)
          (by simp [hs, Phase.isSuspending])
        rcases r.custodian.lease_awaiter hk with ⟨-, ha⟩ | ⟨hfin, -⟩
        · simp [hg] at ha
        · simp [(r.custodian.final g k hk hfin).2.1] at hs
  rw [r.getExecutor_eq n h hsus] at hex
  have hgp : (s.frame g).phase ≠ .destroying := by rcases hsus with hs | ⟨t, hs⟩ <;> simp [hs]
  obtain ⟨-, hcu, -, -, -⟩ := r.of_callee hcallee hgp
  have hcn : c ≠ s.nextFrame := Nat.ne_of_lt (r.custodian.lt_of_started hcu)
  have hexec : s.inBody c = false → (s.frame c).executor ≠ none := by
    intro hb
    rwa [(r.executor_eq h hcn hb).1] at hc
  rcases hw with hold | hw
  · have hact := r.custodian.active_of_running (f := g) (.inr (by simp [hold, Phase.isResuming]))
    have hspent := r.custodian.reaps g c hact hcallee
    have hb : s.inBody c = false := by
      by_contra hb
      simp [(r.custodian.of_inBody (by simpa using hb)).1] at hspent
    exact i.returned g c t hold hg (hexec hb) ex hex
  rcases hw.cases r with ⟨j, hj, -⟩ | ⟨j, rfl, ho, hfin, hj, hres⟩ |
    ⟨c', e, rfl, hb, hcg, hj, hd, -⟩
  · simp [hg] at hj
  · have hq : (s.susp j).kind.isQueued = true := by
      revert hfin
      cases (s.susp j).kind <;> simp [AwaitKind.isQueued, AwaitKind.isFinal]
    exact i.resumesAt_inside hq hres ex (i.back j ho hfin ex hex)
  · -- handed back at once: one of the two has no executor
    obtain rfl : c = c' := by simpa [hcallee] using hj
    exfalso
    have hown : (s.frame c).executor ≠ none := by
      rcases next_retains (a := .coReturn c e) hcn with hr | ⟨ex, ha, -⟩ | ⟨f, ha⟩
      · rwa [hr.executor] at hc
      · simp at ha
      · simp at ha
    have heq := r.handBack_eq n hb hcg
    rw [hd, hex] at heq
    obtain ⟨own, hown⟩ := Option.ne_none_iff_exists'.mp hown
    rw [hown] at heq
    dsimp only at heq
    split at heq <;> simp at heq

theorem step (i : Affine s) (r : Accounts s b) (n : Inherits s) {a : Action V E}
    (h : s.Enabled a) (hh : ¬ Hasty s a) : Affine (s.next a) where
  hop _ _ := i.hop_step r h
  back _ := i.back_step r n h
  handler k t hk ht := by
    rcases next_susp h k with he | he | ⟨-, he⟩
    · rw [he] at hk ht ⊢
      exact i.handler k t hk ht
    · intro ex hex
      rw [he.names.1] at hk
      exact i.handler k t hk (he.handlerAt (r.sound k) hk ht) ex (he.target ▸ hex)
    · exact he.handlerAt hk ht
  awaiter _ _ := i.awaiter_step r h hh
  hopped _ _ _ := i.hopped_step r h
  returned _ _ _ := i.returned_step r n h

end Affine

namespace State

/-- The code that follows `co_await` on `dispatch`, `post` or `defer` runs inside the executor that
    was passed, which is the one the frame adopted last. -/
def HopsInside (s : State V E) : Prop :=
  ∀ f k t, (s.frame f).phase = .resuming t → (s.frame f).awaiter = .context k →
    (s.susp k).kind = .dispatch ∨ (s.susp k).kind = .post →
    ∃ ex, (s.susp k).target = some ex ∧ (s.frame f).executor = some ex ∧ ex ∈ t ∧
      ((s.next (.awaitResume f)).frame f).phase = .running t

/-- When a callee that adopted an executor is over, its caller continues inside the executor that
    the caller has, if it has one. -/
def ReturnsInside (s : State V E) : Prop :=
  ∀ g c t, (s.frame g).phase = .resuming t → (s.frame g).awaiter = .coro c →
    (s.frame c).executor ≠ none → ∀ ex, s.getExecutor g = some ex →
      ex ∈ t ∧ ((s.next (.awaitResume g)).frame g).phase = .running t

/-- `await_resume` stays at the site of the thread that resumed the frame. -/
theorem awaitResume_phase {f : FrameId} {t : Site} (h : (s.frame f).phase = .resuming t) :
    ((s.next (.awaitResume f)).frame f).phase = .running t := by
  cases haw : (s.frame f).awaiter with
  | coro c =>
      by_cases hc : f = c <;>
        simp_all [next, State.awaitResume, destroyHandle_frame, Phase.afterDestroy, Phase.site]
  | _ => simp [next, State.awaitResume, haw, h, Phase.site]

end State

/-- **Executor affinity.** In every run in which no handler of a hop or of a `final_awaitable` is
    run by another thread before the hopping side made its exchange, the code after every hop runs
    inside the executor hopped to, and a caller with an executor continues inside that executor
    when a callee that adopted one is over. -/
theorem executor_affinity {s : State V E} {as : List (Action V E)}
    (hr : Transition.Run runtime State.init as s)
    (ha : Transition.Along runtime (fun s a => ¬ Hasty s a) State.init as) :
    s.HopsInside ∧ s.ReturnsInside := by
  have i : Affine s := by
    suffices H : ∀ u bs v, Transition.Run runtime u bs v → Reachable u →
        Transition.Along runtime (fun s a => ¬ Hasty s a) u bs → Affine u → Affine v from
      H _ as s hr (Transition.Reachable.refl _) ha Affine.init
    intro u bs v hbs
    induction hbs with
    | nil => exact fun _ _ i => i
    | cons hstep _ ih =>
        intro hu hbs i
        obtain ⟨b, r⟩ := hu.accounts
        exact ih (hu.step hstep) hbs.2 (i.step r hu.inherits hstep hbs.1)
  refine ⟨fun f k t hp hf hk => ?_, fun g c t hp hg hc ex hex => ?_⟩
  · obtain ⟨htarget, hsome⟩ := i.hop f k hf hk
    obtain ⟨ex, hex⟩ := Option.ne_none_iff_exists'.mp hsome
    rw [hex] at htarget
    exact ⟨ex, htarget, hex, i.hopped f k t hp hf hk ex htarget, awaitResume_phase hp⟩
  · exact ⟨i.returned g c t hp hg hc ex hex, awaitResume_phase hp⟩

/-- A coroutine hops and awaits a promise that hops as well; every thread takes its time. -/
def patientHops : List (Action Unit Unit) :=
  [.detach [] none false, .awaitDispatch 0 ⟨.context 1, false⟩, .resumeAwaiting 0 0,
    .dispatchEnter 0 (.context 1), .resumeCompleted 0 [.context 1],
    .handlerResume 0 [.context 1], .awaitResume 0, .create none, .awaitPromise 0 1,
    .awaitPost 1 ⟨.context 2, false⟩, .plainResume 1 (.context 2), .awaitResume 1,
    .coReturn 1 (.returned () none), .finalResumeAwaiting 1 2, .dispatchEnter 2 (.context 1),
    .resumeCompleted 2 [.context 1], .handlerResume 2 [.context 1]]

theorem executor_affinity_patient :
    (State.after patientHops).HopsInside ∧ (State.after patientHops).ReturnsInside :=
  executor_affinity (.of_legal (by decide)) (by decide)

/-- Another thread of the executor runs the handler before the hopping thread has made its
    exchange. -/
def hastyHop : List (Action Unit Unit) :=
  [.detach [] none false, .awaitDispatch 0 ⟨.context 1, false⟩, .dispatchEnter 0 (.context 1),
    .resumeCompleted 0 [.context 1], .resumeAwaiting 0 0]

/-- The hopping thread, which is inside no executor, goes on with the code after the hop. -/
theorem hop_misplaced :
    Transition.Run runtime State.init hastyHop (State.after hastyHop) ∧
      ((State.after hastyHop).frame 0).phase = .resuming [] ∧
      ((State.after hastyHop).frame 0).executor = some (.context 1) ∧
      ¬ ((State.after hastyHop).HopsInside ∧ (State.after hastyHop).ReturnsInside) := by
  refine ⟨.of_legal (by decide), by decide, by decide, fun h => ?_⟩
  obtain ⟨ex, -, -, hm, -⟩ := h.1 0 0 [] (by decide) (by decide) (by decide)
  simp at hm

end WebAsio.Coro
