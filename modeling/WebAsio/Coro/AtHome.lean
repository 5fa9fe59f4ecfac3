import WebAsio.Coro.Affinity
import WebAsio.Coro.AwaitExecutor
import WebAsio.Coro.Undisturbed

set_option autoImplicit false

/-! # Coroutines stay in their executors

Where the body of a coroutine is executed, across everything that can suspend it. A hop leads to
its executor and a callee hands its caller back there; an operation completes in the executor that
is associated with its handler, which is the one of the coroutine that waits. So a coroutine that is
inside its executor stays inside, and those it calls are inside, too. -/

namespace WebAsio.Coro

open Custody State

variable {V E : Type} {s : State V E} {b : Book FrameId SuspId}

/-- `completion_handler::executor`: what `associated_executor` gives for the handler, unless it is
    empty. Then the object that the operation belongs to decides. -/
def State.associatedExecutor (s : State V E) (k : SuspId) : Option Executor :=
  s.getExecutor (s.susp k).frame

/-- A completion handler is invoked outside the executor that is associated with it. -/
def Strays (s : State V E) : Action V E → Prop
  | .setValue k t _ => ∃ ex ∈ s.associatedExecutor k, ex ∉ t
  | .trampolineInvoke x _ k => ∃ ex ∈ s.associatedExecutor k, ex ∉ (s.frame x).phase.site
  | _ => False

instance (s : State V E) (a : Action V E) : Decidable (Strays s a) :=
  match a with
  | .setValue k t _ => inferInstanceAs (Decidable (∃ ex ∈ s.associatedExecutor k, ex ∉ t))
  | .trampolineInvoke x _ k =>
    inferInstanceAs (Decidable (∃ ex ∈ s.associatedExecutor k, ex ∉ (s.frame x).phase.site))
  | .detach .. | .startMain .. | .create .. | .discard .. | .awaitPromise .. | .awaitDeferred ..
  | .awaitTimer .. | .awaitAwait .. | .startAwait .. | .awaitDispatch .. | .awaitPost ..
  | .initiationThrows .. | .initiationReturns .. | .resumeAwaiting .. | .finalResumeAwaiting ..
  | .awaitResume .. | .resumeCompleted .. | .dispatchEnter .. | .plainResume .. | .handlerResume ..
  | .drop .. | .trampolineReturn .. | .coReturn .. | .destroy .. | .release .. | .retain ..
  | .unwind .. => .isFalse id

/-- The bootstrap enters `coro::main`, from outside its context. -/
def Action.entersMain : Action V E → Bool
  | .startMain _ => true
  | _ => false

/-- A thread at `t` executes the coroutine: its body, or the initiation of an operation. -/
def State.Executes (s : State V E) (f : FrameId) (t : Site) : Prop :=
  (s.frame f).phase = .running t ∨ (s.frame f).phase = .resuming t ∨
    (s.frame f).phase = .suspending t ∧
      ∃ k, (s.frame f).awaiter = .context k ∧ (s.susp k).kind.isCompletion = true

/-- The coroutine is executed outside its executor. -/
def State.Astray (s : State V E) (f : FrameId) : Prop :=
  ∃ t ex, s.Executes f t ∧ s.getExecutor f = some ex ∧ ex ∉ t

/-- What is on its way to a coroutine leads it into its executor. -/
structure Homing (s : State V E) : Prop where
  fresh : ∀ f, (s.frame f).phase = .initial → (s.frame f).executor = none
  completes : ∀ k t, (s.susp k).kind.isCompletion = true →
    (s.susp k).stage = .invoked t ∨ (s.susp k).stage = .claimed t →
    ∀ ex, s.getExecutor (s.susp k).frame = some ex → ex ∈ t

theorem Homing.init : Homing (State.init : State V E) := by
  constructor <;> simp [State.init, AwaitKind.isCompletion]

/-- A new coroutine has no executor, unless it is that of `coro::main`. -/
theorem State.newborn_executor {a : Action V E} (hgrow : (s.next a).nextFrame ≠ s.nextFrame)
    (hm : ∀ j, a ≠ .startMain j) : ((s.next a).frame s.nextFrame).executor = none := by
  cases a with
  | startMain j => exact absurd rfl (hm j)
  | detach t o => simp [next]
  | create o => simp [next]
  | awaitAwait f c =>
      obtain ⟨-, -, he, -⟩ := (resetCaller_retains _ c s.nextFrame s.nextFrame).trans
        (resume_retains _ c (s.frame f).phase.site s.nextFrame)
      simp only [next, awaitAwaitSuspend]
      rw [he]
      simp
  | startAwait t c =>
      obtain ⟨-, -, he, -⟩ := (resetCaller_retains _ c s.nextFrame s.nextFrame).trans
        (resume_retains _ c t s.nextFrame)
      simp only [next, State.startAwait]
      rw [he]
      simp
  | _ => exact absurd (next_nextFrame rfl) hgrow

/-! ## Handlers of operations -/

/-- The handler of an operation that has only begun was not invoked yet. -/
theorem Suspension.Begins.not_invoked {r : Suspension V E} (h : r.Begins)
    (hk : r.kind.isCompletion = true) (t : Site) : r.stage ≠ .invoked t ∧ r.stage ≠ .claimed t := by
  cases h with
  | dispatch k f g ex u hkind =>
      rcases hkind with rfl | rfl <;> simp [AwaitKind.isCompletion] at hk
  | _ => simp

/-- Where the handler of an operation is, it was invoked. -/
theorem Accounts.next_invoked (r : Accounts s b) {a : Action V E} (h : s.Enabled a) {k : SuspId}
    {t : Site} (hk : ((s.next a).susp k).kind.isCompletion = true)
    (ht : ((s.next a).susp k).stage = .invoked t ∨ ((s.next a).susp k).stage = .claimed t) :
    ((s.susp k).stage = .invoked t ∨ (s.susp k).stage = .claimed t) ∨
      (∃ v, a = .setValue k t v) ∨
        ∃ x c, a = .trampolineInvoke x c k ∧ t = (s.frame x).phase.site := by
  rcases next_susp h k with he | he | ⟨-, he⟩
  · rw [he] at ht
    exact Or.inl ht
  · rw [he.names.1] at hk
    have hn : k ≠ s.nextSusp := fun hn => by
      rw [hn, r.custodian.newSusp _ (Nat.le_refl _)] at hk
      cases hk
    cases a <;> simp only [next] at ht
    case setValue j u v =>
      by_cases hj : k = j
      · subst hj
        obtain rfl : u = t := by simpa [completionSetValue] using ht
        exact Or.inr (Or.inl ⟨v, rfl⟩)
      · exact Or.inl (by simpa [completionSetValue, hj] using ht)
    case trampolineInvoke x c j =>
      by_cases hj : k = j
      · subst hj
        have hcb : ((s.susp k).kind == .callback) = false := by
          cases hkind : (s.susp k).kind <;> simp_all [AwaitKind.isCompletion]
        obtain rfl : (s.frame x).phase.site = t := by
          simpa [State.trampolineInvoke, hcb, completionSetValue] using ht
        exact Or.inr (Or.inr ⟨x, c, rfl, rfl⟩)
      · left
        simp only [State.trampolineInvoke] at ht
        split at ht <;> simpa [completionSetValue, hj] using ht
    case coReturn f e =>
      left
      revert ht
      simp only [coReturn]
      split
      · split
        · simp only [finalAwaitSuspend]
          split_ifs <;> split <;> grind
        · grind
      · grind
      · grind
    all_goals
      left
      revert ht
      simp only [Enabled] at h
      grind [completionAwaitSuspend, postAwaitSuspend, State.initiationThrows,
        State.dispatchEnter, State.resumeCompleted, State.initiationReturns,
        State.plainResume, State.trampolineReturn, State.resumeAwaiting, State.finalResumeAwaiting,
        State.handlerResume, State.handlerDrop, State.destroyFrame, State.awaitResume,
        coroAwaitSuspend_susp, awaitAwaitSuspend_susp, startAwait_susp, dispatchAwaitSuspend,
        Suspension.endBy, AwaitKind.isCompletion]
  · obtain ⟨hi, hc⟩ := he.not_invoked hk t
    exact absurd ht (not_or.mpr ⟨hi, hc⟩)

/-- A coroutine waits for an operation that is not over. -/
theorem Accounts.of_completion (r : Accounts s b) {k : SuspId}
    (hk : (s.susp k).kind.isCompletion = true) (ho : (s.susp k).isOpen = true) :
    (s.frame (s.susp k).frame).awaiter = .context k ∧
      ((s.frame (s.susp k).frame).phase.isSuspending = true ∨
        (s.frame (s.susp k).frame).phase = .suspended) := by
  have hkind : (s.susp k).kind.isFinal = false ∧ (s.susp k).kind ≠ .callback := by
    revert hk
    cases (s.susp k).kind <;> simp [AwaitKind.isCompletion, AwaitKind.isFinal]
  have hl := r.custodian.leased_of_open ho hkind.2
  obtain ⟨hown, ha, -⟩ := r.custodian.own _ k hl hkind.1
  have hfits := r.custodian.fits (s.susp k).handle
  rw [hl] at hfits
  rw [hown]
  exact ⟨ha, hfits.2⟩

namespace Homing

theorem fresh_step (i : Homing s) (r : Accounts s b) {a : Action V E} (h : s.Enabled a)
    {f : FrameId} (hp : ((s.next a).frame f).phase = .initial) :
    ((s.next a).frame f).executor = none := by
  by_cases hn : f = s.nextFrame
  · subst hn
    rcases r.next_unborn h with he | ⟨hgrow, -⟩
    · rw [he]
    · refine newborn_executor hgrow ?_
      rintro j rfl
      simp [next] at hp
  · have hp₀ : (s.frame f).phase = .initial := by
      have hnext := r.next_phase h hn
      rw [hp] at hnext
      generalize (s.frame f).phase = q at hnext
      cases hnext
      rfl
    have hbody : s.inBody f = false := by simp [inBody, hp₀, Phase.isRunning]
    rw [(r.executor_eq h hn hbody).1]
    exact i.fresh f hp₀

theorem completes_step (i : Homing s) (r : Accounts s b) (n : Inherits s) {a : Action V E}
    (h : s.Enabled a) (ha : ¬ Strays s a) {k : SuspId} {t : Site}
    (hk : ((s.next a).susp k).kind.isCompletion = true)
    (ht : ((s.next a).susp k).stage = .invoked t ∨ ((s.next a).susp k).stage = .claimed t)
    {ex : Executor} (hex : (s.next a).getExecutor ((s.next a).susp k).frame = some ex) :
    ex ∈ t := by
  have hsusp : (s.susp k).kind.isCompletion = true ∧ (s.susp k).isOpen = true ∧
      ((s.next a).susp k).frame = (s.susp k).frame := by
    have ho : ((s.next a).susp k).isOpen = true := by
      rcases ht with ht | ht <;> simp [Suspension.isOpen, ht]
    rcases next_susp h k with he | he | ⟨-, he⟩
    · rw [he] at hk ho ⊢
      exact ⟨hk, ho, rfl⟩
    · exact ⟨he.names.1 ▸ hk, he.opened ho, he.names.2.1⟩
    · obtain ⟨hi, hc⟩ := he.not_invoked hk t
      exact absurd ht (not_or.mpr ⟨hi, hc⟩)
  obtain ⟨hk₀, ho, hframe⟩ := hsusp
  -- the coroutine waits, so that its executor stays as it is
  obtain ⟨hf, hp⟩ := r.of_completion hk₀ ho
  rw [hframe, r.getExecutor_away n h (hp.imp id Or.inl)] at hex
  rcases r.next_invoked h hk ht with ht | ⟨v, rfl⟩ | ⟨x, c, rfl, rfl⟩
  · exact i.completes k t hk₀ ht ex hex
  · by_contra hin
    exact ha ⟨ex, hex, hin⟩
  · by_contra hin
    exact ha ⟨ex, hex, hin⟩

theorem step (i : Homing s) (r : Accounts s b) (n : Inherits s) {a : Action V E}
    (h : s.Enabled a) (ha : ¬ Strays s a) : Homing (s.next a) :=
  ⟨fun _ => i.fresh_step r h, fun _ _ hk ht _ => i.completes_step r n h ha hk ht⟩

end Homing

/-! ## Where a body is executed -/

namespace Accounts

/-- A body changes its executor by hops only. -/
theorem getExecutor_stays (r : Accounts s b) (n : Inherits s) {a : Action V E} (h : s.Enabled a)
    {g : FrameId} (hg : (s.frame g).phase.isRunning = true)
    (hretains : (s.frame g).Retains ((s.next a).frame g)) :
    (s.next a).getExecutor g = s.getExecutor g := by
  have hlt : g < s.nextFrame := r.lt_of_born fun hu => by simp [hu, Phase.isRunning] at hg
  obtain ⟨l, hl⟩ := n.exists_chain r g hlt (by
    obtain ⟨t, ht⟩ := Phase.isRunning_iff.mp hg
    simp [ht, Phase.isFinalizing])
  have hmem := (n.of_chain hl g (by simp)).2.2
  rw [getExecutor, getExecutor, Inherits.executorRef_eq hretains]
  rcases List.mem_cons.mp hmem with he | hm
  · rw [he, hretains.executor]
  · -- it is the one of an ancestor, which waits
    have hbody : s.inBody (s.executorRef g) = false := by
      by_contra hb
      have hawaits := hl.awaits _ hm
      rw [(r.custodian.of_inBody (by simpa using hb)).2.1] at hawaits
      exact hawaits rfl
    have hne : s.executorRef g ≠ s.nextFrame := fun he => by
      have hborn := (n.alive_of_chain r hl _ hmem).1
      rw [he, r.custodian.unborn_frame (Nat.le_refl _)] at hborn
      exact hborn rfl
    rw [(r.executor_eq h hne hbody).1]

end Accounts

section Step

variable {a : Action V E} {f : FrameId} {t : Site} {ex : Executor}

/-- A hop leads into the executor of the coroutine. -/
theorem Affine.of_hop (i : Affine s) {k : SuspId} (ha : (s.frame f).awaiter = .context k)
    (hk : (s.susp k).kind = .dispatch ∨ (s.susp k).kind = .post)
    (hex : s.getExecutor f = some ex) (hin : (s.susp k).Inside t) : ex ∈ t := by
  obtain ⟨htarget, hsome⟩ := i.hop f k ha hk
  refine hin ex ?_
  rw [htarget, ← hex, getExecutor, executorRef, if_pos (Option.isSome_iff_ne_none.mpr hsome)]

/-- A coroutine that goes on is inside its executor. -/
theorem Homing.resuming_step (m : Homing s) (r : Accounts s b) (n : Inherits s) (i : Affine s)
    (h : s.Enabled a) (hs : ∀ f, ¬ s.Astray f) (hp : ((s.next a).frame f).phase = .resuming t)
    (hex : (s.next a).getExecutor f = some ex) : ex ∈ t := by
  by_contra hin
  obtain ⟨-, hold | hw⟩ := r.resumed h hp
  · rw [r.getExecutor_eq n h (Or.inr ⟨t, hold⟩)] at hex
    exact hs f ⟨t, ex, Or.inr (Or.inl hold), hex, hin⟩
  have hsus := r.suspended_of_wakes hw
  rw [r.getExecutor_away n h (hsus.symm.imp Phase.isSuspending_iff.mpr Or.inl)] at hex
  rcases hw.cases r with ⟨k, ha, hres⟩ | ⟨k, rfl, ho, hfin, -, hres⟩ |
    ⟨c, e, rfl, hb, hcaller, hcallee, hdirect, hpc⟩
  · obtain ⟨hl, hfin, hcb⟩ := r.of_own_context hsus ha
    by_cases hk : (s.susp k).kind.isCompletion = true
    · rcases r.of_wakes_completion hw ha hk with hold | hclaimed
      · exact hs f ⟨t, ex, Or.inr (Or.inr ⟨hold, k, ha, hk⟩), hex, hin⟩
      · rw [← (r.custodian.context f k ha).2] at hex
        exact hin (m.completes k t hk (Or.inr hclaimed) ex hex)
    · have hkind : (s.susp k).kind = .dispatch ∨ (s.susp k).kind = .post := by
        revert hfin hcb hk
        cases (s.susp k).kind <;> simp [AwaitKind.isFinal, AwaitKind.isCompletion]
      have hq : (s.susp k).kind.isQueued = true := by
        rcases hkind with h | h <;> simp [h, AwaitKind.isQueued]
      exact hin (i.of_hop ha hkind hex (i.resumesAt_inside hq (hres hq)))
  · have hq : (s.susp k).kind.isQueued = true := by
      revert hfin
      cases (s.susp k).kind <;> simp [AwaitKind.isQueued, AwaitKind.isFinal]
    exact hin (i.resumesAt_inside hq hres ex (i.back k ho hfin ex hex))
  · -- a callee that hands back at once adopted no executor, and was in that of its caller
    have heq := r.handBack_eq n hb hcaller
    rw [hdirect, hex] at heq
    cases hown : (s.frame c).executor with
    | none =>
        have hget := n.getExecutor_call (n.link f c hcallee (by
          rcases hsus with hsus | ⟨u, hsus⟩ <;> simp [hsus]))
        rw [ownExecutor, ← (n.adopts c).executor, hown, hex, Option.none_or] at hget
        exact hs c ⟨t, ex, Or.inl hpc, hget, hin⟩
    | some own =>
        rw [hown] at heq
        dsimp only at heq
        split at heq <;> simp at heq

/-- A coroutine that is started is where the one is that calls it. -/
theorem Homing.started_step (m : Homing s) (r : Accounts s b) (n : Inherits s)
    (h : s.Enabled a) (hs : ∀ f, ¬ s.Astray f) (hi : (s.frame f).phase = .initial)
    (hp : ((s.next a).frame f).phase = .running t)
    (hex : (s.next a).getExecutor f = some ex) : ex ∈ t := by
  have hnone := m.fresh f hi
  have hlt : f < s.nextFrame := r.lt_of_born (by simp [hi])
  have hself := n.root f hlt (Or.inr hi)
  have htaken : a.taken = some f := by
    by_contra htaken
    rw [r.next_initial h htaken hi] at hp
    cases hp
  cases a <;> simp only [Action.taken, reduceCtorEq, Option.some.injEq] at htaken <;> subst htaken
  case awaitPromise g c =>
    obtain ⟨hcp, hcc, hne⟩ := r.custodian.of_call h
    obtain ⟨-, -, -, u, hu⟩ := r.custodian.of_inBody h.1
    have hframe := s.coroAwaitSuspend_frame hcp hcc hne
    obtain rfl : u = t := by simpa [next, hframe, hu, Phase.site] using hp
    have hexecutor : ∀ x, ((s.coroAwaitSuspend g c).frame x).executor = (s.frame x).executor := by
      intro x
      rw [hframe]
      by_cases hc : x = c
      · rw [if_pos hc, hc]
      · rw [if_neg hc]
        by_cases hg : x = g
        · rw [if_pos hg, hg]
        · rw [if_neg hg]
    have href : (s.coroAwaitSuspend g c).executorRef c =
        if (s.getExecutor g).isSome then s.executorRef g else c := by
      rw [executorRef, hexecutor, hnone, hframe c, if_pos rfl, hself]
      rfl
    have hget : s.getExecutor g = some ex := by
      rw [next, getExecutor, hexecutor, href] at hex
      by_cases hg : (s.getExecutor g).isSome = true
      · rwa [if_pos hg] at hex
      · rw [if_neg hg, hnone] at hex
        cases hex
    by_contra hin
    exact hs g ⟨u, ex, Or.inl hu, hget, hin⟩
  case awaitAwait g c =>
    obtain ⟨hcp, hcc, hne, hcn⟩ := r.custodian.of_callAwait h
    simp [next, getExecutor, executorRef, s.awaitAwaitSuspend_frame hcp hcc hne hcn, hnone,
      hself] at hex
  case startAwait u c =>
    obtain ⟨hcp, hcc, hcn⟩ := r.custodian.of_startAwait h
    simp [next, getExecutor, executorRef, s.startAwait_frame hcp hcc hcn, hnone, hself] at hex
  case discard c =>
    simp [next, destroyHandle_frame, hi, Phase.afterDestroy] at hp

theorem Homing.running_step (m : Homing s) (r : Accounts s b) (n : Inherits s)
    (h : s.Enabled a) (hm : ∀ j, a ≠ .startMain j) (hs : ∀ f, ¬ s.Astray f)
    (hp : ((s.next a).frame f).phase = .running t)
    (hex : (s.next a).getExecutor f = some ex) : ex ∈ t := by
  by_cases hn : f = s.nextFrame
  · -- a frame that is only now made
    subst hn
    rcases r.next_unborn h with he | ⟨hgrow, hborn⟩
    · rw [he] at hp
      cases hp
    · have hnone := newborn_executor hgrow hm
      simp [getExecutor, executorRef, hnone, hborn.callerExecutor] at hex
  have hnext := r.next_phase h hn
  rw [hp] at hnext
  by_contra hin
  generalize hq : (s.frame f).phase = q at hnext
  cases hnext with
  | same =>
      have hretains : (s.frame f).Retains ((s.next a).frame f) := by
        rcases next_retains (a := a) hn with hr | ⟨ex', ha, -⟩ | ⟨g, rfl⟩
        · exact hr
        · rcases ha with rfl | rfl
          · simp [next, dispatchAwaitSuspend] at hp
          · simp [next, postAwaitSuspend] at hp
        · rw [(r.custodian.of_call h).1] at hq
          cases hq
      rw [r.getExecutor_stays n h (by simp [hq, Phase.isRunning]) hretains] at hex
      exact hs f ⟨t, ex, Or.inl hq, hex, hin⟩
  | start => exact hin (m.started_step r n h hs hq hp hex)
  | resume =>
      rw [r.getExecutor_eq n h (Or.inr ⟨t, hq⟩)] at hex
      exact hs f ⟨t, ex, Or.inr (Or.inl hq), hex, hin⟩

/-- A coroutine begins an operation where its body is. -/
theorem Accounts.suspending_step (r : Accounts s b) (n : Inherits s) (h : s.Enabled a)
    (hs : ∀ f, ¬ s.Astray f) (hp : ((s.next a).frame f).phase = .suspending t) {k : SuspId}
    (ha : ((s.next a).frame f).awaiter = .context k)
    (hk : ((s.next a).susp k).kind.isCompletion = true)
    (hex : (s.next a).getExecutor f = some ex) : ex ∈ t := by
  have hn : f ≠ s.nextFrame := by
    rintro rfl
    rcases r.next_unborn h with he | ⟨-, hborn⟩
    · rw [he] at hp
      cases hp
    · exact hborn.awaiter k ha
  have hnext := r.next_phase h hn
  rw [hp] at hnext
  by_contra hin
  generalize hq : (s.frame f).phase = q at hnext
  cases hnext with
  | same =>
      rw [r.getExecutor_away n h (Or.inl (by simp [hq, Phase.isSuspending]))] at hex
      rcases r.next_context h ha with ha | ⟨-, hopens⟩
      · have hkind : ((s.next a).susp k).kind = (s.susp k).kind :=
          (Affine.target_eq h (r.custodian.context f k ha).1).2.1
        exact hs f ⟨t, ex, Or.inr (Or.inr ⟨hq, k, ha, hkind ▸ hk⟩), hex, hin⟩
      · have hbody : s.inBody f = true := by
          cases hopens <;> first | exact h | exact h.1
        simp [inBody, hq, Phase.isRunning] at hbody
  | await =>
      have hretains : (s.frame f).Retains ((s.next a).frame f) := by
        rcases next_retains (a := a) hn with hr | ⟨ex', hop, -⟩ | ⟨g, rfl⟩
        · exact hr
        · rcases hop with rfl | rfl
          · obtain rfl : s.nextSusp = k := by simpa [next, dispatchAwaitSuspend] using ha
            simp [next, dispatchAwaitSuspend, AwaitKind.isCompletion] at hk
          · simp [next, postAwaitSuspend] at hp
        · rw [(r.custodian.of_call h).1] at hq
          cases hq
      rw [r.getExecutor_stays n h (by simp [hq, Phase.isRunning]) hretains] at hex
      exact hs f ⟨t, ex, Or.inl hq, hex, hin⟩

theorem Homing.astray_step (m : Homing s) (r : Accounts s b) (n : Inherits s) (i : Affine s)
    (h : s.Enabled a) (hm : ∀ j, a ≠ .startMain j) (hs : ∀ f, ¬ s.Astray f) (f : FrameId) :
    ¬ (s.next a).Astray f := by
  rintro ⟨t, ex, hp | hp | ⟨hp, k, ha, hk⟩, hex, hin⟩
  · exact hin (m.running_step r n h hm hs hp hex)
  · exact hin (m.resuming_step r n i h hs hp hex)
  · exact hin (r.suspending_step n h hs hp ha hk hex)

end Step

/-- What every run keeps whose handlers are where they should be. -/
structure Sheltered (s : State V E) : Prop where
  reachable : Reachable s
  affine : Affine s
  homing : Homing s

theorem Sheltered.init : Sheltered (State.init : State V E) :=
  ⟨Transition.Reachable.refl _, .init, .init⟩

theorem Sheltered.step (i : Sheltered s) {a : Action V E} (h : s.Enabled a) (hh : ¬ Hasty s a)
    (hs : ¬ Strays s a) : Sheltered (s.next a) := by
  obtain ⟨b, r⟩ := i.reachable.accounts
  exact ⟨i.reachable.step h, i.affine.step r i.reachable.inherits h hh,
    i.homing.step r i.reachable.inherits h hs⟩

/-- **Coroutines stay in their executors.** In a run in which no handler of a hop is run before the
    hopping side made its exchange, and no completion handler outside the executor associated with
    it: when no coroutine is executed outside its executor, none ever is again, whatever is called,
    awaited, resumed or completed, until `coro::main` is entered anew. -/
theorem none_goes_astray {as bs : List (Action V E)} {s t : State V E}
    (hr : Transition.Run runtime State.init as s)
    (ha : Transition.Along runtime (fun s a => ¬ Hasty s a ∧ ¬ Strays s a) State.init as)
    (hs : ∀ f, ¬ s.Astray f) (hr' : Transition.Run runtime s bs t)
    (hb : Transition.Along runtime
      (fun s a => (¬ Hasty s a ∧ ¬ Strays s a) ∧ a.entersMain = false) s bs) (f : FrameId) :
    ¬ t.Astray f := by
  have hshelter : Sheltered s := hr.invariant_of ha Sheltered.init
    fun _ _ i h hp => i.step h hp.1 hp.2
  have hstep : ∀ (u : State V E) (a : Action V E), (Sheltered u ∧ ∀ f, ¬ u.Astray f) →
      u.Enabled a → (¬ Hasty u a ∧ ¬ Strays u a) ∧ a.entersMain = false →
      Sheltered (u.next a) ∧ ∀ f, ¬ (u.next a).Astray f := by
    rintro u a ⟨i, hu⟩ h ⟨⟨hh, hstray⟩, hmain⟩
    obtain ⟨b, r⟩ := i.reachable.accounts
    have hm : ∀ j, a ≠ .startMain j := by
      rintro j rfl
      cases hmain
    exact ⟨i.step h hh hstray, i.homing.astray_step r i.reachable.inherits i.affine h hm hu⟩
  exact (hr'.invariant_of hb ⟨hshelter, hs⟩ hstep).2 f

/-- `co_main` begins outside its context and waits for an operation. -/
def suspendedMain : List (Action Unit Unit) :=
  [.startMain 1, .awaitDeferred 0, .initiationReturns 0 0, .resumeAwaiting 0 0]

/-- It goes on in the context, calls a promise that hops to a strand and awaits an operation there,
    and the promise returns. -/
def callingMain : List (Action Unit Unit) :=
  [.setValue 0 [.context 1] (.ok ()), .resumeCompleted 0 [.context 1],
    .handlerResume 0 [.context 1], .awaitResume 0, .create none, .awaitPromise 0 1,
    .awaitPost 1 ⟨.strand 2 (.context 1), false⟩, .plainResume 1 (.strand 2 (.context 1)),
    .awaitResume 1, .awaitTimer 1, .initiationReturns 1 2, .resumeAwaiting 1 2,
    .setValue 2 [.strand 2 (.context 1), .context 1] (.ok ()),
    .resumeCompleted 2 [.strand 2 (.context 1), .context 1],
    .handlerResume 2 [.strand 2 (.context 1), .context 1], .awaitResume 1,
    .coReturn 1 (.returned () none), .plainResume 3 (.context 1), .awaitResume 0]

theorem none_goes_astray_main :
    ¬ (runtime.exec (State.after suspendedMain) callingMain).Astray 0 := by
  have hs : Reachable (State.after suspendedMain) := .after (by decide)
  obtain ⟨b, r⟩ := hs.accounts
  have hrun : Transition.Run runtime State.init suspendedMain (State.after suspendedMain) :=
    .of_legal (by decide)
  refine none_goes_astray hrun (by decide) (fun f => ?_) (.of_legal (by decide)) (by decide) 0
  rintro ⟨t, ex, hp, -⟩
  cases f with
  | zero =>
      have hsuspended : ((State.after suspendedMain).frame 0).phase = .suspended := by decide
      simp [State.Executes, hsuspended] at hp
  | succ f =>
      have hunborn := r.custodian.unborn_frame (f := f + 1) (Nat.succ_le_succ (Nat.zero_le f))
      simp [State.Executes, hunborn] at hp

end WebAsio.Coro
