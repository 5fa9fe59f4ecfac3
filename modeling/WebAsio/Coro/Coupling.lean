import WebAsio.Coro.Program

set_option autoImplicit false

/-! # Where a coroutine stands, and its frame

A coroutine that stands before a `co_await` is executed or waits for just that operation; one that
waits for a callee has the `coro_awaitable` of that callee; one that is over has stored its result.
Only its own moves change this. -/

namespace WebAsio.Coro

open Custody State

variable {V E : Type}

/-- The coroutine is inside a `co_await`. -/
def Phase.isWaiting : Phase → Bool
  | .suspending _ | .suspended | .resuming _ => true
  | _ => false

theorem Phase.Next.waiting {p q : Phase} (h : p.Next q)
    (hp : p.isSuspending = true ∨ p = .suspended) : q.isWaiting = true ∨ q.isOver = true := by
  rcases hp with hp | rfl
  · obtain ⟨t, rfl⟩ := Phase.isSuspending_iff.mp hp
    cases h <;> simp [Phase.isWaiting, Phase.isOver]
  · cases h <;> simp [Phase.isWaiting, Phase.isOver]

namespace Accounts

variable {s : State V E} {b : Book FrameId SuspId}

theorem next_isRunning (r : Accounts s b) {a : Action V E} (h : s.Enabled a) {x : FrameId}
    (hk : (s.frame x).kind ≠ .trampoline) (hm : a.mover ≠ some x)
    (hp : (s.frame x).phase.isRunning = true) : ((s.next a).frame x).phase.isRunning = true := by
  obtain ⟨t, ht⟩ := Phase.isRunning_iff.mp hp
  rw [r.next_busy h hk hm (Or.inl ht), hp]

/-- A coroutine inside a `co_await` stays there, with its awaitable, or is destroyed. -/
theorem next_isWaiting (r : Accounts s b) {a : Action V E} (h : s.Enabled a) {x : FrameId}
    (hk : (s.frame x).kind ≠ .trampoline) (hm : a.mover ≠ some x)
    (hp : (s.frame x).phase.isWaiting = true) :
    ((s.next a).frame x).phase.isOver = true ∨ ((s.next a).frame x).phase.isWaiting = true ∧
      ((s.next a).frame x).awaiter = (s.frame x).awaiter := by
  have hn : x ≠ s.nextFrame := by
    rintro rfl
    rw [r.custodian.unborn_frame (Nat.le_refl _)] at hp
    cases hp
  have hw : ((s.next a).frame x).phase.isWaiting = true ∨
      ((s.next a).frame x).phase.isOver = true := by
    have hnext := r.next_phase h hn
    cases hx : (s.frame x).phase with
    | resuming t =>
        rw [r.next_busy h hk hm (Or.inr hx), hx]
        exact Or.inl rfl
    | suspending t => exact (hx ▸ hnext).waiting (Or.inl rfl)
    | suspended => exact (hx ▸ hnext).waiting (Or.inr rfl)
    | _ => rw [hx] at hp; cases hp
  rcases hw with hw | hw
  · refine Or.inr ⟨hw, r.next_awaiter_eq h hn ?_ ?_ ?_⟩
    · cases hx : (s.frame x).phase <;> simp_all [Phase.isWaiting, Phase.isRunning]
    · cases hx : ((s.next a).frame x).phase <;> simp_all [Phase.isWaiting, Phase.isRunning]
    · cases hx : ((s.next a).frame x).phase <;> simp_all [Phase.isWaiting]
  · exact Or.inl hw

/-- The kind of a suspension lasts. -/
theorem next_suspKind (r : Accounts s b) {a : Action V E} (h : s.Enabled a) {x : FrameId}
    {k : SuspId} (hk : (s.frame x).awaiter = .context k) :
    ((s.next a).susp k).kind = (s.susp k).kind := by
  have hlt := (r.custodian.context x k hk).1
  rcases next_susp h k with he | he | ⟨he, _⟩
  · rw [he]
  · exact he.names.1
  · exact absurd he (Nat.ne_of_lt hlt)

end Accounts

namespace Direct

variable {L : Type}

/-- The suspension by which a body waits in its first statement. -/
def Body.kind : Body V E L → Option AwaitKind
  | .deferred _ => some .deferred
  | .sleep _ => some .timer
  | .hop .dispatch _ _ => some .dispatch
  | .hop .. => some .post
  | _ => none

/-- The action by which a body begins to wait in its first statement. -/
def Body.opens (f : FrameId) : Body V E L → Option (Action V E)
  | .deferred _ => some (.awaitDeferred f)
  | .sleep _ => some (.awaitTimer f)
  | .hop .dispatch ex _ => some (.awaitDispatch f ex)
  | .hop _ ex _ => some (.awaitPost f ex)
  | _ => none

/-- The coroutine executes what is left, or waits in its first statement, unless it is destroyed. -/
inductive Attends (s : State V E) (x : FrameId) (b : Body V E L) : Prop
  | executes : (s.frame x).phase.isRunning = true → Attends s x b
  | waits (k : SuspId) : (s.frame x).phase.isWaiting = true → (s.frame x).awaiter = .context k →
      b.kind = some (s.susp k).kind → Attends s x b
  | destroyed : (s.frame x).phase.isOver = true → Attends s x b

/-- The coroutine waits for the promise `c`, unless it is destroyed. -/
inductive Awaits (s : State V E) (x c : FrameId) : Prop
  | waits : (s.frame x).phase.isWaiting = true → (s.frame x).awaiter = .coro c → Awaits s x c
  | destroyed : (s.frame x).phase.isOver = true → Awaits s x c

/-- The body of the coroutine is over, and has left `e` for its caller unless the coroutine is
    destroyed. -/
structure Finished (s : State V E) (x : FrameId) (e : BodyEnd V E) : Prop where
  phase : (s.frame x).phase.isFinalizing = true ∨ (s.frame x).phase = .parked ∨
    (s.frame x).phase.isOver = true
  caller : (s.frame x).caller = none
  result : (s.frame x).kind = .promise → (s.frame x).result = Outcome.finish e

/-- The frame of a coroutine fits where the coroutine stands. -/
def Coupled (s : State V E) (x : FrameId) : Point V E L → Prop
  | .absent | .reaped => True
  | .lazy _ => (s.frame x).kind = .promise ∧ (s.frame x).caller = none ∧
      ((s.frame x).phase = .initial ∨ (s.frame x).phase.isOver = true)
  | .temporary _ => (s.frame x).kind = .promise ∧ (s.frame x).phase = .initial
  | .rest b => (s.frame x).kind ≠ .trampoline ∧ Attends s x b
  | .called .. | .leaving .. =>
    (s.frame x).kind ≠ .trampoline ∧ (s.frame x).phase.isRunning = true
  | .waiting c _ => (s.frame x).kind ≠ .trampoline ∧ Awaits s x c
  | .ended e => (s.frame x).kind ≠ .trampoline ∧ Finished s x e
  | .aborted => False

variable {s : State V E} {b : Book FrameId SuspId}

theorem Attends.keep (r : Accounts s b) {a : Action V E} (h : s.Enabled a) {x : FrameId}
    (hk : (s.frame x).kind ≠ .trampoline) (hm : a.mover ≠ some x) {c : Body V E L}
    (hc : Attends s x c) : Attends (s.next a) x c := by
  cases hc with
  | executes hp => exact .executes (r.next_isRunning h hk hm hp)
  | waits k hp haw hkind =>
      rcases r.next_isWaiting h hk hm hp with hover | ⟨hp', haw'⟩
      · exact .destroyed hover
      · exact .waits k hp' (haw'.trans haw) (by rw [r.next_suspKind h haw, hkind])
  | destroyed hp => exact .destroyed (r.step_isOver h hp)

theorem Awaits.keep (r : Accounts s b) {a : Action V E} (h : s.Enabled a) {x c : FrameId}
    (hk : (s.frame x).kind ≠ .trampoline) (hm : a.mover ≠ some x) (hc : Awaits s x c) :
    Awaits (s.next a) x c := by
  cases hc with
  | waits hp haw =>
      rcases r.next_isWaiting h hk hm hp with hover | ⟨hp', haw'⟩
      · exact .destroyed hover
      · exact .waits hp' (haw'.trans haw)
  | destroyed hp => exact .destroyed (r.step_isOver h hp)

theorem Finished.keep (r : Accounts s b) {a : Action V E} (h : s.Enabled a) {x : FrameId}
    {e : BodyEnd V E} (hm : a.mover ≠ some x) (ht : a.taken ≠ some x) (hc : Finished s x e) :
    Finished (s.next a) x e := by
  have hu : (s.frame x).phase ≠ .unborn := by
    rintro hu
    have hp := hc.phase
    rw [hu] at hp
    rcases hp with hp | hp | hp <;> cases hp
  have hn := Delivers.ne_nextFrame r hu
  constructor
  · have hnext := r.next_phase h hn
    rcases hc.phase with hp | hp | hp
    · obtain ⟨t, hp⟩ := Phase.isFinalizing_iff.mp hp
      rw [hp] at hnext
      generalize ((s.next a).frame x).phase = q at hnext
      cases hnext <;> simp [Phase.isFinalizing, Phase.isOver] at *
    · rw [hp] at hnext
      generalize ((s.next a).frame x).phase = q at hnext
      cases hnext <;> simp [Phase.isFinalizing, Phase.isOver] at *
    · exact Or.inr (Or.inr (r.step_isOver h hp))
  · exact (r.next_spares h hn).caller ht hc.caller
  · rw [r.next_kind h hu, (r.next_spares h hn).result hm]
    exact hc.result

/-- A coroutine that does not move stands where it stood. -/
theorem Coupled.keep (r : Accounts s b) {a : Action V E} (h : s.Enabled a) {x : FrameId}
    (hm : a.mover ≠ some x) (ht : a.taken ≠ some x) {p : Point V E L} (hc : Coupled s x p) :
    Coupled (s.next a) x p := by
  have hkind : (s.frame x).phase ≠ .unborn → ((s.next a).frame x).kind = (s.frame x).kind :=
    r.next_kind h
  cases p with
  | absent | reaped => trivial
  | lazy b₀ =>
      obtain ⟨hk, hcc, hp⟩ := hc
      have hu : (s.frame x).phase ≠ .unborn := by
        rintro hu
        rw [hu] at hp
        rcases hp with hp | hp <;> cases hp
      exact ⟨by rw [hkind hu, hk], (r.next_spares h (Delivers.ne_nextFrame r hu)).caller ht hcc,
        hp.imp (r.next_initial h ht) (r.step_isOver h)⟩
  | temporary b₀ =>
      obtain ⟨hk, hp⟩ := hc
      exact ⟨by rw [hkind (by simp [hp]), hk], r.next_initial h ht hp⟩
  | rest b₀ =>
      obtain ⟨hk, hp⟩ := hc
      have hu : (s.frame x).phase ≠ .unborn := by
        rintro hu
        cases hp <;> simp_all [Phase.isRunning, Phase.isWaiting, Phase.isOver]
      exact ⟨by rwa [hkind hu], hp.keep r h hk hm⟩
  | called | leaving =>
      obtain ⟨hk, hp⟩ := hc
      have hu : (s.frame x).phase ≠ .unborn := by
        rintro hu
        rw [hu] at hp
        cases hp
      exact ⟨by rwa [hkind hu], r.next_isRunning h hk hm hp⟩
  | waiting c k =>
      obtain ⟨hk, hp⟩ := hc
      have hu : (s.frame x).phase ≠ .unborn := by
        rintro hu
        cases hp <;> simp_all [Phase.isWaiting, Phase.isOver]
      exact ⟨by rwa [hkind hu], hp.keep r h hk hm⟩
  | ended e =>
      obtain ⟨hk, hp⟩ := hc
      have hu : (s.frame x).phase ≠ .unborn := by
        rintro hu
        have hp := hp.phase
        rw [hu] at hp
        rcases hp with hp | hp | hp <;> cases hp
      exact ⟨by rwa [hkind hu], hp.keep r h hm ht⟩
  | aborted => exact hc

/-! ## What the moves of a body set up -/

/-- A body that ends leaves its result. -/
theorem Finished.start (r : Accounts s b) {f : FrameId} {e : BodyEnd V E}
    (h : s.Enabled (.coReturn f e)) :
    Finished (s.next (.coReturn f e)) f e ∧
      ((s.next (.coReturn f e)).frame f).kind = (s.frame f).kind := by
  obtain ⟨hf, -, -, t, ht⟩ := r.custodian.of_inBody h.1
  have hfits := r.custodian.fits f
  rw [hf] at hfits
  cases hkind : (s.frame f).kind
  case promise =>
    obtain ⟨g, hg, ho, hgp, hgf, hret⟩ := r.custodian.returned r.stored e h.1 hkind
    rcases hb : s.handBack f with _ | ex | ex <;> simp only [Returned, hb] at hret <;>
      obtain ⟨-, -, hfr⟩ := hret <;>
      exact ⟨⟨by simp [next, hfr, finished, Phase.isFinalizing], by simp [next, hfr, finished],
        fun _ => by simp [next, hfr, finished]⟩, by simp [next, hfr, finished, hkind]⟩
  all_goals
    have hcaller : (s.frame f).caller = none := by
      have hcalled := hfits.1.called
      rw [hkind] at hcalled
      simpa using hcalled
    refine ⟨⟨?_, ?_, ?_⟩, ?_⟩ <;> simp [next, coReturn, hkind, hcaller, Phase.isOver]

/-- A body that begins to wait in its first statement has the awaitable of that. -/
theorem waits_of_opens {f : FrameId} {c : Body V E L} {a : Action V E}
    (ha : c.opens f = some a) :
    (∃ k, ((s.next a).frame f).phase.isWaiting = true ∧ ((s.next a).frame f).awaiter = .context k ∧
        c.kind = some ((s.next a).susp k).kind) ∧
      ((s.next a).frame f).kind = (s.frame f).kind ∧
      (s.next a).nextFrame = s.nextFrame ∧ a.mover = some f ∧ a.taken = none ∧
      ∀ x d, a ≠ .awaitAwait x d := by
  cases c with
  | deferred k =>
      cases ha
      refine ⟨⟨s.nextSusp, ?_, ?_, ?_⟩, ?_, rfl, rfl, rfl, by simp⟩ <;>
        simp [next, completionAwaitSuspend, Phase.isWaiting, Body.kind]
  | sleep k =>
      cases ha
      refine ⟨⟨s.nextSusp, ?_, ?_, ?_⟩, ?_, rfl, rfl, rfl, by simp⟩ <;>
        simp [next, completionAwaitSuspend, Phase.isWaiting, Body.kind]
  | hop how ex k =>
      cases how
      case dispatch =>
        cases ha
        refine ⟨⟨s.nextSusp, ?_, ?_, ?_⟩, ?_, rfl, rfl, rfl, by simp⟩ <;>
          simp [next, dispatchAwaitSuspend, Phase.isWaiting, Body.kind, Frame.setExecutor]
      all_goals
        cases ha
        refine ⟨⟨s.nextSusp, ?_, ?_, ?_⟩, ?_, rfl, rfl, rfl, by simp⟩ <;>
          simp [next, postAwaitSuspend, Phase.isWaiting, Body.kind, Frame.setExecutor]
  | _ => cases ha

/-- A body goes on after its `await_resume`. -/
theorem executes_of_awaitResume (r : Accounts s b) {f : FrameId}
    (h : s.Enabled (.awaitResume f)) :
    ((s.next (.awaitResume f)).frame f).phase.isRunning = true ∧
      ((s.next (.awaitResume f)).frame f).kind = (s.frame f).kind := by
  obtain ⟨t, ht⟩ := Phase.isResuming_iff.mp h.1
  refine ⟨?_, r.next_kind h (by simp [ht])⟩
  rw [s.awaitResume_phase ht]
  rfl

end Direct

end WebAsio.Coro
