import WebAsio.Coro.AwaitOnce

set_option autoImplicit false

/-! # What others cannot do to a coroutine

Only the body of a coroutine takes it from one statement to the next, ends it and sets its result.
Only `co_await` starts the body of a promise. A coroutine that is destroyed while it waits was
waiting for a handler that was dropped or that found its owner gone, or for a callee that was
destroyed. -/

namespace WebAsio.Coro

open Custody State

variable {V E : Type} {s : State V E} {b : Book FrameId SuspId}

/-- The frame whose body makes the action. -/
def Action.mover : Action V E → Option FrameId
  | .awaitPromise f _ | .awaitDeferred f | .awaitTimer f | .awaitAwait f _ | .awaitDispatch f _
  | .awaitPost f _ | .awaitResume f | .coReturn f _ => some f
  | _ => none

/-- The promise that the action starts or discards. -/
def Action.taken : Action V E → Option FrameId
  | .awaitPromise _ c | .awaitAwait _ c | .startAwait _ c | .discard c => some c
  | _ => none

/-- What an action leaves of a frame. The body is taken no further, and its result set, by the body
    itself only; it is started by who awaits the promise, who then is its caller. -/
structure Spares (s s' : State V E) (a : Action V E) (x : FrameId) : Prop where
  busy : (s.frame x).kind ≠ .trampoline → a.mover ≠ some x → ∀ t,
    (s.frame x).phase = .running t ∨ (s.frame x).phase = .resuming t →
      (s'.frame x).phase = (s.frame x).phase
  initial : a.taken ≠ some x → (s.frame x).phase = .initial → (s'.frame x).phase = .initial
  result : a.mover ≠ some x → (s'.frame x).result = (s.frame x).result
  caller : a.taken ≠ some x → (s.frame x).caller = none → (s'.frame x).caller = none

namespace Accounts

/-- What executes `init_await` is a trampoline. -/
theorem kind_of_bridge (r : Accounts s b) {y c : FrameId} {k : SuspId}
    (hp : (s.frame y).phase.isRunning = true ∨ (s.frame y).phase.isResuming = true)
    (ha : (s.frame y).awaiter = .bridge c k) : (s.frame y).kind = .trampoline := by
  have hf := r.custodian.fits y
  rw [r.custodian.active_of_running hp] at hf
  exact hf.1.bridges.mpr ⟨c, k, ha⟩

/-- The body of a promise that was not awaited is in nobody's hands. -/
theorem handle_ne_of_initial (r : Accounts s b) {x : FrameId} (hp : (s.frame x).phase = .initial)
    {k : SuspId} (ho : (s.susp k).isOpen = true) (hcb : (s.susp k).kind ≠ .callback) :
    (s.susp k).handle ≠ x := by
  rintro rfl
  have hfresh := r.custodian.fresh_of_initial hp
  rw [r.custodian.leased_of_open ho hcb] at hfresh
  cases hfresh

theorem caller_ne_of_initial (r : Accounts s b) {x : FrameId} (hp : (s.frame x).phase = .initial)
    (c : FrameId) : (s.frame c).caller ≠ some x := by
  intro hc
  have hfresh := r.custodian.fresh_of_initial hp
  rw [(r.custodian.owned x c).mpr hc] at hfresh
  cases hfresh

theorem callee_ne_of_initial (r : Accounts s b) {x f : FrameId}
    (hp : (s.frame x).phase = .initial)
    (hf : (s.frame f).phase.isRunning = true ∨ (s.frame f).phase.isResuming = true) :
    (s.frame f).awaiter.callee ≠ some x := by
  intro haw
  have hs := r.custodian.reaps f x (r.custodian.active_of_running hf) haw
  rw [r.custodian.fresh_of_initial hp] at hs
  cases hs

theorem spares_coReturn (r : Accounts s b) {f : FrameId} {e : BodyEnd V E}
    (h : s.Enabled (.coReturn f e)) (x : FrameId) :
    Spares s (s.coReturn f e) (.coReturn f e) x := by
  obtain ⟨-, -, -, t, ht⟩ := r.custodian.of_inBody h.1
  have hcaller : (s.frame x).phase = .initial → ∀ c, (s.frame c).caller ≠ some x :=
    r.caller_ne_of_initial
  cases hkind : (s.frame f).kind
  case promise =>
    obtain ⟨g, hg, ho, hgp, hgf, hret⟩ := r.custodian.returned r.stored e h.1 hkind
    rcases hb : s.handBack f with _ | ex | ex <;> simp only [Returned, hb] at hret <;>
      obtain ⟨-, -, hfr⟩ := hret <;> constructor <;> rw [hfr] <;> grind [Action.mover, finished]
  all_goals
    simp only [coReturn, hkind]
    constructor <;> grind [Action.mover]

theorem spares_resumeAwaiting {f : FrameId} {k : SuspId} (h : s.Enabled (.resumeAwaiting f k))
    (x : FrameId) : Spares s (s.resumeAwaiting f k) (.resumeAwaiting f k) x := by
  obtain ⟨t, ht⟩ := Phase.isSuspending_iff.mp h.1
  simp only [State.resumeAwaiting]
  split_ifs <;> constructor <;> grind [Phase.afterDestroy]

theorem spares_finalResumeAwaiting (r : Accounts s b) {d : FrameId} {k : SuspId}
    (h : s.Enabled (.finalResumeAwaiting d k)) (x : FrameId) :
    Spares s (s.finalResumeAwaiting d k) (.finalResumeAwaiting d k) x := by
  obtain ⟨t, ht⟩ := Phase.isFinalizing_iff.mp h.1
  have hk : (s.frame x).phase = .initial → (s.susp k).handle ≠ x := fun hp =>
    r.handle_ne_of_initial hp (by rw [Suspension.isOpen, h.2.2]; simp) fun hcb => by
      have := ((r.sound k).callback hcb).1
      rw [h.2.2] at this
      cases this
  simp only [State.finalResumeAwaiting]
  split_ifs <;> constructor <;> grind [Phase.afterDestroy, Phase.afterResume]

theorem spares_handlerResume (r : Accounts s b) {k : SuspId} {t : Site}
    (h : s.Enabled (.handlerResume k t)) (x : FrameId) :
    Spares s (s.handlerResume k t) (.handlerResume k t) x := by
  have hst : (s.susp k).stage = .claimed t := h
  have hk : (s.frame x).phase = .initial → (s.susp k).handle ≠ x := fun hp =>
    r.handle_ne_of_initial hp (by simp [Suspension.isOpen, hst]) fun hcb => by
      have := (r.sound k).invoked ⟨t, Or.inr hst⟩
      rw [hcb] at this
      cases this
  simp only [State.handlerResume]
  split_ifs <;> constructor <;> grind [Phase.afterDestroy, Phase.afterResume]

theorem spares_awaitResume (r : Accounts s b) {f : FrameId} (h : s.Enabled (.awaitResume f))
    (x : FrameId) : Spares s (s.awaitResume f) (.awaitResume f) x := by
  obtain ⟨t, ht⟩ := Phase.isResuming_iff.mp h.1
  have hx : (s.frame x).phase = .initial → (s.frame f).awaiter.callee ≠ some x := fun hp =>
    r.callee_ne_of_initial hp (Or.inr h.1)
  cases haw : (s.frame f).awaiter <;> rw [haw] at hx <;>
    simp only [State.awaitResume, haw] <;> constructor <;>
    grind [Action.mover, Phase.afterDestroy, Awaiter.callee]

theorem spares_trampolineInvoke (r : Accounts s b) {y c : FrameId} {k : SuspId}
    (h : s.Enabled (.trampolineInvoke y c k)) (x : FrameId) :
    Spares s (s.trampolineInvoke y c k) (.trampolineInvoke y c k) x := by
  have hkind := r.kind_of_bridge (Or.inr h.1) h.2.1
  obtain ⟨t, ht⟩ := Phase.isResuming_iff.mp h.1
  simp only [State.trampolineInvoke]
  split_ifs <;> constructor <;> grind [completionSetValue]

theorem spares_trampolineReturn (r : Accounts s b) {y c : FrameId} {k : SuspId}
    (h : s.Enabled (.trampolineReturn y c k)) (x : FrameId) :
    Spares s (s.trampolineReturn y c) (.trampolineReturn y c k) x := by
  have hkind := r.kind_of_bridge (Or.inl h.1) h.2.1
  obtain ⟨t, ht⟩ := Phase.isRunning_iff.mp h.1
  have hx : (s.frame x).phase = .initial → x ≠ c := by
    rintro hp rfl
    exact r.callee_ne_of_initial hp (Or.inl h.1) (by rw [h.2.1]; rfl)
  simp only [State.trampolineReturn]
  constructor <;> grind [Phase.afterDestroy]

/-- **Others spare a coroutine.** -/
theorem next_spares (r : Accounts s b) {a : Action V E} (h : s.Enabled a) {x : FrameId}
    (hn : x ≠ s.nextFrame) : Spares s (s.next a) a x := by
  cases a <;> simp only [next]
  case awaitPromise f c =>
    obtain ⟨-, -, -, t, ht⟩ := r.custodian.of_inBody h.1
    obtain ⟨hcp, hcc, hne⟩ := r.custodian.of_call h
    have hfr := s.coroAwaitSuspend_frame hcp hcc hne
    constructor <;> grind [Action.mover, Action.taken]
  case awaitAwait f c =>
    obtain ⟨-, -, -, t, ht⟩ := r.custodian.of_inBody h.1
    obtain ⟨hcp, hcc, hne, hcn⟩ := r.custodian.of_callAwait h
    have hfr := s.awaitAwaitSuspend_frame hcp hcc hne hcn
    constructor <;> grind [Action.mover, Action.taken]
  case startAwait u c =>
    obtain ⟨hcp, hcc, hcn⟩ := r.custodian.of_startAwait h
    have hfr := s.startAwait_frame hcp hcc hcn (t := u)
    constructor <;> grind [Action.taken]
  case coReturn f e => exact r.spares_coReturn h x
  case resumeAwaiting f k => exact spares_resumeAwaiting h x
  case finalResumeAwaiting d k => exact r.spares_finalResumeAwaiting h x
  case handlerResume k t => exact r.spares_handlerResume h x
  case awaitResume f => exact r.spares_awaitResume h x
  case trampolineInvoke y c k => exact r.spares_trampolineInvoke h x
  case trampolineReturn y c k => exact r.spares_trampolineReturn h x
  case destroy f =>
    have hf : (s.frame f).phase = .destroying := h
    have hfr := s.destroyFrame_frame (r.custodian.caller_ne h)
    have hcaller : (s.frame x).phase = .initial → ∀ c, (s.frame c).caller ≠ some x :=
      r.caller_ne_of_initial
    constructor <;> grind [Phase.afterDestroy]
  case drop k =>
    have hk : (s.frame x).phase = .initial → (s.susp k).kind ≠ .callback →
        (s.susp k).handle ≠ x := fun hp =>
      r.handle_ne_of_initial hp (by rcases h with hst | hst <;> simp [Suspension.isOpen, hst])
    have hfr := s.handlerDrop_frame k x
    constructor <;> grind [Phase.afterDestroy]
  case plainResume k ex =>
    have hk : (s.frame x).phase = .initial → (s.susp k).handle ≠ x := fun hp =>
      r.handle_ne_of_initial hp (by simp [Suspension.isOpen, h.1])
        (by rcases h.2.1 with hk | hk <;> rw [hk] <;> simp)
    simp only [State.plainResume]
    constructor <;> grind [Phase.afterResume]
  all_goals
    simp only [Enabled, inBody] at h
    constructor <;> grind [Action.mover, Action.taken, completionAwaitSuspend, dispatchAwaitSuspend,
      postAwaitSuspend, completionSetValue, State.dispatchEnter, State.resumeCompleted,
      State.initiationReturns, State.initiationThrows, Phase.afterDestroy, Frame.setExecutor]

/-- The body of a coroutine is taken no further by the actions of others. -/
theorem next_busy (r : Accounts s b) {a : Action V E} (h : s.Enabled a) {x : FrameId}
    (hk : (s.frame x).kind ≠ .trampoline) (hm : a.mover ≠ some x) {t : Site}
    (hp : (s.frame x).phase = .running t ∨ (s.frame x).phase = .resuming t) :
    ((s.next a).frame x).phase = (s.frame x).phase := by
  have hn : x ≠ s.nextFrame := by
    rintro rfl
    rw [r.custodian.unborn_frame (Nat.le_refl _)] at hp
    rcases hp with hp | hp <;> cases hp
  exact (r.next_spares h hn).busy hk hm t hp

/-- The body of a promise is started by who awaits the promise. -/
theorem next_initial (r : Accounts s b) {a : Action V E} (h : s.Enabled a) {x : FrameId}
    (ht : a.taken ≠ some x) (hp : (s.frame x).phase = .initial) :
    ((s.next a).frame x).phase = .initial := by
  have hn : x ≠ s.nextFrame := by
    rintro rfl
    rw [r.custodian.unborn_frame (Nat.le_refl _)] at hp
    cases hp
  exact (r.next_spares h hn).initial ht hp

/-- The result of an operation is an outcome only when a trampoline delivers it. -/
theorem next_outcome (r : Accounts s b) {a : Action V E} (h : s.Enabled a) {k : SuspId}
    {o : Outcome V E} (hv : ((s.next a).susp k).value = some (.outcome o)) :
    (s.susp k).value = some (.outcome o) ∨ ∃ x c, a = .trampolineInvoke x c k := by
  cases a <;> simp only [next] at hv
  case coReturn f e =>
    cases hkind : (s.frame f).kind
    case promise =>
      obtain ⟨g, hg, ho, hgp, hgf, hret⟩ := r.custodian.returned r.stored e h.1 hkind
      rcases hb : s.handBack f with _ | ex | ex <;> simp only [Returned, hb] at hret <;>
        obtain ⟨-, hs, -⟩ := hret <;> rw [hs] at hv <;> grind [dispatchContext]
    all_goals
      left
      simpa [coReturn, hkind] using hv
  case destroy f =>
    left
    by_cases hst : (s.susp k).stage = .held f
    · obtain ⟨c, haw⟩ := ((r.custodian.held f k).mp hst).1
      rwa [s.destroyFrame_susp_held haw hst] at hv
    · rwa [s.destroyFrame_susp_other hst] at hv
  case trampolineInvoke x c j =>
    by_cases hj : k = j
    · exact Or.inr ⟨x, c, by rw [hj]⟩
    · left
      simp only [State.trampolineInvoke] at hv
      split_ifs at hv <;> simpa [completionSetValue, hj] using hv
  all_goals
    left
    grind [completionAwaitSuspend, dispatchAwaitSuspend, postAwaitSuspend, dispatchContext,
      completionSetValue, State.dispatchEnter, State.resumeCompleted, State.initiationReturns,
      State.initiationThrows, State.handlerResume, State.handlerDrop, State.resumeAwaiting,
      State.finalResumeAwaiting, State.awaitResume, State.plainResume, State.trampolineReturn,
      Suspension.endBy, coroAwaitSuspend_susp, awaitAwaitSuspend_susp, startAwait_susp]

end Accounts

/-! ## Coroutines that are destroyed before their end -/

theorem Phase.Next.destroying {p q : Phase} (h : p.Next q)
    (hp : p.isSuspending = true ∨ p = .suspended) (hq : q.isOver = true) : q = .destroying := by
  rcases hp with hp | rfl
  · obtain ⟨t, rfl⟩ := Phase.isSuspending_iff.mp hp
    cases h <;> first | rfl | cases hq
  · cases h <;> first | rfl | cases hq

/-- The suspension is over, and its coroutine was not resumed: the handler was dropped, or the owner
    of the coroutine was gone. -/
def Suspension.Lost (r : Suspension V E) : Prop :=
  r.isOpen = false ∧ (r.fate = some .dropped ∨ r.fate = some .ownerLost)

theorem Suspension.isOpen_eq_false {r : Suspension V E} :
    r.isOpen = false ↔ r.stage = .gone ∧ r.side = .left := by
  rw [isOpen, Bool.or_eq_false_iff, bne_eq_false_iff_eq, bne_eq_false_iff_eq]

theorem Suspension.Lost.step {r r' : Suspension V E} (hl : r.Lost) (h : r.Step r') : r'.Lost := by
  obtain ⟨hgone, hleft⟩ := isOpen_eq_false.mp hl.1
  obtain ⟨hgone', -, hfate⟩ := h.gone_keeps (by simp [hleft]) hgone
  have hleft' : r'.side = .left := by
    by_contra hn
    exact h.side hn hleft
  exact ⟨isOpen_eq_false.mpr ⟨hgone', hleft'⟩, by rw [hfate]; exact hl.2⟩

/-- What is lost stays lost. -/
theorem Accounts.next_lost (r : Accounts s b) {a : Action V E} (h : s.Enabled a) {k : SuspId}
    (hl : (s.susp k).Lost) : ((s.next a).susp k).Lost := by
  rcases next_susp h k with he | he | ⟨he, _⟩
  · rwa [he]
  · exact hl.step he
  · rw [he, r.custodian.newSusp _ (Nat.le_refl _)] at hl
    rcases hl.2 with hf | hf <;> cases hf

namespace Accounts

/-- A coroutine that waits for a handler and is destroyed has lost it. -/
theorem lost_of_leased (r : Accounts s b) {a : Action V E} (h : s.Enabled a) {x : FrameId}
    {k : SuspId} (hk : b.status x = .leased k)
    (hp' : ((s.next a).frame x).phase = .destroying) : ((s.next a).susp k).Lost := by
  obtain ⟨b', -, r'⟩ := r.step h
  obtain ⟨hhandle, hopen, hcb⟩ := (r.custodian.leased x k).mp hk
  have hnot : ¬ (((s.next a).susp k).handle = x ∧ ((s.next a).susp k).isOpen = true ∧
      ((s.next a).susp k).kind ≠ .callback) := by
    intro hl
    have hst := (r'.custodian.leased x k).mpr hl
    rw [r'.custodian.ending_of_destroying hp'] at hst
    cases hst
  rcases next_susp h k with he | he | ⟨rfl, _⟩
  · rw [he] at hnot
    exact absurd ⟨hhandle, hopen, hcb⟩ hnot
  · obtain ⟨hkind', -, hhandle', -, -⟩ := he.names
    rw [hkind', hhandle'] at hnot
    have hclosed : ((s.next a).susp k).isOpen = false := by simpa [hhandle, hcb] using hnot
    refine ⟨hclosed, ?_⟩
    obtain ⟨e, ft, -, hended, -, hfate, hallows⟩ :=
      (r'.sound k).ended_of_closed (by rwa [hkind']) hclosed
    -- what was done to the coroutine was done in this step
    rcases r.custodian.ended_step r.sound h k with hsame | ⟨d, hnew, hon, -, hdone⟩
    · rw [hsame, (r.sound k).ended_of_open hopen hcb] at hended
      cases hended
    · rw [hnew, (r.sound k).ended_of_open hopen hcb] at hended
      obtain rfl : d = e := by simpa using hended
      rw [hon, hhandle] at hdone
      cases hdeed : d.deed with
      | resumed =>
          simp only [hdeed, hp'] at hdone
          cases hdone
      | destroyed =>
          rw [hfate]
          cases ft with
          | dropped => exact Or.inl rfl
          | ownerLost => exact Or.inr rfl
          | invoked => rw [Fate.allows, hdeed] at hallows; cases hallows
          | threw => rw [Fate.allows, hdeed] at hallows; cases hallows.2
  · exact absurd (r.custodian.lease_lt hk) (Nat.lt_irrefl _)

/-- A coroutine that waits for its callee is destroyed by the callee. -/
theorem destroyed_of_owned (r : Accounts s b) {a : Action V E} (h : s.Enabled a) {x c : FrameId}
    (hx : (s.frame c).caller = some x) (hp' : ((s.next a).frame x).phase = .destroying) :
    a = .destroy c := by
  obtain ⟨b', -, r'⟩ := r.step h
  rcases r.next_called h hx with ⟨hx', -⟩ | ⟨e, rfl, -⟩ | ⟨ha, -⟩
  · have hst := (r'.custodian.owned x c).mpr hx'
    rw [r'.custodian.ending_of_destroying hp'] at hst
    cases hst
  · -- the callee returns: its caller is resumed or waits for a handler
    obtain ⟨g, hg, -, hgp, hgf, hret⟩ :=
      r.custodian.returned r.stored e h.1 (r.promise_of_caller h.1 hx)
    obtain rfl : x = g := Option.some.inj (hx.symm.trans hg)
    change ((s.coReturn c e).frame x).phase = _ at hp'
    rcases hb : s.handBack c with _ | ex | ex <;> simp only [Returned, hb] at hret <;>
      obtain ⟨-, -, hfr⟩ := hret <;> rw [hfr, if_neg hgf] at hp' <;> simp [hgp] at hp'
  · exact ha

/-- A coroutine that is executed or waits is not destroyed unless its handler is lost or its callee
    destroyed. -/
theorem next_abandoned (r : Accounts s b) {a : Action V E} (h : s.Enabled a) {x : FrameId}
    (hk : (s.frame x).kind ≠ .trampoline) (hm : a.mover ≠ some x)
    (hp : ∃ t, (s.frame x).phase = .running t ∨ (s.frame x).phase = .resuming t ∨
      (s.frame x).phase = .suspending t ∨ (s.frame x).phase = .suspended)
    (hp' : ((s.next a).frame x).phase.isOver = true) :
    (∃ c, (s.frame c).caller = some x ∧ a = .destroy c) ∨ ∃ k, ((s.next a).susp k).Lost := by
  obtain ⟨t, hp⟩ := hp
  have hbusy : ¬ ((s.frame x).phase = .running t ∨ (s.frame x).phase = .resuming t) := by
    intro hb
    rw [r.next_busy h hk hm hb] at hp'
    rcases hb with hb | hb <;> rw [hb] at hp' <;> cases hp'
  have hwait : (s.frame x).phase.isSuspending = true ∨ (s.frame x).phase = .suspended := by
    rcases hp with hp | hp | hp | hp
    · exact absurd (Or.inl hp) hbusy
    · exact absurd (Or.inr hp) hbusy
    · exact Or.inl (by rw [hp]; rfl)
    · exact Or.inr hp
  have hn : x ≠ s.nextFrame := by
    rintro rfl
    rw [r.custodian.unborn_frame (Nat.le_refl _)] at hwait
    rcases hwait with hw | hw <;> cases hw
  have hdestroying := (r.next_phase h hn).destroying hwait hp'
  have hf := r.custodian.fits x
  cases hst : b.status x with
  | leased k => exact Or.inr ⟨k, r.lost_of_leased h hst hdestroying⟩
  | owned c =>
      have hc := (r.custodian.owned x c).mp hst
      exact Or.inl ⟨c, hc, r.destroyed_of_owned h hc hdestroying⟩
  | _ => rw [hst] at hf; grind [Frame.Fits]

end Accounts

end WebAsio.Coro
