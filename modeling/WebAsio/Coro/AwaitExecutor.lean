import WebAsio.Coro.Trampoline

set_option autoImplicit false

/-! # Where `await` invokes its completion handler

The trampoline of `init_await` has no executor, so the promise it drives hands it back on the spot
or, after a hop to a strand, on the inner executor of the strand, and `await_resume` invokes the
handler there. The executor associated with the handler is not asked for. A coroutine that awaits
the operation goes on where the handler is, or, when the operation completes before its exchange,
where it made that. -/

namespace WebAsio.Coro

open Custody State

variable {V E : Type} {s : State V E} {b : Book FrameId SuspId}

/-- Where a promise `c` that ends its body now hands a trampoline back. -/
def State.handOver (s : State V E) (c : FrameId) : Site :=
  match (s.frame c).innerExecutor with
  | some ex => ex.site
  | none => (s.frame c).phase.site

/-- The completion handler `h`, which the trampoline `x` of the promise `c` holds, is invoked inside
    `ex`, and the coroutine that waits for it continues inside `ex`: resumed by the handler, or by
    its own `await_suspend` when the handler came first. -/
structure State.InvokesInside (s : State V E) (x c : FrameId) (h : SuspId) (ex : Executor) :
    Prop where
  trampoline : ∀ t, (s.frame x).phase = .resuming t → (s.frame x).awaiter = .bridge c h → ex ∈ t
  handler : ∀ t, (s.susp h).stage = .invoked t ∨ (s.susp h).stage = .claimed t → ex ∈ t
  coroutine : ∀ f t, (s.frame f).phase = .resuming t → (s.frame f).awaiter = .context h → ex ∈ t

/-- A coroutine that has not left the `await_suspend` in which it waits for `h` is inside `ex`. -/
def State.AwaitsInside (s : State V E) (h : SuspId) (ex : Executor) : Prop :=
  ∀ f t, (s.frame f).phase = .suspending t → (s.frame f).awaiter = .context h → ex ∈ t

/-! ## How a trampoline is handed back -/

namespace Accounts

/-- A trampoline has no executor. -/
theorem getExecutor_trampoline (r : Accounts s b) (n : Inherits s) {x c : FrameId} {h : SuspId}
    (hp : (s.frame x).phase = .suspended) (ha : (s.frame x).awaiter = .bridge c h) :
    s.getExecutor x = none := by
  have hx : x < s.nextFrame := by
    by_contra hn
    rw [r.custodian.unborn_frame (Nat.le_of_not_lt hn)] at hp
    cases hp
  have hkind : (s.frame x).kind = .trampoline := by
    have hf := r.custodian.fits x
    cases hb : b.status x <;> simp only [hb, Frame.Fits] at hf <;> grind [Frame.Started]
  have hself := n.root x hx (Or.inl (by simp [hkind]))
  rw [n.getExecutor_root hself, ownExecutor, ← (n.adopts x).executor]
  exact n.bare x hkind

theorem handBack_trampoline (r : Accounts s b) (n : Inherits s) {x c : FrameId} {h : SuspId}
    (hb : s.inBody c = true) (hc : (s.frame c).caller = some x)
    (ha : (s.frame x).awaiter = .bridge c h) :
    s.handBack c = match (s.frame c).innerExecutor with
      | some ex => .defer ex
      | none => .direct := by
  have hx : (s.frame x).phase = .suspended := by
    have hf := r.custodian.fits x
    rw [(r.custodian.owned x c).mpr hc] at hf
    exact hf.2.1
  rw [r.handBack_eq n hb hc, r.getExecutor_trampoline n hx ha]
  cases hown : (s.frame c).executor with
  | some ex => rfl
  | none =>
      have hinner : (s.frame c).innerExecutor = none := by
        have had := (n.adopts c).executor
        rw [hown] at had
        rw [(n.adopts c).innerExecutor]
        cases hl : (s.frame c).adopted.head? with
        | none => rfl
        | some ex =>
            rw [hl] at had
            cases had
      rw [hinner]

end Accounts

/-! ## Where a coroutine goes on -/

namespace Accounts

/-- Who is inside an `await_suspend` now was there before, unless the suspension is new. -/
theorem awaiting_step (r : Accounts s b) {a : Action V E} (ha : s.Enabled a) {f : FrameId}
    {h : SuspId} {t : Site} (hlt : h < s.nextSusp)
    (hp : ((s.next a).frame f).phase = .suspending t)
    (hx : ((s.next a).frame f).awaiter = .context h) :
    (s.frame f).phase = .suspending t ∧ (s.frame f).awaiter = .context h := by
  have hold : (s.frame f).awaiter = .context h :=
    (r.next_context ha hx).resolve_right fun hn => absurd hn.1 (Nat.ne_of_lt hlt)
  have hn : f ≠ s.nextFrame := by
    rintro rfl
    rw [r.custodian.unborn_frame (Nat.le_refl _)] at hold
    cases hold
  have hnext := r.next_phase ha hn
  rw [hp] at hnext
  generalize hq : (s.frame f).phase = q at hnext
  cases hnext with
  | same => exact ⟨rfl, hold⟩
  | await =>
      -- a body that is executed waits for nothing, or for a callee
      have hfits := r.custodian.fits f
      rw [r.custodian.active_of_running (Or.inl (by rw [hq]; rfl))] at hfits
      rcases hfits.2 with ⟨-, hnone⟩ | ⟨hres, -⟩
      · by_cases hk : (s.frame f).kind = .trampoline
        · obtain ⟨c, k, hb⟩ := hfits.1.bridges.mp hk
          rw [hold] at hb
          cases hb
        · rw [hnone hk] at hold
          cases hold
      · rw [hq] at hres
        cases hres

/-- A coroutine that waits for a handler is resumed where it is, or where the handler is. -/
theorem continues_step (r : Accounts s b) {a : Action V E} (ha : s.Enabled a) {f : FrameId}
    {h : SuspId} {t : Site} (hk : (s.susp h).kind = .deferred ∨ (s.susp h).kind = .callback)
    (hp : ((s.next a).frame f).phase = .resuming t)
    (hx : ((s.next a).frame f).awaiter = .context h) :
    (s.frame f).awaiter = .context h ∧
      ((s.frame f).phase = .resuming t ∨ (s.frame f).phase = .suspending t ∨
        (s.susp h).stage = .claimed t) := by
  obtain ⟨haw, hold | hw⟩ := r.resumed ha hp
  · exact ⟨haw ▸ hx, Or.inl hold⟩
  · rw [haw] at hx
    obtain ⟨-, -, hcb⟩ := r.of_own_context (r.suspended_of_wakes hw) hx
    have hcompletion : (s.susp h).kind.isCompletion = true := by
      rw [hk.resolve_right hcb]
      rfl
    exact ⟨hx, Or.inr (r.of_wakes_completion hw hx hcompletion)⟩

end Accounts

/-! ## From the end of the promise to its handler -/

/-- The body of `c` is over, and wherever its trampoline `x` is resumed, its handler `h` invoked and
    the coroutine that waits for `h` resumed, `P` holds. -/
structure Delivering (P : Site → Prop) (s : State V E) (x c : FrameId) (h : SuspId) : Prop where
  returning : Returning P s c x
  exists_susp : h < s.nextSusp
  exists_frame : x < s.nextFrame
  bridge : ∀ d k, (s.frame x).awaiter = .bridge d k → d = c ∧ k = h
  stage : (s.susp h).stage ≠ .asio ∧ ∀ y, (s.susp h).stage = .held y → y = x
  kind : (s.susp h).kind = .deferred ∨ (s.susp h).kind = .callback
  trampoline : ∀ t, (s.frame x).phase = .resuming t → (s.frame x).awaiter = .bridge c h → P t
  handler : ∀ t, (s.susp h).stage = .invoked t ∨ (s.susp h).stage = .claimed t → P t
  awaiting : ∀ f t, (s.frame f).phase = .suspending t → (s.frame f).awaiter = .context h → P t
  coroutine : ∀ f t, (s.frame f).phase = .resuming t → (s.frame f).awaiter = .context h → P t

namespace Delivering

variable {P : Site → Prop} {x c : FrameId} {h : SuspId}

/-- A handler that the trampoline holds is invoked where the trampoline is resumed. -/
theorem handler_step (i : Delivering P s x c h) {a : Action V E} (ha : s.Enabled a) {t : Site}
    (ht : ((s.next a).susp h).stage = .invoked t ∨ ((s.next a).susp h).stage = .claimed t) :
    P t := by
  rcases next_susp ha h with he | he | ⟨he, _⟩
  · rw [he] at ht
    exact i.handler t ht
  · have hstage : (s.susp h).stage = .invoked t ∨ (s.susp h).stage = .claimed t ∨
        (∃ y, (s.susp h).stage = .held y) := by
      have hasio := i.stage.1
      generalize (s.next a).susp h = r' at he ht
      cases he <;> grind [Suspension.endBy]
    rcases hstage with hst | hst | ⟨y, hst⟩
    · exact i.handler t (Or.inl hst)
    · exact i.handler t (Or.inr hst)
    · obtain rfl := i.stage.2 y hst
      rcases next_held ha i.exists_susp hst with hst' | ⟨d, rfl⟩ | ⟨_, hst'⟩
      · rw [hst'] at ht
        rcases ht with ht | ht <;> cases ht
      · obtain ⟨hp, haw, _⟩ := ha
        obtain ⟨u, hu⟩ := Phase.isResuming_iff.mp hp
        obtain ⟨rfl, _⟩ := i.bridge d h haw
        have hut : u = t := by
          simp only [next, State.trampolineInvoke, hu] at ht
          split_ifs at ht <;> simp_all [completionSetValue, Phase.site]
        exact hut ▸ i.trampoline u hu haw
      · rw [hst'] at ht
        rcases ht with ht | ht <;> cases ht
  · exact absurd he (Nat.ne_of_lt i.exists_susp)

theorem step (i : Delivering P s x c h) (r : Accounts s b) {a : Action V E} (ha : s.Enabled a) :
    Delivering P (s.next a) x c h := by
  constructor
  case returning => exact i.returning.step r ha
  case exists_susp => exact Nat.lt_of_lt_of_le i.exists_susp (s.nextSusp_le a)
  case exists_frame =>
    by_cases hb : (s.next a).nextFrame = s.nextFrame
    · rw [hb]
      exact i.exists_frame
    · rw [(next_born hb).1]
      exact Nat.lt_succ_of_lt i.exists_frame
  case bridge =>
    intro d k hx
    rcases r.next_bridge ha hx with hx | ⟨hx, _⟩
    · exact i.bridge d k hx
    · exact absurd hx (Nat.ne_of_lt i.exists_frame)
  case stage =>
    rcases next_susp ha h with he | he | ⟨he, _⟩
    · rw [he]
      exact i.stage
    · have hst := i.stage
      generalize (s.next a).susp h = r' at he ⊢
      cases he <;> grind [Suspension.endBy]
    · exact absurd he (Nat.ne_of_lt i.exists_susp)
  case trampoline =>
    intro t hp hx
    obtain ⟨haw, hw⟩ := r.resumed ha hp
    rw [haw] at hx
    rcases hw with hold | hw
    · exact i.trampoline t hold hx
    · exact i.returning.of_wakes r (by rw [hx]; rfl) hw
  case kind =>
    rcases next_susp ha h with he | he | ⟨he, _⟩
    · rw [he]
      exact i.kind
    · rw [he.names.1]
      exact i.kind
    · exact absurd he (Nat.ne_of_lt i.exists_susp)
  case handler => exact fun t ht => i.handler_step ha ht
  case awaiting =>
    intro f t hp hx
    obtain ⟨hp, hx⟩ := r.awaiting_step ha i.exists_susp hp hx
    exact i.awaiting f t hp hx
  case coroutine =>
    intro f t hp hx
    obtain ⟨hx, hp | hp | hst⟩ := r.continues_step ha i.kind hp hx
    · exact i.coroutine f t hp hx
    · exact i.awaiting f t hp hx
    · exact i.handler t (Or.inr hst)

theorem run {s' : State V E} {as : List (Action V E)} (i : Delivering P s x c h)
    (hs : Reachable s) (hrun : Transition.Run runtime s as s') : Delivering P s' x c h := by
  induction hrun with
  | nil => exact i
  | cons ha _ ih =>
      obtain ⟨b, r⟩ := hs.accounts
      exact ih (i.step r ha) (hs.step ha)

/-- The body of a promise that a trampoline drives ends. -/
theorem start (r : Accounts s b) (n : Inherits s) (e : BodyEnd V E) (hb : s.inBody c = true)
    (hc : (s.frame c).caller = some x) (hx : (s.frame x).awaiter = .bridge c h)
    (hP : P (s.handOver c))
    (hA : ∀ f t, (s.frame f).phase = .suspending t → (s.frame f).awaiter = .context h → P t) :
    Delivering P (s.next (.coReturn c e)) x c h := by
  have hback := r.handBack_trampoline n hb hc hx
  have hstep : s.Enabled (.coReturn c e) := ⟨hb, by rw [r.promise_of_caller hb hc]; simp⟩
  have hxp : (s.frame x).phase = .suspended := by
    have hf := r.custodian.fits x
    rw [(r.custodian.owned x c).mpr hc] at hf
    exact hf.2.1
  have hst : (s.susp h).stage = .held x :=
    (r.custodian.held x h).mpr ⟨⟨c, hx⟩, by rw [hxp]; rfl⟩
  have hlt : h < s.nextSusp := by
    by_contra hn
    rw [r.custodian.newSusp h (Nat.le_of_not_lt hn)] at hst
    cases hst
  have hxlt : x < s.nextFrame := by
    by_contra hn
    rw [r.custodian.unborn_frame (Nat.le_of_not_lt hn)] at hxp
    cases hxp
  have hst' : ((s.next (.coReturn c e)).susp h).stage = .held x := by
    rcases next_held hstep hlt hst with hst' | ⟨_, h'⟩ | ⟨h', _⟩
    · exact hst'
    · cases h'
    · cases h'
  have hreturning : Returning P (s.next (.coReturn c e)) c x := by
    refine Returning.start r e hb hc ?_
    rw [hback]
    unfold handOver at hP
    cases hin : (s.frame c).innerExecutor with
    | none =>
        rw [hin] at hP
        exact hP
    | some ex =>
        rw [hin] at hP
        exact hP
  have hkind : (s.susp h).kind = .deferred ∨ (s.susp h).kind = .callback :=
    ((r.sound h).bridged (Or.inl ⟨x, hst⟩)).imp And.left id
  refine ⟨hreturning, Nat.lt_of_lt_of_le hlt (s.nextSusp_le _), ?_, fun d k hd => ?_, ?_, ?_,
    ?_, ?_, fun f t hp hf => ?_, fun f t hp hf => ?_⟩
  · rw [next_nextFrame rfl]
    exact hxlt
  · rcases r.next_bridge hstep hd with hd | ⟨hd, _⟩
    · rw [hx] at hd
      cases hd
      exact ⟨rfl, rfl⟩
    · exact absurd hd (Nat.ne_of_lt hxlt)
  · rw [hst']
    exact ⟨(by simp), fun y hy => by cases hy; rfl⟩
  · rcases next_susp hstep h with he | he | ⟨he, _⟩
    · rwa [he]
    · rwa [he.names.1]
    · exact absurd he (Nat.ne_of_lt hlt)
  · intro t hp _
    -- only a hand-back on the spot resumes the trampoline now
    rcases (r.resumed hstep hp).2 with hold | hw
    · rw [hxp] at hold
      cases hold
    · cases hw with
      | direct hp _ _ hdirect =>
          unfold handOver at hP
          rw [hback] at hdirect
          cases hin : (s.frame c).innerExecutor with
          | none =>
              rw [hin, hp] at hP
              exact hP
          | some ex =>
              rw [hin] at hdirect
              cases hdirect
  · intro t ht
    rw [hst'] at ht
    rcases ht with ht | ht <;> cases ht
  · obtain ⟨hp, hf⟩ := r.awaiting_step hstep hlt hp hf
    exact hA f t hp hf
  · obtain ⟨hf, hp | hp | hclaimed⟩ := r.continues_step hstep hkind hp hf
    · -- a coroutine that goes on has no open suspension
      have hclosed := (r.custodian.woken f h
        (r.custodian.active_of_running (Or.inr (by rw [hp]; rfl))) hf).1
      rw [Suspension.isOpen, hst] at hclosed
      cases hclosed
    · exact hA f t hp hf
    · rw [hst] at hclaimed
      cases hclaimed

end Delivering

/-- The trampoline can be resumed where the promise hands it over, while others stay as they are. -/
theorem Accounts.handOver_resumes (r : Accounts s b) (n : Inherits s) {x c : FrameId} {h : SuspId}
    (e : BodyEnd V E) (hb : s.inBody c = true) (hc : (s.frame c).caller = some x)
    (hx : (s.frame x).awaiter = .bridge c h) (hh : h < s.nextSusp) :
    ∃ as s', Transition.Run runtime (s.next (.coReturn c e)) as s' ∧
      (s'.frame x).phase = .resuming (s.handOver c) ∧ (s'.frame x).awaiter = .bridge c h ∧
      s'.susp h = s.susp h ∧ ∀ f, f ≠ c → f ≠ x → s'.frame f = s.frame f := by
  have hback := r.handBack_trampoline n hb hc hx
  have hkind := r.promise_of_caller hb hc
  obtain ⟨g', hg', -, hgp, hgc, hret⟩ := r.custodian.returned r.stored e hb hkind
  obtain rfl : x = g' := by simpa [hc] using hg'
  unfold handOver
  cases hin : (s.frame c).innerExecutor with
  | none =>
      simp only [Returned, hback, hin] at hret
      obtain ⟨-, hs, hfr⟩ := hret
      refine ⟨[], _, .nil _, by simp [next, hfr, hgc], by simp [next, hfr, hgc, hx], hs h,
        fun f hfc hfx => ?_⟩
      simp [next, hfr, hfc, hfx]
  | some ex =>
      simp only [Returned, hback, hin] at hret
      obtain ⟨-, hs, hfr⟩ := hret
      have hne : h ≠ s.nextSusp := Nat.ne_of_lt hh
      refine ⟨[.plainResume s.nextSusp ex], _, .cons ?_ (.nil _), ?_, ?_, ?_, fun f hfc hfx => ?_⟩
      · exact ⟨by simp [next, hs], by simp [next, hs], by simp [next, hs]⟩
      · simp [runtime, next, State.plainResume, resume_frame, hs, hfr, hgc, hgp, Phase.afterResume]
      · simp [runtime, next, State.plainResume, resume_frame, hs, hfr, hgc, hx]
      · simp [runtime, next, State.plainResume, hs, hne]
      · simp [runtime, next, State.plainResume, resume_frame, hs, hfr, hfc, hfx]

/-- The handler can be invoked before the coroutine that waits for it makes its exchange; then that
    goes on where it is. -/
theorem State.eager_resumes {x c f : FrameId} {h : SuspId} {t u : Site}
    (hx : (s.frame x).phase = .resuming t) (ha : (s.frame x).awaiter = .bridge c h)
    (hst : (s.susp h).stage = .held x) (hk : (s.susp h).kind = .deferred)
    (hf : (s.frame f).phase = .suspending u) (haf : (s.frame f).awaiter = .context h)
    (hside : (s.susp h).side ≠ .left) :
    ∃ as s', Transition.Run runtime s as s' ∧ (s'.frame f).phase = .resuming u ∧
      (s'.frame f).awaiter = .context h := by
  have hfx : f ≠ x := by
    rintro rfl
    rw [hx] at hf
    cases hf
  have hinvoke : s.Enabled (.trampolineInvoke x c h) := ⟨by rw [hx]; rfl, ha, hst⟩
  cases hs : (s.susp h).side with
  | left => exact absurd hs hside
  | initiating m =>
      refine ⟨[.trampolineInvoke x c h, .resumeCompleted h t, .initiationReturns f h,
        .resumeAwaiting f h], _, .cons hinvoke (.cons ?_ (.cons ?_ (.cons ?_ (.nil _)))), ?_, ?_⟩
      · simp [runtime, Enabled, next, State.trampolineInvoke, completionSetValue, hk, hx,
          Phase.site]
      · refine ⟨?_, ?_, ?_⟩ <;> simp [runtime, next, State.trampolineInvoke, completionSetValue,
          State.resumeCompleted, hk, hfx, hf, haf, hs, Phase.isSuspending]
      · refine ⟨?_, ?_, ?_⟩ <;> simp [runtime, next, State.trampolineInvoke, completionSetValue,
          State.resumeCompleted, State.initiationReturns, hk, hfx, hf, haf, AwaitSide.saved,
          Phase.isSuspending]
      · simp [runtime, next, State.trampolineInvoke, completionSetValue, State.resumeCompleted,
          State.initiationReturns, State.resumeAwaiting, hk, hfx, hf, ContextState.resumeAwaiting,
          Phase.site]
      · simp [runtime, next, State.trampolineInvoke, completionSetValue, State.resumeCompleted,
          State.initiationReturns, State.resumeAwaiting, hk, hfx, haf,
          ContextState.resumeAwaiting]
  | exchanging o =>
      refine ⟨[.trampolineInvoke x c h, .resumeCompleted h t, .resumeAwaiting f h], _,
        .cons hinvoke (.cons ?_ (.cons ?_ (.nil _))), ?_, ?_⟩
      · simp [runtime, Enabled, next, State.trampolineInvoke, completionSetValue, hk, hx,
          Phase.site]
      · refine ⟨?_, ?_, ?_⟩ <;> simp [runtime, next, State.trampolineInvoke, completionSetValue,
          State.resumeCompleted, hk, hfx, hf, haf, hs, AwaitSide.saved, Phase.isSuspending]
      · simp [runtime, next, State.trampolineInvoke, completionSetValue, State.resumeCompleted,
          State.resumeAwaiting, hk, hfx, hf, ContextState.resumeAwaiting, Phase.site]
      · simp [runtime, next, State.trampolineInvoke, completionSetValue, State.resumeCompleted,
          State.resumeAwaiting, hk, hfx, haf, ContextState.resumeAwaiting]

/-- A coroutine that has not left its `await_suspend` when the promise ends can go on there. -/
theorem Accounts.awaiting_resumes (r : Accounts s b) (n : Inherits s) {x c f : FrameId} {h : SuspId}
    {u : Site} (e : BodyEnd V E) (hb : s.inBody c = true) (hc : (s.frame c).caller = some x)
    (hx : (s.frame x).awaiter = .bridge c h) (hf : (s.frame f).phase = .suspending u)
    (haf : (s.frame f).awaiter = .context h) :
    ∃ as s', Transition.Run runtime (s.next (.coReturn c e)) as s' ∧
      (s'.frame f).phase = .resuming u ∧ (s'.frame f).awaiter = .context h := by
  obtain ⟨hl, hfin, hcb⟩ := r.of_own_context (Or.inr ⟨u, hf⟩) haf
  have hside : (s.susp h).side ≠ .left := fun hleft => by
    have hp := (r.custodian.own f h hl hfin).2.2.mpr hleft
    rw [hf] at hp
    cases hp
  have hxp : (s.frame x).phase = .suspended := by
    have hfits := r.custodian.fits x
    rw [(r.custodian.owned x c).mpr hc] at hfits
    exact hfits.2.1
  have hst : (s.susp h).stage = .held x :=
    (r.custodian.held x h).mpr ⟨⟨c, hx⟩, by rw [hxp]; rfl⟩
  have hk : (s.susp h).kind = .deferred :=
    (((r.sound h).bridged (Or.inl ⟨x, hst⟩)).resolve_right hcb).1
  have hfc : f ≠ c := by
    rintro rfl
    obtain ⟨-, -, -, t, ht⟩ := r.custodian.of_inBody hb
    rw [hf] at ht
    cases ht
  have hfx : f ≠ x := by
    rintro rfl
    rw [hf] at hxp
    cases hxp
  obtain ⟨as, s₁, hrun, hp₁, hx₁, hh₁, hfr₁⟩ :=
    r.handOver_resumes n e hb hc hx (r.custodian.context f h haf).1
  obtain ⟨bs, s₂, hrun', hend⟩ := State.eager_resumes hp₁ hx₁ (hh₁ ▸ hst) (hh₁ ▸ hk)
    (hfr₁ f hfc hfx ▸ hf) (hfr₁ f hfc hfx ▸ haf) (hh₁ ▸ hside)
  exact ⟨as ++ bs, s₂, hrun.append hrun', hend⟩

theorem Accounts.awaitsInside_of_left (r : Accounts s b) {h : SuspId} {ex : Executor}
    (hleft : (s.susp h).side = .left) : s.AwaitsInside h ex := by
  intro f t hf haf
  obtain ⟨hl, hfin, -⟩ := r.of_own_context (Or.inr ⟨t, hf⟩) haf
  have hp := (r.custodian.own f h hl hfin).2.2.mpr hleft
  rw [hf] at hp
  cases hp

/-- The body of a promise that is run through `await` ends: in all runs from there the completion
    handler is invoked, and the coroutine that waits for it continues, inside the executor `ex` if
    and only if the promise hands its trampoline over inside `ex`, and the coroutine has left its
    `await_suspend` or is inside `ex` there. -/
theorem await_executor_iff (hs : Reachable s) {x c : FrameId} {h : SuspId} (ex : Executor)
    (e : BodyEnd V E) (hb : s.inBody c = true) (hc : (s.frame c).caller = some x)
    (hx : (s.frame x).awaiter = .bridge c h) :
    (∀ as s', Transition.Run runtime (s.next (.coReturn c e)) as s' →
      s'.InvokesInside x c h ex) ↔ ex ∈ s.handOver c ∧ s.AwaitsInside h ex := by
  obtain ⟨b, r⟩ := hs.accounts
  have n := hs.inherits
  have hstep : runtime.enabled s (.coReturn c e) := ⟨hb, by rw [r.promise_of_caller hb hc]; simp⟩
  have hh : h < s.nextSusp := by
    by_contra hn
    have hheld := (r.custodian.held x h).mpr ⟨⟨c, hx⟩, by
      have hfits := r.custodian.fits x
      rw [(r.custodian.owned x c).mpr hc] at hfits
      rw [hfits.2.1]
      rfl⟩
    rw [r.custodian.newSusp h (Nat.le_of_not_lt hn)] at hheld
    cases hheld
  constructor
  · intro hall
    refine ⟨?_, fun f u hf haf => ?_⟩
    · obtain ⟨as, s', hrun, hp, hx', -⟩ := r.handOver_resumes n e hb hc hx hh
      exact (hall as s' hrun).trampoline _ hp hx'
    · obtain ⟨as, s', hrun, hp, ha⟩ := r.awaiting_resumes n e hb hc hx hf haf
      exact (hall as s' hrun).coroutine f u hp ha
  · rintro ⟨hin, hawaits⟩ as s' hrun
    have i := (Delivering.start (P := (ex ∈ ·)) r n e hb hc hx hin hawaits).run (hs.step hstep) hrun
    exact ⟨i.trampoline, i.handler, i.coroutine⟩

/-- A coroutine on one context awaits, through `await`, a promise that makes the hops `hops`. -/
def awaitingOnContext (hops : List (Action Unit Unit)) : List (Action Unit Unit) :=
  [.detach [] none false, .awaitPost 0 ⟨.context 1, false⟩, .plainResume 0 (.context 1),
    .awaitResume 0, .create none, .awaitAwait 0 1, .initiationReturns 0 1,
    .resumeAwaiting 0 1] ++ hops

/-- The promise makes no hop: the handler is invoked on the context of the coroutine. -/
theorem await_executor_iff_stays :
    (State.after (awaitingOnContext [.coReturn 1 (.returned () none), .trampolineInvoke 2 1 1,
      .resumeCompleted 1 [.context 1]])).InvokesInside 2 1 1 (.context 1) := by
  have hrun : Transition.Run runtime
      ((State.after (awaitingOnContext [])).next (.coReturn 1 (.returned () none)))
      [.trampolineInvoke 2 1 1, .resumeCompleted 1 [.context 1]] _ := .of_legal (by decide)
  have hs : Reachable (State.after (awaitingOnContext [])) := .after (by decide)
  obtain ⟨b, r⟩ := hs.accounts
  exact (await_executor_iff hs (.context 1) (.returned () none) (by decide)
    (by decide) (by decide)).mpr ⟨by decide, r.awaitsInside_of_left (by decide)⟩ _ _ hrun

/-- The promise hops to another context: the handler is invoked there, and there the coroutine
    continues, although its executor is that of the first context. -/
theorem await_continues_elsewhere :
    let hops : List (Action Unit Unit) := [.awaitPost 1 ⟨.context 2, false⟩,
      .plainResume 2 (.context 2), .awaitResume 1, .coReturn 1 (.returned () none),
      .trampolineInvoke 2 1 1]
    let s : State Unit Unit := State.after (awaitingOnContext hops)
    let s' : State Unit Unit := State.after (awaitingOnContext
      (hops ++ [.resumeCompleted 1 [.context 2], .handlerResume 1 [.context 2]]))
    Transition.Run runtime State.init (awaitingOnContext
        (hops ++ [.resumeCompleted 1 [.context 2], .handlerResume 1 [.context 2]])) s' ∧
      s.getExecutor 0 = some (.context 1) ∧ (s.susp 1).handle = 0 ∧
      (s.susp 1).stage = .invoked [.context 2] ∧
      ¬ s.InvokesInside 2 1 1 (.context 1) ∧
      (s'.frame 0).phase = .resuming [.context 2] := by
  refine ⟨.of_legal (by decide), by decide, by decide, by decide, fun hi => ?_, by decide⟩
  have hmem := hi.handler [.context 2] (Or.inl (by decide))
  revert hmem
  decide

end WebAsio.Coro
