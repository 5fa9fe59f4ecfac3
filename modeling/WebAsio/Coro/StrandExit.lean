import WebAsio.Coro.Affinity

set_option autoImplicit false

/-! # Leaving a strand

At its final suspension a callee hands its caller back, and when the callee runs on a strand it is
to leave the strand first. `set_executor` recognises a strand by its static type, so a strand inside
an `any_io_executor` is not left. -/

namespace WebAsio.Coro

open Custody State

variable {V E : Type} {s : State V E} {b : Book FrameId SuspId}

/-- Where the caller of a callee on the strand `i` over `inner` may continue: outside that strand
    unless it is the caller's own executor, inside the caller's executor if there is one, and
    inside `inner` otherwise. -/
def Continues (caller : Option Executor) (i : Nat) (inner : Executor) (t : Site) : Prop :=
  (.strand i inner ∈ t → caller = some (.strand i inner)) ∧
    (∀ ex, caller = some ex → ex ∈ t) ∧ (caller = none → inner ∈ t)

/-- The callee `c` on the strand `i` over `inner` lets its caller `g` continue in the right place:
    the strand was adopted with its own type, and the caller's executor is no other strand over it;
    or it was adopted type-erased, and the place where the body of `c` ends is right already. -/
def State.ExitsStrand (s : State V E) (c g : FrameId) (i : Nat) (inner : Executor) (erased : Bool) :
    Prop :=
  if erased then Continues (s.getExecutor g) i inner (s.frame c).phase.site
  else ∀ ex, s.getExecutor g = some ex → .strand i inner ∈ ex.site → ex = .strand i inner

instance (caller : Option Executor) (i : Nat) (inner : Executor) (t : Site) :
    Decidable (Continues caller i inner t) := by
  cases caller <;> simp only [Continues] <;> infer_instance

/-! ## From the end of the callee to the caller -/

/-- Only a promise has a caller. -/
theorem Accounts.promise_of_caller (r : Accounts s b) {c g : FrameId} (hb : s.inBody c = true)
    (hg : (s.frame c).caller = some g) : (s.frame c).kind = .promise := by
  have hf := r.custodian.fits c
  rw [(r.custodian.of_inBody hb).1] at hf
  exact hf.1.called.mpr (by simp [hg])

/-- The body of `c` is over, and wherever its caller `g` may be resumed, `P` holds. -/
structure Returning (P : Site → Prop) (s : State V E) (c g : FrameId) : Prop where
  ended : (∃ t, (s.frame c).phase = .finalizing t) ∨ (s.frame c).phase = .parked ∨
    (s.frame c).phase = .destroying ∨ (s.frame c).phase = .destroyed
  handler : ∀ k t, (s.susp k).frame = c → (s.susp k).kind.isFinal = true →
    (s.susp k).HandlerAt t → P t
  awaiter : ∀ t, (s.frame c).phase = .finalizing t → P t
  resumed : ∀ t, (s.frame g).phase = .resuming t → (s.frame g).awaiter = .coro c → P t

theorem AwaitKind.isQueued_of_isFinal {k : AwaitKind} (h : k.isFinal = true) :
    k.isQueued = true := by
  revert h; cases k <;> simp [isFinal, isQueued]

namespace Returning

variable {P : Site → Prop} {c g : FrameId}

theorem not_inBody (i : Returning P s c g) : s.inBody c = false := by
  rcases i.ended with ⟨t, h⟩ | h | h | h <;> simp [inBody, h, Phase.isRunning]

/-- Where the caller that awaits `c` is resumed, `P` holds. -/
theorem of_wakes (i : Returning P s c g) (r : Accounts s b) {a : Action V E} {t : Site}
    (hg : (s.frame g).awaiter.callee = some c) (hw : Wakes s g t a) : P t := by
  rcases hw.cases r with ⟨k, hk, -⟩ | ⟨k, -, -, hfin, hk, hres⟩ | ⟨c', e, -, hb, -, hk, -⟩
  · simp [hk, Awaiter.callee] at hg
  · obtain rfl : c = (s.susp k).frame := by simpa [hg] using hk
    rcases hres with hh | ⟨⟨hside, rfl⟩, -⟩
    · exact i.handler k t rfl hfin hh
    · obtain ⟨⟨u, hu⟩, -⟩ := r.site_of_side hside
      rcases i.ended with ⟨v, hv⟩ | hv | hv | hv <;> simp only [hv] at hu ⊢ <;> simp at hu
      exact i.awaiter v hv
  · obtain rfl : c = c' := by simpa [hg] using hk
    simp [i.not_inBody] at hb

theorem step (i : Returning P s c g) (r : Accounts s b) {a : Action V E} (h : s.Enabled a) :
    Returning P (s.next a) c g := by
  have hcn : c ≠ s.nextFrame := by
    rintro rfl
    have := i.ended
    simp [r.custodian.unborn_frame (Nat.le_refl _)] at this
  have hphase := r.next_phase h hcn
  constructor
  case ended =>
    rcases i.ended with ⟨t, hp⟩ | hp | hp | hp <;> rw [hp] at hphase <;>
      generalize ((s.next a).frame c).phase = p at hphase ⊢ <;> cases hphase <;> simp_all
  case awaiter =>
    intro t ht
    rcases i.ended with ⟨u, hp⟩ | hp | hp | hp <;> rw [hp, ht] at hphase <;> cases hphase
    exact i.awaiter t hp
  case handler =>
    intro k t hf hk ht
    rcases next_susp h k with he | he | ⟨rfl, -⟩
    · rw [he] at hf hk ht
      exact i.handler k t hf hk ht
    · rw [he.names.1] at hk
      rw [he.names.2.1] at hf
      exact i.handler k t hf hk (he.handlerAt (r.sound k) (AwaitKind.isQueued_of_isFinal hk) ht)
    · -- another callee ends
      obtain ⟨f, e, -, -, rfl, -, -, hfr, -⟩ := r.next_final h hk
      obtain rfl : f = c := hfr.symm.trans hf
      have hbody := h.1
      simp [i.not_inBody] at hbody
  case resumed =>
    intro t hp hg
    obtain ⟨haw, hw⟩ := r.resumed h hp
    rw [haw] at hg
    rcases hw with hold | hw
    · exact i.resumed t hold hg
    · exact i.of_wakes r (by rw [hg]; rfl) hw

theorem run {s' : State V E} {as : List (Action V E)} (i : Returning P s c g) (hs : Reachable s)
    (h : Transition.Run runtime s as s') : Returning P s' c g := by
  induction h with
  | nil => exact i
  | cons ha _ ih =>
      obtain ⟨b, r⟩ := hs.accounts
      exact ih (i.step r ha) (hs.step ha)

/-- The handlers and threads that may resume the caller right after the callee's body ended. -/
theorem start (r : Accounts s b) (e : BodyEnd V E) (hb : s.inBody c = true)
    (hg : (s.frame c).caller = some g)
    (hP : match s.handBack c with
      | .direct => P (s.frame c).phase.site
      | .dispatch ex => P (s.frame c).phase.site ∧ (ex ∉ (s.frame c).phase.site → P ex.site)
      | .defer ex => P ex.site) :
    Returning P (s.next (.coReturn c e)) c g := by
  have hkind := r.promise_of_caller hb hg
  obtain ⟨g', hg', -, hgp, hgc, hret⟩ := r.custodian.returned r.stored e hb hkind
  obtain rfl : g = g' := by simpa [hg] using hg'
  -- the handlers of an earlier end of `c` are none
  have hnone : ∀ k t, (s.susp k).frame = c → (s.susp k).kind.isFinal = true →
      ¬ (s.susp k).HandlerAt t := by
    intro k t hf hk ht
    have ho : (s.susp k).isOpen = true := by
      rcases ht with ht | ht | ht <;> simp [Suspension.isOpen, ht]
    have hcb : (s.susp k).kind ≠ .callback := by rintro he; simp [he, AwaitKind.isFinal] at hk
    have hs := (r.custodian.final _ k (r.custodian.leased_of_open ho hcb) hk).2.2.1
    rw [hf, (r.custodian.of_inBody hb).1] at hs
    simp at hs
  rcases hback : s.handBack c with _ | ex | ex <;> simp only [Returned, hback] at hret hP <;>
    obtain ⟨-, hs, hfr⟩ := hret
  case direct =>
    constructor
    · simp [next, hfr, finished]
    · intro k t hf hk ht
      simp only [next, hs] at hf hk ht
      exact absurd ht (hnone k t hf hk)
    · simp [next, hfr, finished]
    · intro t ht
      simp only [next, hfr, if_neg hgc, if_true, Phase.resuming.injEq] at ht
      exact fun _ => ht ▸ hP
  case dispatch =>
    constructor
    · simp [next, hfr, finished]
    · intro k t hf hk ht
      simp only [next, hs] at hf hk ht
      split at ht
      · simp only [Suspension.HandlerAt, dispatchContext] at ht
        split at ht <;> simp_all
      · rename_i hne
        simp only [hne, if_false] at hf hk
        exact absurd ht (hnone k t hf hk)
    · intro t ht
      simp only [next, hfr, if_true, finished, Phase.finalizing.injEq] at ht
      exact ht ▸ hP.1
    · simp [next, hfr, hgc, hgp]
  case defer =>
    constructor
    · simp [next, hfr, finished]
    · intro k t hf hk ht
      simp only [next, hs] at hf hk ht
      split at ht
      · simp_all [Suspension.HandlerAt]
      · rename_i hne
        simp only [hne, if_false] at hf hk
        exact absurd ht (hnone k t hf hk)
    · simp [next, hfr, finished]
    · simp [next, hfr, hgc, hgp]

end Returning

/-- A thread at `t` can come to resume the caller. -/
def ResumesIn (s : State V E) (c g : FrameId) (t : Site) : Prop :=
  ∃ as s', Transition.Run runtime s as s' ∧ (s'.frame g).phase = .resuming t ∧
    (s'.frame g).awaiter = .coro c

/-- The caller is resumed where the callee was, unless it is deferred to an executor. -/
theorem Accounts.resumesIn (r : Accounts s b) {c g : FrameId} (e : BodyEnd V E)
    (hb : s.inBody c = true) (hg : (s.frame c).caller = some g)
    (ha : (s.frame g).awaiter = .coro c) :
    match s.handBack c with
    | .direct | .dispatch _ => ResumesIn (s.next (.coReturn c e)) c g (s.frame c).phase.site
    | .defer ex => ResumesIn (s.next (.coReturn c e)) c g ex.site := by
  have hkind := r.promise_of_caller hb hg
  obtain ⟨g', hg', -, hgp, hgc, hret⟩ := r.custodian.returned r.stored e hb hkind
  obtain rfl : g = g' := by simpa [hg] using hg'
  rcases hback : s.handBack c with _ | ex | ex <;> simp only [Returned, hback] at hret ⊢ <;>
    obtain ⟨-, hs, hfr⟩ := hret
  case direct => exact ⟨[], _, .nil _, by simp [next, hfr, hgc], by simp [next, hfr, hgc, ha]⟩
  case defer =>
    refine ⟨[.plainResume s.nextSusp ex], _, .cons ?_ (.nil _), ?_, ?_⟩
    · exact ⟨by simp [next, hs], by simp [next, hs], by simp [next, hs]⟩
    · simp [runtime, next, State.plainResume, resume_frame, hs, hfr, hgc, hgp, Phase.afterResume]
    · simp [runtime, next, State.plainResume, resume_frame, hs, hfr, hgc, ha]
  case dispatch =>
    obtain ⟨-, -, -, t, ht⟩ := r.custodian.of_inBody hb
    have hsite : (s.frame c).phase.site = t := by rw [ht]; rfl
    rw [hsite] at hs hfr ⊢
    by_cases hin : ex ∈ t
    · refine ⟨[.finalResumeAwaiting c s.nextSusp], _, .cons ?_ (.nil _), ?_, ?_⟩
      · exact ⟨by simp [next, hfr, finished, Phase.isFinalizing], by simp [next, hfr, finished],
          by simp [next, hs, AwaitSide.saved]⟩
      · simp [runtime, next, State.finalResumeAwaiting, resume_frame, hs, hfr, hgc, hgp,
          dispatchContext, hin, Phase.afterResume, finished, Phase.site,
          ContextState.resumeAwaiting]
      · simp [runtime, next, State.finalResumeAwaiting, resume_frame, hs, hfr, hgc, ha,
          dispatchContext, hin, ContextState.resumeAwaiting]
    · -- another thread of the executor runs the handler before the exchange
      refine ⟨[.dispatchEnter s.nextSusp ex, .resumeCompleted s.nextSusp ex.site,
        .finalResumeAwaiting c s.nextSusp], _, .cons ?_ (.cons ?_ (.cons ?_ (.nil _))), ?_, ?_⟩
      · exact ⟨by simp [next, hs, dispatchContext, hin], by simp [next, hs], by simp [next, hs]⟩
      · simp [runtime, Enabled, next, State.dispatchEnter]
      · refine ⟨?_, ?_, ?_⟩ <;> simp [runtime, next, State.dispatchEnter, State.resumeCompleted,
          hs, hfr, finished, Phase.isFinalizing, AwaitSide.saved]
      · simp [runtime, next, State.dispatchEnter, State.resumeCompleted,
          State.finalResumeAwaiting, resume_frame, hs, hfr, hgc, hgp,
          Phase.afterResume, finished, Phase.site, ContextState.resumeAwaiting]
      · simp [runtime, next, State.dispatchEnter, State.resumeCompleted,
          State.finalResumeAwaiting, resume_frame, hs, hfr, hgc, ha,
          ContextState.resumeAwaiting]

/-! ## The exact condition -/

theorem continues_inner (i : Nat) (inner : Executor) : Continues none i inner inner.site :=
  ⟨fun h => absurd h (Executor.strand_not_mem_site i inner), by simp, fun _ => by simp⟩

theorem continues_site_iff (ex : Executor) (i : Nat) (inner : Executor) :
    Continues (some ex) i inner ex.site ↔
      (.strand i inner ∈ ex.site → ex = .strand i inner) := by
  simp [Continues]

/-- How a callee whose last hop was to a strand hands its caller back. -/
theorem Accounts.handBack_strand (r : Accounts s b) (n : Inherits s) {c g : FrameId} {i : Nat}
    {inner : Executor} {erased : Bool} (hb : s.inBody c = true) (hg : (s.frame c).caller = some g)
    (had : (s.frame c).adopted.head? = some ⟨.strand i inner, erased⟩) :
    s.handBack c =
      match s.getExecutor g with
      | some ex => if erased then .dispatch ex else .defer ex
      | none => if erased then .direct else .defer inner := by
  have hown : (s.frame c).executor = some (.strand i inner) := by
    simp [(n.adopts c).executor, had]
  have hinner : (s.frame c).innerExecutor = if erased then none else some inner := by
    simp [(n.adopts c).innerExecutor, had, ExecutorArg.getInnerExecutor]
  rw [r.handBack_eq n hb hg, hown, hinner]
  cases s.getExecutor g <;> cases erased <;> rfl

/-- **Leaving a strand.** A callee whose last hop was to the strand `i` over `inner` ends: in all
    runs from there its caller continues outside the strand unless that is the caller's own
    executor, and inside the caller's executor or else inside `inner`, if and only if
    `ExitsStrand` holds. -/
theorem strand_exit_iff (hs : Reachable s) {c g : FrameId} {i : Nat} {inner : Executor}
    {erased : Bool} (e : BodyEnd V E) (hb : s.inBody c = true) (hg : (s.frame c).caller = some g)
    (ha : (s.frame g).awaiter = .coro c)
    (had : (s.frame c).adopted.head? = some ⟨.strand i inner, erased⟩) :
    (∀ as s' t, Transition.Run runtime (s.next (.coReturn c e)) as s' →
      (s'.frame g).phase = .resuming t → (s'.frame g).awaiter = .coro c →
        Continues (s.getExecutor g) i inner t) ↔ s.ExitsStrand c g i inner erased := by
  obtain ⟨b, r⟩ := hs.accounts
  have n := hs.inherits
  have hkind := r.promise_of_caller hb hg
  have hback := r.handBack_strand n hb hg had
  have hin := r.resumesIn e hb hg ha
  have hstep : runtime.enabled s (.coReturn c e) := ⟨hb, by simp [hkind]⟩
  constructor
  · -- some run resumes the caller at the place in question
    intro hall
    have hcont : ∀ t, ResumesIn (s.next (.coReturn c e)) c g t →
        Continues (s.getExecutor g) i inner t := by
      rintro t ⟨as, s', hr, hp, hw⟩
      exact hall as s' t hr hp hw
    rw [hback] at hin
    rcases hex : s.getExecutor g with _ | ex <;> rw [hex] at hin hcont <;>
      cases erased <;> simp only [ExitsStrand, hex, if_true, Bool.false_eq_true, if_false] at hin ⊢
    · simp
    · exact hcont _ hin
    · have := (continues_site_iff ex i inner).mp (hcont _ hin)
      rintro _ ⟨rfl⟩
      exact this
    · exact hcont _ hin
  · -- every place where the caller can be resumed is one of those
    intro hexit as s' t hr hp hw
    have hstart : Returning (Continues (s.getExecutor g) i inner) (s.next (.coReturn c e)) c g := by
      refine Returning.start r e hb hg ?_
      rw [hback]
      rcases hex : s.getExecutor g with _ | ex <;> cases erased <;>
        simp only [ExitsStrand, hex, if_true, Bool.false_eq_true, if_false] at hexit ⊢
      · exact continues_inner i inner
      · exact hexit
      · exact (continues_site_iff ex i inner).mpr (hexit ex rfl)
      · exact ⟨hexit, fun hn => absurd (hexit.2.1 ex rfl) hn⟩
    exact (hstart.run (hs.step hstep) hr).resumed t hp hw

/-- A coroutine on one context awaits a promise that hops to a strand over another context. -/
def strandCallee (erased : Bool) : List (Action Unit Unit) :=
  [.detach [] none false, .awaitPost 0 ⟨.context 1, false⟩, .plainResume 0 (.context 1),
    .awaitResume 0, .create none, .awaitPromise 0 1, .awaitPost 1 ⟨.strand 3 (.context 1), erased⟩,
    .plainResume 1 (.strand 3 (.context 1)), .awaitResume 1]

theorem strand_exit_iff_concrete :
    Continues ((State.after (strandCallee false)).getExecutor 0) 3 (.context 1) [.context 1] := by
  have had : ((State.after (strandCallee false)).frame 1).adopted.head? =
      some ⟨.strand 3 (.context 1), false⟩ := by decide
  have hexit : (State.after (strandCallee false)).ExitsStrand 1 0 3 (.context 1) false := by
    intro ex hex hm
    obtain rfl : ex = .context 1 := by
      simpa [show (State.after (strandCallee false)).getExecutor 0 = some (.context 1) by decide]
        using hex.symm
    simp [Executor.site] at hm
  have hr : Transition.Run runtime
      ((State.after (strandCallee false)).next (.coReturn 1 (.returned () none)))
      [.plainResume 2 (.context 1)] _ := .of_legal (by decide)
  exact (strand_exit_iff (.after (by decide)) (.returned () none) (by decide) (by decide)
    (by decide) had).mpr hexit _ _ [.context 1] hr (by decide) (by decide)

/-- The same with the strand in an `any_io_executor`: the caller continues inside the strand. -/
theorem strand_not_left :
    let s := State.after (strandCallee true)
    let s' := State.after (strandCallee true ++
      [.coReturn 1 (.returned () none), .finalResumeAwaiting 1 2])
    Transition.Run runtime State.init (strandCallee true ++
      [.coReturn 1 (.returned () none), .finalResumeAwaiting 1 2]) s' ∧
    s.getExecutor 0 = some (.context 1) ∧ s'.getExecutor 0 = some (.context 1) ∧
    (s'.frame 0).phase = .resuming [.strand 3 (.context 1), .context 1] ∧
    (s'.frame 0).awaiter = .coro 1 ∧
    ¬ Continues (s.getExecutor 0) 3 (.context 1) [.strand 3 (.context 1), .context 1] :=
  ⟨.of_legal (by decide), by decide, by decide, by decide, by decide, by decide⟩

end WebAsio.Coro
