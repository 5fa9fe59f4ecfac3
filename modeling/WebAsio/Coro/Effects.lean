import WebAsio.Coro.Runtime

set_option autoImplicit false

/-! # What the member functions do to the frames

The effect of the longer member functions of the runtime on every frame, for the arguments their
callers give them, so that no later proof unfolds them. -/

namespace WebAsio.Coro.State

variable {V E : Type}

/-! ## Hops -/

section Hops

variable (r : Suspension V E) (ex : Executor) (t : Site)

@[simp] theorem dispatchContext_kind : (dispatchContext r ex t).kind = r.kind := by
  unfold dispatchContext; split <;> rfl

@[simp] theorem dispatchContext_frame : (dispatchContext r ex t).frame = r.frame := by
  unfold dispatchContext; split <;> rfl

@[simp] theorem dispatchContext_handle : (dispatchContext r ex t).handle = r.handle := by
  unfold dispatchContext; split <;> rfl

@[simp] theorem dispatchContext_side : (dispatchContext r ex t).side = r.side := by
  unfold dispatchContext; split <;> rfl

@[simp] theorem dispatchContext_stage_ne_held (b : FrameId) :
    (dispatchContext r ex t).stage ≠ .held b := by
  unfold dispatchContext; split <;> simp

@[simp] theorem dispatchContext_target : (dispatchContext r ex t).target = some ex := by
  unfold dispatchContext; split <;> rfl

end Hops

/-! ## Awaiting a promise -/

section Awaiting

variable (s : State V E)

@[simp] theorem coroAwaitSuspend_susp (f c : FrameId) (h : SuspId) :
    (s.coroAwaitSuspend f c).susp h = s.susp h := by
  simp [coroAwaitSuspend]

@[simp] theorem coroAwaitSuspend_nextSusp (f c : FrameId) :
    (s.coroAwaitSuspend f c).nextSusp = s.nextSusp := by
  simp [coroAwaitSuspend]

@[simp] theorem coroAwaitSuspend_nextFrame (f c : FrameId) :
    (s.coroAwaitSuspend f c).nextFrame = s.nextFrame := by
  simp [coroAwaitSuspend]

@[simp] theorem startAwait_susp (t : Site) (c : FrameId) (h : SuspId) :
    (s.startAwait t c).susp h =
      if h = s.nextSusp then
        { kind := .callback, frame := s.nextFrame, handle := s.nextFrame,
          stage := .held s.nextFrame }
      else s.susp h := by
  simp [startAwait]

@[simp] theorem startAwait_nextSusp (t : Site) (c : FrameId) :
    (s.startAwait t c).nextSusp = s.nextSusp + 1 := by
  simp [startAwait]

@[simp] theorem startAwait_nextFrame (t : Site) (c : FrameId) :
    (s.startAwait t c).nextFrame = s.nextFrame + 1 := by
  simp [startAwait]

@[simp] theorem awaitAwaitSuspend_susp (f c : FrameId) (h : SuspId) :
    (s.awaitAwaitSuspend f c).susp h =
      if h = s.nextSusp then
        { kind := .deferred, frame := f, handle := f, side := .initiating false,
          stage := .held s.nextFrame, weakThis := (s.frame f).sharedThis,
          restoreSharedThis := (s.frame f).sharedThis.isSome }
      else s.susp h := by
  simp [awaitAwaitSuspend]

@[simp] theorem awaitAwaitSuspend_nextSusp (f c : FrameId) :
    (s.awaitAwaitSuspend f c).nextSusp = s.nextSusp + 1 := by
  simp [awaitAwaitSuspend]

@[simp] theorem awaitAwaitSuspend_nextFrame (f c : FrameId) :
    (s.awaitAwaitSuspend f c).nextFrame = s.nextFrame + 1 := by
  simp [awaitAwaitSuspend]

end Awaiting

/-- What `coro_awaitable::await_suspend` does when the promise was not awaited yet. -/
theorem coroAwaitSuspend_frame (s : State V E) {f c : FrameId}
    (hp : (s.frame c).phase = .initial) (hc : (s.frame c).caller = none) (hne : f ≠ c)
    (x : FrameId) :
    (s.coroAwaitSuspend f c).frame x =
      if x = c then
        { s.frame c with
          caller := some f, phase := .running (s.frame f).phase.site
          callerExecutor :=
            if (s.getExecutor f).isSome then s.executorRef f else (s.frame c).callerExecutor }
      else if x = f then { s.frame f with phase := .suspended, awaiter := .coro c }
      else s.frame x := by
  have hre : (s.touchExecutor (s.executorRef f)).resetCaller c f =
      (s.touchExecutor (s.executorRef f)).modFrame c fun fr => { fr with caller := some f } :=
    resetCaller_of_none _ (by simpa using hc)
  have href : ((s.touchExecutor (s.executorRef f)).modFrame c fun fr =>
      { fr with caller := some f }).executorRef f = s.executorRef f := by
    simp [executorRef, hne]
  have hget : ((s.touchExecutor (s.executorRef f)).modFrame c fun fr =>
      { fr with caller := some f }).getExecutor f = s.getExecutor f := by
    simp only [getExecutor, href, modFrame_frame, touchExecutor_frame]
    split <;> simp_all
  simp only [coroAwaitSuspend, hre, href, hget, resume_frame, modFrame_frame, touchExecutor_frame]
  split_ifs <;> simp_all [Phase.afterResume]

theorem coroAwaitSuspend_faults (s : State V E) {f c : FrameId}
    (hp : (s.frame c).phase = .initial) (hc : (s.frame c).caller = none) (hne : f ≠ c) :
    (s.coroAwaitSuspend f c).faults = (s.touchExecutor (s.executorRef f)).faults := by
  have hre : (s.touchExecutor (s.executorRef f)).resetCaller c f =
      (s.touchExecutor (s.executorRef f)).modFrame c fun fr => { fr with caller := some f } :=
    resetCaller_of_none _ (by simpa using hc)
  simp only [coroAwaitSuspend, hre]
  rw [resume_faults]
  · simp
  · left
    simp only [modFrame_frame, touchExecutor_frame, if_neg (Ne.symm hne), if_true]
    split <;> simp [hp]

/-- What the call of `init_await` with the handle of `c` does to the frames. -/
theorem startAwait_frame (s : State V E) {t : Site} {c : FrameId}
    (hp : (s.frame c).phase = .initial) (hc : (s.frame c).caller = none) (hne : c ≠ s.nextFrame)
    (x : FrameId) :
    (s.startAwait t c).frame x =
      if x = c then { s.frame c with caller := some s.nextFrame, phase := .running t }
      else if x = s.nextFrame then
        { kind := .trampoline, phase := .suspended, awaiter := .bridge c s.nextSusp,
          callerExecutor := s.nextFrame }
      else s.frame x := by
  simp only [startAwait]
  rw [resetCaller_of_none _ (by simpa [hne] using hc), resume_frame]
  simp only [modFrame_frame, newFrame_frame, newSusp_frame, newSusp_nextFrame]
  split_ifs <;> simp_all [Phase.afterResume]

/-- What `co_await await(c)` does to the frames. -/
theorem awaitAwaitSuspend_frame (s : State V E) {f c : FrameId}
    (hp : (s.frame c).phase = .initial) (hc : (s.frame c).caller = none) (hne : f ≠ c)
    (hcn : c ≠ s.nextFrame) (x : FrameId) :
    (s.awaitAwaitSuspend f c).frame x =
      if x = c then
        { s.frame c with
          caller := some s.nextFrame, phase := .running (s.frame f).phase.site }
      else if x = s.nextFrame then
        { kind := .trampoline, phase := .suspended, awaiter := .bridge c s.nextSusp,
          callerExecutor := s.nextFrame }
      else if x = f then
        { s.frame f with
          phase := .suspending (s.frame f).phase.site, awaiter := .context s.nextSusp }
      else s.frame x := by
  simp only [awaitAwaitSuspend]
  rw [resetCaller_of_none _ (by simpa [hcn, Ne.symm hne] using hc), resume_frame]
  simp only [modFrame_frame, newFrame_frame, newSusp_frame, newSusp_nextFrame, modFrame_nextFrame]
  split_ifs <;> simp_all [Phase.afterResume]

/-! ## The end of a promise coroutine -/

/-- The ways `final_awaitable` gives the caller back: at once, or through a handler. -/
inductive HandBack
  | direct
  | dispatch (ex : Executor)
  | defer (ex : Executor)
  deriving DecidableEq, Repr

/-- The branch that `final_awaitable::await_suspend` of `c` takes. -/
def handBack (s : State V E) (c : FrameId) : HandBack :=
  let fr := s.frame c
  if fr.callerExecutor ≠ c ∧ fr.executor.isSome then
    match (s.frame fr.callerExecutor).executor with
    | some ex => if fr.innerExecutor.isNone then .dispatch ex else .defer ex
    | none => .direct
  else
    match fr.innerExecutor with
    | some ex => .defer ex
    | none => .direct

/-- The frame of a callee that is over. -/
def finished (fr : Frame V E) (p : Phase) (a : Awaiter) (e : BodyEnd V E) : Frame V E :=
  { fr with phase := p, awaiter := a, caller := none, result := Outcome.finish e }

/-- What the end of the body of `f` does when its caller is the suspended frame `g`. -/
def Returned (s s' : State V E) (f g : FrameId) (e : BodyEnd V E) : Prop :=
  match s.handBack f with
  | .direct =>
    s'.nextSusp = s.nextSusp ∧ (∀ k, s'.susp k = s.susp k) ∧
      ∀ x, s'.frame x =
        if x = f then finished (s.frame f) .parked (s.frame f).awaiter e
        else if x = g then { s.frame g with phase := .resuming (s.frame f).phase.site }
        else s.frame x
  | .dispatch ex =>
    s'.nextSusp = s.nextSusp + 1 ∧
      (∀ k, s'.susp k =
        if k = s.nextSusp then
          dispatchContext { kind := .final, frame := f, handle := g, side := .exchanging none } ex
            (s.frame f).phase.site
        else s.susp k) ∧
      ∀ x, s'.frame x =
        if x = f then
          finished (s.frame f) (.finalizing (s.frame f).phase.site) (.context s.nextSusp) e
        else s.frame x
  | .defer ex =>
    s'.nextSusp = s.nextSusp + 1 ∧
      (∀ k, s'.susp k =
        if k = s.nextSusp then
          { kind := .finalDefer, frame := f, handle := g, stage := .asio, target := some ex }
        else s.susp k) ∧
      ∀ x, s'.frame x =
        if x = f then finished (s.frame f) .parked (.context s.nextSusp) e else s.frame x

theorem coReturn_returned (s : State V E) {f g : FrameId} (e : BodyEnd V E)
    (hk : (s.frame f).kind = .promise) (hg : (s.frame f).caller = some g)
    (hgp : (s.frame g).phase = .suspended) (hgf : g ≠ f)
    (hst : (s.frame f).callerExecutor ≠ f →
      (s.frame (s.frame f).callerExecutor).executor ≠ none) :
    Returned s (s.coReturn f e) f g e ∧ (s.coReturn f e).nextFrame = s.nextFrame ∧
      ((s.coReturn f e).faults = s.faults ∨
        (s.coReturn f e).faults = (s.touchExecutor (s.frame f).callerExecutor).faults) := by
  have hstart : s.coReturn f e = (s.modFrame f fun fr =>
      { fr with result := Outcome.finish e }).finalAwaitSuspend f g := by
    simp [coReturn, hk, hg]
  rw [hstart]
  by_cases hown : (s.frame f).callerExecutor ≠ f ∧ (s.frame f).executor.isSome = true
  · obtain ⟨ex, hex⟩ := Option.ne_none_iff_exists'.mp (hst hown.1)
    have hfaults : (((s.modFrame f fun fr => { fr with result := Outcome.finish e }).modFrame f
        fun fr => { fr with caller := none }).touchExecutor (s.frame f).callerExecutor).faults =
        (s.touchExecutor (s.frame f).callerExecutor).faults := by
      by_cases hx : (s.frame f).callerExecutor = f <;> simp [touchExecutor, faultIf, hx] <;>
        split_ifs <;> rfl
    by_cases hin : (s.frame f).innerExecutor.isNone = true
    · have hb : s.handBack f = .dispatch ex := by simp [handBack, hown, hex, hin]
      refine ⟨?_, ?_, .inr (Eq.trans ?_ hfaults)⟩
      · simp only [Returned, hb]
        refine ⟨?_, fun k => ?_, fun x => ?_⟩
        · simp [finalAwaitSuspend, hown, hex, hin]
        · simp [finalAwaitSuspend, hown, hex, hin]
        · by_cases hx : x = f <;> simp [finalAwaitSuspend, hown, hex, hin, hx, finished]
      · simp [finalAwaitSuspend, hown, hex, hin]
      · simp [finalAwaitSuspend, hown, hex, hin]
    · have hb : s.handBack f = .defer ex := by simp [handBack, hown, hex, hin]
      refine ⟨?_, ?_, .inr (Eq.trans ?_ hfaults)⟩
      · simp only [Returned, hb]
        refine ⟨?_, fun k => ?_, fun x => ?_⟩
        · simp [finalAwaitSuspend, hown, hex, hin]
        · simp [finalAwaitSuspend, hown, hex, hin]
        · by_cases hx : x = f <;> simp [finalAwaitSuspend, hown, hex, hin, hx, finished]
      · simp [finalAwaitSuspend, hown, hex, hin]
      · simp [finalAwaitSuspend, hown, hex, hin]
  · rcases hin : (s.frame f).innerExecutor with _ | ex
    · have hb : s.handBack f = .direct := by simp only [handBack, if_neg hown, hin]
      refine ⟨?_, ?_, .inl ?_⟩
      · simp only [Returned, hb]
        refine ⟨?_, fun k => ?_, fun x => ?_⟩
        · simp [finalAwaitSuspend, hown, hin]
        · simp [finalAwaitSuspend, hown, hin]
        · by_cases hx : x = f
          · subst hx
            simp [finalAwaitSuspend, hown, hin, resume_frame, finished, Ne.symm hgf]
          by_cases hxg : x = g <;>
            simp [finalAwaitSuspend, hown, hin, resume_frame, hx, hxg, hgf, hgp,
              Phase.afterResume]
      · simp [finalAwaitSuspend, hown, hin]
      · simp [finalAwaitSuspend, hown, hin, resume_faults, hgf, hgp]
    · have hb : s.handBack f = .defer ex := by simp only [handBack, if_neg hown, hin]
      refine ⟨?_, ?_, .inl ?_⟩
      · simp only [Returned, hb]
        refine ⟨?_, fun k => ?_, fun x => ?_⟩
        · simp [finalAwaitSuspend, hown, hin]
        · by_cases hk' : k = s.nextSusp <;> simp [finalAwaitSuspend, hown, hin, hk']
        · by_cases hx : x = f <;> simp [finalAwaitSuspend, hown, hin, hx, finished]
      · simp [finalAwaitSuspend, hown, hin]
      · simp [finalAwaitSuspend, hown, hin]

/-! ## The execution of a `destroy()` -/

theorem destroyFrame_frame (s : State V E) {f : FrameId} (hc : (s.frame f).caller ≠ some f)
    (x : FrameId) :
    (s.destroyFrame f).frame x =
      if x = f then
        { s.frame f with
          phase := .destroyed, awaiter := .none, caller := none, sharedThis := none
          destroyed := (s.frame f).destroyed + 1 }
      else if (s.frame f).caller = some x then
        { s.frame x with phase := (s.frame x).phase.afterDestroy }
      else s.frame x := by
  rcases hg : (s.frame f).caller with _ | g
  · cases haw : (s.frame f).awaiter <;> by_cases hx : x = f <;>
      simp only [destroyFrame, hg, haw] <;> split_ifs <;> simp_all
  · have hgf : g ≠ f := by rintro rfl; exact hc hg
    cases haw : (s.frame f).awaiter <;> by_cases hx : x = f <;> by_cases hxg : x = g <;>
      simp only [destroyFrame, hg, haw, destroyHandle_frame] <;> split_ifs <;>
      simp_all

/-- The destroyed frame of a trampoline drops the handler it still holds. -/
theorem destroyFrame_susp_held (s : State V E) {f c : FrameId} {k : SuspId}
    (ha : (s.frame f).awaiter = .bridge c k) (hst : (s.susp k).stage = .held f) :
    (s.destroyFrame f).susp k = { s.susp k with stage := .dropping } := by
  cases hg : (s.frame f).caller <;> simp [destroyFrame, ha, hst, hg]

theorem destroyFrame_susp_other (s : State V E) {f : FrameId} {k : SuspId}
    (hst : (s.susp k).stage ≠ .held f) : (s.destroyFrame f).susp k = s.susp k := by
  cases haw : (s.frame f).awaiter with
  | bridge c j =>
      by_cases hkj : k = j
      · subst hkj
        cases hg : (s.frame f).caller <;> simp [destroyFrame, haw, hst, hg]
      · by_cases hj : (s.susp j).stage = .held f <;>
          cases hg : (s.frame f).caller <;> simp [destroyFrame, haw, hj, hg, hkj]
  | _ => cases hg : (s.frame f).caller <;> simp [destroyFrame, haw, hg]

@[simp] theorem destroyFrame_nextSusp (s : State V E) (f : FrameId) :
    (s.destroyFrame f).nextSusp = s.nextSusp := by
  simp only [destroyFrame]
  split <;> split <;> (try split) <;> simp

@[simp] theorem destroyFrame_nextFrame (s : State V E) (f : FrameId) :
    (s.destroyFrame f).nextFrame = s.nextFrame := by
  simp only [destroyFrame]
  split <;> split <;> (try split) <;> simp

/-- A dropped handler destroys at most its coroutine. -/
theorem handlerDrop_frame (s : State V E) (h : SuspId) (x : FrameId) :
    (s.handlerDrop h).frame x = s.frame x ∨ (s.susp h).kind ≠ .callback ∧ x = (s.susp h).handle ∧
      (s.handlerDrop h).frame x = { s.frame x with phase := (s.frame x).phase.afterDestroy } := by
  have hdestroy : ∀ u : State V E, (∀ y, u.frame y = s.frame y) →
      (u.destroyHandle (s.susp h).handle).frame x = s.frame x ∨ x = (s.susp h).handle ∧
        (u.destroyHandle (s.susp h).handle).frame x =
          { s.frame x with phase := (s.frame x).phase.afterDestroy } := by
    intro u hu
    rw [destroyHandle_frame]
    split_ifs with hx
    · exact Or.inr ⟨hx, by rw [hu, hx]⟩
    · exact Or.inl (hu x)
  have hcb : (s.susp h).kind.hasContext = true → (s.susp h).kind ≠ .callback := by
    intro hc he
    rw [he] at hc
    cases hc
  simp only [handlerDrop]
  split_ifs with hctx _ hk
  · exact (hdestroy _ fun y => by simp).imp_right fun hx => ⟨hcb hctx, hx⟩
  · exact Or.inl (by simp)
  · exact Or.inl (by simp)
  · exact (hdestroy _ fun y => by simp).imp_right fun hx => ⟨by simpa using hk, hx⟩

/-- A caller that is suspended is destroyed without a fault. -/
theorem destroyFrame_faults (s : State V E) {f : FrameId}
    (hc : ∀ g, (s.frame f).caller = some g → g ≠ f ∧ (s.frame g).phase = .suspended) :
    (s.destroyFrame f).faults = s.faults := by
  rcases hg : (s.frame f).caller with _ | g
  · cases haw : (s.frame f).awaiter <;> simp only [destroyFrame, hg, haw] <;> (try split_ifs) <;>
      rfl
  · obtain ⟨hgf, hp⟩ := hc g hg
    cases haw : (s.frame f).awaiter <;> simp only [destroyFrame, hg, haw] <;> (try split_ifs) <;>
      rw [destroyHandle_faults] <;> simp [hgf, hp]

/-! ## What hops and calls set up -/

theorem resume_retains (s : State V E) (f : FrameId) (t : Site) (x : FrameId) :
    (s.frame x).Retains ((s.resume f t).frame x) := by
  constructor <;> grind

theorem resetCaller_retains (s : State V E) (c f x : FrameId) :
    (s.frame x).Retains ((s.resetCaller c f).frame x) := by
  unfold resetCaller
  split <;> constructor <;> grind

theorem finalAwaitSuspend_retains (s : State V E) (c g x : FrameId) :
    (s.frame x).Retains ((s.finalAwaitSuspend c g).frame x) := by
  simp only [finalAwaitSuspend]
  split_ifs
  · split <;> constructor <;> grind
  · split <;> constructor <;> grind
  · split <;> constructor <;> grind

/-- What a step does to the members that hops and calls set up, of a frame that exists. -/
theorem next_retains {s : State V E} {a : Action V E} {x : FrameId} (hx : x ≠ s.nextFrame) :
    (s.frame x).Retains ((s.next a).frame x) ∨
      (∃ ex, (a = .awaitDispatch x ex ∨ a = .awaitPost x ex) ∧
        ((s.frame x).setExecutor ex).Retains ((s.next a).frame x)) ∨
      ∃ f, a = .awaitPromise f x := by
  cases a <;> simp only [next]
  case awaitPromise f c =>
    by_cases hc : x = c
    · exact .inr (.inr ⟨f, by rw [hc]⟩)
    obtain ⟨hk, ht, he, hi, ha, hce⟩ :=
      (s.touchExecutor (s.executorRef f)).resetCaller_retains c f x
    simp only [coroAwaitSuspend]
    exact .inl (by constructor <;> grind)
  case awaitDispatch f ex =>
    by_cases hf : x = f
    · subst hf
      exact .inr (.inl ⟨ex, .inl rfl, by constructor <;> simp [dispatchAwaitSuspend]⟩)
    · exact .inl (by constructor <;> simp [dispatchAwaitSuspend, hf])
  case awaitPost f ex =>
    by_cases hf : x = f
    · subst hf
      exact .inr (.inl ⟨ex, .inr rfl, by constructor <;> simp [postAwaitSuspend]⟩)
    · exact .inl (by constructor <;> simp [postAwaitSuspend, hf])
  all_goals left
  case awaitAwait f c =>
    refine Frame.Retains.trans ?_ ((resetCaller_retains _ c s.nextFrame x).trans
      (resume_retains _ c (s.frame f).phase.site x))
    constructor <;> grind
  case startAwait t c =>
    refine Frame.Retains.trans ?_
      ((resetCaller_retains _ c s.nextFrame x).trans (resume_retains _ c t x))
    constructor <;> grind
  case coReturn f e =>
    simp only [coReturn]
    split
    · split
      · refine Frame.Retains.trans ?_ (finalAwaitSuspend_retains _ f _ x)
        constructor <;> grind
      · constructor <;> grind
    · constructor <;> grind
    · constructor <;> grind
  all_goals
    constructor <;> grind [completionAwaitSuspend, State.initiationThrows, State.initiationReturns,
      State.resumeAwaiting, State.finalResumeAwaiting, State.awaitResume, completionSetValue,
      State.dispatchEnter, State.plainResume, State.resumeCompleted, State.handlerResume,
      handlerDrop, State.trampolineInvoke, State.trampolineReturn, destroyFrame]

@[simp] theorem finalAwaitSuspend_nextFrame (s : State V E) (c g : FrameId) :
    (s.finalAwaitSuspend c g).nextFrame = s.nextFrame := by
  simp only [finalAwaitSuspend]
  split_ifs <;> split <;> simp

theorem finalAwaitSuspend_awaiter (s : State V E) (c g x : FrameId) :
    ((s.finalAwaitSuspend c g).frame x).awaiter = (s.frame x).awaiter ∨
      ((s.finalAwaitSuspend c g).frame x).awaiter.callee = none := by
  simp only [finalAwaitSuspend]
  split_ifs
  · split <;> grind [Awaiter.callee]
  · split <;> grind [Awaiter.callee]
  · split <;> grind [Awaiter.callee]

/-- Only the start of another frame makes an awaiter refer to a callee. -/
theorem next_awaiter {s : State V E} {a : Action V E} {x : FrameId} :
    ((s.next a).frame x).awaiter = (s.frame x).awaiter ∨
      ((s.next a).frame x).awaiter.callee = none ∨ (∃ f c, a = .awaitPromise f c) ∨
      (∃ f c, a = .awaitAwait f c) ∨ ∃ t c, a = .startAwait t c := by
  cases a <;> simp only [next]
  case awaitPromise f c => exact .inr (.inr (.inl ⟨f, c, rfl⟩))
  case awaitAwait f c => exact .inr (.inr (.inr (.inl ⟨f, c, rfl⟩)))
  case startAwait t c => exact .inr (.inr (.inr (.inr ⟨t, c, rfl⟩)))
  case coReturn f e =>
    simp only [coReturn]
    split
    · split
      · exact (finalAwaitSuspend_awaiter _ f _ x).imp (fun h => h.trans (by grind)) .inl
      · grind
    · grind
    · grind
  all_goals
    grind [completionAwaitSuspend, State.initiationThrows, State.initiationReturns,
      State.resumeAwaiting, State.finalResumeAwaiting, State.awaitResume, completionSetValue,
      State.dispatchEnter, State.plainResume, State.resumeCompleted, State.handlerResume,
      handlerDrop, State.trampolineInvoke, State.trampolineReturn, destroyFrame,
      dispatchAwaitSuspend, postAwaitSuspend, Awaiter.callee]

/-- What a new frame is set up with: no executor was adopted, unless it is that of `coro::main`. -/
structure Newborn (s : State V E) (fr : Frame V E) : Prop where
  adopts : fr.Adopts
  callerExecutor : fr.callerExecutor = s.nextFrame
  bare : fr.kind = .trampoline → fr.executor = none
  born : fr.phase ≠ .unborn
  awaiter : ∀ k, fr.awaiter ≠ .context k
  owner : fr.sharedThis = fr.thisObject

theorem newborn_trampoline (s : State V E) {s' : State V E} {c b : FrameId} {k : SuspId} {t : Site}
    (h : s'.frame b =
      { kind := .trampoline, phase := .suspended, awaiter := .bridge c k,
        callerExecutor := s.nextFrame }) :
    s.Newborn (((s'.resetCaller c b).resume c t).frame b) := by
  obtain ⟨hk, ht, he, hi, ha, hce⟩ := (resetCaller_retains s' c b b).trans (resume_retains _ c t b)
  rw [h] at hk ht he hi ha hce
  refine ⟨⟨by rw [he, ha]; rfl, by rw [hi, ha]; rfl⟩, hce, fun _ => he, ?_, ?_, ?_⟩
  · have hp : ((s'.resetCaller c b).frame b).phase ≠ .unborn := by
      unfold resetCaller
      split <;> grind
    rw [resume_frame]
    split
    · subst_vars
      simpa using hp
    · exact hp
  · have hw : ((s'.resetCaller c b).frame b).awaiter = .bridge c k := by
      unfold resetCaller
      split <;> grind
    intro j
    rw [resume_frame]
    split <;> simp_all
  · have hw : ((s'.resetCaller c b).frame b).sharedThis = none := by
      unfold resetCaller
      split <;> grind
    rw [ht, resume_frame]
    split <;> simp_all

/-- Frames are created where coroutines are called: those of the program, and `init_await`. -/
def creates : Action V E → Bool
  | .detach .. | .startMain _ | .create _ | .awaitAwait .. | .startAwait .. => true
  | _ => false

theorem next_nextFrame {s : State V E} {a : Action V E} (h : creates a = false) :
    (s.next a).nextFrame = s.nextFrame := by
  cases a <;> simp only [next]
  case coReturn f e =>
    simp only [coReturn]
    split
    · split <;> simp
    · simp
    · simp
  all_goals
    grind [creates, completionAwaitSuspend, dispatchAwaitSuspend, postAwaitSuspend,
      coroAwaitSuspend, State.initiationThrows, State.initiationReturns, State.resumeAwaiting,
      State.finalResumeAwaiting, State.awaitResume, completionSetValue, State.dispatchEnter,
      State.plainResume, State.resumeCompleted, State.handlerResume, handlerDrop,
      State.trampolineInvoke, State.trampolineReturn, destroyFrame]

theorem next_born {s : State V E} {a : Action V E} (h : (s.next a).nextFrame ≠ s.nextFrame) :
    (s.next a).nextFrame = s.nextFrame + 1 ∧ s.Newborn ((s.next a).frame s.nextFrame) := by
  rcases hc : creates a with _ | _
  · exact absurd (next_nextFrame hc) h
  cases a <;> simp only [next, creates, Bool.false_eq_true] at hc ⊢
  case detach t o => exact ⟨rfl, ⟨by simp, by simp⟩, by simp, by simp, by simp, by simp, by simp⟩
  case startMain i =>
    exact ⟨rfl, ⟨by simp, by simp [ExecutorArg.getInnerExecutor]⟩, by simp, by simp, by simp,
      by simp, by simp⟩
  case create o => exact ⟨rfl, ⟨by simp, by simp⟩, by simp, by simp, by simp, by simp, by simp⟩
  case awaitAwait f c => exact ⟨by simp, s.newborn_trampoline (by simp; rfl)⟩
  case startAwait t c => exact ⟨by simp, s.newborn_trampoline (by simp; rfl)⟩

end WebAsio.Coro.State
