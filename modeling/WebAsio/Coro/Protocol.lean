import WebAsio.Coro.Runtime

set_option autoImplicit false

/-! # The protocol of one suspension

The awaiting side and the handler side of a suspension meet in one atomic word. `Suspension.Step`
says once what any step of the runtime can do to one suspension; `Suspension.Stands` lists the six
situations a suspension with a `resume_context` can be in. The table of `Fate.allows` is what the
protocol is for: how a handler ended determines what was done with the coroutine. -/

namespace WebAsio.Coro

variable {V E : Type}

/-! ## What a step does to a suspension -/

/-- The handler may still be invoked or dropped. -/
def HandlerStage.isPending : HandlerStage → Bool
  | .asio | .held _ | .invoked _ | .dropping => true
  | _ => false

/-- What may be done with the coroutine, by the way the handler ended. -/
def Fate.allows : Fate → Ending → Prop
  | .invoked, e => e.deed = .resumed
  | .ownerLost, e => e.party = .handler ∧ e.deed = .destroyed
  | .dropped, e => e.deed = .destroyed
  | .threw, e => e.party = .awaiting ∧ e.deed = .resumed

namespace Suspension

/-- A suspension as its `await_suspend` creates it. -/
inductive Begins : Suspension V E → Prop
  | completion (f : FrameId) (k : AwaitKind) (o : Option OwnerId) (b : Bool) : k.isCompletion →
      Begins { kind := k, frame := f, handle := f, side := .initiating b, stage := .asio,
               weakThis := o, restoreSharedThis := o.isSome }
  | bridged (f b : FrameId) (o : Option OwnerId) :
      Begins { kind := .deferred, frame := f, handle := f, side := .initiating false,
               stage := .held b, weakThis := o, restoreSharedThis := o.isSome }
  | callback (b : FrameId) : Begins { kind := .callback, frame := b, handle := b, stage := .held b }
  | dispatch (k : AwaitKind) (f g : FrameId) (ex : Executor) (t : Site) :
      k = .dispatch ∨ k = .final →
      Begins (State.dispatchContext
        { kind := k, frame := f, handle := g, side := .exchanging none } ex t)
  | plain (k : AwaitKind) (f g : FrameId) (ex : Executor) : k = .post ∨ k = .finalDefer →
      Begins { kind := k, frame := f, handle := g, stage := .asio, target := some ex }

/-- The steps of the two parties on a suspension. -/
inductive Step : Suspension V E → Suspension V E → Prop
  | throws (r : Suspension V E) (e : E) : r.side = .initiating true → r.stage = .gone →
      r.fate = some .dropped →
      Step r (endBy { r with value := some (.result (.error e)), side := .left,
                             fate := some .threw } .awaiting .resumed)
  | returns (r : Suspension V E) (m : Bool) (o : Option OwnerId) : r.side = .initiating m →
      Step r { r with side := .exchanging o }
  | awaits (r : Suspension V E) : r.side = .exchanging r.side.saved →
      r.word.resumeAwaiting.resumes = false → r.word.resumeAwaiting.destroys = false →
      Step r { r with word := .awaiting, side := .left }
  | eager (r : Suspension V E) : r.side = .exchanging r.side.saved →
      r.word.resumeAwaiting.resumes = true →
      Step r (endBy { r with word := .awaiting, side := .left } .awaiting .resumed)
  | abandons (r : Suspension V E) : r.side = .exchanging r.side.saved →
      r.word.resumeAwaiting.resumes = false → r.word.resumeAwaiting.destroys = true →
      Step r (endBy { r with word := .awaiting, side := .left } .awaiting .destroyed)
  | sets (r : Suspension V E) (v : Delivered V E) (t : Site) :
      r.stage = .asio ∧ r.kind.isCompletion = true ∨
        (∃ b, r.stage = .held b) ∧ r.kind ≠ .callback →
      Step r { r with value := some v, stage := .invoked t }
  | enters (r : Suspension V E) (ex : Executor) : r.kind = .dispatch ∨ r.kind = .final →
      r.stage = .asio → r.target = some ex → Step r { r with stage := .invoked ex.site }
  | plain (r : Suspension V E) : r.kind = .post ∨ r.kind = .finalDefer → r.stage = .asio →
      Step r (endBy { r with stage := .gone, fate := some .invoked } .handler .resumed)
  | completes (r : Suspension V E) (t : Site) : r.stage = .invoked t →
      Step r { r with word := .completed, fate := some .invoked,
                      stage := if r.word.resumeCompleted.resumes then .claimed t else .gone }
  | resumes (r : Suspension V E) (t : Site) : r.stage = .claimed t →
      Step r (endBy { r with stage := .gone } .handler .resumed)
  | ownerLost (r : Suspension V E) (t : Site) : r.stage = .claimed t →
      r.kind.isCompletion → r.restoreSharedThis →
      Step r (endBy { r with stage := .gone, fate := some .ownerLost } .handler .destroyed)
  | drops (r : Suspension V E) : r.stage = .asio ∨ r.stage = .dropping → r.kind.hasContext →
      r.word.destroy.destroys = false →
      Step r { r with stage := .gone, fate := some .dropped, word := .destroyed }
  | dropsLate (r : Suspension V E) : r.stage = .asio ∨ r.stage = .dropping → r.kind.hasContext →
      r.word.destroy.destroys = true →
      Step r (endBy { r with stage := .gone, fate := some .dropped, word := .destroyed }
        .handler .destroyed)
  | dropsPlain (r : Suspension V E) : r.stage = .asio ∨ r.stage = .dropping →
      r.kind = .post ∨ r.kind = .finalDefer →
      Step r (endBy { r with stage := .gone, fate := some .dropped } .handler .destroyed)
  | dropsCallback (r : Suspension V E) : r.stage = .asio ∨ r.stage = .dropping →
      r.kind = .callback → Step r { r with stage := .gone, fate := some .dropped }
  | calls (r : Suspension V E) (b : FrameId) (v : Delivered V E) : r.stage = .held b →
      r.kind = .callback →
      Step r { r with value := some v, stage := .gone, fate := some .invoked }
  | condemns (r : Suspension V E) (b : FrameId) : r.stage = .held b →
      Step r { r with stage := .dropping }

/-! ## Where a suspension stands -/

/-- The situations of a suspension with a `resume_context`: the word, how far the two sides are and
    what was done with the coroutine always fit together in one of these six ways. -/
inductive Stands (r : Suspension V E) : Prop
  /-- neither side made its exchange -/
  | racing : r.side ≠ .left → r.stage.isPending = true → r.word = .initializing →
      r.fate = none → r.ended = [] → Stands r
  /-- the handler was invoked first, so the awaiting side is to resume -/
  | completed : r.side ≠ .left → r.stage = .gone → r.word = .completed →
      r.fate = some .invoked → r.ended = [] → Stands r
  /-- the handler was dropped first, so the awaiting side is to destroy or to throw -/
  | dropped : r.side ≠ .left → r.stage = .gone → r.word = .destroyed →
      r.fate = some .dropped → r.ended = [] → Stands r
  /-- the awaiting side is gone, so the handler is to act -/
  | awaiting : r.side = .left → r.stage.isPending = true → r.word = .awaiting →
      r.fate = none → r.ended = [] → Stands r
  /-- the handler was told to resume -/
  | claimed (t : Site) : r.side = .left → r.stage = .claimed t → r.word = .completed →
      r.fate = some .invoked → r.ended = [] → Stands r
  /-- one side acted -/
  | finished (e : Ending) (ft : Fate) : r.side = .left → r.stage = .gone → r.ended = [e] →
      e.on = r.handle → r.fate = some ft → ft.allows e → Stands r

/-- A suspension whose handler always acts itself. -/
inductive StandsPlain (r : Suspension V E) : Prop
  | queued : r.side = .left → r.stage = .asio → r.fate = none → r.ended = [] → StandsPlain r
  | finished (e : Ending) (ft : Fate) : r.side = .left → r.stage = .gone → r.ended = [e] →
      e.on = r.handle → r.fate = some ft → ft.allows e → StandsPlain r

/-- The result of an operation has been stored. -/
def Settled (r : Suspension V E) : Prop :=
  (∃ t, r.stage = .invoked t) ∨ (∃ t, r.stage = .claimed t) ∨
    r.fate = some .invoked ∨ r.fate = some .ownerLost ∨ r.fate = some .threw

/-- What holds of every suspension at any time. -/
structure Sound (r : Suspension V E) : Prop where
  context : r.kind.hasContext = true → r.Stands
  plain : r.kind = .post ∨ r.kind = .finalDefer → r.StandsPlain
  callback : r.kind = .callback →
    r.side = .left ∧ ((∃ b, r.stage = .held b) ∨ r.stage = .dropping ∨ r.stage = .gone)
  bridged : (∃ b, r.stage = .held b) ∨ r.stage = .dropping →
    r.kind = .deferred ∧ r.side ≠ .initiating true ∨ r.kind = .callback
  invoked : (∃ t, r.stage = .invoked t ∨ r.stage = .claimed t) → r.kind.hasContext = true
  initiating : (∃ m, r.side = .initiating m) → r.kind.isCompletion = true
  stored : r.kind.isCompletion = true → (r.value ≠ none ↔ r.Settled)

/-- Only an awaitable with a `resume_context` can still be on its awaiting side. -/
theorem Sound.stands_of_side {r : Suspension V E} (w : r.Sound) (h : r.side ≠ .left) :
    r.Stands := by
  refine w.context ?_
  have hp := w.plain
  have hc := w.callback
  cases hk : r.kind
  case post | finalDefer => cases hp (by simp [hk]) <;> contradiction
  case callback => exact absurd (hc hk).1 h
  all_goals rfl

theorem Sound.default : Sound ({} : Suspension V E) := by
  constructor <;> simp [AwaitKind.hasContext, AwaitKind.isCompletion]

theorem Begins.sound {r : Suspension V E} (h : r.Begins) : r.Sound := by
  cases h with
  | completion f k o b hk =>
      refine ⟨fun _ => .racing (by simp) rfl rfl rfl rfl, ?_, ?_, ?_, ?_, ?_, ?_⟩ <;>
        grind [AwaitKind.isCompletion, Settled]
  | bridged f b o =>
      refine ⟨fun _ => .racing (by simp) rfl rfl rfl rfl, ?_, ?_, ?_, ?_, ?_, ?_⟩ <;>
        grind [Settled, AwaitKind.isCompletion]
  | callback b =>
      refine ⟨?_, ?_, ?_, ?_, ?_, ?_, ?_⟩ <;> grind [AwaitKind.hasContext, AwaitKind.isCompletion]
  | dispatch k f g ex t hk =>
      -- run inline the handler has made its exchange already
      unfold State.dispatchContext
      split
      · refine ⟨fun _ => .completed (by simp) rfl rfl rfl rfl, ?_, ?_, ?_, ?_, ?_, ?_⟩ <;>
          grind [AwaitKind.isCompletion]
      · refine ⟨fun _ => .racing (by simp) rfl rfl rfl rfl, ?_, ?_, ?_, ?_, ?_, ?_⟩ <;>
          grind [AwaitKind.isCompletion]
  | plain k f g ex hk =>
      refine ⟨?_, fun _ => .queued rfl rfl rfl rfl, ?_, ?_, ?_, ?_, ?_⟩ <;>
        grind [AwaitKind.hasContext, AwaitKind.isCompletion]

/-- A step leaves the names in a suspension alone. -/
theorem Step.names {r r' : Suspension V E} (h : r.Step r') :
    r'.kind = r.kind ∧ r'.frame = r.frame ∧ r'.handle = r.handle ∧
      r'.weakThis = r.weakThis ∧ r'.restoreSharedThis = r.restoreSharedThis := by
  cases h <;> simp [endBy]

theorem Step.target {r r' : Suspension V E} (h : r.Step r') : r'.target = r.target := by
  cases h <;> simp [endBy]

/-- A suspension that is over stays over. -/
theorem Step.opened {r r' : Suspension V E} (h : r.Step r') (ho : r'.isOpen = true) :
    r.isOpen = true := by
  cases h <;> grind [endBy, isOpen]

/-- The awaiting side does not come back. -/
theorem Step.side {r r' : Suspension V E} (h : r.Step r') (hs : r'.side ≠ .left) :
    r.side ≠ .left := by
  cases h <;> grind [endBy]

/-- Nothing leads back into an initiation. -/
theorem Step.initiating {r r' : Suspension V E} {m : Bool} (h : r.Step r')
    (hs : r'.side = .initiating m) : r.side = .initiating m := by
  cases h <;> grind [endBy]

theorem Step.stands {r r' : Suspension V E} (h : r.Step r') (hc : r.kind.hasContext = true)
    (w : r.Stands) : r'.Stands := by
  cases h <;> cases w <;>
    grind [Stands, endBy, Fate.allows, HandlerStage.isPending, ContextState.resumeAwaiting,
      ContextState.resumeCompleted, ContextState.destroy, AwaitKind.hasContext]

theorem Step.standsPlain {r r' : Suspension V E} (h : r.Step r')
    (hk : r.kind = .post ∨ r.kind = .finalDefer) (w : r.StandsPlain) : r'.StandsPlain := by
  cases h <;> cases w <;>
    grind [StandsPlain, endBy, Fate.allows, AwaitKind.hasContext, AwaitKind.isCompletion]

theorem Step.stored {r r' : Suspension V E} (h : r.Step r') (hk : r.kind.isCompletion = true)
    (w : r.Stands) (hs : r.value ≠ none ↔ r.Settled) : r'.value ≠ none ↔ r'.Settled := by
  cases h <;> cases w <;> grind [Settled, endBy, HandlerStage.isPending, AwaitKind.isCompletion]

theorem Step.callback {r r' : Suspension V E} (h : r.Step r') (w : r.Sound)
    (hk : r.kind = .callback) :
    r'.side = .left ∧ ((∃ b, r'.stage = .held b) ∨ r'.stage = .dropping ∨ r'.stage = .gone) := by
  have hc := w.callback hk
  have hi := w.invoked
  cases h <;> grind [endBy, AwaitKind.hasContext, AwaitKind.isCompletion]

theorem Step.bridged {r r' : Suspension V E} (h : r.Step r') (w : r.Sound)
    (hs : (∃ b, r'.stage = .held b) ∨ r'.stage = .dropping) :
    r.kind = .deferred ∧ r'.side ≠ .initiating true ∨ r.kind = .callback := by
  have hb := w.bridged
  cases h <;> grind [endBy]

theorem Step.invoked {r r' : Suspension V E} (h : r.Step r') (w : r.Sound)
    (hs : ∃ t, r'.stage = .invoked t ∨ r'.stage = .claimed t) : r.kind.hasContext = true := by
  have hi := w.invoked
  have hb := w.bridged
  have hk := AwaitKind.hasContext_of_isCompletion (k := r.kind)
  cases h <;> grind [endBy, AwaitKind.hasContext]

theorem Step.sound {r r' : Suspension V E} (h : r.Step r') (w : r.Sound) : r'.Sound := by
  have hn := h.names.1
  constructor
  case context => exact fun hk => h.stands (hn ▸ hk) (w.context (hn ▸ hk))
  case plain => exact fun hk => h.standsPlain (hn ▸ hk) (w.plain (hn ▸ hk))
  case callback => exact fun hk => h.callback w (hn ▸ hk)
  case bridged => exact fun hs => hn ▸ h.bridged w hs
  case invoked => exact fun hs => hn ▸ h.invoked w hs
  case initiating =>
    rintro ⟨m, hm⟩
    exact hn ▸ w.initiating ⟨m, h.initiating hm⟩
  case stored =>
    intro hk
    rw [hn] at hk
    exact h.stored hk (w.context (AwaitKind.hasContext_of_isCompletion hk)) (w.stored hk)

end Suspension

/-- One suspension takes a step, and the others are as before. -/
theorem State.susp_of_step {s s' : State V E} {j : SuspId} (hj : (s.susp j).Step (s'.susp j))
    (hne : ∀ k, k ≠ j → s'.susp k = s.susp k) (k : SuspId) :
    s'.susp k = s.susp k ∨ (s.susp k).Step (s'.susp k) ∨
      k = s.nextSusp ∧ (s'.susp k).Begins := by
  by_cases hk : k = j
  · exact .inr (.inl (hk ▸ hj))
  · exact .inl (hne k hk)

/-- One suspension begins, and the others are as before. -/
theorem State.susp_of_begins {s s' : State V E} (hj : (s'.susp s.nextSusp).Begins)
    (hne : ∀ k, k ≠ s.nextSusp → s'.susp k = s.susp k) (k : SuspId) :
    s'.susp k = s.susp k ∨ (s.susp k).Step (s'.susp k) ∨
      k = s.nextSusp ∧ (s'.susp k).Begins := by
  by_cases hk : k = s.nextSusp
  · exact .inr (.inr ⟨hk, hk ▸ hj⟩)
  · exact .inl (hne k hk)

open State in
/-- `final_awaitable` begins at most one suspension. -/
theorem State.finalAwaitSuspend_susp {s s₀ : State V E} (c g : FrameId)
    (hs : ∀ k, s.susp k = s₀.susp k) (hn : s.nextSusp = s₀.nextSusp) :
    ∀ k, (s.finalAwaitSuspend c g).susp k = s₀.susp k ∨
      (s₀.susp k).Step ((s.finalAwaitSuspend c g).susp k) ∨
        k = s₀.nextSusp ∧ ((s.finalAwaitSuspend c g).susp k).Begins := by
  simp only [finalAwaitSuspend]
  split_ifs with hown hinner
  · split
    · exact fun k => .inl (by simp [hs])
    · refine susp_of_begins ?_ fun k hk => by simp [hn, hk, hs]
      simpa [hn] using Suspension.Begins.dispatch .final c g _ (s.frame c).phase.site (.inr rfl)
  · split
    · exact fun k => .inl (by simp [hs])
    · refine susp_of_begins ?_ fun k hk => by simp [hn, hk, hs]
      simpa [hn] using Suspension.Begins.plain .finalDefer c g _ (.inr rfl)
  · split
    · refine susp_of_begins ?_ fun k hk => by simp [hn, hk, hs]
      simpa [hn] using Suspension.Begins.plain .finalDefer c g _ (.inr rfl)
    · exact fun k => .inl (by simp [hs])

open State in
/-- **What one step of the runtime does to the suspensions**: it leaves each one alone, takes a
    step of the protocol on it, or creates it. -/
theorem State.next_susp {s : State V E} {a : Action V E} (h : s.Enabled a) :
    ∀ k, (s.next a).susp k = s.susp k ∨ (s.susp k).Step ((s.next a).susp k) ∨
      k = s.nextSusp ∧ ((s.next a).susp k).Begins := by
  cases a <;> simp only [Enabled, next] at h ⊢
  case awaitDeferred f =>
    refine susp_of_begins ?_ fun k hk => by simp [completionAwaitSuspend, hk]
    simpa [completionAwaitSuspend] using
      Suspension.Begins.completion f .deferred (s.frame f).sharedThis true rfl
  case awaitTimer f =>
    refine susp_of_begins ?_ fun k hk => by simp [completionAwaitSuspend, hk]
    simpa [completionAwaitSuspend, show (AwaitKind.timer == .deferred) = false from rfl] using
      Suspension.Begins.completion f .timer (s.frame f).sharedThis false rfl
  case awaitAwait f c =>
    refine susp_of_begins ?_ fun k hk => by simp [awaitAwaitSuspend, hk]
    simpa [awaitAwaitSuspend] using
      Suspension.Begins.bridged f s.nextFrame (s.frame f).sharedThis
  case startAwait t c =>
    refine susp_of_begins ?_ fun k hk => by simp [startAwait, hk]
    simpa [startAwait] using Suspension.Begins.callback s.nextFrame
  case awaitDispatch f ex =>
    refine susp_of_begins ?_ fun k hk => by simp [dispatchAwaitSuspend, hk]
    simpa [dispatchAwaitSuspend] using
      Suspension.Begins.dispatch .dispatch f f ex.executor (s.frame f).phase.site (.inl rfl)
  case awaitPost f ex =>
    refine susp_of_begins ?_ fun k hk => by simp [postAwaitSuspend, hk]
    simpa [postAwaitSuspend] using Suspension.Begins.plain .post f f ex.executor (.inl rfl)
  case initiationThrows f j e =>
    refine susp_of_step (j := j) ?_ fun k hk => by simp [initiationThrows, hk]
    simpa [initiationThrows] using
      Suspension.Step.throws (s.susp j) e h.2.2.1 h.2.2.2.1 h.2.2.2.2
  case initiationReturns f j =>
    refine susp_of_step (j := j) ?_ fun k hk => by simp [initiationReturns, hk]
    obtain ⟨-, -, hm | hm⟩ := h <;>
      simpa [initiationReturns] using Suspension.Step.returns (s.susp j) _ (s.frame f).sharedThis hm
  case resumeAwaiting f j =>
    refine susp_of_step (j := j) ?_ fun k hk => by
      simp only [resumeAwaiting]; split_ifs <;> simp [hk]
    have hside := h.2.2
    by_cases hr : (s.susp j).word.resumeAwaiting.resumes = true
    · simpa [resumeAwaiting, hr] using Suspension.Step.eager (s.susp j) hside hr
    by_cases hd : (s.susp j).word.resumeAwaiting.destroys = true
    · simpa [resumeAwaiting, hr, hd] using
        Suspension.Step.abandons (s.susp j) hside (by simpa using hr) hd
    · simpa [resumeAwaiting, hr, hd] using
        Suspension.Step.awaits (s.susp j) hside (by simpa using hr) (by simpa using hd)
  case finalResumeAwaiting c j =>
    refine susp_of_step (j := j) ?_ fun k hk => by
      simp only [finalResumeAwaiting]; split_ifs <;> simp [hk]
    have hside := h.2.2
    simp only [finalResumeAwaiting]
    split_ifs with hr hd
    · simpa using Suspension.Step.eager (s.susp j) hside hr
    · simpa using Suspension.Step.abandons (s.susp j) hside (by simpa using hr) hd
    · simpa using Suspension.Step.awaits (s.susp j) hside (by simpa using hr) (by simpa using hd)
  case setValue j t v =>
    refine susp_of_step (j := j) ?_ fun k hk => by simp [completionSetValue, hk]
    simpa [completionSetValue] using Suspension.Step.sets (s.susp j) (.result v) t (.inl h)
  case dispatchEnter j ex =>
    refine susp_of_step (j := j) ?_ fun k hk => by simp [dispatchEnter, hk]
    simpa [dispatchEnter] using Suspension.Step.enters (s.susp j) ex h.2.1 h.1 h.2.2
  case plainResume j ex =>
    refine susp_of_step (j := j) ?_ fun k hk => by simp [plainResume, hk]
    simpa [plainResume] using Suspension.Step.plain (s.susp j) h.2.1 h.1
  case resumeCompleted j t =>
    refine susp_of_step (j := j) ?_ fun k hk => by simp [resumeCompleted, hk]
    simpa [resumeCompleted] using Suspension.Step.completes (s.susp j) t h
  case handlerResume j t =>
    refine susp_of_step (j := j) ?_ fun k hk => by
      simp only [handlerResume]; split_ifs <;> simp [hk]
    simp only [handlerResume]
    split_ifs with hc ho
    · simpa using Suspension.Step.resumes (s.susp j) t h
    · have hc' := Bool.and_eq_true_iff.mp hc
      simpa using Suspension.Step.ownerLost (s.susp j) t h hc'.1 hc'.2
    · simpa using Suspension.Step.resumes (s.susp j) t h
  case drop j =>
    refine susp_of_step (j := j) ?_ fun k hk => by
      simp only [handlerDrop]; split_ifs <;> simp [hk]
    simp only [handlerDrop]
    split_ifs with hc hd hk
    · simpa using Suspension.Step.dropsLate (s.susp j) h hc hd
    · simpa using Suspension.Step.drops (s.susp j) h hc (by simpa using hd)
    · simpa using Suspension.Step.dropsCallback (s.susp j) h (by simpa using hk)
    · simpa using Suspension.Step.dropsPlain (s.susp j) h
        (by cases hj : (s.susp j).kind <;> simp_all [AwaitKind.hasContext])
  case trampolineInvoke b c j =>
    refine susp_of_step (j := j) ?_ fun k hk => by
      simp only [trampolineInvoke]; split_ifs <;> simp [completionSetValue, hk]
    obtain ⟨-, -, hj⟩ := h
    by_cases hk : (s.susp j).kind = .callback
    · simpa [trampolineInvoke, hk] using
        Suspension.Step.calls (s.susp j) b (.outcome (s.frame c).result) hj hk
    · simpa [trampolineInvoke, completionSetValue, hk] using
        Suspension.Step.sets (s.susp j) (.outcome (s.frame c).result) (s.frame b).phase.site
          (.inr ⟨⟨b, hj⟩, hk⟩)
  case coReturn f e =>
    rcases hk : (s.frame f).kind with _ | _ | _ | _
    case promise =>
      rcases hg : (s.frame f).caller with _ | g
      · exact fun k => .inl (by simp [coReturn, hk, hg])
      · simp only [coReturn, hk, modFrame_frame, if_true, hg]
        exact finalAwaitSuspend_susp f g (by simp) (by simp)
    all_goals exact fun k => .inl (by simp [coReturn, hk])
  case destroy f =>
    have hother : ∀ k, (∀ c, (s.frame f).awaiter ≠ .bridge c k) →
        (s.destroyFrame f).susp k = s.susp k := by
      intro k hk
      simp only [destroyFrame]
      split <;> split <;> grind
    rcases ha : (s.frame f).awaiter with _ | _ | _ | ⟨c, j⟩
    case bridge =>
      by_cases hj : (s.susp j).stage = .held f
      · refine susp_of_step (j := j) ?_ fun k hk => hother k (by simp [ha, Ne.symm hk])
        have : (s.destroyFrame f).susp j = { s.susp j with stage := .dropping } := by
          simp only [destroyFrame, ha, modFrame_susp, hj, if_true]
          split <;> simp
        simpa [this] using Suspension.Step.condemns (s.susp j) f hj
      · refine fun k => .inl ?_
        simp only [destroyFrame, ha, modFrame_susp, hj, if_false]
        split <;> simp
    all_goals exact fun k => .inl (hother k (by simp [ha]))
  case awaitResume f => exact fun k => .inl (by simp only [awaitResume]; split <;> simp)
  all_goals exact fun k => .inl (by simp [coroAwaitSuspend, trampolineReturn])

/-! ## The protocol along runs -/

/-- Every suspension stands in the protocol, in every state of every run. -/
theorem Reachable.sound {s : State V E} (hs : Reachable s) (k : SuspId) : (s.susp k).Sound := by
  revert k
  refine hs.invariant (I := fun s => ∀ k, (s.susp k).Sound) (fun _ => Suspension.Sound.default) ?_
  intro s a w ha k
  rcases State.next_susp ha k with h | h | ⟨-, h⟩
  · exact h ▸ w k
  · exact h.sound (w k)
  · exact h.sound

end WebAsio.Coro
