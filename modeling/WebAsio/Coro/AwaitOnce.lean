import WebAsio.Coro.Delivery

set_option autoImplicit false

/-! # `await` delivers the outcome once

From the call of `await` on, through any run: the completion handler is invoked once with the
outcome of the body, or destroyed once without having been invoked. The handler is destroyed when
the promise is destroyed in its body, and also when the way back from its finished body to the
trampoline is lost, which is the handler that `final_awaitable` queues on the executor of the caller
or behind a strand. What a dropped handler destroys reaches through any number of `await`
boundaries. -/

namespace WebAsio.Coro

open Custody State

variable {V E : Type} {s : State V E} {b : Book FrameId SuspId}

/-- What `co_await` of the coroutine is to give: the value, or what escaped the body. -/
def BodyEnd.result : BodyEnd V E → Except E V
  | .returned v none => .ok v
  | .returned _ (some e) => .error e
  | .threw e => .error e

theorem Outcome.get_finish (e : BodyEnd V E) : (Outcome.finish e).get = some e.result := by
  rcases e with ⟨v, _ | e⟩ | e <;> rfl

/-- The action runs the promise `c` through `await`. -/
inductive Action.RunsAwait (c : FrameId) : Action V E → Prop
  | start (t : Site) : RunsAwait c (.startAwait t c)
  | await (f : FrameId) : RunsAwait c (.awaitAwait f c)

/-! ## The beginning -/

/-- A callee handed its caller back only after it was started. -/
theorem Reachable.final_called (hs : Reachable s) {k : SuspId}
    (hk : (s.susp k).kind.isFinal = true) :
    (s.frame (s.susp k).frame).phase ≠ .initial ∧ (s.frame (s.susp k).frame).phase ≠ .unborn := by
  revert k
  refine hs.invariant_with (J := fun s => ∃ b, Accounts s b)
    (I := fun s => ∀ {k}, (s.susp k).kind.isFinal = true →
      (s.frame (s.susp k).frame).phase ≠ .initial ∧ (s.frame (s.susp k).frame).phase ≠ .unborn)
    (fun _ hu => Reachable.accounts hu) (fun h => by cases h) ?_
  rintro s a ⟨b, r⟩ hI ha k hk
  have hkeeps : ∀ c, (s.frame c).phase ≠ .initial ∧ (s.frame c).phase ≠ .unborn →
      ((s.next a).frame c).phase ≠ .initial ∧ ((s.next a).frame c).phase ≠ .unborn :=
    fun c hc => (r.next_phase ha (Delivers.ne_nextFrame r hc.2)).not_fresh hc.1 hc.2
  change ((s.next a).susp k).kind.isFinal = true at hk
  show ((s.next a).frame ((s.next a).susp k).frame).phase ≠ .initial ∧
    ((s.next a).frame ((s.next a).susp k).frame).phase ≠ .unborn
  rcases next_susp ha k with he | he | ⟨rfl, _⟩
  · rw [he] at hk ⊢
    exact hkeeps _ (hI hk)
  · rw [he.names.1] at hk
    rw [he.names.2.1]
    exact hkeeps _ (hI hk)
  · obtain ⟨f, e, g, ex, rfl, -, -, hf, -⟩ := r.next_final ha hk
    rw [hf]
    obtain ⟨-, -, -, t, ht⟩ := r.custodian.of_inBody ha.1
    exact hkeeps f (by simp [ht])

theorem Delivers.start (hs : Reachable s) {a : Action V E} (ha : s.Enabled a) {c : FrameId}
    (hc : a.RunsAwait c) : Delivers (s.next a) s.nextFrame c s.nextSusp [] := by
  obtain ⟨b, r⟩ := hs.accounts
  have hfresh : s.isFresh c = true := by
    cases hc with
    | start t => exact ha
    | await f => exact ha.2
  obtain ⟨-, hcp, hck, -, hcc⟩ := r.custodian.of_isFresh hfresh
  have hn : Counts c s.nextSusp ([] : List (Action V E)) [] 0 0 := ⟨rfl, rfl, rfl⟩
  have honly : ∀ g, ((s.next a).frame g).awaiter.callee = some c → g = s.nextFrame := by
    intro g hg
    rcases r.next_callee ha hg with hold | ⟨-, -, rfl | ⟨hg, -⟩⟩
    · exact absurd hcp (hs.callee_called hold).1
    · cases hc
    · exact hg
  -- nothing was handed back by a promise that did not start
  have hnone : ∀ k, ((s.next a).susp k).kind.isFinal = true → ((s.next a).susp k).frame ≠ c := by
    intro k hk hframe
    rcases next_susp ha k with he | he | ⟨rfl, _⟩
    · rw [he] at hk hframe
      exact (hs.final_called hk).1 (hframe ▸ hcp)
    · rw [he.names.1] at hk
      rw [he.names.2.1] at hframe
      exact (hs.final_called hk).1 (hframe ▸ hcp)
    · obtain ⟨f, e, -, -, rfl, -⟩ := r.next_final ha hk
      cases hc
  cases hc with
  | start t =>
      obtain ⟨-, -, hcn⟩ := r.custodian.of_startAwait ha
      have hframe := s.startAwait_frame (t := t) hcp hcc hcn
      constructor
      case only => exact honly
      case handle => exact fun k hk hf => absurd hf (hnone k hk)
      case delivery =>
        exact .waiting (by simp [next, hframe, Ne.symm hcn])
          (by simp [next, hframe, Ne.symm hcn]) (by simp [next, hframe]) hn
      all_goals simp [next, hframe, Ne.symm hcn, hck]
  | await f =>
      obtain ⟨-, -, hne, hcn⟩ := r.custodian.of_callAwait ha
      have hframe := s.awaitAwaitSuspend_frame hcp hcc hne hcn
      constructor
      case only => exact honly
      case handle => exact fun k hk hf => absurd hf (hnone k hk)
      case delivery =>
        exact .waiting (by simp [next, hframe, Ne.symm hcn])
          (by simp [next, hframe, Ne.symm hcn]) (by simp [next, hframe]) hn
      all_goals simp [next, hframe, Ne.symm hcn, hck]

/-! ## The end -/

/-- The handler `h` was invoked once, with the outcome of the body of `c`, and returned before the
    frame of `c` was destroyed. The coroutine of a `completion_handler` was resumed, unless its
    owner was gone. -/
structure State.DeliveredOnce (s : State V E) (c : FrameId) (h : SuspId) (as : List (Action V E))
    (e : BodyEnd V E) : Prop where
  calls : invocations h as = 1
  dropped : drops h as = 0
  outcome : ∃ o, (s.susp h).value = some (.outcome o) ∧ o.get = some e.result
  frame : (s.frame c).destroyed = 1
  resumed : (s.susp h).kind = .deferred →
    ∃ d, (s.susp h).ended = [d] ∧ d.on = (s.susp h).handle ∧
      (d.deed = .resumed ∨ (s.susp h).fate = some .ownerLost)

/-- The handler `h` was destroyed once and never invoked, and with it the coroutine of a
    `completion_handler`. -/
structure State.DroppedOnce (s : State V E) (h : SuspId) (as : List (Action V E)) : Prop where
  calls : invocations h as = 0
  dropped : drops h as = 1
  destroyed : (s.susp h).kind = .deferred →
    (∃ d, (s.susp h).ended = [d] ∧ d.on = (s.susp h).handle ∧ d.deed = .destroyed) ∧
      (s.frame (s.susp h).handle).destroyed = 1

/-- When a run is over, every suspension that a coroutine waited for is over. -/
theorem Accounts.closed_of_quiescent (r : Accounts s b) (hq : Quiescent s) {h : SuspId}
    (hk : (s.susp h).kind ≠ .callback) : (s.susp h).isOpen = false := by
  by_contra ho
  rw [Bool.not_eq_false] at ho
  have hwait := (r.quiet hq).not_waiting r.wf (s.susp h).handle
  rw [r.custodian.leased_of_open ho hk] at hwait
  cases hwait

/-- When a run is over, no coroutine waits. -/
theorem Accounts.not_suspended_of_quiescent (r : Accounts s b) (hq : Quiescent s) (x : FrameId) :
    (s.frame x).phase ≠ .suspended := by
  intro hp
  have hwait := (r.quiet hq).not_waiting r.wf x
  have hfits := r.custodian.fits x
  cases hb : b.status x <;> rw [hb] at hfits hwait <;> grind [Frame.Fits, Status.inProgress]

/-- When a run is over, every suspension is over, those of completion handlers of user code, too. -/
theorem Accounts.over_of_quiescent (r : Accounts s b) (hq : Quiescent s) (h : SuspId) :
    (s.susp h).isOpen = false := by
  by_cases hlt : h < s.nextSusp
  case neg =>
    rw [r.custodian.newSusp h (Nat.le_of_not_lt hlt)]
    rfl
  by_cases hk : (s.susp h).kind = .callback
  · rcases hq.2 h hlt with hgone | ⟨y, hy, hheld⟩
    · rw [Suspension.isOpen, hgone, ((r.sound h).callback hk).1]
      rfl
    · -- the trampoline that holds it would be suspended
      obtain ⟨⟨c, haw⟩, -⟩ := (r.custodian.held y h).mp hheld
      have hrest := hq.1 y hy
      have hsusp := r.not_suspended_of_quiescent hq y
      have hfits := r.custodian.fits y
      cases hb : b.status y <;> rw [hb] at hfits <;>
        grind [Frame.Fits, Phase.isResting, Awaiter.callee]
  · exact r.closed_of_quiescent hq hk

/-- When a run is over, a dropped handler has destroyed its coroutine. -/
theorem Accounts.destroyed_of_dropped (r : Accounts s b) (hs : Reachable s) (hq : Quiescent s)
    {h : SuspId} (hk : (s.susp h).kind = .deferred) (hfate : (s.susp h).fate = some .dropped) :
    (∃ d, (s.susp h).ended = [d] ∧ d.on = (s.susp h).handle ∧ d.deed = .destroyed) ∧
      (s.frame (s.susp h).handle).destroyed = 1 := by
  have hctx : (s.susp h).kind.hasContext = true := by rw [hk]; rfl
  have hclosed := r.closed_of_quiescent hq (h := h) (by simp [hk])
  obtain ⟨d, ft, hended, hon, hft, hallows⟩ := ((r.sound h).endsOnce hctx).closed hclosed
  obtain rfl : ft = .dropped := by simpa [hfate] using hft.symm
  have hover := hs.over_of_ended h d (by simp [hended]) hallows
  rw [hon] at hover
  have hrest : (s.frame (s.susp h).handle).phase.isResting = true := by
    refine hq.1 _ ?_
    by_contra hn
    rw [r.custodian.unborn_frame (Nat.le_of_not_lt hn)] at hover
    cases hover
  have hp : (s.frame (s.susp h).handle).phase = .destroyed := by
    revert hover hrest
    cases (s.frame (s.susp h).handle).phase <;> simp [Phase.isOver, Phase.isResting]
  exact ⟨⟨d, hended, hon, hallows⟩, by rw [hs.counted, if_pos hp]⟩

theorem Delivers.run {s s' : State V E} {x c : FrameId} {h : SuspId} {as : List (Action V E)}
    (hs : Reachable s) (i : Delivers s x c h []) (hrun : Transition.Run runtime s as s') :
    Reachable s' ∧ Delivers s' x c h as := by
  refine hrun.history (I := fun l u => Reachable u ∧ Delivers u x c h l) ⟨hs, i⟩ ?_
  rintro l u a ⟨hu, i⟩ ha
  obtain ⟨b, r⟩ := hu.accounts
  exact ⟨hu.step ha, i.step hu r ha⟩

namespace Delivers

variable {x c : FrameId} {h : SuspId} {as : List (Action V E)}

/-- A promise whose body was over is destroyed after the handler was invoked and has returned. -/
theorem returned_of_isOver (i : Delivers s x c h as) (hover : (s.frame c).phase.isOver = true)
    (hends : bodyEnds c as ≠ []) : invocations h as = 1 ∧ (s.susp h).stage = .gone := by
  have hnot : ∀ e, ¬ s.Over c e := by
    intro e o
    rcases o.phase with hp | hp
    · obtain ⟨t, ht⟩ := Phase.isFinalizing_iff.mp hp
      rw [ht] at hover
      cases hover
    · rw [hp] at hover
      cases hover
  have hgives : ∀ ends, bodyEnds c as = ends → ¬ s.GivesUp c ends := by
    rintro ends rfl (⟨hnil, -⟩ | ⟨e, -, o, -⟩)
    · exact hends hnil
    · exact hnot e o
  cases i.delivery with
  | waiting _ _ _ n => exact absurd n.ends hends
  | returning e _ _ o _ => exact absurd o (hnot e)
  | invoking e _ _ _ o _ _ _ _ => exact absurd o (hnot e)
  | returned _ _ _ _ hst _ n => exact ⟨n.calls, hst⟩
  | aborting ends _ _ g n => exact absurd g (hgives ends n.ends)
  | dropping ends _ g _ n => exact absurd g (hgives ends n.ends)
  | dropped ends _ g _ _ n => exact absurd g (hgives ends n.ends)

/-- **The end of a delivery.** -/
theorem finish (i : Delivers s x c h as) (hs : Reachable s) (hq : Quiescent s) :
    (∃ e, bodyEnds c as = [e] ∧ ¬ s.LosesCaller c ∧ s.DeliveredOnce c h as e) ∨
      (bodyEnds c as = [] ∧ (s.frame c).destroyed = 1 ∨
        (∃ e, bodyEnds c as = [e]) ∧ s.LosesCaller c) ∧ s.DroppedOnce h as := by
  obtain ⟨b, r⟩ := hs.accounts
  have hx : (s.frame x).phase.isResting = true := by
    refine hq.1 x ?_
    by_contra hn
    exact i.delivery.started (by rw [r.custodian.unborn_frame (Nat.le_of_not_lt hn)])
  have hc : (s.frame c).phase.isResting = true := by
    refine hq.1 c ?_
    by_contra hn
    exact i.called.2 (by rw [r.custodian.unborn_frame (Nat.le_of_not_lt hn)])
  have hdestroyed : ∀ f, (s.frame f).phase = .destroyed → (s.frame f).destroyed = 1 := by
    intro f hf
    rw [hs.counted f, if_pos hf]
  -- nobody waits any more
  have hwait := (r.quiet hq).not_waiting r.wf x
  have hnot : (s.frame x).phase ≠ .suspended := by
    intro hp
    have hf := r.custodian.fits x
    cases hb : b.status x <;> rw [hb] at hf hwait <;> grind [Frame.Fits, Status.inProgress]
  cases i.delivery with
  | waiting hp => exact absurd hp hnot
  | returning e hp =>
      rcases hp with hp | ⟨t, hp⟩
      · exact absurd hp hnot
      · rw [hp] at hx
        cases hx
  | invoking e t hp => rw [hp] at hx; cases hx
  | aborting ends hp => rw [hp] at hx; cases hx
  | dropping ends hp g hst =>
      rcases hq.2 h i.exists_susp with hgone | ⟨y, -, hheld⟩
      · rw [hst] at hgone
        cases hgone
      · rw [hst] at hheld
        cases hheld
  | returned e hp hcp hv hst hr n =>
      refine .inl ⟨e, n.ends, hr.not_losesCaller, n.calls, n.dropped,
        ⟨_, hv, Outcome.get_finish e⟩, ?_, ?_⟩
      · rcases hcp with hcp | hcp
        · rw [hcp] at hc
          cases hc
        · exact hdestroyed c hcp
      · intro hk
        have hctx : (s.susp h).kind.hasContext = true := by rw [hk]; rfl
        have hclosed := r.closed_of_quiescent hq (h := h) (by simp [hk])
        obtain ⟨d, ft, hended, hon, hfate, hallows⟩ := ((r.sound h).endsOnce hctx).closed hclosed
        have hset := ((r.sound h).stored (by rw [hk]; rfl)).mp (by simp [hv])
        refine ⟨d, hended, hon, ?_⟩
        cases ft with
        | invoked => exact .inl hallows
        | threw => exact .inl hallows.2
        | ownerLost => exact .inr hfate
        | dropped => simp [Suspension.Settled, hst, hfate] at hset
  | dropped ends hp g hst hfate n =>
      refine .inr ⟨?_, n.calls, n.dropped, fun hk => r.destroyed_of_dropped hs hq hk hfate⟩
      rcases g with ⟨hnil, hcp⟩ | ⟨e, hends, -, hlost⟩
      · exact .inl ⟨n.ends.trans hnil, hdestroyed c hcp⟩
      · exact .inr ⟨⟨e, n.ends.trans hends⟩, hlost⟩

end Delivers

/-! ## Abortion through `await` boundaries -/

/-- A handler of the chain that waits for a dropped handler is not invoked. -/
structure State.Condemns (s : State V E) (y : FrameId) (j : SuspId) (as : List (Action V E)) :
    Prop where
  exists_susp : j < s.nextSusp
  bridged : (s.susp j).stage ≠ .asio ∧ (s.susp j).side ≠ .initiating true
  calls : invocations j as = 0
  drops : (s.susp j).stage = .held y ∧ drops j as = 0 ∨
    (s.susp j).stage = .dropping ∧ drops j as = 0 ∨
      (s.susp j).stage = .gone ∧ (s.susp j).fate = some .dropped ∧ drops j as = 1

theorem State.Condemns.step {y : FrameId} {j : SuspId} {as : List (Action V E)}
    (i : s.Condemns y j as) {a : Action V E} (ha : s.Enabled a)
    (hy : (s.frame y).phase.isResuming = false) : (s.next a).Condemns y j (as ++ [a]) := by
  have hinv : ∀ z d, a ≠ .trampolineInvoke z d j := by
    rintro z d rfl
    have hst := ha.2.2
    rcases i.drops with ⟨hheld, -⟩ | ⟨hheld, -⟩ | ⟨hheld, -⟩ <;> rw [hheld] at hst <;> cases hst
    have hres := ha.1
    rw [hy] at hres
    cases hres
  have hlt := Nat.lt_of_lt_of_le i.exists_susp (s.nextSusp_le a)
  have hbridged : ((s.next a).susp j).stage ≠ .asio ∧
      ((s.next a).susp j).side ≠ .initiating true := by
    rcases next_susp ha j with he | he | ⟨he, _⟩
    · rw [he]
      exact i.bridged
    · exact he.bridged_keeps i.bridged
    · exact absurd he (Nat.ne_of_lt i.exists_susp)
  refine ⟨hlt, hbridged, ?_, ?_⟩
  · rw [invocations_snoc, i.calls, Action.not_invokes hinv]
    rfl
  rw [drops_snoc]
  rcases i.drops with ⟨hst, hn⟩ | ⟨hst, hn⟩ | ⟨hst, hfate, hn⟩
  · have hdrop : a ≠ .drop j := by
      rintro rfl
      rcases ha with ha | ha <;> rw [hst] at ha <;> cases ha
    rw [hn, Action.not_drops hdrop]
    rcases next_held ha i.exists_susp hst with hst' | ⟨d, rfl⟩ | ⟨-, hst'⟩
    · exact .inl ⟨hst', rfl⟩
    · exact absurd rfl (hinv y d)
    · exact .inr (.inl ⟨hst', rfl⟩)
  · by_cases hdrop : a = .drop j
    · subst hdrop
      obtain ⟨hgone, hfate⟩ := s.handlerDrop_stage j
      exact .inr (.inr ⟨hgone, hfate, by simp [hn, Action.drops]⟩)
    · rw [hn, Action.not_drops hdrop]
      exact .inr (.inl ⟨(next_dropping ha i.exists_susp hst).resolve_right hdrop, rfl⟩)
  · have hdrop : a ≠ .drop j := by
      rintro rfl
      rcases ha with ha | ha <;> rw [hst] at ha <;> cases ha
    rw [hn, Action.not_drops hdrop]
    rcases next_susp ha j with he | he | ⟨he, _⟩
    · exact .inr (.inr ⟨by rw [he]; exact hst, by rw [he]; exact hfate, rfl⟩)
    · obtain ⟨hst', -, hfate'⟩ := he.gone_keeps i.bridged.2 hst
      exact .inr (.inr ⟨hst', hfate'.trans hfate, rfl⟩)
    · exact absurd he (Nat.ne_of_lt i.exists_susp)

/-- A handler that a trampoline of the chain holds is destroyed once. -/
theorem Reachable.droppedOnce_of_waitsFor {s' : State V E} {as : List (Action V E)}
    (hs : Reachable s) {k : SuspId} (hk : (s.susp k).kind ≠ .callback)
    (hfate : (s.susp k).fate = some .dropped) (hside : (s.susp k).side ≠ .initiating true)
    {y : FrameId} (hy : s.WaitsFor (s.susp k).handle y) {j : SuspId}
    (hj : (s.susp j).stage = .held y) (hrun : Transition.Run runtime s as s')
    (hq : Quiescent s') : s'.DroppedOnce j as := by
  obtain ⟨b, r⟩ := hs.accounts
  have hlt : j < s.nextSusp := by
    by_contra hn
    rw [r.custodian.newSusp j (Nat.le_of_not_lt hn)] at hj
    cases hj
  have hbridged : (s.susp j).stage ≠ .asio ∧ (s.susp j).side ≠ .initiating true := by
    refine ⟨by rw [hj]; simp, ?_⟩
    rcases (r.sound j).bridged (.inl ⟨y, hj⟩) with ⟨-, hs⟩ | hc
    · exact hs
    · rw [((r.sound j).callback hc).1]
      simp
  obtain ⟨-, i⟩ : Transition.Run runtime s as s' ∧ s'.Condemns y j as := by
    refine hrun.history (I := fun l u => Transition.Run runtime s l u ∧ u.Condemns y j l)
      ⟨.nil s, hlt, hbridged, rfl, .inl ⟨hj, rfl⟩⟩ ?_
    rintro l u a ⟨hu, i⟩ ha
    exact ⟨hu.snoc ha, i.step ha (hs.stopped_of_waitsFor hk hfate hside hy hu).2⟩
  have hs' : Reachable s' := hs.run hrun
  obtain ⟨b', m, r'⟩ := r.run hrun
  have hgone : ∀ z, (s'.susp j).stage ≠ .held z ∧ (s'.susp j).stage ≠ .dropping := by
    intro z
    rcases hq.2 j i.exists_susp with hst | ⟨z', -, hst⟩
    · rw [hst]
      exact ⟨by simp, by simp⟩
    · -- the trampoline would still be waiting, or it is destroyed and holds nothing
      exfalso
      rcases i.drops with ⟨hheld, -⟩ | ⟨hheld, -⟩ | ⟨hheld, -⟩
      · obtain ⟨⟨d, haw⟩, -⟩ := (r'.custodian.held y j).mp hheld
        have hwait := (r'.quiet hq).not_waiting r'.wf y
        have hf := r'.custodian.fits y
        rcases doomed_run r.wf m (r.doomed_of_waitsFor hs hk hfate hside hy) with hd | hd
        · rcases hd.status with hb | ⟨_, hb, -⟩ | ⟨_, hb⟩ <;> rw [hb] at hwait <;> cases hwait
        · rw [hd] at hf
          rw [hf.2.1] at haw
          cases haw
      · rw [hst] at hheld
        cases hheld
      · rw [hst] at hheld
        cases hheld
  rcases i.drops with ⟨hst, -⟩ | ⟨hst, -⟩ | ⟨hst, hdropped, hn⟩
  · exact absurd hst (hgone y).1
  · exact absurd hst (hgone y).2
  · exact ⟨i.calls, hn, fun hkind => r'.destroyed_of_dropped hs' hq hkind hdropped⟩

/-- A suspension keeps its kind and its coroutine. -/
theorem State.names_run {s' : State V E} {as : List (Action V E)} {h : SuspId}
    (hh : h < s.nextSusp) (hrun : Transition.Run runtime s as s') :
    (s'.susp h).kind = (s.susp h).kind ∧ (s'.susp h).handle = (s.susp h).handle := by
  suffices hI : h < s'.nextSusp ∧ (s'.susp h).kind = (s.susp h).kind ∧
      (s'.susp h).handle = (s.susp h).handle from hI.2
  refine hrun.invariant (I := fun u => h < u.nextSusp ∧ (u.susp h).kind = (s.susp h).kind ∧
    (u.susp h).handle = (s.susp h).handle) ⟨hh, rfl, rfl⟩ ?_
  rintro u a ⟨hlt, hkind, hhandle⟩ ha
  have hlt' : h < (u.next a).nextSusp := Nat.lt_of_lt_of_le hlt (u.nextSusp_le a)
  refine ⟨hlt', ?_⟩
  show ((u.next a).susp h).kind = _ ∧ ((u.next a).susp h).handle = _
  rcases next_susp ha h with he | he | ⟨he, _⟩
  · rw [he]
    exact ⟨hkind, hhandle⟩
  · exact ⟨he.names.1.trans hkind, he.names.2.2.1.trans hhandle⟩
  · exact absurd he (Nat.ne_of_lt hlt)

/-- **`await` delivers the outcome exactly once.** A promise `c` that is run through `await` is
    destroyed, if its body was over, after the completion handler was invoked and has returned. When
    the run is over, the handler was invoked once with the outcome, unless `c` was destroyed in its
    body or a handler by which `final_awaitable` gives the trampoline back was dropped: then it was
    destroyed once without having been invoked. A `completion_handler` resumes or destroys its
    coroutine accordingly, so what a dropped handler `k` destroys reaches through every `await` of
    the chain that waits for it. -/
theorem Reachable.await_delivers_once {s₀ s : State V E} {c : FrameId} {a : Action V E}
    {as : List (Action V E)} (hs : Reachable s₀) (ha : s₀.Enabled a) (hc : a.RunsAwait c)
    (hrun : Transition.Run runtime (s₀.next a) as s) :
    ((s.frame c).phase.isOver = true → bodyEnds c as ≠ [] →
      invocations s₀.nextSusp as = 1 ∧ (s.susp s₀.nextSusp).stage = .gone) ∧
    (∀ f, a = .awaitAwait f c →
      (s.susp s₀.nextSusp).kind = .deferred ∧ (s.susp s₀.nextSusp).handle = f) ∧
    (Quiescent s →
      (∃ e, bodyEnds c as = [e] ∧ ¬ s.LosesCaller c ∧ s.DeliveredOnce c s₀.nextSusp as e) ∨
        (bodyEnds c as = [] ∧ (s.frame c).destroyed = 1 ∨
          (∃ e, bodyEnds c as = [e]) ∧ s.LosesCaller c) ∧ s.DroppedOnce s₀.nextSusp as) ∧
    ∀ k, (s.susp k).kind ≠ .callback → (s.susp k).fate = some .dropped →
      (s.susp k).side ≠ .initiating true →
      ∀ y j, s.WaitsFor (s.susp k).handle y → (s.susp j).stage = .held y →
      ∀ bs s', Transition.Run runtime s bs s' → Quiescent s' → s'.DroppedOnce j bs := by
  have hstart := Delivers.start hs ha hc
  obtain ⟨hs', i⟩ := hstart.run (hs.step ha) hrun
  refine ⟨i.returned_of_isOver, ?_, i.finish hs', ?_⟩
  · rintro f rfl
    obtain ⟨hkind, hhandle⟩ := State.names_run hstart.exists_susp hrun
    rw [hkind, hhandle]
    simp [next]
  · intro k hk hfate hside y j hy hj bs s' hrun' hq
    exact hs'.droppedOnce_of_waitsFor hk hfate hside hy hj hrun' hq

/-- The body of the promise returns at once. -/
def promptPromise : List (Action Unit Unit) :=
  [.coReturn 0 (.returned () none), .trampolineInvoke 1 0 0, .trampolineReturn 1 0 0, .destroy 0]

theorem await_delivers_once_prompt :
    let s : State Unit Unit := State.after (.create none :: .startAwait [] 0 :: promptPromise)
    bodyEnds 0 promptPromise = [.returned () none] ∧
      s.DeliveredOnce 0 0 promptPromise (.returned () none) := by
  intro s
  have hs : Reachable (State.after [.create none] : State Unit Unit) := .after (by decide)
  have ha : (State.after [.create none] : State Unit Unit).Enabled (.startAwait [] 0) := by decide
  have hrun : Transition.Run runtime
      ((State.after [.create none] : State Unit Unit).next (.startAwait [] 0)) promptPromise s :=
    .of_legal (by decide)
  have hends : bodyEnds 0 promptPromise = [.returned () none] := by decide
  refine ⟨hends, ?_⟩
  rcases (Reachable.await_delivers_once hs ha (.start []) hrun).2.2.1 (by decide) with
    ⟨e, he, -, h⟩ | ⟨-, h⟩
  · rw [hends] at he
    obtain rfl : BodyEnd.returned () none = e := by simpa using he
    exact h
  · exact absurd h.calls (by decide)

/-- The promise hops to a strand, so that `final_awaitable` leaves the strand through a handler, and
    Boost.Asio drops that handler. -/
def lostHandBack : List (Action Unit Unit) :=
  [.awaitPost 0 ⟨.strand 0 (.context 0), false⟩, .plainResume 1 (.strand 0 (.context 0)),
    .awaitResume 0, .coReturn 0 (.returned () none), .drop 2, .destroy 1, .drop 0]

/-- The body finishes, and the completion handler is destroyed without having been invoked. -/
theorem await_loses_outcome :
    let s₀ : State Unit Unit := State.after [.create none]
    ∃ s, Reachable s₀ ∧ s₀.Enabled (.startAwait [] 0) ∧
      Transition.Run runtime (s₀.next (.startAwait [] 0)) lostHandBack s ∧ Quiescent s ∧
      bodyEnds 0 lostHandBack = [.returned () none] ∧
      invocations s₀.nextSusp lostHandBack = 0 ∧ drops s₀.nextSusp lostHandBack = 1 := by
  refine ⟨_, .after (by decide), by decide, .of_legal (by decide), ?_, ?_, ?_, ?_⟩ <;> decide

end WebAsio.Coro
