import WebAsio.Coro.Trampoline
import WebAsio.Coro.Destruction

set_option autoImplicit false

/-! # The delivery of an outcome

A promise `c` that is run through `await` has a trampoline `x` for its caller, which holds the
completion handler `h`. The actions of a run say how often the body of the promise ended, and how
often the handler was invoked and destroyed; `Delivery` lists the situations that the three can be
in together, and `Delivers.step` says that every step leads from one of them to one of them. -/

namespace WebAsio.Coro

open Custody State

variable {V E : Type} {s : State V E} {b : Book FrameId SuspId}

/-! ## What a run did -/

/-- How the action ends the body of `c`, if it does. -/
def Action.endOf (c : FrameId) : Action V E → Option (BodyEnd V E)
  | .coReturn f e => if f = c then some e else none
  | _ => none

/-- A trampoline invokes the handler `h`. -/
def Action.invokes (h : SuspId) : Action V E → Bool
  | .trampolineInvoke _ _ k => k == h
  | _ => false

/-- The handler `h` is destroyed without having been invoked. -/
def Action.drops (h : SuspId) : Action V E → Bool
  | .drop k => k == h
  | _ => false

theorem Action.not_invokes {a : Action V E} {h : SuspId} (hi : ∀ y d, a ≠ .trampolineInvoke y d h) :
    a.invokes h = false := by
  cases a with
  | trampolineInvoke y d k =>
      rw [Action.invokes, beq_eq_false_iff_ne]
      rintro rfl
      exact hi y d rfl
  | _ => rfl

theorem Action.not_drops {a : Action V E} {h : SuspId} (hd : a ≠ .drop h) : a.drops h = false := by
  cases a with
  | drop k =>
      rw [Action.drops, beq_eq_false_iff_ne]
      rintro rfl
      exact hd rfl
  | _ => rfl

def bodyEnds (c : FrameId) (as : List (Action V E)) : List (BodyEnd V E) := as.filterMap (·.endOf c)

def invocations (h : SuspId) (as : List (Action V E)) : Nat := as.countP (·.invokes h)

def drops (h : SuspId) (as : List (Action V E)) : Nat := as.countP (·.drops h)

theorem invocations_snoc (h : SuspId) (as : List (Action V E)) (a : Action V E) :
    invocations h (as ++ [a]) = invocations h as + if a.invokes h then 1 else 0 := by
  rw [invocations, List.countP_append, List.countP_singleton, ← invocations]

theorem drops_snoc (h : SuspId) (as : List (Action V E)) (a : Action V E) :
    drops h (as ++ [a]) = drops h as + if a.drops h then 1 else 0 := by
  rw [drops, List.countP_append, List.countP_singleton, ← drops]

/-- The three counts of a run. -/
structure Counts (c : FrameId) (h : SuspId) (as : List (Action V E)) (ends : List (BodyEnd V E))
    (calls dropped : Nat) : Prop where
  ends : bodyEnds c as = ends
  calls : invocations h as = calls
  dropped : drops h as = dropped

theorem Counts.snoc {c : FrameId} {h : SuspId} {as : List (Action V E)} {ends : List (BodyEnd V E)}
    {calls dropped : Nat} (n : Counts c h as ends calls dropped) (a : Action V E) :
    Counts c h (as ++ [a]) (ends ++ (a.endOf c).toList)
      (calls + if a.invokes h then 1 else 0) (dropped + if a.drops h then 1 else 0) := by
  refine ⟨?_, ?_, ?_⟩
  · rw [bodyEnds, List.filterMap_append, ← bodyEnds, n.ends]
    cases ha : a.endOf c <;> simp [ha]
  · rw [invocations_snoc, n.calls]
  · rw [drops_snoc, n.dropped]

/-- An action that concerns none of the three. -/
theorem Counts.snoc_other {c : FrameId} {h : SuspId} {as : List (Action V E)}
    {ends : List (BodyEnd V E)} {calls dropped : Nat} (n : Counts c h as ends calls dropped)
    {a : Action V E} (he : ∀ e, a ≠ .coReturn c e) (hi : ∀ y d, a ≠ .trampolineInvoke y d h)
    (hd : a ≠ .drop h) : Counts c h (as ++ [a]) ends calls dropped := by
  have hsnoc := n.snoc a
  have hends : a.endOf c = none := by
    cases a with
    | coReturn f e =>
        rw [Action.endOf, if_neg]
        rintro rfl
        exact he e rfl
    | _ => rfl
  simpa [hends, Action.not_invokes hi, Action.not_drops hd] using hsnoc

/-! ## The situations of a delivery -/

/-- The body of `c` ended with `e`, its outcome is stored, and its frame is still there. -/
structure State.Over (s : State V E) (c : FrameId) (e : BodyEnd V E) : Prop where
  phase : (s.frame c).phase.isFinalizing = true ∨ (s.frame c).phase = .parked
  kind : (s.frame c).kind = .promise
  result : (s.frame c).result = Outcome.finish e

/-- The handler that the `final_awaitable` of `c` made to resume its caller was dropped. -/
def State.LosesCaller (s : State V E) (c : FrameId) : Prop :=
  ∃ k, (s.susp k).kind.isFinal = true ∧ (s.susp k).frame = c ∧ (s.susp k).fate = some .dropped

/-- Every handler that the `final_awaitable` of `c` made is over, and none was dropped. -/
def State.ReachesCaller (s : State V E) (c : FrameId) : Prop :=
  ∀ k, (s.susp k).kind.isFinal = true → (s.susp k).frame = c →
    (s.susp k).stage = .gone ∧ (s.susp k).fate ≠ some .dropped

theorem State.ReachesCaller.not_losesCaller {c : FrameId} (h : s.ReachesCaller c) :
    ¬ s.LosesCaller c := fun ⟨k, hk, hframe, hfate⟩ => (h k hk hframe).2 hfate

/-- The trampoline will not be resumed: the promise was destroyed in its body, or its body ended and
    the way back to the trampoline was lost. -/
def State.GivesUp (s : State V E) (c : FrameId) (ends : List (BodyEnd V E)) : Prop :=
  ends = [] ∧ (s.frame c).phase = .destroyed ∨ ∃ e, ends = [e] ∧ s.Over c e ∧ s.LosesCaller c

/-- How far the delivery of the outcome of `c` is. -/
inductive Delivery (s : State V E) (x c : FrameId) (h : SuspId) (as : List (Action V E)) : Prop
  | waiting : (s.frame x).phase = .suspended → (s.frame x).awaiter = .bridge c h →
      (s.frame c).caller = some x → Counts c h as [] 0 0 → Delivery s x c h as
  | returning (e : BodyEnd V E) :
      (s.frame x).phase = .suspended ∨ (∃ t, (s.frame x).phase = .resuming t) →
      (s.frame x).awaiter = .bridge c h → s.Over c e → Counts c h as [e] 0 0 → Delivery s x c h as
  | invoking (e : BodyEnd V E) (t : Site) : (s.frame x).phase = .running t →
      (s.frame x).awaiter = .bridge c h → s.Over c e →
      (s.susp h).value = some (.outcome (Outcome.finish e)) → (s.susp h).stage ≠ .dropping →
      s.ReachesCaller c → Counts c h as [e] 1 0 → Delivery s x c h as
  | returned (e : BodyEnd V E) : (s.frame x).phase = .destroyed →
      (s.frame c).phase = .destroying ∨ (s.frame c).phase = .destroyed →
      (s.susp h).value = some (.outcome (Outcome.finish e)) → (s.susp h).stage = .gone →
      s.ReachesCaller c → Counts c h as [e] 1 0 → Delivery s x c h as
  | aborting (ends : List (BodyEnd V E)) : (s.frame x).phase = .destroying →
      (s.frame x).awaiter = .bridge c h → s.GivesUp c ends → Counts c h as ends 0 0 →
      Delivery s x c h as
  | dropping (ends : List (BodyEnd V E)) : (s.frame x).phase = .destroyed → s.GivesUp c ends →
      (s.susp h).stage = .dropping → Counts c h as ends 0 0 → Delivery s x c h as
  | dropped (ends : List (BodyEnd V E)) : (s.frame x).phase = .destroyed → s.GivesUp c ends →
      (s.susp h).stage = .gone → (s.susp h).fate = some .dropped → Counts c h as ends 0 1 →
      Delivery s x c h as

theorem Delivery.started {x c : FrameId} {h : SuspId} {as : List (Action V E)}
    (d : Delivery s x c h as) : (s.frame x).phase ≠ .unborn := by
  cases d with
  | returning _ hp => rcases hp with hp | ⟨t, hp⟩ <;> rw [hp] <;> simp
  | waiting hp | invoking _ _ hp | returned _ hp | aborting _ hp | dropping _ hp | dropped _ hp =>
      rw [hp]
      simp

/-- The invariant of a delivery. -/
structure Delivers (s : State V E) (x c : FrameId) (h : SuspId) (as : List (Action V E)) :
    Prop where
  exists_susp : h < s.nextSusp
  trampoline : (s.frame x).kind = .trampoline
  promise : (s.frame c).kind = .promise
  called : (s.frame c).phase ≠ .initial ∧ (s.frame c).phase ≠ .unborn
  only : ∀ g, (s.frame g).awaiter.callee = some c → g = x
  /-- the handler is held by nobody else, and its initiation does not throw -/
  holder : ∀ y, (s.susp h).stage = .held y → y = x
  /-- what `final_awaitable` gives back is the trampoline -/
  handle : ∀ k, (s.susp k).kind.isFinal = true → (s.susp k).frame = c → (s.susp k).handle = x
  bridged : (s.susp h).stage ≠ .asio ∧ (s.susp h).side ≠ .initiating true
  delivery : Delivery s x c h as

/-! ## What lasts -/

theorem AwaitKind.not_isCompletion_of_isFinal {k : AwaitKind} (h : k.isFinal = true) :
    k.isCompletion = false := by
  cases k <;> first | rfl | cases h

/-- The initiation of a hand-back does not throw. -/
theorem Suspension.Sound.side_of_isFinal {r : Suspension V E} (w : r.Sound)
    (hk : r.kind.isFinal = true) : r.side ≠ .initiating true := by
  intro hs
  have hc := w.initiating ⟨true, hs⟩
  rw [AwaitKind.not_isCompletion_of_isFinal hk] at hc
  cases hc

theorem AwaitKind.ne_callback_of_isFinal {k : AwaitKind} (h : k.isFinal = true) :
    k ≠ .callback := by
  rintro rfl
  cases h

/-- A handler without a context is a plain one, or belongs to user code. -/
theorem AwaitKind.plain_of_not_hasContext {k : AwaitKind} (hc : k.hasContext ≠ true)
    (hk : k ≠ .callback) : k = .post ∨ k = .finalDefer := by
  revert hc hk
  cases k <;> simp [AwaitKind.hasContext]

/-- Nothing was done to the coroutine of a suspension that is open. -/
theorem Suspension.Sound.ended_of_open {r : Suspension V E} (w : r.Sound) (ho : r.isOpen = true)
    (hk : r.kind ≠ .callback) : r.ended = [] := by
  by_cases hc : r.kind.hasContext = true
  · exact (w.endsOnce hc).pending ho
  · cases w.plain (AwaitKind.plain_of_not_hasContext hc hk) with
    | queued _ _ _ hended => exact hended
    | finished _ _ hside hst => simp [isOpen, hside, hst] at ho

theorem Suspension.Sound.ended_of_closed {r : Suspension V E} (w : r.Sound)
    (hk : r.kind ≠ .callback) (ho : r.isOpen = false) :
    ∃ e ft, r.stage = .gone ∧ r.ended = [e] ∧ e.on = r.handle ∧ r.fate = some ft ∧ ft.allows e := by
  have hgone : r.stage = .gone := by
    simp only [isOpen, Bool.or_eq_false_iff, bne_eq_false_iff_eq] at ho
    exact ho.1
  by_cases hc : r.kind.hasContext = true
  · obtain ⟨e, ft, h⟩ := (w.endsOnce hc).closed ho
    exact ⟨e, ft, hgone, h⟩
  · cases w.plain (AwaitKind.plain_of_not_hasContext hc hk) with
    | queued _ hst _ _ => rw [hgone] at hst; cases hst
    | finished e ft _ _ hended hon hfate hallows =>
        exact ⟨e, ft, hgone, hended, hon, hfate, hallows⟩

theorem Suspension.Sound.fate_of_open {r : Suspension V E} (w : r.Sound) (ho : r.isOpen = true)
    (hk : r.kind.isFinal = true) : r.fate ≠ some .ownerLost := by
  intro hfate
  by_cases hc : r.kind.hasContext = true
  · cases w.context hc <;> simp_all [isOpen]
  · cases w.plain (AwaitKind.plain_of_not_hasContext hc (AwaitKind.ne_callback_of_isFinal hk)) <;>
      simp_all [isOpen]

namespace Suspension.Step

variable {r r' : Suspension V E}

/-- A handler that a trampoline was given never gets to Boost.Asio. -/
theorem bridged_keeps (h : r.Step r') (hr : r.stage ≠ .asio ∧ r.side ≠ .initiating true) :
    r'.stage ≠ .asio ∧ r'.side ≠ .initiating true := by
  obtain ⟨hst, hside⟩ := hr
  cases h <;> grind [endBy]

/-- The result of a handler that was invoked lasts, and the handler is not destroyed unused. -/
theorem invoked_keeps (h : r.Step r') (hr : r.stage ≠ .asio ∧ r.side ≠ .initiating true)
    (hheld : ∀ y, r.stage ≠ .held y) (hd : r.stage ≠ .dropping) :
    r'.value = r.value ∧ r'.stage ≠ .dropping := by
  obtain ⟨hst, hside⟩ := hr
  cases h <;> grind [endBy]

/-- A handler that is gone does not come back. -/
theorem gone_keeps (h : r.Step r') (hside : r.side ≠ .initiating true) (hr : r.stage = .gone) :
    r'.stage = .gone ∧ r'.value = r.value ∧ r'.fate = r.fate := by
  cases h <;> grind [endBy]

/-- A held handler was with its trampoline before. -/
theorem held_of_held (h : r.Step r') {y : FrameId} (hr : r'.stage = .held y) :
    r.stage = .held y := by
  cases h <;> grind [endBy]

/-- Only a `completion_handler` finds its owner gone. -/
theorem ownerLost_cases (h : r.Step r') (hr : r'.fate = some .ownerLost) :
    r.fate = some .ownerLost ∨ r.kind.isCompletion = true := by
  cases h <;> grind [endBy]

/-- The last step of a hand-back that destroys the caller follows the end of a dropped handler. -/
theorem dropped_of_closed (h : r.Step r') (w₀ : r.Sound) (w : r'.Sound)
    (hk : r.kind.isFinal = true) (ho₀ : r.isOpen = true) (ho : r'.isOpen = false)
    (hd : ∀ e ∈ r'.ended, e.deed = .destroyed) :
    r'.fate = some .dropped := by
  have hlost := h.ownerLost_cases.mt
    (not_or_intro (w₀.fate_of_open ho₀ hk) (by simp [AwaitKind.not_isCompletion_of_isFinal hk]))
  rw [← h.names.1] at hk
  obtain ⟨e, ft, -, hended, -, hfate, hallows⟩ :=
    w.ended_of_closed (AwaitKind.ne_callback_of_isFinal hk) ho
  have hdeed := hd e (by simp [hended])
  cases ft with
  | dropped => exact hfate
  | ownerLost => exact absurd hfate hlost
  | invoked => rw [Fate.allows, hdeed] at hallows; cases hallows
  | threw => rw [Fate.allows, hdeed] at hallows; cases hallows.2

end Suspension.Step

/-- A caller once lost stays lost. -/
theorem State.LosesCaller.step {a : Action V E} (r : Accounts s b) (ha : s.Enabled a) {c : FrameId}
    (h : s.LosesCaller c) : (s.next a).LosesCaller c := by
  obtain ⟨k, hk, hframe, hfate⟩ := h
  have hside := (r.sound k).side_of_isFinal hk
  have hgone : (s.susp k).stage = .gone := by
    by_cases hctx : (s.susp k).kind.hasContext = true
    · cases (r.sound k).context hctx <;> simp_all
    · have hplain : (s.susp k).kind = .post ∨ (s.susp k).kind = .finalDefer := by
        revert hk hctx
        cases (s.susp k).kind <;> simp [AwaitKind.isFinal, AwaitKind.hasContext]
      cases (r.sound k).plain hplain <;> simp_all
  rcases next_susp ha k with he | he | ⟨he, _⟩
  · exact ⟨k, by rw [he]; exact ⟨hk, hframe, hfate⟩⟩
  · obtain ⟨_, _, hf⟩ := he.gone_keeps hside hgone
    exact ⟨k, by rw [he.names.1]; exact hk, by rw [he.names.2.1]; exact hframe, hf.trans hfate⟩
  · rw [he, r.custodian.newSusp _ (Nat.le_refl _)] at hfate
    cases hfate

/-- A caller once reached stays so until the callee ends again. -/
theorem State.ReachesCaller.step {a : Action V E} (r : Accounts s b) (ha : s.Enabled a)
    {c : FrameId} (h : s.ReachesCaller c) (hret : ∀ e, a ≠ .coReturn c e) :
    (s.next a).ReachesCaller c := by
  intro k hk hframe
  rcases next_susp ha k with he | he | ⟨rfl, _⟩
  · rw [he] at hk hframe ⊢
    exact h k hk hframe
  · rw [he.names.1] at hk
    rw [he.names.2.1] at hframe
    obtain ⟨hgone, hfate⟩ := h k hk hframe
    obtain ⟨hgone', -, hfate'⟩ := he.gone_keeps ((r.sound k).side_of_isFinal hk) hgone
    exact ⟨hgone', by rwa [hfate']⟩
  · -- another callee ends
    obtain ⟨f, e, -, -, rfl, -, -, hf, -⟩ := r.next_final ha hk
    obtain rfl : f = c := hf.symm.trans hframe
    exact absurd rfl (hret e)

/-- A promise that is over stays there until the frame that awaits it destroys it. -/
theorem State.Over.step {a : Action V E} (r : Accounts s b) (ha : s.Enabled a) {c : FrameId}
    {e : BodyEnd V E} (o : s.Over c e)
    (hawait : ∀ f, a = .awaitResume f → (s.frame f).awaiter ≠ .coro c)
    (htramp : ∀ x k, a ≠ .trampolineReturn x c k) : (s.next a).Over c e := by
  have hu : (s.frame c).phase ≠ .unborn := fun hu => by
    have hp := o.phase
    rw [hu] at hp
    rcases hp with hp | hp <;> cases hp
  rcases r.reaped ha o.phase o.kind with ⟨hp, hres⟩ | ⟨f, hf, haw⟩ | ⟨x, k, hx⟩
  · exact ⟨hp, (r.next_kind ha hu).trans o.kind, hres.trans o.result⟩
  · exact absurd haw (hawait f hf)
  · exact absurd hx (htramp x k)

/-- The body of a promise that is over does not end again. -/
theorem State.Over.not_coReturn {a : Action V E} (ha : s.Enabled a) {c : FrameId} {e : BodyEnd V E}
    (o : s.Over c e) : ∀ e', a ≠ .coReturn c e' := by
  rintro e' rfl
  obtain ⟨t, ht⟩ : ∃ t, (s.frame c).phase = .running t := by
    have hb := ha.1
    rw [inBody, Bool.and_eq_true] at hb
    exact Phase.isRunning_iff.mp hb.1
  rcases o.phase with hp | hp <;> rw [ht] at hp <;> cases hp

/-- What the destructor of a handler leaves of it. -/
theorem State.handlerDrop_stage (s : State V E) (h : SuspId) :
    ((s.handlerDrop h).susp h).stage = .gone ∧ ((s.handlerDrop h).susp h).fate = some .dropped := by
  simp only [handlerDrop]
  split_ifs <;> simp [Suspension.endBy]

namespace Delivers

variable {x c : FrameId} {h : SuspId} {as : List (Action V E)} {a : Action V E}

theorem held (r : Accounts s b) (hp : (s.frame x).phase.isRunning = false)
    (hx : (s.frame x).awaiter = .bridge c h) : (s.susp h).stage = .held x :=
  (r.custodian.held x h).mpr ⟨⟨c, hx⟩, hp⟩

/-- The handler is with a trampoline that has not been resumed. -/
theorem not_touched (i : Delivers s x c h as) (ha : s.Enabled a)
    (hst : (s.susp h).stage = .held x) (hx : ∀ t, (s.frame x).phase ≠ .resuming t) :
    (∀ y d, a ≠ .trampolineInvoke y d h) ∧ a ≠ .drop h := by
  refine ⟨?_, ?_⟩
  · rintro y d rfl
    obtain ⟨t, ht⟩ := Phase.isResuming_iff.mp ha.1
    obtain rfl := i.holder y ha.2.2
    exact hx t ht
  · rintro rfl
    rcases ha with ha | ha <;> rw [hst] at ha <;> cases ha

/-- While the trampoline does not run, it does not destroy a promise that is over. -/
theorem over_step (i : Delivers s x c h as) (r : Accounts s b) (ha : s.Enabled a)
    {e : BodyEnd V E} (o : s.Over c e) (hx : (s.frame x).phase.isRunning = false)
    (hc : ∀ t, (s.frame x).phase = .resuming t → (s.frame x).awaiter = .bridge c h) :
    (s.next a).Over c e := by
  refine o.step r ha ?_ ?_
  · rintro f rfl haw
    obtain rfl := i.only f (by rw [haw]; rfl)
    obtain ⟨t, ht⟩ := Phase.isResuming_iff.mp ha.1
    rw [hc t ht] at haw
    cases haw
  · rintro y k rfl
    obtain rfl := i.only y (by rw [ha.2.1]; rfl)
    rw [ha.1] at hx
    cases hx

/-- A trampoline that is not resumed gives up for good. -/
theorem givesUp_step (i : Delivers s x c h as) (r : Accounts s b) (ha : s.Enabled a)
    {ends : List (BodyEnd V E)} (g : s.GivesUp c ends)
    (hx : (s.frame x).phase = .destroying ∨ (s.frame x).phase = .destroyed) :
    (s.next a).GivesUp c ends ∧ ∀ e, a ≠ .coReturn c e := by
  rcases g with ⟨hends, hc⟩ | ⟨e, hends, o, hl⟩
  · refine ⟨Or.inl ⟨hends, r.step_destroyed ha hc⟩, ?_⟩
    rintro e rfl
    have hb := ha.1
    rw [inBody, hc] at hb
    cases hb
  · refine ⟨Or.inr ⟨e, hends, i.over_step r ha o ?_ fun t ht => ?_, hl.step r ha⟩,
      o.not_coReturn ha⟩
    · rcases hx with hx | hx <;> rw [hx] <;> rfl
    · rcases hx with hx | hx <;> rw [hx] at ht <;> cases ht

/-- A trampoline that is destroyed while its promise is over has lost its way back. -/
theorem loses (r : Accounts s b) (ha : s.Enabled a) {e : BodyEnd V E}
    (hp : (s.frame x).phase = .suspended) (haw : (s.frame x).awaiter = .bridge c h)
    (o : s.Over c e) (hp' : ((s.next a).frame x).phase = .destroying) :
    (s.next a).LosesCaller c := by
  obtain ⟨b', -, r'⟩ := r.step ha
  have hx := r.custodian.fits x
  obtain ⟨k, hk⟩ : ∃ k, b.status x = .leased k := by
    cases hb : b.status x with
    | leased k => exact ⟨k, rfl⟩
    | owned d =>
        -- a promise that is over has no caller
        rw [hb] at hx
        obtain rfl : c = d := by simpa [haw, Awaiter.callee] using hx.2.2
        have hc := r.custodian.fits c
        have hcaller := (r.custodian.owned x c).mp hb
        have hover := o.phase
        cases hbc : b.status c <;> rw [hbc] at hc <;> grind [Frame.Fits]
    | _ => rw [hb] at hx; grind [Frame.Fits]
  obtain ⟨hhandle, hopen, hcb⟩ := (r.custodian.leased x k).mp hk
  obtain ⟨hfin, hframe⟩ : (s.susp k).kind.isFinal = true ∧ (s.susp k).frame = c := by
    rcases r.custodian.lease_awaiter hk with ⟨_, hctx⟩ | ⟨hfin, hcallee⟩
    · rw [haw] at hctx
      cases hctx
    · rw [haw] at hcallee
      exact ⟨hfin, (Option.some.inj hcallee).symm⟩
  have hended' : ¬ ((s.next a).susp k).isOpen = true ∨ ((s.next a).susp k).handle ≠ x ∨
      ((s.next a).susp k).kind = .callback := by
    by_contra hn
    simp only [not_or, not_not, ne_eq] at hn
    have hl := (r'.custodian.leased x k).mpr ⟨hn.2.1, hn.1, hn.2.2⟩
    rw [r'.custodian.ending_of_destroying hp'] at hl
    cases hl
  rcases next_susp ha k with he | he | ⟨rfl, _⟩
  · rw [he] at hended'
    simp [hopen, hhandle, hcb] at hended'
  · obtain ⟨hkind', hframe', hhandle', -, -⟩ := he.names
    rw [hkind', hhandle'] at hended'
    have hclosed : ((s.next a).susp k).isOpen = false := by
      simpa [hhandle, hcb] using hended'
    refine ⟨k, by rw [hkind', hfin], by rw [hframe', hframe], ?_⟩
    refine he.dropped_of_closed (r.sound k) (r'.sound k) hfin hopen hclosed fun e' he' => ?_
    rcases r.custodian.ended_step r.sound ha k with hsame | ⟨d, hnew, hon, -, hdone⟩
    · rw [hsame, (r.sound k).ended_of_open hopen hcb] at he'
      cases he'
    · rw [hnew, (r.sound k).ended_of_open hopen hcb] at he'
      obtain rfl : e' = d := by simpa using he'
      rw [hon, hhandle] at hdone
      cases hdeed : e'.deed with
      | destroyed => rfl
      | resumed =>
          simp only [hdeed, hp'] at hdone
          cases hdone
  · exact absurd (r.custodian.lease_lt hk) (Nat.lt_irrefl _)

/-- A trampoline that is resumed was reached. -/
theorem reaches (i : Delivers s x c h as) (hs : Reachable s) (r : Accounts s b) {t : Site}
    (hp : (s.frame x).phase = .resuming t) : s.ReachesCaller c := by
  intro k hk hframe
  have hhandle := i.handle k hk hframe
  have hactive := r.custodian.active_of_running (.inr (by rw [hp]; rfl))
  have hclosed : (s.susp k).isOpen = false := by
    by_contra ho
    rw [Bool.not_eq_false] at ho
    have hcb : (s.susp k).kind ≠ .callback := fun hcb => by
      rw [hcb] at hk
      cases hk
    have hl := r.custodian.leased_of_open ho hcb
    rw [hhandle, hactive] at hl
    cases hl
  obtain ⟨e, ft, hgone, hended, hon, hfate, hallows⟩ :=
    (r.sound k).ended_of_closed (AwaitKind.ne_callback_of_isFinal hk) hclosed
  refine ⟨hgone, fun hdrop => ?_⟩
  obtain rfl : ft = .dropped := by simpa [hfate] using hdrop
  have hover := hs.over_of_ended k e (by simp [hended]) hallows
  rw [hon, hhandle, hp] at hover
  cases hover

/-! ## One step of a delivery -/

theorem ne_nextFrame (r : Accounts s b) {f : FrameId} (hp : (s.frame f).phase ≠ .unborn) :
    f ≠ s.nextFrame := by
  rintro rfl
  rw [r.custodian.unborn_frame (Nat.le_refl _)] at hp
  exact hp rfl

/-- The awaiter of a trampoline lasts until the trampoline runs or is destroyed. -/
theorem awaiter_keeps (r : Accounts s b) (ha : s.Enabled a)
    (hp : (s.frame x).phase.isRunning = false ∧ (s.frame x).phase ≠ .unborn)
    (haw : (s.frame x).awaiter = .bridge c h)
    (hp' : ((s.next a).frame x).phase.isRunning = false ∧
      ((s.next a).frame x).phase ≠ .destroyed) :
    ((s.next a).frame x).awaiter = .bridge c h :=
  (r.next_awaiter_eq ha (ne_nextFrame r hp.2) hp.1 hp'.1 hp'.2).trans haw

theorem step_waiting (i : Delivers s x c h as) (r : Accounts s b) (ha : s.Enabled a)
    (hp : (s.frame x).phase = .suspended) (haw : (s.frame x).awaiter = .bridge c h)
    (hc : (s.frame c).caller = some x) (n : Counts c h as [] 0 0) :
    Delivery (s.next a) x c h (as ++ [a]) := by
  have hstage : (s.susp h).stage = .held x := held r (by rw [hp]; rfl) haw
  obtain ⟨hinv, hdrop⟩ := i.not_touched ha hstage (by simp [hp])
  rcases r.next_called ha hc with ⟨hc', hret⟩ | ⟨e, rfl, hres, hphase⟩ | ⟨rfl, hphase⟩
  · obtain ⟨b', -, r'⟩ := r.step ha
    have hx := r'.custodian.fits x
    rw [(r'.custodian.owned x c).mpr hc'] at hx
    have haw' := awaiter_keeps r ha (by simp [hp, Phase.isRunning]) haw
      (by simp [hx.2.1, Phase.isRunning])
    exact .waiting hx.2.1 haw' hc' (n.snoc_other hret hinv hdrop)
  · -- the body ends, and the trampoline is resumed or waits for that
    obtain ⟨g, hg, -, hgp, hgc, hback⟩ := r.custodian.returned r.stored e ha.1 i.promise
    obtain rfl : x = g := by simpa [hc] using hg
    have hx' : (((s.next (.coReturn c e)).frame x).phase = .suspended ∨
        ∃ t, ((s.next (.coReturn c e)).frame x).phase = .resuming t) ∧
        ((s.next (.coReturn c e)).frame x).awaiter = .bridge c h := by
      simp only [next]
      rcases hb : s.handBack c with _ | ex | ex <;> simp only [Returned, hb] at hback <;>
        rw [hback.2.2 x] <;> simp [hgc, hp, haw]
    have hover : (s.next (.coReturn c e)).Over c e :=
      ⟨hphase, (r.next_kind ha i.called.2).trans i.promise, hres⟩
    have hsnoc := n.snoc (.coReturn c e)
    simp only [Action.endOf, Action.invokes, Action.drops, if_true, List.nil_append] at hsnoc
    exact .returning e hx'.1 hx'.2 hover (by simpa using hsnoc)
  · -- the promise is destroyed in its body
    have hframe := s.destroyFrame_frame (r.custodian.caller_ne ha) x
    have hxc : x ≠ c := by
      rintro rfl
      exact r.custodian.caller_ne ha hc
    rw [if_neg hxc, if_pos hc] at hframe
    refine .aborting [] ?_ ?_ (.inl ⟨rfl, hphase⟩) (n.snoc_other (by simp) (by simp) (by simp))
    · simp only [next, hframe, hp]
      rfl
    · simp only [next, hframe, haw]

/-- What the call of the handler does to the trampoline and to the handler. -/
theorem invoke_effect (s : State V E) (x c : FrameId) (h : SuspId) :
    ((s.trampolineInvoke x c h).frame x).phase = .running (s.frame x).phase.site ∧
      ((s.trampolineInvoke x c h).frame x).awaiter = (s.frame x).awaiter ∧
      ((s.trampolineInvoke x c h).susp h).value = some (.outcome (s.frame c).result) ∧
      ((s.trampolineInvoke x c h).susp h).stage ≠ .dropping := by
  simp only [State.trampolineInvoke]
  split_ifs <;> simp [completionSetValue]

theorem step_returning (i : Delivers s x c h as) (hs : Reachable s) (r : Accounts s b)
    (ha : s.Enabled a) {e : BodyEnd V E}
    (hp : (s.frame x).phase = .suspended ∨ ∃ t, (s.frame x).phase = .resuming t)
    (haw : (s.frame x).awaiter = .bridge c h) (o : s.Over c e) (n : Counts c h as [e] 0 0) :
    Delivery (s.next a) x c h (as ++ [a]) := by
  have hrun : (s.frame x).phase.isRunning = false := by
    rcases hp with hp | ⟨t, hp⟩ <;> rw [hp] <;> rfl
  have hstage : (s.susp h).stage = .held x := held r hrun haw
  have hdrop : a ≠ .drop h := by
    rintro rfl
    rcases ha with ha | ha <;> rw [hstage] at ha <;> cases ha
  have hover := i.over_step r ha o hrun fun _ _ => haw
  rcases hp with hp | ⟨t, hp⟩
  · obtain ⟨hinv, -⟩ := i.not_touched ha hstage (by simp [hp])
    have n' := n.snoc_other (o.not_coReturn ha) hinv hdrop
    have hx : x ≠ s.nextFrame := ne_nextFrame r (by simp [hp])
    have hnext := r.next_phase ha hx
    have hkeeps := awaiter_keeps r ha (by simp [hp, Phase.isRunning]) haw
    rw [hp] at hnext
    generalize hq : ((s.next a).frame x).phase = q at hnext hkeeps
    cases hnext with
    | same => exact .returning e (.inl hq) (hkeeps ⟨rfl, by simp⟩) hover n'
    | @wake t => exact .returning e (.inr ⟨t, hq⟩) (hkeeps ⟨rfl, by simp⟩) hover n'
    | destroy =>
        have hlost := loses r ha hp haw o hq
        exact .aborting [e] hq (hkeeps ⟨rfl, by simp⟩) (.inr ⟨e, rfl, hover, hlost⟩) n'
  · by_cases hinv : a = .trampolineInvoke x c h
    · subst hinv
      obtain ⟨hphase, hawaiter, hvalue, hnot⟩ := invoke_effect s x c h
      have hsnoc := n.snoc (.trampolineInvoke x c h)
      simp only [Action.endOf, Action.invokes, Action.drops, beq_self_eq_true, if_true] at hsnoc
      exact .invoking e _ hphase (hawaiter.trans haw) hover (by rw [next, hvalue, o.result]) hnot
        ((i.reaches hs r hp).step r ha (by simp)) (by simpa using hsnoc)
    · have hnot : ∀ y d, a ≠ .trampolineInvoke y d h := by
        rintro y d rfl
        obtain rfl := i.holder y ha.2.2
        rw [ha.2.1] at haw
        cases haw
        exact hinv rfl
      have n' := n.snoc_other (o.not_coReturn ha) hnot hdrop
      rcases r.next_active ha (.inl hp) i.trampoline with ⟨hp', haw'⟩ | ⟨d, k, rfl⟩ | ⟨d, k, rfl⟩
      · exact .returning e (.inr ⟨t, hp'.trans hp⟩) (haw'.trans haw) hover n'
      · have hk := ha.2.1
        rw [haw] at hk
        cases hk
        exact absurd rfl hinv
      · have hrunning : (s.frame x).phase.isRunning = true := ha.1
        rw [hrun] at hrunning
        cases hrunning

/-- The handler stays invoked. -/
theorem invoked_keeps (i : Delivers s x c h as) (ha : s.Enabled a)
    (hheld : ∀ y, (s.susp h).stage ≠ .held y) (hd : (s.susp h).stage ≠ .dropping) :
    ((s.next a).susp h).value = (s.susp h).value ∧ ((s.next a).susp h).stage ≠ .dropping ∧
      (∀ y d, a ≠ .trampolineInvoke y d h) ∧ a ≠ .drop h := by
  have hsame : ((s.next a).susp h).value = (s.susp h).value ∧
      ((s.next a).susp h).stage ≠ .dropping := by
    rcases next_susp ha h with he | he | ⟨he, _⟩
    · exact ⟨by rw [he], by rw [he]; exact hd⟩
    · exact he.invoked_keeps i.bridged hheld hd
    · exact absurd he (Nat.ne_of_lt i.exists_susp)
  refine ⟨hsame.1, hsame.2, ?_, ?_⟩
  · rintro y d rfl
    exact hheld y ha.2.2
  · rintro rfl
    rcases ha with ha | ha
    · exact i.bridged.1 ha
    · exact hd ha

theorem step_invoking (i : Delivers s x c h as) (r : Accounts s b) (ha : s.Enabled a)
    {e : BodyEnd V E} {t : Site} (hp : (s.frame x).phase = .running t)
    (haw : (s.frame x).awaiter = .bridge c h) (o : s.Over c e)
    (hv : (s.susp h).value = some (.outcome (Outcome.finish e)))
    (hd : (s.susp h).stage ≠ .dropping) (hr : s.ReachesCaller c) (n : Counts c h as [e] 1 0) :
    Delivery (s.next a) x c h (as ++ [a]) := by
  have hheld : ∀ y, (s.susp h).stage ≠ .held y := by
    intro y hy
    obtain rfl := i.holder y hy
    have hnot := ((r.custodian.held y h).mp hy).2
    rw [hp] at hnot
    cases hnot
  obtain ⟨hv', hd', hinv, hdrop⟩ := i.invoked_keeps ha hheld hd
  rw [hv] at hv'
  have hr' := hr.step r ha (o.not_coReturn ha)
  have n' := n.snoc_other (o.not_coReturn ha) hinv hdrop
  by_cases hret : a = .trampolineReturn x c h
  · -- the handler has returned, so the callee is destroyed
    subst hret
    have hgone : (s.susp h).stage = .gone := ha.2.2
    have hactive := r.custodian.active_of_running (.inl ha.1)
    have hspent := r.custodian.reaps x c hactive (by rw [haw]; rfl)
    have hpark := r.custodian.parked_of_active hactive hspent
    have hxc : c ≠ x := by
      rintro rfl
      rw [hpark] at hp
      cases hp
    refine .returned e ?_ (.inl ?_) hv' ?_ hr' n'
    · simp [next, State.trampolineReturn]
    · simp [next, State.trampolineReturn, hxc, destroyHandle_frame, hpark, Phase.afterDestroy]
    · simpa [next, State.trampolineReturn] using hgone
  · have hover : (s.next a).Over c e := by
      refine o.step r ha ?_ ?_
      · rintro f rfl hf
        obtain rfl := i.only f (by rw [hf]; rfl)
        rw [haw] at hf
        cases hf
      · rintro y k rfl
        obtain rfl := i.only y (by rw [ha.2.1]; rfl)
        have hk := ha.2.1
        rw [haw] at hk
        cases hk
        exact hret rfl
    rcases r.next_active ha (.inr hp) i.trampoline with ⟨hp', haw'⟩ | ⟨d, k, rfl⟩ | ⟨d, k, rfl⟩
    · exact .invoking e t (hp'.trans hp) (haw'.trans haw) hover hv' hd' hr' n'
    · have hresuming := ha.1
      rw [hp] at hresuming
      cases hresuming
    · have hk := ha.2.1
      rw [haw] at hk
      cases hk
      exact absurd rfl hret

/-- A handler that is gone stays so, and is not touched any more. -/
theorem gone_keeps (i : Delivers s x c h as) (ha : s.Enabled a) (hst : (s.susp h).stage = .gone) :
    (((s.next a).susp h).stage = .gone ∧ ((s.next a).susp h).value = (s.susp h).value ∧
      ((s.next a).susp h).fate = (s.susp h).fate) ∧
      (∀ y d, a ≠ .trampolineInvoke y d h) ∧ a ≠ .drop h := by
  refine ⟨?_, ?_, ?_⟩
  · rcases next_susp ha h with he | he | ⟨he, _⟩
    · rw [he]
      exact ⟨hst, rfl, rfl⟩
    · exact he.gone_keeps i.bridged.2 hst
    · exact absurd he (Nat.ne_of_lt i.exists_susp)
  · rintro y d rfl
    have hheld := ha.2.2
    rw [hst] at hheld
    cases hheld
  · rintro rfl
    rcases ha with ha | ha <;> rw [hst] at ha <;> cases ha

theorem step_returned (i : Delivers s x c h as) (r : Accounts s b) (ha : s.Enabled a)
    {e : BodyEnd V E} (hp : (s.frame x).phase = .destroyed)
    (hc : (s.frame c).phase = .destroying ∨ (s.frame c).phase = .destroyed)
    (hv : (s.susp h).value = some (.outcome (Outcome.finish e)))
    (hst : (s.susp h).stage = .gone) (hr : s.ReachesCaller c) (n : Counts c h as [e] 1 0) :
    Delivery (s.next a) x c h (as ++ [a]) := by
  obtain ⟨⟨hst', hv', -⟩, hinv, hdrop⟩ := i.gone_keeps ha hst
  have hret : ∀ e', a ≠ .coReturn c e' := by
    rintro e' rfl
    have hbody := ha.1
    rcases hc with hc | hc <;> rw [inBody, hc] at hbody <;> cases hbody
  have hc' : ((s.next a).frame c).phase = .destroying ∨
      ((s.next a).frame c).phase = .destroyed := by
    have hover : (s.frame c).phase.isOver = true := by
      rcases hc with hc | hc <;> rw [hc] <;> rfl
    have hover' := r.step_isOver ha hover
    revert hover'
    cases ((s.next a).frame c).phase <;> simp [Phase.isOver]
  exact .returned e (r.step_destroyed ha hp) hc' (hv'.trans hv) hst'
    (hr.step r ha hret) (n.snoc_other hret hinv hdrop)

theorem step_aborting (i : Delivers s x c h as) (r : Accounts s b) (ha : s.Enabled a)
    {ends : List (BodyEnd V E)} (hp : (s.frame x).phase = .destroying)
    (haw : (s.frame x).awaiter = .bridge c h) (g : s.GivesUp c ends)
    (n : Counts c h as ends 0 0) : Delivery (s.next a) x c h (as ++ [a]) := by
  have hstage : (s.susp h).stage = .held x := held r (by rw [hp]; rfl) haw
  obtain ⟨hinv, hdrop⟩ := i.not_touched ha hstage (by simp [hp])
  obtain ⟨g', hret⟩ := i.givesUp_step r ha g (.inl hp)
  have n' := n.snoc_other hret hinv hdrop
  have hnext := r.next_phase ha (ne_nextFrame (f := x) r (by simp [hp]))
  have hkeeps := awaiter_keeps r ha (by simp [hp, Phase.isRunning]) haw
  rw [hp] at hnext
  generalize hq : ((s.next a).frame x).phase = q at hnext hkeeps
  cases hnext with
  | same => exact .aborting ends hq (hkeeps ⟨rfl, by simp⟩) g' n'
  | destroy hfrom => rcases hfrom with hfrom | hfrom | hfrom <;> cases hfrom
  | bury =>
      rcases next_held ha i.exists_susp hstage with hst | ⟨d, rfl⟩ | ⟨-, hst⟩
      · -- a trampoline that is destroyed holds nothing
        obtain ⟨b', -, r'⟩ := r.step ha
        obtain ⟨⟨d, hd⟩, -⟩ := (r'.custodian.held x h).mp hst
        have hx := r'.custodian.fits x
        cases hb : b'.status x <;> rw [hb] at hx <;> grind [Frame.Fits]
      · exact absurd rfl (hinv x d)
      · exact .dropping ends hq g' hst n'

theorem step_dropping (i : Delivers s x c h as) (r : Accounts s b) (ha : s.Enabled a)
    {ends : List (BodyEnd V E)} (hp : (s.frame x).phase = .destroyed) (g : s.GivesUp c ends)
    (hst : (s.susp h).stage = .dropping) (n : Counts c h as ends 0 0) :
    Delivery (s.next a) x c h (as ++ [a]) := by
  obtain ⟨g', hret⟩ := i.givesUp_step r ha g (.inr hp)
  have hp' := r.step_destroyed ha hp
  have hinv : ∀ y d, a ≠ .trampolineInvoke y d h := by
    rintro y d rfl
    have hheld := ha.2.2
    rw [hst] at hheld
    cases hheld
  by_cases hdrop : a = .drop h
  · subst hdrop
    obtain ⟨hgone, hfate⟩ := s.handlerDrop_stage h
    have hsnoc := n.snoc (.drop h)
    simp only [Action.endOf, Action.invokes, Action.drops, beq_self_eq_true, if_true] at hsnoc
    exact .dropped ends hp' g' hgone hfate (by simpa using hsnoc)
  · have hst' := (next_dropping ha i.exists_susp hst).resolve_right hdrop
    exact .dropping ends hp' g' hst' (n.snoc_other hret hinv hdrop)

theorem step_dropped (i : Delivers s x c h as) (r : Accounts s b) (ha : s.Enabled a)
    {ends : List (BodyEnd V E)} (hp : (s.frame x).phase = .destroyed) (g : s.GivesUp c ends)
    (hst : (s.susp h).stage = .gone) (hfate : (s.susp h).fate = some .dropped)
    (n : Counts c h as ends 0 1) : Delivery (s.next a) x c h (as ++ [a]) := by
  obtain ⟨⟨hst', -, hfate'⟩, hinv, hdrop⟩ := i.gone_keeps ha hst
  obtain ⟨g', hret⟩ := i.givesUp_step r ha g (.inr hp)
  exact .dropped ends (r.step_destroyed ha hp) g' hst' (hfate'.trans hfate)
    (n.snoc_other hret hinv hdrop)

/-- **One step of the runtime on a delivery.** -/
theorem step (i : Delivers s x c h as) (hs : Reachable s) (r : Accounts s b) (ha : s.Enabled a) :
    Delivers (s.next a) x c h (as ++ [a]) := by
  have hx := i.delivery.started
  constructor
  case exists_susp => exact Nat.lt_of_lt_of_le i.exists_susp (s.nextSusp_le a)
  case trampoline => exact (r.next_kind ha hx).trans i.trampoline
  case promise => exact (r.next_kind ha i.called.2).trans i.promise
  case called => exact (r.next_phase ha (ne_nextFrame r i.called.2)).not_fresh i.called.1 i.called.2
  case only =>
    intro g hg
    rcases r.next_callee ha hg with hold | ⟨hfresh, -⟩
    · exact i.only g hold
    · exact absurd (r.custodian.of_isFresh hfresh).2.1 i.called.1
  case holder =>
    intro y hy
    rcases next_susp ha h with he | he | ⟨he, _⟩
    · exact i.holder y (he ▸ hy)
    · exact i.holder y (he.held_of_held hy)
    · exact absurd he (Nat.ne_of_lt i.exists_susp)
  case handle =>
    intro k hk hframe
    rcases next_susp ha k with he | he | ⟨rfl, _⟩
    · rw [he] at hk hframe ⊢
      exact i.handle k hk hframe
    · obtain ⟨hkind, hf, hhandle, -, -⟩ := he.names
      exact hhandle.trans (i.handle k (hkind ▸ hk) (hf ▸ hframe))
    · obtain ⟨f, e, g, -, rfl, hg, hgp, hf, hh, -, -⟩ := r.next_final ha hk
      obtain rfl : f = c := hf.symm.trans hframe
      have ho := r.custodian.fits g
      rw [(r.custodian.owned g f).mpr hg] at ho
      exact hh.trans (i.only g ho.2.2)
  case bridged =>
    rcases next_susp ha h with he | he | ⟨he, _⟩
    · rw [he]
      exact i.bridged
    · exact he.bridged_keeps i.bridged
    · exact absurd he (Nat.ne_of_lt i.exists_susp)
  case delivery =>
    cases i.delivery with
    | waiting hp haw hc n => exact i.step_waiting r ha hp haw hc n
    | returning e hp haw o n => exact i.step_returning hs r ha hp haw o n
    | invoking e t hp haw o hv hd hr n => exact i.step_invoking r ha hp haw o hv hd hr n
    | returned e hp hc hv hst hr n => exact i.step_returned r ha hp hc hv hst hr n
    | aborting ends hp haw g n => exact i.step_aborting r ha hp haw g n
    | dropping ends hp g hst n => exact i.step_dropping r ha hp g hst n
    | dropped ends hp g hst hfate n => exact i.step_dropped r ha hp g hst hfate n

end Delivers

end WebAsio.Coro
