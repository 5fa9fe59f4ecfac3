import WebAsio.Coro.FrameMemory
import WebAsio.Coro.OwnerSafety
import WebAsio.Coro.Undisturbed

set_option autoImplicit false

/-! # How long an owner lives

The references of the coroutines to their owners are known exactly: a coroutine whose promise was
made from an object has one from its call to its end, except while it is suspended on an operation.
So it is known which owners die when they are let go of outside, what becomes of their coroutines,
and that none is kept alive by the coroutines of a run that is over. A detached coroutine with
parameters is made from no object, and keeps none alive. -/

namespace WebAsio.Coro

open Custody State

variable {V E : Type} {s : State V E} {b : Book FrameId SuspId} {o : OwnerId}

/-- The coroutine is suspended on an operation that completes later. -/
def State.WaitsForOperation (s : State V E) (f : FrameId) : Prop :=
  (s.frame f).phase = .suspended ∧
    ∃ k, (s.frame f).awaiter = .context k ∧ (s.susp k).kind.isCompletion = true

/-- The coroutine keeps its owner alive: it has been called and is not destroyed, and does not wait
    for an operation. One that is being destroyed while it waited has nothing left to release. -/
def State.Clings (s : State V E) (f : FrameId) : Prop :=
  (s.frame f).phase ≠ .unborn ∧ (s.frame f).phase ≠ .destroyed ∧ ¬ s.WaitsForOperation f ∧
    ((s.frame f).phase = .destroying → (s.frame f).sharedThis ≠ none)

/-- Whose the strong references are. -/
structure Holders (s : State V E) : Prop where
  shared : ∀ f o, (s.frame f).sharedThis = some o → (s.frame f).thisObject = some o
  saved : ∀ k o, (s.susp k).side = .exchanging (some o) →
    (s.frame (s.susp k).frame).thisObject = some o
  destroyed : ∀ f, (s.frame f).phase = .destroyed → (s.frame f).sharedThis = none
  member : ∀ f o, (s.frame f).thisObject = some o →
    (s.frame f).kind = .promise ∨ (s.frame f).kind = .detached

theorem Accounts.frame_of_unborn (r : Accounts s b) {f : FrameId}
    (hp : (s.frame f).phase = .unborn) : s.frame f = {} := by
  have hfits := r.custodian.fits f
  cases hb : b.status f <;> simp only [hb, Frame.Fits] at hfits <;> grind

namespace Holders

theorem init : Holders (State.init : State V E) := by
  constructor <;> simp [State.init]

/-- What is true of a frame that is only now made, or not made yet. -/
theorem newborn (r : Accounts s b) {a : Action V E} (h : s.Enabled a) :
    ((s.next a).frame s.nextFrame).sharedThis = ((s.next a).frame s.nextFrame).thisObject ∧
      ((s.next a).frame s.nextFrame).phase ≠ .destroyed ∧
      ∀ o, ((s.next a).frame s.nextFrame).thisObject = some o →
        ((s.next a).frame s.nextFrame).kind = .promise ∨
          ((s.next a).frame s.nextFrame).kind = .detached := by
  rcases r.next_unborn h with he | ⟨hgrow, hborn⟩
  · rw [he]
    exact ⟨rfl, by simp, by simp⟩
  · refine ⟨hborn.owner, (created_allocated ?_).2, fun p hown => ?_⟩
    · by_contra hc
      exact hgrow (next_nextFrame (Bool.eq_false_iff.mpr hc))
    · rcases next_born_owner hgrow hown with rfl | ⟨t, rfl⟩
      · exact Or.inl (by simp [next])
      · exact Or.inr (by simp [next])

theorem shared_step (i : Holders s) (g : Guards s) (r : Accounts s b) {a : Action V E}
    (h : s.Enabled a) {x : FrameId} (hx : x ≠ s.nextFrame)
    (hs : ((s.next a).frame x).sharedThis = some o) :
    ((s.next a).frame x).thisObject = some o := by
  rw [r.thisObject_eq h hx]
  rcases r.next_sharedThis h hx with he | ⟨-, he⟩ | ⟨k, -, he⟩ | ⟨k, rfl, hk, -, he⟩ |
    ⟨k, t, rfl, hf, hk, -, -, -, he⟩
  · exact i.shared x o (he ▸ hs)
  · exact absurd (he.symm.trans hs) (by simp)
  · exact absurd (he.symm.trans hs) (by simp)
  · have hside : (s.susp k).side = .exchanging (some o) := by
      rw [h.2.2, ← he, hs]
    rw [← (r.custodian.context x k h.2.1).2]
    exact i.saved k o hside
  · have hstage : (s.susp k).stage = .claimed t := h
    have hweak := (g.weak k hk (by simp [Suspension.isOpen, hstage])).1
    rw [← hf, ← hweak, ← he, hs]

theorem saved_step (i : Holders s) (r : Accounts s b) {a : Action V E} (h : s.Enabled a)
    {k : SuspId} (hs : ((s.next a).susp k).side = .exchanging (some o)) :
    ((s.next a).frame ((s.next a).susp k).frame).thisObject = some o := by
  by_cases hk : k = s.nextSusp
  · -- an `await_suspend` that has only begun has saved nothing
    subst hk
    have hnew : s.susp s.nextSusp = {} := r.custodian.newSusp _ (Nat.le_refl _)
    rcases next_susp h s.nextSusp with he | he | ⟨-, he⟩
    · rw [he, hnew] at hs
      cases hs
    · exact absurd (by simp [hnew]) (he.side (by simp [hs]))
    · generalize (s.next a).susp s.nextSusp = q at he hs
      cases he <;> simp at hs
  · have hframe : ((s.next a).susp k).frame = (s.susp k).frame := by
      rcases next_susp h k with he | he | ⟨he, -⟩
      · rw [he]
      · exact he.names.2.1
      · exact absurd he hk
    have hthis : (s.frame (s.susp k).frame).thisObject = some o := by
      rcases next_saved hk hs with hside | ⟨f, rfl, hside⟩
      · exact i.saved k o hside
      · rw [(r.custodian.context f k h.2.1).2]
        exact i.shared f o hside.symm
    have hne : (s.susp k).frame ≠ s.nextFrame := fun he => by
      rw [he, r.custodian.unborn_frame (Nat.le_refl _)] at hthis
      cases hthis
    rw [hframe, r.thisObject_eq h hne, hthis]

theorem destroyed_step (i : Holders s) (r : Accounts s b) {a : Action V E} (h : s.Enabled a)
    {x : FrameId} (hx : x ≠ s.nextFrame) (hp : ((s.next a).frame x).phase = .destroyed) :
    ((s.next a).frame x).sharedThis = none := by
  by_cases hd : (s.frame x).phase = .destroyed
  · have hnone := i.destroyed x hd
    rcases r.next_sharedThis h hx with he | ⟨-, he⟩ | ⟨k, -, he⟩ | ⟨k, -, -, he, -⟩ |
      ⟨k, t, -, -, -, -, -, he, -⟩
    · rw [he, hnone]
    · exact he
    · exact he
    · simp [hp, Phase.isResuming] at he
    · simp [hp, Phase.isResuming] at he
  have hfrees := frees_of_destroyed hx hd hp
  cases a <;> simp only [frees, reduceCtorEq, Option.some.injEq] at hfrees
  case destroy f =>
    subst hfrees
    simp [next, s.destroyFrame_frame (r.custodian.caller_ne h)]
  case trampolineReturn f c k =>
    subst hfrees
    have hkind := r.kind_of_bridge (Or.inl h.1) h.2.1
    have hshared : ((s.next (.trampolineReturn f c k)).frame f).sharedThis =
        (s.frame f).sharedThis := by
      grind [next, State.trampolineReturn]
    rw [hshared]
    by_contra hne
    obtain ⟨p, hp⟩ := Option.ne_none_iff_exists'.mp hne
    have hmember := i.member f p (i.shared f p hp)
    simp [hkind] at hmember
  case coReturn f e =>
    cases hk : (s.frame f).kind <;> simp only [hk, reduceCtorEq, Option.some.injEq] at hfrees
    all_goals
      subst hfrees
      simp [next, coReturn, hk]

theorem step (i : Holders s) (g : Guards s) (r : Accounts s b) {a : Action V E}
    (h : s.Enabled a) : Holders (s.next a) := by
  obtain ⟨hshared, hdestroyed, hmember⟩ := newborn r h
  refine ⟨fun x p hs => ?_, fun k p => i.saved_step r h, fun x hp => ?_, fun x p ho => ?_⟩
  · by_cases hx : x = s.nextFrame
    · rw [hx, ← hshared, ← hx, hs]
    · exact i.shared_step g r h hx hs
  · by_cases hx : x = s.nextFrame
    · exact absurd (hx ▸ hp) hdestroyed
    · exact i.destroyed_step r h hx hp
  · by_cases hx : x = s.nextFrame
    · rw [hx] at ho ⊢
      exact hmember p ho
    · rw [r.thisObject_eq h hx] at ho
      rw [r.next_kind h fun hu => by simp [r.frame_of_unborn hu] at ho]
      exact i.member x p ho

end Holders

theorem Reachable.holders (hs : Reachable s) : Holders s :=
  hs.invariant_with (J := fun s => Guards s ∧ ∃ b, Accounts s b)
    (fun _ hu => ⟨Reachable.guards hu, Reachable.accounts hu⟩) Holders.init
    fun _ _ ⟨g, _, r⟩ i ha => i.step g r ha

/-- A coroutine that waits for an operation has lent its reference, and is inside no
    `await_suspend`. -/
theorem Accounts.of_waits (r : Accounts s b) {f : FrameId} {k : SuspId}
    (hp : (s.frame f).phase = .suspended) (ha : (s.frame f).awaiter = .context k)
    (hk : (s.susp k).kind.isCompletion = true) : s.Lends f ∧ (s.susp k).side = .left := by
  obtain ⟨hl, hfin, -⟩ := r.of_own_context (Or.inl hp) ha
  have hside := (r.custodian.own _ k hl hfin).2.2.mp hp
  exact ⟨⟨k, ha, hk, ((r.custodian.leased _ k).mp hl).2.1, by simp [hside]⟩, hside⟩

/-- A coroutine whose `await_suspend` has saved a reference is still inside it. -/
theorem Accounts.of_saved (r : Accounts s b) {f : FrameId} {k : SuspId} {o : Option OwnerId}
    (ha : (s.frame f).awaiter = .context k) (hs : (s.susp k).side = .exchanging o) :
    (s.frame f).phase.isSuspending = true ∨ (s.frame f).phase.isFinalizing = true := by
  have hside : (s.susp k).side ≠ .left := by simp [hs]
  have hcb : (s.susp k).kind ≠ .callback := fun hk => hside ((r.sound k).callback hk).1
  have hl := r.custodian.leased_of_open (by simp [Suspension.isOpen, hside]) hcb
  have hf := (r.custodian.context f k ha).2
  rcases hfin : (s.susp k).kind.isFinal with _ | _
  · obtain ⟨hown, -, hp⟩ := r.custodian.own _ k hl hfin
    have hfits := r.custodian.fits (s.susp k).handle
    rw [hl] at hfits
    rw [← hf, hown]
    exact Or.inl (hfits.2.resolve_right fun hsusp => hside (hp.mp hsusp))
  · obtain ⟨-, -, hspent, -, hp⟩ := r.custodian.final _ k hl hfin
    have hfits := r.custodian.fits (s.susp k).frame
    rw [hspent] at hfits
    rw [← hf]
    exact Or.inr (hfits.2.1.resolve_right fun hparked => hside (hp.mp hparked))

/-- The references to owners are where the coroutines cling to them. -/
theorem holds_iff (hs : Reachable s) (f : FrameId) :
    s.holds f o = true ↔ (s.frame f).thisObject = some o ∧ s.Clings f := by
  obtain ⟨b, r⟩ := hs.accounts
  have g := hs.guards
  have i := hs.holders
  constructor
  · intro h
    simp only [holds, Bool.or_eq_true, beq_iff_eq] at h
    rcases h with h | h
    · refine ⟨i.shared f o h, fun hp => ?_, fun hp => ?_, fun hw => ?_, fun _ => by simp [h]⟩
      · rw [r.frame_of_unborn hp] at h
        cases h
      · exact absurd ((i.destroyed f hp).symm.trans h) (by simp)
      · obtain ⟨hp, k, ha, hk⟩ := hw
        exact absurd ((g.lent f (r.of_waits hp ha hk).1).symm.trans h) (by simp)
    · split at h
      case h_2 => simp at h
      case h_1 k ha =>
        have hside : (s.susp k).side = .exchanging (some o) := by
          cases hq : (s.susp k).side <;> simp_all [AwaitSide.saved]
        have hthis := i.saved k o hside
        rw [(r.custodian.context f k ha).2] at hthis
        have hp := r.of_saved ha hside
        refine ⟨hthis, fun hq => ?_, fun hq => ?_, fun hw => ?_, fun hq => ?_⟩
        · simp [hq, Phase.isSuspending, Phase.isFinalizing] at hp
        · simp [hq, Phase.isSuspending, Phase.isFinalizing] at hp
        · simp [hw.1, Phase.isSuspending, Phase.isFinalizing] at hp
        · simp [hq, Phase.isSuspending, Phase.isFinalizing] at hp
  · rintro ⟨hthis, hunborn, hdestroyed, hwaits, hdestroying⟩
    by_cases hl : s.Lends f
    · -- the reference is in the `await_suspend`
      obtain ⟨k, ha, hk, ho, hm⟩ := hl
      obtain ⟨hleased, hf, -, hfin, hp⟩ := r.of_lends ha hk ho
      have hsuspended : (s.frame f).phase ≠ .suspended := fun hp => hwaits ⟨hp, k, ha, hk⟩
      have hleft : (s.susp k).side ≠ .left := fun hside =>
        hsuspended ((r.custodian.own f k hleased hfin).2.2.mpr hside)
      cases hside : (s.susp k).side with
      | initiating m => exact absurd hside (hm m)
      | left => exact absurd hside hleft
      | exchanging p =>
          have hsaved := g.saved k p hk hside
          rw [hf, hthis] at hsaved
          simp [holds, ha, hside, AwaitSide.saved, hsaved]
    · have hshared : (s.frame f).sharedThis = some o := by
        by_cases hq : (s.frame f).phase = .destroying
        · obtain ⟨p, hp⟩ := Option.ne_none_iff_exists'.mp (hdestroying hq)
          rw [hp, ← i.shared f p hp, hthis]
        · rw [g.kept f hl (by simp [Phase.isGone, hunborn, hdestroyed, hq]), hthis]
      simp [holds, hshared]

theorem ownerAlive_iff_clings (hs : Reachable s) :
    s.ownerAlive o = true ↔ s.external o = true ∨ o ∈ s.stack ∨
      ∃ f, (s.frame f).thisObject = some o ∧ s.Clings f := by
  rw [ownerAlive_iff]
  refine or_congr_right (or_congr_right ⟨?_, ?_⟩)
  · rintro ⟨f, -, hh⟩
    exact ⟨f, (holds_iff hs f).mp hh⟩
  · rintro ⟨f, hf⟩
    refine ⟨f, ?_, (holds_iff hs f).mpr hf⟩
    by_contra hlt
    obtain ⟨b, r⟩ := hs.accounts
    exact hf.2.1 (by rw [r.custodian.unborn_frame (Nat.le_of_not_lt hlt)])

/-- **When an owner dies.** An owner is let go of outside, in any state that a run reaches. It dies
    of that exactly when no thread still has a reference that an `await_suspend` saved, and each of
    the coroutines made from it waits for an operation or is over; and then it stays dead, and they,
    in every run from there, go on waiting until they are destroyed. -/
theorem owner_dies_iff (hs : Reachable s) (o : OwnerId) :
    ((s.next (.release o)).ownerAlive o = false ↔
      o ∉ s.stack ∧ ∀ f, (s.frame f).thisObject = some o → ¬ s.Clings f) ∧
    ((s.next (.release o)).ownerAlive o = false →
      ∀ as t, Transition.Run runtime (s.next (.release o)) as t → t.ownerAlive o = false ∧
        ∀ f, (t.frame f).thisObject = some o →
          t.WaitsForOperation f ∨ (t.frame f).phase = .destroying ∨
            (t.frame f).phase = .destroyed) := by
  have hr : Reachable (s.next (.release o)) :=
    hs.step (show runtime.enabled s (.release o) from trivial)
  constructor
  · have hexternal : (s.next (.release o)).external o = false := by simp [next]
    rw [← Bool.not_eq_true, ownerAlive_iff_clings hr, hexternal, not_or, not_or, not_exists]
    simp only [Bool.false_eq_true, not_false_eq_true, true_and, not_and]
    exact Iff.rfl
  · intro hdead as t hrun
    have hgone : ¬ t.ownerAlive o = true := fun halive => by
      rw [Guards.ownerAlive_run hr hrun halive] at hdead
      cases hdead
    have ht : Reachable t := hr.run hrun
    refine ⟨Bool.eq_false_iff.mpr hgone, fun f hf => ?_⟩
    by_contra hother
    obtain ⟨hwaits, hover⟩ := not_or.mp hother
    obtain ⟨hdestroying, hdestroyed⟩ := not_or.mp hover
    obtain ⟨b, r⟩ := ht.accounts
    refine hgone ((ownerAlive_iff_clings ht).mpr (Or.inr (Or.inr ⟨f, hf, ?_⟩)))
    refine ⟨fun hp => ?_, hdestroyed, hwaits, fun hp => absurd hp hdestroying⟩
    rw [r.frame_of_unborn hp] at hf
    cases hf

/-- A member coroutine is awaited, and its operation does not complete at once. -/
def waitingMember : List (Action Unit Unit) :=
  [.detach [] none false, .create (some 5), .awaitPromise 0 1, .awaitDeferred 1,
    .initiationReturns 1 0, .resumeAwaiting 1 0, .unwind 5]

/-- The operation completes. -/
def completedAfterwards : List (Action Unit Unit) :=
  [.setValue 0 [] (.ok ()), .resumeCompleted 0 [], .handlerResume 0 []]

theorem owner_dies_iff_completed :
    let t := runtime.exec ((State.after waitingMember).next (.release 5)) completedAfterwards
    t.ownerAlive 5 = false ∧
      (t.WaitsForOperation 1 ∨ (t.frame 1).phase = .destroying ∨ (t.frame 1).phase = .destroyed) := by
  have hs : Reachable (State.after waitingMember) := .after (by decide)
  have h := (owner_dies_iff hs 5).2 (by decide) completedAfterwards _ (.of_legal (by decide))
  exact ⟨h.1, h.2 1 (by decide)⟩

/-- A detached coroutine with parameters does not keep the object alive that it is a member of. -/
example : (State.after [.detach [] (some 5) false, .release 5] : State Unit Unit).ownerAlive 5 =
    false := by decide

/-- **No coroutine keeps an owner alive** when a run is over in which no hand-back was lost: an
    owner is alive exactly when something outside or a stack has it, or when a coroutine made from
    it was called and never awaited. -/
theorem owners_returned {as : List (Action V E)} (hrun : Transition.Run runtime State.init as s)
    (hq : Quiescent s)
    (hl : Transition.Along runtime (fun s a => ¬ LosesHandBack s a) State.init as) (o : OwnerId) :
    s.ownerAlive o = true ↔ s.external o = true ∨ o ∈ s.stack ∨
      ∃ f, (s.frame f).thisObject = some o ∧ (s.frame f).phase = .initial := by
  have hs : Reachable s := ⟨as, hrun⟩
  rw [ownerAlive_iff_clings hs]
  refine or_congr_right (or_congr_right (exists_congr fun f => and_congr_right fun hf => ?_))
  constructor
  · rintro ⟨hunborn, hdestroyed, -, -⟩
    rcases hq.accounted hrun hl f with hp | hp | hp | ⟨hk, -⟩
    · exact absurd hp hunborn
    · exact hp
    · exact absurd hp hdestroyed
    · have hmember := hs.holders.member f o hf
      simp [hk] at hmember
  · intro hp
    refine ⟨by simp [hp], by simp [hp], fun hw => ?_, by simp [hp]⟩
    simp [hw.1] at hp

/-- The member coroutine is destroyed with its caller; that of another owner was never awaited. -/
def abandonedMembers : List (Action Unit Unit) :=
  waitingMember ++ .create (some 6) :: .release 5 :: .release 6 :: completedAfterwards ++
    [.destroy 1, .destroy 0]

theorem owners_returned_abandoned :
    (State.after abandonedMembers).ownerAlive 6 = true ∧
      ¬ (State.after abandonedMembers).ownerAlive 5 = true := by
  have hrun : Transition.Run runtime State.init abandonedMembers (State.after abandonedMembers) :=
    .of_legal (by decide)
  have h := owners_returned hrun (by decide) (by decide)
  exact ⟨(h 6).mpr (Or.inr (Or.inr ⟨2, by decide, by decide⟩)), by decide⟩

end WebAsio.Coro
