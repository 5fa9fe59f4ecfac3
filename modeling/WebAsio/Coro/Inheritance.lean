import WebAsio.Coro.Accounting

set_option autoImplicit false

/-! # The executor a frame runs on

`get_executor()` of a frame reads either its own `executor` or, through `caller_executor`, one that
the frame got a pointer to when it was first awaited. The invariant relates a callee to its caller
only; what it says about a whole chain follows along the chain. -/

namespace WebAsio.Coro

open Custody State

variable {V E : Type}

/-- The executors of a frame and of its caller fit together. -/
structure Inherits (s : State V E) : Prop where
  born : ∀ x < s.nextFrame, (s.frame x).phase ≠ .unborn
  adopts : ∀ x, (s.frame x).Adopts
  root : ∀ x < s.nextFrame, (s.frame x).kind ≠ .promise ∨ (s.frame x).phase = .initial →
    (s.frame x).callerExecutor = x
  bare : ∀ x, (s.frame x).kind = .trampoline → (s.frame x).executor = none
  /-- a callee refers to the executor its caller had when it was called -/
  link : ∀ g f, (s.frame g).awaiter.callee = some f → (s.frame g).phase ≠ .destroying →
    (s.frame f).callerExecutor = if (s.getExecutor g).isSome then s.executorRef g else f

theorem Inherits.init : Inherits (State.init : State V E) := by
  constructor <;> simp [State.init, Awaiter.callee]
  constructor <;> rfl

namespace Accounts

variable {s : State V E} {b : Book FrameId SuspId}

/-- A frame that somebody waits for, or has yet to reap. -/
theorem of_callee (r : Accounts s b) {g f : FrameId} (h : (s.frame g).awaiter.callee = some f)
    (hp : (s.frame g).phase ≠ .destroying) :
    (b.status g = .owned f ∨ b.status f = .spent g) ∧ b.status f ≠ .unborn ∧
      b.status f ≠ .fresh ∧ b.status f ≠ .dead ∧ s.inBody g = false := by
  have hg := r.custodian.fits g
  have hlive := r.wf.ownedLive g f
  have hreap := r.custodian.reaps g f
  have hbody : s.inBody g = false := by
    by_contra hb
    have := (r.custodian.of_inBody (by simpa using hb)).2.1
    rw [this] at h
    simp [Awaiter.callee] at h
  cases hb : b.status g <;> simp only [hb, Frame.Fits] at hg
  case leased k =>
    rcases r.custodian.lease_awaiter hb with ⟨-, ha⟩ | ⟨hfin, ha⟩
    · rw [ha] at h; simp [Awaiter.callee] at h
    · obtain rfl : (s.susp k).frame = f := by rw [ha] at h; simpa using h
      have := (r.custodian.final g k hb hfin).2.2.1
      simp [this, hbody]
  all_goals grind [Awaiter.callee, Status.inProgress]

end Accounts

theorem Frame.Retains.adopts {fr fr' : Frame V E} (h : fr.Retains fr') (ha : fr.Adopts) :
    fr'.Adopts :=
  ⟨by rw [h.executor, h.adopted, ha.executor], by rw [h.innerExecutor, h.adopted, ha.innerExecutor]⟩

namespace Inherits

variable {s : State V E} {b : Book FrameId SuspId}

/-- A step that neither is a hop of `x` nor starts it leaves the reference of `x` alone. -/
theorem executorRef_eq {s' : State V E} {x : FrameId} (h : (s.frame x).Retains (s'.frame x)) :
    s'.executorRef x = s.executorRef x := by
  simp only [executorRef, h.executor, h.callerExecutor]

/-- Whether a frame has an executor is not changed by others. -/
theorem isSome_getExecutor (r : Accounts s b) {a : Action V E} (h : s.Enabled a) {g : FrameId}
    (hg : g < s.nextFrame) (hr : (s.frame g).Retains ((s.next a).frame g)) :
    ((s.next a).getExecutor g).isSome = (s.getExecutor g).isSome := by
  simp only [getExecutor, executorRef_eq hr]
  by_cases hown : (s.frame g).executor.isSome = true
  · simp only [executorRef, hown, if_true, hr.executor]
  · simp only [executorRef, hown]
    by_cases hc : (s.frame g).callerExecutor = g
    · simp [hc, hr.executor]
    · have hst := r.stored g hg hc
      have hst' := r.custodian.executor_some h hst
      rw [← Option.isSome_iff_ne_none] at hst hst'
      simp [hst, hst']

/-- A call that goes on keeps what it was set up with. -/
theorem link_step (i : Inherits s) (r : Accounts s b) {a : Action V E} (h : s.Enabled a)
    {g f : FrameId} (hc : (s.frame g).awaiter.callee = some f)
    (hc' : ((s.next a).frame g).awaiter.callee = some f)
    (hp' : ((s.next a).frame g).phase ≠ .destroying) :
    ((s.next a).frame f).callerExecutor =
      if ((s.next a).getExecutor g).isSome then (s.next a).executorRef g else f := by
  obtain ⟨b', m, r'⟩ := r.step h
  have hp : (s.frame g).phase ≠ .destroying := by
    intro hp
    have hg' := r'.custodian.fits g
    rcases ending_moves m.moves (.inl (r.custodian.ending_of_destroying hp)) with he | hd
    · rw [he] at hg'; exact hp' hg'
    · rw [hd] at hg'; simp [hg'.2.1, Awaiter.callee] at hc'
  obtain ⟨-, hfu, hff, -, hgb⟩ := r.of_callee hc hp
  have hfn : f ≠ s.nextFrame := Nat.ne_of_lt (r.custodian.lt_of_started hfu)
  have hgn : g < s.nextFrame := by
    by_contra hn
    simp [r.custodian.unborn_frame (Nat.le_of_not_lt hn), Awaiter.callee] at hc
  have hg : (s.frame g).Retains ((s.next a).frame g) := by
    rcases next_retains (a := a) (Nat.ne_of_lt hgn) with hr | ⟨ex, ha, -⟩ | ⟨f', rfl⟩
    · exact hr
    · have hx : s.inBody g = true := by rcases ha with rfl | rfl <;> exact h
      simp [hgb] at hx
    · have haw := (r.custodian.of_isFresh h.2).2.2.2.1
      simp [haw, Awaiter.callee] at hc
  have hf : ((s.next a).frame f).callerExecutor = (s.frame f).callerExecutor := by
    rcases next_retains (a := a) hfn with hr | ⟨ex, -, hr⟩ | ⟨f', rfl⟩
    · exact hr.callerExecutor
    · exact hr.callerExecutor
    · exact absurd (r.custodian.of_isFresh h.2).1 hff
  rw [hf, isSome_getExecutor r h hgn hg, executorRef_eq hg]
  exact i.link g f hc hp

theorem step (i : Inherits s) (r : Accounts s b) {a : Action V E} (h : s.Enabled a) :
    Inherits (s.next a) := by
  obtain ⟨b', m, r'⟩ := r.step h
  have hlt : ∀ x < (s.next a).nextFrame, x ≠ s.nextFrame → x < s.nextFrame := by
    intro x hx hn
    by_cases hb : (s.next a).nextFrame = s.nextFrame
    · rwa [hb] at hx
    · rw [(next_born hb).1] at hx
      exact Nat.lt_of_le_of_ne (Nat.le_of_lt_succ hx) hn
  have hgrow : ∀ x < (s.next a).nextFrame, x = s.nextFrame →
      (s.next a).nextFrame ≠ s.nextFrame := fun x hx hn he => by
    rw [he, hn] at hx
    exact Nat.lt_irrefl _ hx
  constructor
  case born =>
    intro x hx hu
    by_cases hn : x = s.nextFrame
    · subst hn
      exact (next_born (hgrow _ hx rfl)).2.born hu
    · have hb' : b'.status x = .unborn := by
        have hf := r'.custodian.fits x
        cases hb : b'.status x <;> simp only [hb, Frame.Fits] at hf <;> grind
      have hf := r.custodian.fits x
      rw [(fresh_moves m.moves).1 hb'] at hf
      exact i.born x (hlt x hx hn) (by rw [hf])
  case adopts =>
    intro x
    by_cases hn : x = s.nextFrame
    · by_cases hb : (s.next a).nextFrame = s.nextFrame
      · rw [r'.custodian.unborn_frame (Nat.le_of_eq (hb.trans hn.symm))]
        exact ⟨rfl, rfl⟩
      · exact hn ▸ (next_born hb).2.adopts
    rcases next_retains (a := a) hn with hr | ⟨ex, -, hr⟩ | ⟨f, rfl⟩
    · exact hr.adopts (i.adopts x)
    · exact hr.adopts ((s.frame x).setExecutor_adopts ex)
    · obtain ⟨hcp, hcc, hne⟩ := r.custodian.of_call h
      simp only [next, s.coroAwaitSuspend_frame hcp hcc hne, if_true]
      exact ⟨(i.adopts x).executor, (i.adopts x).innerExecutor⟩
  case root =>
    intro x hx hroot
    by_cases hn : x = s.nextFrame
    · subst hn
      exact (next_born (hgrow _ hx rfl)).2.callerExecutor
    have hphase : ((s.next a).frame x).phase = .initial → (s.frame x).phase = .initial := by
      intro hp
      have hf := r.custodian.fits x
      rcases (fresh_moves m.moves).2 (r'.custodian.fresh_of_initial hp) with hb | hb
      · rw [hb] at hf; exact hf.1
      · rw [hb] at hf; exact absurd (by rw [hf]) (i.born x (hlt x hx hn))
    rcases next_retains (a := a) hn with hr | ⟨ex, -, hr⟩ | ⟨f, rfl⟩
    · rw [hr.callerExecutor]
      exact i.root x (hlt x hx hn) (hroot.imp (fun hk => hr.kind ▸ hk) hphase)
    · rw [hr.callerExecutor]
      exact i.root x (hlt x hx hn) (hroot.imp (fun hk => hr.kind ▸ hk) hphase)
    · -- a promise that starts is no root
      obtain ⟨hcp, hcc, hne⟩ := r.custodian.of_call h
      have hk := (r.custodian.of_isFresh h.2).2.2.1
      simp [next, s.coroAwaitSuspend_frame hcp hcc hne, hk] at hroot
  case bare =>
    intro x hk
    by_cases hn : x = s.nextFrame
    · by_cases hb : (s.next a).nextFrame = s.nextFrame
      · rw [r'.custodian.unborn_frame (Nat.le_of_eq (hb.trans hn.symm))]
      · subst hn
        exact (next_born hb).2.bare hk
    rcases next_retains (a := a) hn with hr | ⟨ex, ha, hr⟩ | ⟨f, rfl⟩
    · rw [hr.executor]
      exact i.bare x (hr.kind ▸ hk)
    · have hx : s.inBody x = true := by rcases ha with rfl | rfl <;> exact h
      exact absurd (hr.kind ▸ hk) (r.custodian.of_inBody hx).2.2.1
    · obtain ⟨hcp, hcc, hne⟩ := r.custodian.of_call h
      simp only [next, s.coroAwaitSuspend_frame hcp hcc hne, if_true] at hk ⊢
      exact i.bare x hk
  case link =>
    intro g f ha hp
    have hold : (s.frame g).awaiter.callee = some f → _ := fun hc => i.link_step r h hc ha hp
    -- a trampoline has no executor to pass on
    have hbare : ∀ c, (s.next a).nextFrame ≠ s.nextFrame →
        ((s.next a).frame s.nextFrame).kind = .trampoline →
        ((s.next a).frame c).callerExecutor = c →
        ((s.next a).frame c).callerExecutor =
          if ((s.next a).getExecutor s.nextFrame).isSome then (s.next a).executorRef s.nextFrame
          else c := by
      intro c hn hk hc
      have hnew := (next_born hn).2
      simp [getExecutor, executorRef, hnew.bare hk, hnew.callerExecutor, hc]
    rcases next_awaiter (a := a) (x := g) with hsame | hnone | ⟨f₀, c, rfl⟩ | ⟨f₀, c, rfl⟩ |
      ⟨t, c, rfl⟩
    · exact hold (hsame ▸ ha)
    · simp [hnone] at ha
    · obtain ⟨hcp, hcc, hne⟩ := r.custodian.of_call h
      obtain ⟨hcs, -, -, hca, -⟩ := r.custodian.of_isFresh h.2
      have hframe := s.coroAwaitSuspend_frame hcp hcc hne
      have hself := i.root c (r.custodian.lt_of_started (by simp [hcs])) (.inr hcp)
      have hfn := r.custodian.lt_of_started (f := f₀) (by simp [(r.custodian.of_inBody h.1).1])
      by_cases hgc : g = c
      · subst hgc; simp [next, hframe, hca, Awaiter.callee] at ha
      by_cases hgf : g = f₀
      · subst hgf
        obtain rfl : c = f := by simpa [next, hframe, hgc, Awaiter.callee] using ha
        have hr : (s.frame g).Retains ((s.next (.awaitPromise g c)).frame g) := by
          constructor <;> simp [next, hframe, hgc]
        rw [isSome_getExecutor r h hfn hr, executorRef_eq hr]
        simp [next, hframe, hself]
      · exact hold (by simpa [next, hframe, hgc, hgf] using ha)
    · obtain ⟨hcs, -, -, hca, -⟩ := r.custodian.of_isFresh h.2
      obtain ⟨hcp, hcc, hne, hcn⟩ := r.custodian.of_callAwait h
      have hframe := s.awaitAwaitSuspend_frame hcp hcc hne hcn
      have hself := i.root c (r.custodian.lt_of_started (by simp [hcs])) (.inr hcp)
      by_cases hgc : g = c
      · subst hgc; simp [next, hframe, hca, Awaiter.callee] at ha
      by_cases hgn : g = s.nextFrame
      · subst hgn
        obtain rfl : c = f := by simpa [next, hframe, hgc, Awaiter.callee] using ha
        exact hbare c (by simp [next]) (by simp [next, hframe, hgc]) (by simp [next, hframe, hself])
      by_cases hgf : g = f₀
      · subst hgf; simp [next, hframe, hgc, hgn, Awaiter.callee] at ha
      · exact hold (by simpa [next, hframe, hgc, hgn, hgf] using ha)
    · obtain ⟨hcs, -, -, hca, -⟩ := r.custodian.of_isFresh h
      obtain ⟨hcp, hcc, hcn⟩ := r.custodian.of_startAwait h
      have hframe := s.startAwait_frame (t := t) hcp hcc hcn
      have hself := i.root c (r.custodian.lt_of_started (by simp [hcs])) (.inr hcp)
      by_cases hgc : g = c
      · subst hgc; simp [next, hframe, hca, Awaiter.callee] at ha
      by_cases hgn : g = s.nextFrame
      · subst hgn
        obtain rfl : c = f := by simpa [next, hframe, hgc, Awaiter.callee] using ha
        exact hbare c (by simp [next]) (by simp [next, hframe, hgc]) (by simp [next, hframe, hself])
      · exact hold (by simpa [next, hframe, hgc, hgn] using ha)

end Inherits

theorem Reachable.inherits {s : State V E} (hs : Reachable s) : Inherits s :=
  hs.invariant_with (J := fun s => ∃ b, Accounts s b) (fun _ hu => Reachable.accounts hu)
    Inherits.init fun _ _ ⟨_, r⟩ i ha => i.step r ha

/-! ## Along a chain of calls -/

namespace State

/-- A list of frames from a callee to the root of its chain: each frame awaits the one before it,
    and the root is not awaited by anyone. -/
inductive Chain (s : State V E) : List FrameId → Prop
  | root {f : FrameId} : f < s.nextFrame →
      (s.frame f).kind ≠ .promise ∨ (s.frame f).phase = .initial →
      (s.frame f).phase ≠ .destroyed → Chain s [f]
  | call {f g : FrameId} {l : List FrameId} : (s.frame g).awaiter.callee = some f →
      (s.frame g).phase ≠ .destroying → Chain s (g :: l) → Chain s (f :: g :: l)

/-- The frame exists. -/
def Alive (s : State V E) (f : FrameId) : Prop :=
  (s.frame f).phase ≠ .unborn ∧ (s.frame f).phase ≠ .destroyed

/-- The executor that `f` adopted last, if it adopted any. -/
def ownExecutor (s : State V E) (f : FrameId) : Option Executor :=
  (s.frame f).adopted.head?.map (·.executor)

/-- The executor that the first frame of a chain with one of its own adopted last. -/
def nearestExecutor (s : State V E) (l : List FrameId) : Option Executor :=
  l.findSome? s.ownExecutor

end State

namespace Inherits

variable {s : State V E} {b : Book FrameId SuspId}

theorem getExecutor_root (i : Inherits s) {f : FrameId} (h : (s.frame f).callerExecutor = f) :
    s.getExecutor f = s.ownExecutor f := by
  have : s.executorRef f = f := by simp [executorRef, h]
  rw [getExecutor, this, (i.adopts f).executor, ownExecutor]

/-- A callee has its own executor, or else that of its caller. -/
theorem getExecutor_call (i : Inherits s) {f g : FrameId}
    (h : (s.frame f).callerExecutor =
      if (s.getExecutor g).isSome then s.executorRef g else f) :
    s.getExecutor f = (s.ownExecutor f).or (s.getExecutor g) := by
  have hown : s.ownExecutor f = (s.frame f).executor := (i.adopts f).executor.symm
  rw [hown]
  rcases he : (s.frame f).executor with _ | ex
  · by_cases hg : (s.getExecutor g).isSome = true
    · rw [if_pos hg] at h
      simp [getExecutor, executorRef, he, h]
    · rw [if_neg hg] at h
      have hnone : s.getExecutor g = none := by simpa using hg
      simp only [hnone, Option.or_none]
      simp [getExecutor, executorRef, he, h]
  · simp [getExecutor, executorRef, he]

theorem alive_of_lt (i : Inherits s) {f : FrameId} (hf : f < s.nextFrame)
    (hp : (s.frame f).phase ≠ .destroyed) : s.Alive f := ⟨i.born f hf, hp⟩

/-- Every frame of a chain exists. -/
theorem alive_of_chain (i : Inherits s) (r : Accounts s b) {l : List FrameId} (h : s.Chain l) :
    ∀ x ∈ l, s.Alive x := by
  induction h with
  | @root f hf _ hp =>
      intro x hx
      obtain rfl : x = f := by simpa using hx
      exact i.alive_of_lt hf hp
  | @call f g l ha hp _ ih =>
      intro x hx
      rcases List.mem_cons.mp hx with rfl | hx
      · obtain ⟨-, hu, -, hd, -⟩ := r.of_callee ha hp
        have hf := r.custodian.fits x
        refine i.alive_of_lt (r.custodian.lt_of_started hu) fun hx => ?_
        cases hb : b.status x <;> simp only [hb, Frame.Fits] at hf <;> grind
      · exact ih x hx

/-- What a frame reads through `get_executor()` along its chain, and where it reads it. -/
theorem of_chain (i : Inherits s) {l : List FrameId} (h : s.Chain l) :
    ∀ f ∈ l.head?, s.getExecutor f = s.nearestExecutor l ∧ (s.frame f).callerExecutor ∈ l ∧
      s.executorRef f ∈ l := by
  induction h with
  | @root f hf hk _ =>
      intro x hx
      obtain rfl : f = x := by simpa using hx
      have hself := i.root f hf hk
      simp [i.getExecutor_root hself, nearestExecutor, hself, executorRef]
  | @call f g l ha hp _ ih =>
      intro x hx
      obtain rfl : f = x := by simpa using hx
      obtain ⟨hget, hptr, href⟩ := ih g (by simp)
      have hlink := i.link g f ha hp
      have hmem : (s.frame f).callerExecutor ∈ f :: g :: l := by
        rw [hlink]
        split
        · exact List.mem_cons_of_mem _ href
        · exact List.mem_cons_self
      refine ⟨?_, hmem, ?_⟩
      · rw [i.getExecutor_call hlink, hget]
        simp only [nearestExecutor, List.findSome?_cons]
        cases s.ownExecutor f <;> rfl
      · unfold executorRef
        split
        · exact List.mem_cons_self
        · exact hmem

/-- Every frame that exists and is not over yet belongs to a chain. -/
theorem exists_chain (i : Inherits s) (r : Accounts s b) (f : FrameId) (hf : f < s.nextFrame)
    (hp : (s.frame f).phase ≠ .destroying ∧ (s.frame f).phase ≠ .destroyed ∧
      (s.frame f).phase ≠ .parked ∧ (s.frame f).phase.isFinalizing = false) :
    ∃ l, s.Chain (f :: l) := by
  induction r.wf.rooted f with
  | intro f _ ih =>
      by_cases hroot : (s.frame f).kind ≠ .promise ∨ (s.frame f).phase = .initial
      · exact ⟨[], .root hf hroot hp.2.1⟩
      · -- a promise that was started has a caller, which waits for it
        obtain ⟨hk, hini⟩ := not_or.mp hroot
        have hfit := r.custodian.fits f
        have hborn := i.born f hf
        have hcaller : ∃ g, (s.frame f).caller = some g := by
          refine Option.ne_none_iff_exists'.mp ?_
          cases hb : b.status f <;> simp only [hb, Frame.Fits] at hfit <;> grind [Frame.Started]
        obtain ⟨g, hg⟩ := hcaller
        have ho := (r.custodian.owned g f).mpr hg
        have hgf := r.custodian.fits g
        rw [ho] at hgf
        obtain ⟨-, hgp, hga⟩ := hgf
        have hglt := r.custodian.lt_of_started (f := g) (by simp [ho])
        obtain ⟨l, hl⟩ := ih g ho hglt (by simp [hgp, Phase.isFinalizing])
        exact ⟨g :: l, .call hga (by simp [hgp]) hl⟩

end Inherits

namespace State.Chain

variable {s : State V E}

/-- Every frame of a chain begins a chain of its own. -/
theorem of_mem {l : List FrameId} (h : s.Chain l) {x : FrameId} (hx : x ∈ l) :
    ∃ l', s.Chain (x :: l') ∧ ∀ y ∈ x :: l', y ∈ l := by
  induction h with
  | @root f hf hk hp =>
      obtain rfl : x = f := by simpa using hx
      exact ⟨[], .root hf hk hp, fun y hy => hy⟩
  | @call f g l ha hp hc ih =>
      rcases List.mem_cons.mp hx with rfl | hx
      · exact ⟨g :: l, .call ha hp hc, fun y hy => hy⟩
      · obtain ⟨l', hl', hsub⟩ := ih hx
        exact ⟨l', hl', fun y hy => List.mem_cons_of_mem _ (hsub y hy)⟩

/-- The ancestors in a chain all await a callee. -/
theorem awaits {l : List FrameId} (h : s.Chain l) :
    ∀ x ∈ l.tail, (s.frame x).awaiter.callee ≠ none := by
  induction h with
  | root => simp
  | @call f g l ha _ _ ih =>
      intro x hx
      rcases List.mem_cons.mp hx with rfl | hx
      · simp [ha]
      · exact ih x hx

end State.Chain

/-- A hop of a callee changes the executor of no ancestor. -/
theorem Accounts.getExecutor_hop {s : State V E} {b : Book FrameId SuspId} (r : Accounts s b)
    (i : Inherits s) {a : Action V E} (h : s.Enabled a) {f : FrameId} {ex : ExecutorArg}
    (ha : a = .awaitDispatch f ex ∨ a = .awaitPost f ex) {l : List FrameId}
    (hc : s.Chain (f :: l)) :
    (s.next a).getExecutor f = some ex.executor ∧
      ∀ g ∈ l, (s.next a).getExecutor g = s.getExecutor g := by
  have hbody : s.inBody f = true := by rcases ha with rfl | rfl <;> exact h
  have hother : ∀ x, x ≠ f → (s.next a).frame x = s.frame x := by
    intro x hx
    rcases ha with rfl | rfl <;> simp [next, dispatchAwaitSuspend, postAwaitSuspend, hx]
  -- the frame that hops is the first of its chain only
  have hfl : f ∉ l := fun hm => by
    have := hc.awaits f hm
    simp [(r.custodian.of_inBody hbody).2.1, Awaiter.callee] at this
  refine ⟨?_, fun g hg => ?_⟩
  · have hown : ((s.next a).frame f).executor = some ex.executor := by
      rcases ha with rfl | rfl <;>
        simp [next, dispatchAwaitSuspend, postAwaitSuspend, Frame.setExecutor]
    simp [getExecutor, executorRef, hown]
  · have hgf : g ≠ f := fun he => hfl (he ▸ hg)
    have href : (s.next a).executorRef g = s.executorRef g := by
      simp only [executorRef, hother g hgf]
    have hmem : s.executorRef g ≠ f := by
      -- `g` refers to an ancestor of `f`
      cases hc with
      | root => simp at hg
      | call _ _ hc =>
          obtain ⟨l', hl', hsub⟩ := hc.of_mem hg
          exact fun he => hfl (he ▸ hsub _ (i.of_chain hl' g (by simp)).2.2)
    rw [getExecutor, getExecutor, href, hother _ hmem]

/-- The frame that a running body refers to exists. -/
theorem Accounts.not_readsDangling {s : State V E} {b : Book FrameId SuspId} (r : Accounts s b)
    (i : Inherits s) (x : Fault) : ¬ ReadsDangling s x := by
  rintro ⟨g, f, hg, hf, hp, -⟩
  obtain ⟨hga, -, -, t, ht⟩ := r.custodian.of_inBody hg
  have hlt := r.custodian.lt_of_started (f := g) (by simp [hga])
  obtain ⟨l, hl⟩ := i.exists_chain r g hlt (by simp [ht, Phase.isFinalizing])
  obtain ⟨-, hptr, href⟩ := i.of_chain hl g (by simp)
  have halive : s.Alive f := by
    rcases hf with rfl | rfl
    · exact i.alive_of_chain r hl _ href
    · exact i.alive_of_chain r hl _ hptr
  exact hp.elim halive.2 halive.1

/-- No executor is ever read from a frame that is gone. -/
theorem Reachable.not_danglingExecutor {s : State V E} (hs : Reachable s) (f : FrameId) :
    Fault.danglingExecutor f ∉ s.faults := by
  refine hs.invariant_with (J := fun s => ∃ b, Accounts s b ∧ Inherits s)
    (I := fun s => Fault.danglingExecutor f ∉ s.faults)
    (fun u hu => (Reachable.accounts hu).imp fun b r => ⟨r, Reachable.inherits hu⟩)
    (by simp [State.init]) ?_
  rintro s a ⟨b, r, i⟩ hI ha hm
  obtain ⟨-, -, -, hx⟩ := r.custodian.step r.sound r.stored ha
  exact (hx _ hm).elim hI (r.not_readsDangling i _)

/-- **Executor inheritance.** Along every chain of calls a frame's `get_executor()` is what the
    nearest frame of the chain, itself included, adopted last; its `caller_executor` leads to a
    frame of the chain, which exists and stores an executor unless it is the frame itself; and its
    hops change the executor of no ancestor. Every frame that is not over belongs to a chain, and
    no executor is read from a frame that is gone. -/
theorem Reachable.executor_inheritance {s : State V E} (hs : Reachable s) :
    (∀ f l, s.Chain (f :: l) →
      s.getExecutor f = s.nearestExecutor (f :: l) ∧
      ((s.frame f).callerExecutor ∈ f :: l ∧ s.Alive (s.frame f).callerExecutor ∧
        ((s.frame f).callerExecutor ≠ f →
          (s.frame (s.frame f).callerExecutor).executor ≠ none)) ∧
      ∀ a ex, s.Enabled a → a = .awaitDispatch f ex ∨ a = .awaitPost f ex →
        (s.next a).getExecutor f = some ex.executor ∧
          ∀ g ∈ l, (s.next a).getExecutor g = s.getExecutor g) ∧
    (∀ f < s.nextFrame, (s.frame f).phase ≠ .destroying ∧ (s.frame f).phase ≠ .destroyed ∧
      (s.frame f).phase ≠ .parked ∧ (s.frame f).phase.isFinalizing = false →
      ∃ l, s.Chain (f :: l)) ∧
    ∀ f, Fault.danglingExecutor f ∉ s.faults := by
  obtain ⟨b, r⟩ := hs.accounts
  have i := hs.inherits
  refine ⟨fun f l hc => ?_, fun f => i.exists_chain r f, hs.not_danglingExecutor⟩
  obtain ⟨hget, hptr, -⟩ := i.of_chain hc f (by simp)
  have halive := i.alive_of_chain r hc
  have hlt : f < s.nextFrame := by
    by_contra hn
    exact (halive f (by simp)).1 (by rw [r.custodian.unborn_frame (Nat.le_of_not_lt hn)])
  exact ⟨hget, ⟨hptr, halive _ hptr, r.stored f hlt⟩,
    fun a ex ha hop => r.getExecutor_hop i ha hop hc⟩

/-- `co_main` awaits a promise, which awaits another one that hops. -/
def nestedHops : List (Action Unit Unit) :=
  [.startMain 7, .create none, .awaitPromise 0 1, .create none, .awaitPromise 1 2,
    .awaitPost 2 ⟨.context 8, false⟩, .plainResume 0 (.context 8), .awaitResume 2]

theorem executor_inheritance_nested :
    let s : State Unit Unit := State.after nestedHops
    s.getExecutor 2 = some (.context 8) ∧ s.getExecutor 1 = some (.context 7) := by
  intro s
  have hs : Reachable s := .after (by decide)
  have h1 : s.Chain [1, 0] :=
    .call (by decide) (by decide) (.root (by decide) (by decide) (by decide))
  have h2 : s.Chain [2, 1, 0] := .call (by decide) (by decide) h1
  refine ⟨?_, ?_⟩
  · rw [((Reachable.executor_inheritance hs).1 2 _ h2).1]
    decide
  · rw [((Reachable.executor_inheritance hs).1 1 _ h1).1]
    decide

end WebAsio.Coro
