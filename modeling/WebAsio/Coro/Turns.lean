import WebAsio.Coro.Coupling

set_option autoImplicit false

/-! # The moves of a body

Every move of a body is one of a few turns: the cases in which a body would go on without a result
do not happen. Through all steps of a program its coroutines stand where their frames say. -/

namespace WebAsio.Coro

open Custody State

variable {V E : Type} {s : State V E} {b : Book FrameId SuspId}

/-! ## The results of operations -/

/-- The handler of an operation resumes the coroutine that has its awaitable. -/
theorem Reachable.handle_eq_frame (hs : Reachable s) {k : SuspId}
    (hk : (s.susp k).kind.isCompletion = true) : (s.susp k).handle = (s.susp k).frame := by
  revert k
  refine hs.invariant (I := fun s => ∀ {k}, (s.susp k).kind.isCompletion = true →
    (s.susp k).handle = (s.susp k).frame) (fun h => by cases h) ?_
  intro s a hI ha k hk
  change ((s.next a).susp k).kind.isCompletion = true at hk
  show ((s.next a).susp k).handle = ((s.next a).susp k).frame
  rcases next_susp ha k with he | he | ⟨_, he⟩
  · rw [he] at hk ⊢
    exact hI hk
  · rw [he.names.1] at hk
    rw [he.names.2.2.1, he.names.2.1]
    exact hI hk
  · generalize (s.next a).susp k = r at he hk
    cases he with
    | dispatch k f g ex t h =>
        rw [dispatchContext_kind] at hk
        rcases h with h | h <;> rw [h] at hk <;> cases hk
    | plain k f g ex h => rcases h with h | h <;> rw [h] at hk <;> cases hk
    | _ => rfl

/-- A coroutine that is resumed after an operation has its result. -/
theorem Reachable.value_of_resuming (hs : Reachable s) {f : FrameId} {k : SuspId}
    (hp : (s.frame f).phase.isResuming = true) (ha : (s.frame f).awaiter = .context k)
    (hk : (s.susp k).kind.isCompletion = true) : (s.susp k).value ≠ none := by
  obtain ⟨b, r⟩ := hs.accounts
  have hclosed := (r.custodian.woken f k (r.custodian.active_of_running (Or.inr hp)) ha).1
  have hcb : (s.susp k).kind ≠ .callback := by
    intro hcb
    rw [hcb] at hk
    cases hk
  obtain ⟨e, ft, -, hended, hon, hfate, hallows⟩ := (r.sound k).ended_of_closed hcb hclosed
  refine ((r.sound k).stored hk).mpr (Or.inr (Or.inr ?_))
  rw [hfate]
  cases ft with
  | invoked => exact Or.inl rfl
  | ownerLost => exact Or.inr (Or.inl rfl)
  | threw => exact Or.inr (Or.inr rfl)
  | dropped =>
      -- a dropped handler destroys the coroutine
      have hover := hs.over_of_ended k e (by simp [hended]) hallows
      rw [hon, hs.handle_eq_frame hk, (r.custodian.context f k ha).2] at hover
      obtain ⟨t, ht⟩ := Phase.isResuming_iff.mp hp
      rw [ht] at hover
      cases hover

/-- No coroutine awaits another one through `await`: trampolines complete handlers of user code. -/
structure State.Calling (s : State V E) : Prop where
  bridges : ∀ x c k, (s.frame x).awaiter = .bridge c k →
    k < s.nextSusp ∧ (s.susp k).kind = .callback
  outcomes : ∀ k o, (s.susp k).value = some (.outcome o) →
    k < s.nextSusp ∧ (s.susp k).kind = .callback

theorem State.Calling.step (hc : s.Calling) (r : Accounts s b) {a : Action V E} (h : s.Enabled a)
    (ha : ∀ f c, a ≠ .awaitAwait f c) : (s.next a).Calling := by
  have hkeep : ∀ k, k < s.nextSusp ∧ (s.susp k).kind = .callback →
      k < (s.next a).nextSusp ∧ ((s.next a).susp k).kind = .callback := by
    rintro k ⟨hlt, hk⟩
    refine ⟨Nat.lt_of_lt_of_le hlt (s.nextSusp_le a), ?_⟩
    rcases next_susp h k with he | he | ⟨he, _⟩
    · rw [he, hk]
    · rw [he.names.1, hk]
    · exact absurd he (Nat.ne_of_lt hlt)
  constructor
  · intro x c k hx
    rcases r.next_bridge h hx with hold | ⟨rfl, rfl, ⟨f, hf⟩ | ⟨t, rfl⟩⟩
    · exact hkeep k (hc.bridges x c k hold)
    · exact absurd hf (ha f c)
    · simp [next]
  · intro k o hv
    rcases r.next_outcome h hv with hold | ⟨x, c, rfl⟩
    · exact hkeep k (hc.outcomes k o hold)
    · exact hkeep k (hc.bridges x c k h.2.1)

namespace Direct

variable {L : Type}

/-! ## The turns -/

/-- What the move of a body can be. -/
inductive Turn (s : Program V E L) (f : FrameId) : Program V E L → Prop
  | finish (e : BodyEnd V E) : s.point f = .rest (.finish e) → s.runtime.Enabled (.coReturn f e) →
      Turn s f ((s.act (.coReturn f e)).goTo f (.ended e))
  | effect (x : L) (b : Body V E L) : s.point f = .rest (.effect x b) →
      s.runtime.inBody f = true → Turn s f ((s.write f (.effect x)).goTo f (.rest b))
  | call (o : Option OwnerId) (b : Body V E L) (k : Except E V → Body V E L) :
      s.point f = .rest (.call o b k) → s.runtime.inBody f = true →
      s.runtime.Enabled (.create o) → Turn s f (s.call f o b k)
  | opens (b : Body V E L) (a : Action V E) : s.point f = .rest b → b.opens f = some a →
      s.runtime.Enabled a → Turn s f (s.act a)
  | awaitCallee (c : FrameId) (b : Body V E L) (k : Except E V → Body V E L) :
      s.point f = .called c b k → s.runtime.Enabled (.awaitPromise f c) →
      Turn s f (s.awaitCallee f c b k)
  | takeResult (c : FrameId) (k : Except E V → Body V E L) (r : Except E V) :
      s.point f = .waiting c k → s.runtime.Enabled (.awaitResume f) →
      (s.runtime.frame f).awaiter = .coro c → (s.runtime.frame c).result.get = some r →
      Turn s f (((s.act (.awaitResume f)).goTo f (.leaving c r k)).goTo c .reaped)
  | destroyCallee (c : FrameId) (r : Except E V) (k : Except E V → Body V E L) :
      s.point f = .leaving c r k → s.runtime.inBody f = true → s.runtime.Enabled (.destroy c) →
      Turn s f (s.destroyCallee f c r k)
  | takeAnswer (b : Body V E L) (k : Except E V → Body V E L) (r : Except E V) :
      s.point f = .rest b → b = .deferred k ∨ b = .sleep k →
      s.runtime.Enabled (.awaitResume f) →
      Turn s f (((s.act (.awaitResume f)).write f (.result r)).goTo f (.rest (k r)))
  | expired (k : Except E V → Body V E L) (r : Except E V) : s.point f = .rest (.sleep k) →
      s.runtime.inBody f = true → Turn s f ((s.write f (.result r)).goTo f (.rest (k r)))
  | hopped (how : Hop) (ex : ExecutorArg) (b : Body V E L) : s.point f = .rest (.hop how ex b) →
      s.runtime.Enabled (.awaitResume f) →
      Turn s f (((s.act (.awaitResume f)).write f .hopped).goTo f (.rest b))

/-- A body that is resumed waits for what its first statement awaits. -/
theorem Attends.resumed {s : State V E} {f : FrameId} {b : Body V E L} (h : Attends s f b)
    (hp : (s.frame f).phase.isResuming = true) :
    ∃ k, (s.frame f).awaiter = .context k ∧ b.kind = some (s.susp k).kind := by
  cases h with
  | executes hr => cases hx : (s.frame f).phase <;> simp_all [Phase.isRunning, Phase.isResuming]
  | waits k _ ha hk => exact ⟨k, ha, hk⟩
  | destroyed ho => cases hx : (s.frame f).phase <;> simp_all [Phase.isOver, Phase.isResuming]

/-- The coroutines stand where their frames say. -/
structure Program.Placed (s : Program V E L) : Prop where
  reachable : Reachable s.runtime
  calling : s.runtime.Calling
  absent : ∀ x, s.runtime.nextFrame ≤ x → s.point x = .absent
  coupled : ∀ x, Coupled s.runtime x (s.point x)

namespace Program

variable {s : Program V E L}

theorem Placed.received (p : s.Placed) {f : FrameId} {k : SuspId}
    (hp : (s.runtime.frame f).phase.isResuming = true)
    (ha : (s.runtime.frame f).awaiter = .context k)
    (hk : (s.runtime.susp k).kind.isCompletion = true) : ∃ r, s.received f = some r := by
  have hv := p.reachable.value_of_resuming hp ha hk
  obtain ⟨v, hv⟩ := Option.ne_none_iff_exists'.mp hv
  cases v with
  | result r => exact ⟨r, by simp [Program.received, ha, hv]⟩
  | outcome o =>
      rw [(p.calling.outcomes k o hv).2] at hk
      cases hk

/-- A coroutine that is resumed in the `co_await` of a promise takes its result. -/
theorem Placed.result (p : s.Placed) {f c : FrameId} {k : Except E V → Body V E L}
    (hf : s.point f = .waiting c k) (hp : (s.runtime.frame f).phase.isResuming = true) :
    (s.runtime.frame f).awaiter = .coro c ∧ ∃ r, (s.runtime.frame c).result.get = some r := by
  have hc := p.coupled f
  rw [hf] at hc
  obtain ⟨b, r⟩ := p.reachable.accounts
  cases hc.2 with
  | destroyed ho =>
      cases hx : (s.runtime.frame f).phase <;> simp_all [Phase.isOver, Phase.isResuming]
  | waits _ ha =>
      have hs := r.custodian.reaps f c (r.custodian.active_of_running (Or.inr hp))
        (by rw [ha]; rfl)
      have hfits := r.custodian.fits c
      rw [hs] at hfits
      refine ⟨ha, ?_⟩
      cases hres : (s.runtime.frame c).result with
      | nothing => exact absurd hres hfits.2.2.2.1
      | value v => exact ⟨.ok v, rfl⟩
      | exception e => exact ⟨.error e, rfl⟩

/-- A sleep that does not suspend is a turn. -/
theorem turn_ready {f : FrameId} {r : Except E V} (h : s.Enabled (.ready f r)) :
    Turn s f (s.ready f r) := by
  obtain ⟨hin, hsleep, -⟩ := h
  obtain ⟨k, hf⟩ := Point.isSleep_iff.mp hsleep
  rw [ready, hf]
  exact .expired k r hf hin

/-- **A body moves by turns.** -/
theorem Placed.turn (p : s.Placed) {f : FrameId} (h : s.Enabled (.advance f)) :
    Turn s f (s.advance f) := by
  change Advances s.runtime f (s.point f) at h
  have hc := p.coupled f
  unfold advance
  cases hf : s.point f with
  | rest b =>
      rw [hf] at h hc
      simp only [Advances] at h
      dsimp only
      by_cases hp : (s.runtime.frame f).phase.isResuming = true
      · rw [if_pos hp] at h ⊢
        obtain ⟨k, ha, hk⟩ := Attends.resumed hc.2 hp
        cases b with
        | deferred rest =>
            obtain ⟨r, hr⟩ := p.received hp ha (by rw [← Option.some.inj hk]; rfl)
            simp only [resumeBody, takeAnswer, hr]
            exact .takeAnswer _ rest r hf (Or.inl rfl) h
        | sleep rest =>
            obtain ⟨r, hr⟩ := p.received hp ha (by rw [← Option.some.inj hk]; rfl)
            simp only [resumeBody, takeAnswer, hr]
            exact .takeAnswer _ rest r hf (Or.inr rfl) h
        | hop how ex rest => exact .hopped how ex rest hf h
        | _ => cases hk
      · rw [if_neg hp] at h ⊢
        cases b with
        | finish e => exact .finish e hf h
        | effect x rest => exact .effect x rest hf h
        | call o c k => exact .call o c k hf h.1 h.2
        | deferred rest => exact .opens _ _ hf rfl h
        | sleep rest => exact .opens _ _ hf rfl h
        | hop how ex rest => cases how <;> exact .opens _ _ hf rfl h
  | called c b k =>
      rw [hf] at h
      exact .awaitCallee c b k hf h
  | waiting c k =>
      rw [hf] at h
      obtain ⟨ha, r, hr⟩ := p.result hf h.1
      simp only [takeResult, hr]
      exact .takeResult c k r hf h ha hr
  | leaving c r k =>
      rw [hf] at h
      exact .destroyCallee c r k hf h.1 h.2
  | _ => rw [hf] at h; exact h.elim

/-! ## Steps keep the coroutines in their places -/

/-- The frames that neither move nor are started or discarded stay in their places by themselves. -/
theorem Placed.of_next (p : s.Placed) {a : Action V E} (h : s.runtime.Enabled a)
    (ha : ∀ f c, a ≠ .awaitAwait f c) {s' : Program V E L} (hr : s'.runtime = s.runtime.next a)
    (hx : ∀ x, s'.point x = s.point x ∧ a.mover ≠ some x ∧ a.taken ≠ some x ∨
      x < s'.runtime.nextFrame ∧ Coupled s'.runtime x (s'.point x)) : s'.Placed := by
  obtain ⟨b, r⟩ := p.reachable.accounts
  constructor
  · rw [hr]
    exact p.reachable.step h
  · rw [hr]
    exact p.calling.step r h ha
  · intro x hlt
    rcases hx x with ⟨hpoint, -⟩ | ⟨hlt', -⟩
    · rw [hpoint]
      refine p.absent x (Nat.le_trans ?_ hlt)
      rw [hr]
      by_cases hb : (s.runtime.next a).nextFrame = s.runtime.nextFrame
      · rw [hb]
      · rw [(next_born hb).1]
        exact Nat.le_succ _
    · exact absurd hlt (Nat.not_le_of_lt hlt')
  · intro x
    rcases hx x with ⟨hpoint, hm, ht⟩ | ⟨-, hc⟩
    · rw [hpoint, hr]
      exact (p.coupled x).keep r h hm ht
    · exact hc

/-- A coroutine that stands somewhere has a frame. -/
theorem Placed.lt (p : s.Placed) {x : FrameId} (hx : s.point x ≠ .absent) :
    x < s.runtime.nextFrame := by
  by_contra hn
  exact hx (p.absent x (Nat.le_of_not_lt hn))

/-- A coroutine that is called is a new promise. -/
theorem Placed.step_call (p : s.Placed) {f : FrameId} {o : Option OwnerId} {b : Body V E L}
    {k : Except E V → Body V E L} (hf : s.point f = .rest (.call o b k))
    (hin : s.runtime.inBody f = true) (hen : s.runtime.Enabled (.create o)) :
    (s.call f o b k).Placed := by
  have hlt : f < s.runtime.nextFrame := p.lt (by simp [hf])
  obtain ⟨b₀, r⟩ := p.reachable.accounts
  obtain ⟨-, -, hkind, t, ht⟩ := r.custodian.of_inBody hin
  refine p.of_next hen (by simp) rfl fun x => ?_
  by_cases hc : x = s.runtime.nextFrame
  · subst hc
    right
    simp [Program.call, State.next, Coupled]
  by_cases hx : x = f
  · subst hx
    right
    refine ⟨Nat.lt_succ_of_lt hlt, ?_⟩
    simp [Program.call, State.next, Coupled, hc, hkind, ht, Phase.isRunning]
  · left
    simp [Program.call, hc, hx, Action.mover, Action.taken]

theorem Placed.step_awaitCallee (p : s.Placed) {f c : FrameId} {b : Body V E L}
    {k : Except E V → Body V E L} (hf : s.point f = .called c b k)
    (hen : s.runtime.Enabled (.awaitPromise f c)) : (s.awaitCallee f c b k).Placed := by
  obtain ⟨b₀, r⟩ := p.reachable.accounts
  obtain ⟨-, -, hkind, -⟩ := r.custodian.of_inBody hen.1
  obtain ⟨-, -, hck, -, -⟩ := r.custodian.of_isFresh hen.2
  obtain ⟨hcp, hcc, hne⟩ := r.custodian.of_call hen
  have hframe := s.runtime.coroAwaitSuspend_frame hcp hcc hne
  have hlt : f < s.runtime.nextFrame := p.lt (by simp [hf])
  have hclt : c < s.runtime.nextFrame := by
    by_contra hn
    rw [r.custodian.unborn_frame (Nat.le_of_not_lt hn)] at hcp
    cases hcp
  refine p.of_next hen (by simp) rfl fun x => ?_
  by_cases hc : x = c
  · subst hc
    right
    refine ⟨by simpa [awaitCallee, State.next] using hclt, ?_⟩
    simp only [awaitCallee, goTo_point, if_true]
    refine ⟨?_, .executes ?_⟩ <;> simp [State.next, hframe, hck, Phase.isRunning]
  by_cases hx : x = f
  · subst hx
    right
    refine ⟨by simpa [awaitCallee, State.next] using hlt, ?_⟩
    simp only [awaitCallee, goTo_point, if_neg hc, if_true]
    refine ⟨?_, .waits ?_ ?_⟩ <;> simp [State.next, hframe, hc, hkind, Phase.isWaiting]
  · left
    simp [awaitCallee, hc, hx, Ne.symm hc, Ne.symm hx, Action.mover, Action.taken]

/-- A coroutine that goes on after `await_resume` is executed. -/
theorem Placed.of_awaitResume (p : s.Placed) {f : FrameId}
    (hen : s.runtime.Enabled (.awaitResume f)) (hf : s.point f ≠ .absent) {s' : Program V E L}
    (hr : s'.runtime = s.runtime.next (.awaitResume f))
    (hx : ∀ x, x ≠ f → s'.point x = s.point x ∨ s'.point x = .reaped ∧ x < s.runtime.nextFrame)
    (hpf : ∀ u : State V E, (u.frame f).kind ≠ .trampoline →
      (u.frame f).phase.isRunning = true → Coupled u f (s'.point f)) : s'.Placed := by
  obtain ⟨b, r⟩ := p.reachable.accounts
  have hnf : s'.runtime.nextFrame = s.runtime.nextFrame := by
    rw [hr]
    exact next_nextFrame (a := .awaitResume f) rfl
  obtain ⟨hrun, hkind⟩ := executes_of_awaitResume r hen
  refine p.of_next hen (by simp) hr fun x => ?_
  by_cases hxf : x = f
  · subst hxf
    exact Or.inr ⟨hnf ▸ p.lt hf, hpf _ (by rw [hr, hkind]; exact hen.2) (by rw [hr, hrun])⟩
  · rcases hx x hxf with hsame | ⟨hreaped, ha⟩
    · exact Or.inl ⟨hsame, by simpa [Action.mover] using Ne.symm hxf, by simp [Action.taken]⟩
    · right
      rw [hreaped]
      exact ⟨hnf ▸ ha, trivial⟩

/-- A statement without `co_await` leaves the runtime as it is. -/
theorem Placed.of_inBody (p : s.Placed) {f : FrameId} (hin : s.runtime.inBody f = true)
    (hlt : f < s.runtime.nextFrame) {x : Event V E L} {c : Body V E L} :
    ((s.write f x).goTo f (.rest c)).Placed := by
  obtain ⟨b, r⟩ := p.reachable.accounts
  obtain ⟨-, -, hkind, t, ht⟩ := r.custodian.of_inBody hin
  refine ⟨p.reachable, p.calling, fun y hy => ?_, fun y => ?_⟩
  · have hyf : y ≠ f := by
      rintro rfl
      exact Nat.not_le_of_lt hlt hy
    simpa [hyf] using p.absent y hy
  · by_cases hyf : y = f
    · subst hyf
      simp only [goTo_point, if_true]
      exact ⟨hkind, .executes (by simp [ht, Phase.isRunning])⟩
    · simpa [hyf] using p.coupled y

theorem Placed.step_turn (p : s.Placed) {f : FrameId} {s' : Program V E L} (h : Turn s f s') :
    s'.Placed := by
  obtain ⟨b, r⟩ := p.reachable.accounts
  have hlt : s.point f ≠ .absent → f < s.runtime.nextFrame := p.lt
  cases h with
  | finish e hf hen =>
      obtain ⟨hfin, hkind⟩ := Finished.start r hen
      refine p.of_next hen (by simp) rfl fun x => ?_
      by_cases hx : x = f
      · subst hx
        right
        simp only [goTo_runtime, act_runtime, goTo_point, if_true]
        rw [next_nextFrame (a := .coReturn x e) rfl]
        refine ⟨hlt (by simp [hf]), ?_, hfin⟩
        rw [hkind]
        exact (r.custodian.of_inBody hen.1).2.2.1
      · left
        simpa [hx, Action.mover, Action.taken] using Ne.symm hx
  | effect y c hf hin | expired c v hf hin => exact p.of_inBody hin (p.lt (by simp [hf]))
  | call o c k hf hin hen => exact p.step_call hf hin hen
  | opens c a hf ha hen =>
      obtain ⟨⟨k, hw, haw, hk⟩, hkind, hnf, hm, ht, hna⟩ := waits_of_opens ha
      refine p.of_next hen hna rfl fun x => ?_
      by_cases hx : x = f
      · subst hx
        right
        have hc := p.coupled x
        rw [hf] at hc
        simp only [act_runtime, act_point, hf]
        rw [hnf]
        exact ⟨hlt (by simp [hf]), by rw [hkind]; exact hc.1, .waits k hw haw hk⟩
      · left
        simpa [hm, ht] using Ne.symm hx
  | awaitCallee c d k hf hen => exact p.step_awaitCallee hf hen
  | takeResult c k v hf hen haw hres =>
      have hactive := r.custodian.active_of_running (Or.inr hen.1)
      have hspent := r.custodian.reaps f c hactive (by rw [haw]; rfl)
      have hne : f ≠ c := by
        rintro rfl
        rw [hactive] at hspent
        cases hspent
      have hclt := r.custodian.lt_of_started (f := c) (by simp [hspent])
      refine p.of_awaitResume hen (by simp [hf]) rfl (fun x hx => ?_) ?_
      · by_cases hc : x = c
        · exact Or.inr ⟨by simp [hc], hc ▸ hclt⟩
        · exact Or.inl (by simp [hc, hx])
      · intro u hk hp
        simp only [goTo_point, if_neg hne, if_true]
        exact ⟨hk, hp⟩
  | destroyCallee c v k hf hin hen =>
      refine p.of_next hen (by simp) rfl fun x => ?_
      by_cases hx : x = f
      · subst hx
        right
        have hc := (p.coupled x).keep r hen (by simp [Action.mover]) (by simp [Action.taken])
        rw [hf] at hc
        simp only [destroyCallee, goTo_runtime, write_runtime, act_runtime, goTo_point, if_true]
        rw [next_nextFrame (a := .destroy c) rfl]
        exact ⟨hlt (by simp [hf]), hc.1, .executes hc.2⟩
      · left
        simp [destroyCallee, hx, Action.mover, Action.taken]
  | takeAnswer c k v hf hb hen =>
      refine p.of_awaitResume hen (by simp [hf]) rfl (fun x hx => Or.inl (by simp [hx])) ?_
      intro u hk hp
      simp only [goTo_point, if_true]
      exact ⟨hk, .executes hp⟩
  | hopped how ex c hf hen =>
      refine p.of_awaitResume hen (by simp [hf]) rfl (fun x hx => Or.inl (by simp [hx])) ?_
      intro u hk hp
      simp only [goTo_point, if_true]
      exact ⟨hk, .executes hp⟩

theorem Placed.step_launch (p : s.Placed) {a : Action V E} {b : Body V E L}
    (h : s.Enabled (.launch a b)) : (s.next (.launch a b)).Placed := by
  obtain ⟨hl, hen⟩ := h
  have hnf : (s.runtime.next a).nextFrame = s.runtime.nextFrame + 1 := by
    cases a <;> first | rfl | cases hl
  refine p.of_next hen (fun _ _ ha => by rw [ha] at hl; cases hl) rfl fun x => ?_
  by_cases hx : x = s.runtime.nextFrame
  · subst hx
    right
    refine ⟨by rw [Program.next, Program.launch]; simpa using hnf ▸ Nat.lt_succ_self _, ?_⟩
    simp only [Program.next, launch, goTo_point, if_true]
    cases a with
    | create o => simp [entry, Coupled, State.next]
    | detach t o =>
        exact ⟨by simp [State.next], .executes (by simp [State.next, Phase.isRunning])⟩
    | startMain i =>
        exact ⟨by simp [State.next], .executes (by simp [State.next, Phase.isRunning])⟩
    | _ => cases hl
  · left
    simp only [Program.next, launch, goTo_point, if_neg hx, act_point]
    cases a with
    | create o | detach t o | startMain i => simp [Action.mover, Action.taken]
    | _ => cases hl

theorem Placed.step_around (p : s.Placed) {a : Action V E} (h : s.Enabled (.around a)) :
    (s.next (.around a)).Placed := by
  obtain ⟨hp, hen⟩ := h
  obtain ⟨b, r⟩ := p.reachable.accounts
  cases a with
  | startAwait t c =>
      -- the promise that is awaited from outside begins
      obtain ⟨hcp, hcc, hcn⟩ := r.custodian.of_startAwait hen
      have hck := (r.custodian.of_isFresh hen).2.2.1
      obtain ⟨d, hd⟩ := Point.isLazy_iff.mp hp
      refine p.of_next hen (by simp) rfl fun x => ?_
      by_cases hx : x = c
      · subst hx
        right
        simp only [Program.next, goTo_runtime, act_runtime, goTo_point, if_true, hd, Point.start]
        refine ⟨by simpa [State.next] using Nat.lt_succ_of_lt (p.lt (by simp [hd])), ?_, ?_⟩
        · simp [State.next, s.runtime.startAwait_frame hcp hcc hcn, hck]
        · exact .executes (by simp [State.next, s.runtime.startAwait_frame hcp hcc hcn,
            Phase.isRunning])
      · left
        simpa [Program.next, hx, Action.mover, Action.taken] using Ne.symm hx
  | discard c =>
      obtain ⟨d, hd⟩ := Point.isLazy_iff.mp hp
      have hfresh := r.custodian.of_isFresh hen
      refine p.of_next hen (by simp) rfl fun x => ?_
      by_cases hx : x = c
      · subst hx
        right
        simp only [Program.next, act_runtime, act_point, hd]
        rw [next_nextFrame (a := .discard x) rfl]
        refine ⟨p.lt (by simp [hd]), ?_⟩
        simp [Coupled, State.next, destroyHandle_frame, hfresh.2.1, hfresh.2.2.1,
          hfresh.2.2.2.2, Phase.afterDestroy, Phase.isOver]
      · left
        simpa [Program.next, Action.mover, Action.taken] using Ne.symm hx
  | detach | startMain | create | awaitPromise | awaitDeferred | awaitTimer | awaitAwait
  | awaitDispatch | awaitPost | awaitResume | coReturn => cases hp
  | _ =>
      exact p.of_next hen (by simp) rfl
        fun x => Or.inl ⟨rfl, by simp [Action.mover], by simp [Action.taken]⟩

theorem Placed.step (p : s.Placed) {m : Step V E L} (h : s.Enabled m) : (s.next m).Placed := by
  cases m with
  | launch a b => exact p.step_launch h
  | advance f => exact p.step_turn (p.turn h)
  | ready f v => exact p.step_turn (turn_ready h)
  | around a => exact p.step_around h

end Program

end Direct

end WebAsio.Coro
