import WebAsio.Coro.Termination

set_option autoImplicit false

/-! # Programs do not get stuck

Whatever the schedule, somebody can always take the next step until everything is over: no two
parties of a suspension wait for each other, and no frame waits for one that nobody executes. With
the termination of all schedules this makes every coroutine run to its end. -/

namespace WebAsio.Coro

open Custody State

variable {V E : Type}

/-! ## Handlers that were queued -/

/-- The handler was given to an executor. -/
def AwaitKind.isHop : AwaitKind → Bool
  | .dispatch | .post | .final | .finalDefer => true
  | _ => false

theorem Suspension.Begins.targeted {r : Suspension V E} (h : r.Begins)
    (hk : r.kind.isHop = true) : ∃ ex, r.target = some ex := by
  cases h with
  | dispatch k f g ex t => exact ⟨ex, dispatchContext_target ..⟩
  | plain k f g ex => exact ⟨ex, rfl⟩
  | completion f k o b hc => cases k <;> simp [AwaitKind.isHop, AwaitKind.isCompletion] at hk hc
  | bridged | callback => cases hk

/-- A handler that was queued knows its executor. -/
theorem Reachable.targeted {s : State V E} (hs : Reachable s) (k : SuspId)
    (hk : (s.susp k).kind.isHop = true) : ∃ ex, (s.susp k).target = some ex := by
  revert k
  refine hs.invariant (I := fun s => ∀ k, (s.susp k).kind.isHop = true →
    ∃ ex, (s.susp k).target = some ex) (fun _ hk => by cases hk) ?_
  intro s a hi ha k hk
  change ((s.next a).susp k).kind.isHop = true at hk
  change ∃ ex, ((s.next a).susp k).target = some ex
  rcases State.next_susp ha k with h | h | ⟨-, h⟩
  · rw [h] at hk ⊢
    exact hi k hk
  · rw [h.names.1] at hk
    rw [h.target]
    exact hi k hk
  · exact h.targeted hk

namespace Direct

variable {L : Type}

/-! ## Nobody is left without somebody to take care -/

/-- What the threads that execute trampolines and callers find when they go on. -/
structure Program.Tended (s : Program V E L) : Prop where
  bridges : ∀ x y c d k, (s.runtime.frame x).awaiter = .bridge c k →
    (s.runtime.frame y).awaiter = .bridge d k → x = y
  absent : ∀ x < s.runtime.nextFrame, s.point x = .absent →
    (s.runtime.frame x).kind = .trampoline
  reaped : ∀ c, s.point c = .reaped → (s.runtime.frame c).phase.isOver = true
  leaving : ∀ f c r k, s.point f = .leaving c r k → (s.runtime.frame c).phase = .destroying

namespace Program

variable {s s' : Program V E L}

/-- A step that only a body takes note of. -/
theorem Tended.still (w : s.Tended) (hr : s'.runtime = s.runtime)
    (hp : ∀ x, s'.point x = s.point x ∨ s'.point x ≠ .absent ∧ s'.point x ≠ .reaped ∧
      ∀ c r k, s'.point x ≠ .leaving c r k) : s'.Tended := by
  constructor
  · rw [hr]
    exact w.bridges
  · intro x hx ha
    rw [hr] at hx ⊢
    rcases hp x with hsame | ⟨hn, -⟩
    · exact w.absent x hx (hsame ▸ ha)
    · exact absurd ha hn
  · intro c hc
    rw [hr]
    rcases hp c with hsame | ⟨-, hn, -⟩
    · exact w.reaped c (hsame ▸ hc)
    · exact absurd hc hn
  · intro f c r k hf
    rw [hr]
    rcases hp f with hsame | ⟨-, -, hn⟩
    · exact w.leaving f c r k (hsame ▸ hf)
    · exact absurd hf (hn c r k)

/-- A step of the runtime keeps what is tended to, where the points change as they should. -/
theorem Tended.next (w : s.Tended) (p : s.Placed) {a : Action V E} (h : s.runtime.Enabled a)
    (hr : s'.runtime = s.runtime.next a)
    (habsent : ∀ x, s'.point x = .absent → s.point x = .absent ∧
      (x = s.runtime.nextFrame → x < s'.runtime.nextFrame →
        (s'.runtime.frame x).kind = .trampoline))
    (hreaped : ∀ x, s'.point x = .reaped → s.point x = .reaped ∨
      (s'.runtime.frame x).phase.isOver = true)
    (hleaving : ∀ f c r k, s'.point f = .leaving c r k →
      s.point f = .leaving c r k ∧ a ≠ .destroy c ∨
        (s'.runtime.frame c).phase = .destroying) : s'.Tended := by
  obtain ⟨b, r⟩ := p.reachable.accounts
  constructor
  · intro x y c d k hx hy
    rw [hr] at hx hy
    have hold : ∀ {z e}, (s.runtime.frame z).awaiter = .bridge e k → k ≠ s.runtime.nextSusp :=
      fun hz => Nat.ne_of_lt (p.calling.bridges _ _ k hz).1
    rcases r.next_bridge h hx with hx' | ⟨rfl, hkx, -⟩ <;>
      rcases r.next_bridge h hy with hy' | ⟨rfl, hky, -⟩
    · exact w.bridges x y c d k hx' hy'
    · exact absurd hky (hold hx')
    · exact absurd hkx (hold hy')
    · rfl
  · intro x hx ha
    obtain ⟨hold, hnew⟩ := habsent x ha
    by_cases hn : x = s.runtime.nextFrame
    · exact hnew hn hx
    · have hlt : x < s.runtime.nextFrame := by
        rw [hr] at hx
        by_cases hb : (s.runtime.next a).nextFrame = s.runtime.nextFrame
        · rwa [hb] at hx
        · rw [(next_born hb).1] at hx
          exact lt_of_le_of_ne (Nat.lt_succ_iff.mp hx) hn
      have hkind := w.absent x hlt hold
      rw [hr, r.next_kind h (fun hu => ?_), hkind]
      have hfits := r.custodian.fits x
      cases hst : b.status x <;> simp only [hst, Frame.Fits] at hfits <;> grind
  · intro c hc
    rcases hreaped c hc with hold | hover
    · rw [hr]
      exact r.step_isOver h (w.reaped c hold)
    · exact hover
  · intro f c v k hf
    rcases hleaving f c v k hf with ⟨hold, hne⟩ | hnew
    · rw [hr]
      exact r.next_destroying h (w.leaving f c v k hold) hne
    · exact hnew

/-- The same where no frame is made. -/
theorem Tended.next_old (w : s.Tended) (p : s.Placed) {a : Action V E} (h : s.runtime.Enabled a)
    (hr : s'.runtime = s.runtime.next a) (hn : (s.runtime.next a).nextFrame = s.runtime.nextFrame)
    (habsent : ∀ x, s'.point x = .absent → s.point x = .absent)
    (hreaped : ∀ x, s'.point x = .reaped → s.point x = .reaped ∨
      (s'.runtime.frame x).phase.isOver = true)
    (hleaving : ∀ f c r k, s'.point f = .leaving c r k →
      s.point f = .leaving c r k ∧ a ≠ .destroy c ∨
        (s'.runtime.frame c).phase = .destroying) : s'.Tended :=
  w.next p h hr (fun x hx => ⟨habsent x hx, fun he hlt => by
    rw [he, hr, hn] at hlt
    exact absurd hlt (Nat.lt_irrefl _)⟩) hreaped hleaving

theorem tended_turn (w : s.Tended) (p : s.Placed) (t : s.Told) {f : FrameId} (h : Turn s f s') :
    s'.Tended := by
  obtain ⟨b₀, r⟩ := p.reachable.accounts
  cases h with
  | finish e hf hen =>
      refine w.next_old p hen rfl (next_nextFrame rfl) ?_ ?_ ?_ <;> intro x <;>
        by_cases hx : x = f <;> simp_all
  | effect y c hf hin | expired c v hf hin =>
      refine w.still rfl fun x => ?_
      by_cases hx : x = f <;> simp [hx]
  | call o c k hf hin hen =>
      refine w.next p hen rfl ?_ ?_ ?_ <;> intro x <;> by_cases hxc : x = s.runtime.nextFrame <;>
        by_cases hx : x = f <;> simp_all [Program.call]
  | opens c a hf ha hen =>
      obtain ⟨-, -, hn, hm, -, -⟩ := waits_of_opens (s := s.runtime) ha
      refine w.next_old p hen rfl hn (fun _ => id) (fun _ => Or.inl) fun x d v k hx =>
        Or.inl ⟨hx, ?_⟩
      rintro rfl
      cases hm
  | awaitCallee c d k hf hen =>
      refine w.next_old p hen rfl (next_nextFrame rfl) ?_ ?_ ?_ <;> intro x <;>
        by_cases hxc : x = c <;> by_cases hx : x = f <;> simp_all [awaitCallee]
  | takeResult c k v hf hen haw hres =>
      have hdead : ((s.runtime.next (.awaitResume f)).frame c).phase = .destroying := by
        have hact := r.custodian.active_of_running (Or.inr hen.1)
        have hpark := r.custodian.parked_of_active hact
          (r.custodian.reaps f c hact (by rw [haw]; rfl))
        have hne : c ≠ f := by
          rintro rfl
          obtain ⟨u, hu⟩ := Phase.isResuming_iff.mp hen.1
          rw [hpark] at hu
          cases hu
        simp [State.next, State.awaitResume, haw, hne, destroyHandle_frame, hpark,
          Phase.afterDestroy]
      refine w.next_old p hen rfl (next_nextFrame rfl) ?_ ?_ ?_ <;> intro x <;>
        by_cases hxc : x = c <;> by_cases hx : x = f <;> simp_all [Phase.isOver]
  | destroyCallee c v k hf hin hen =>
      refine w.next_old p hen rfl (next_nextFrame rfl) (fun x => ?_) (fun x => ?_)
        fun x d v' k' hx => Or.inl ?_
      · by_cases hx : x = f <;> simp [destroyCallee, hx]
      · by_cases hx : x = f <;> simp +contextual [destroyCallee, hx]
      · have hxf : x ≠ f := by
          rintro rfl
          simp [destroyCallee] at hx
        have hold : s.point x = .leaving d v' k' := by simpa [destroyCallee, hxf] using hx
        refine ⟨hold, fun hcd => hxf ?_⟩
        -- a callee has one caller
        obtain rfl : c = d := by injection hcd
        have hstory := t.story f
        have hstory' := t.story x
        rw [hf] at hstory
        rw [hold] at hstory'
        exact hstory'.2.1.caller.symm.trans hstory.2.1.caller
  | takeAnswer c k v hf hb hen | hopped how ex c hf hen =>
      refine w.next_old p hen rfl (next_nextFrame rfl) ?_ ?_ ?_ <;> intro x <;>
        by_cases hx : x = f <;> simp_all

theorem tended_launch (w : s.Tended) (p : s.Placed) {a : Action V E} {b : Body V E L}
    (h : s.Enabled (.launch a b)) : (s.next (.launch a b)).Tended := by
  obtain ⟨hl, hen⟩ := h
  have hq : entry b a ≠ .absent ∧ entry b a ≠ .reaped ∧ ∀ c r k, entry b a ≠ .leaving c r k := by
    rcases entry_eq a b with hq | hq <;> simp [hq]
  have hne : ∀ c, a ≠ .destroy c := by
    rintro c rfl
    cases hl
  refine w.next p hen rfl (fun x hx => ?_) (fun x hx => ?_) fun x c r k hx => ?_ <;>
    by_cases hn : x = s.runtime.nextFrame <;> simp_all [Program.next, Program.launch]

theorem tended_around (w : s.Tended) (p : s.Placed) (t : s.Told) {a : Action V E}
    (h : s.Enabled (.around a)) : (s.next (.around a)).Tended := by
  obtain ⟨hp, hen⟩ := h
  obtain ⟨b₀, r⟩ := p.reachable.accounts
  have hquiet : ∀ {u : Program V E L}, u = s.act a →
      (s.runtime.next a).nextFrame = s.runtime.nextFrame → u.Tended := by
    rintro u rfl hn
    refine w.next_old p hen rfl hn (fun _ => id) (fun _ => Or.inl) fun f c v k hf =>
      Or.inl ⟨hf, ?_⟩
    rintro rfl
    -- the callee belongs to the one that leaves it
    have hstory := t.story f
    rw [show s.point f = .leaving c v k from hf] at hstory
    rw [Permits, hstory.2.2.1] at hp
    cases hp
  cases a with
  | startAwait u c =>
      obtain ⟨hcp, hcc, hcn⟩ := r.custodian.of_startAwait hen
      obtain ⟨d, hd⟩ := Point.isLazy_iff.mp hp
      refine w.next p hen rfl (fun x hx => ?_) (fun x hx => ?_) fun x d v k hx => ?_ <;>
        by_cases hxc : x = c <;> simp_all [Program.next, Point.start]
      rintro rfl -
      simp [State.next, s.runtime.startAwait_frame hcp hcc hcn, hxc]
  | detach | startMain | create | awaitPromise | awaitDeferred | awaitTimer | awaitAwait
  | awaitDispatch | awaitPost | awaitResume | coReturn => cases hp
  | _ => exact hquiet rfl (next_nextFrame rfl)

theorem tended_step (w : s.Tended) (p : s.Placed) (t : s.Told) {m : Step V E L}
    (h : s.Enabled m) : (s.next m).Tended := by
  cases m with
  | launch a b => exact tended_launch w p h
  | advance f => exact tended_turn w p t (p.turn h)
  | ready f v => exact tended_turn w p t (turn_ready h)
  | around a => exact tended_around w p t h

/-- What is tended to is so in every state of a program. -/
theorem reached_tended (hs : Transition.Reachable machine Program.init s) :
    s.Placed ∧ s.Told ∧ s.Tended ∧ Buried s := by
  obtain ⟨p, t, hb, -⟩ := Program.reached hs
  refine ⟨p, t, hs.invariant_with (I := Program.Tended) (fun u hu => Program.reached hu) ?_ ?_, hb⟩
  · exact ⟨nofun, nofun, nofun, nofun⟩
  · rintro u m ⟨p, t, -⟩ w h
    exact tended_step w p t h

/-! ## Who can go on -/

/-- The step needs nobody outside: the bodies, the threads on their way between them, and
    Boost.Asio, which completes every operation and runs every handler. -/
def Due (s : Program V E L) : Step V E L → Bool
  | .advance _ | .ready .. => true
  | .around (.drop k) => (s.runtime.susp k).stage == .dropping
  | .launch .. | .around (.startAwait ..) | .around (.discard _) | .around (.unwind _)
  | .around (.release _) | .around (.retain _) => false
  | .around _ => true

def CanGoOn (s : Program V E L) : Prop := ∃ m, s.Due m = true ∧ s.Enabled m

/-- The body of `f` does what it must not. -/
inductive Fails (s : Program V E L) (f : FrameId) : Prop
  /-- an exception escapes a detached coroutine, which terminates the program -/
  | escapes (e : BodyEnd V E) : s.runtime.inBody f = true → s.point f = .rest (.finish e) →
      (s.runtime.frame f).kind = .detached → e.escapes = true → Fails s f
  /-- a member function of an object is called that is gone -/
  | orphaned (o : OwnerId) (b : Body V E L) (k : Except E V → Body V E L) :
      s.runtime.inBody f = true → s.point f = .rest (.call (some o) b k) →
      s.runtime.ownerAlive o = false → Fails s f

/-- The first statement of a body can be executed. -/
theorem executes_or_fails {f : FrameId} {b : Body V E L} (hf : s.point f = .rest b)
    (hin : s.runtime.inBody f = true) : Executes s.runtime f b ∨ Fails s f := by
  cases b with
  | finish e =>
      by_cases hk : (s.runtime.frame f).kind = .detached
      · cases he : e.escapes with
        | false => exact Or.inl ⟨hin, fun _ => he⟩
        | true => exact Or.inr (.escapes e hin hf hk he)
      · exact Or.inl ⟨hin, fun h => absurd h hk⟩
  | call o c k =>
      cases o with
      | none => exact Or.inl ⟨hin, nofun⟩
      | some o =>
          cases ho : s.runtime.ownerAlive o with
          | false => exact Or.inr (.orphaned o c k hin hf ho)
          | true =>
              refine Or.inl ⟨hin, fun x hx => ?_⟩
              obtain rfl : o = x := by simpa using hx
              exact ho
  | hop how ex c => cases how <;> exact Or.inl hin
  | effect | deferred | sleep => exact Or.inl hin

/-- A frame that is executed or resumed is a trampoline, or that of a body under way. -/
theorem Placed.stands (p : s.Placed) {f : FrameId}
    (hp : (s.runtime.frame f).phase.isRunning = true ∨
      (s.runtime.frame f).phase.isResuming = true) :
    (s.point f).isUnderWay = true ∨ s.point f = .absent ∨ s.point f = .reaped := by
  have hc := p.coupled f
  have hbusy : ∃ u, (s.runtime.frame f).phase = .running u ∨
      (s.runtime.frame f).phase = .resuming u := by
    rcases hp with hp | hp
    · exact (Phase.isRunning_iff.mp hp).imp fun u => Or.inl
    · exact (Phase.isResuming_iff.mp hp).imp fun u => Or.inr
  obtain ⟨u, hu⟩ := hbusy
  cases hf : s.point f with
  | lazy b =>
      rw [hf] at hc
      rcases hc.2.2 with hi | hi <;> rcases hu with hu | hu <;> rw [hu] at hi <;> cases hi
  | temporary b =>
      rw [hf] at hc
      rcases hu with hu | hu <;> rw [hc.2] at hu <;> cases hu
  | ended e =>
      rw [hf] at hc
      rcases hc.2.phase with hi | hi | hi <;> rcases hu with hu | hu <;> rw [hu] at hi <;> cases hi
  | aborted =>
      rw [hf] at hc
      exact hc.elim
  | absent => exact Or.inr (Or.inl rfl)
  | reaped => exact Or.inr (Or.inr rfl)
  | rest | called | waiting | leaving => exact Or.inl rfl

/-- A trampoline that is executed completes the handler it keeps, or has done so. -/
theorem Tended.trampoline_goes (w : s.Tended) (p : s.Placed) {f : FrameId}
    (hk : (s.runtime.frame f).kind = .trampoline)
    (hp : (s.runtime.frame f).phase.isRunning = true ∨
      (s.runtime.frame f).phase.isResuming = true) : s.CanGoOn := by
  obtain ⟨b, r⟩ := p.reachable.accounts
  have hfits := r.custodian.fits f
  rw [r.custodian.active_of_running hp] at hfits
  obtain ⟨c, k, haw⟩ := hfits.1.bridges.mp hk
  by_cases hrun : (s.runtime.frame f).phase.isRunning = true
  · have hcb := (p.calling.bridges f c k haw).2
    rcases ((r.sound k).callback hcb).2 with ⟨y, hst⟩ | hst | hst
    · -- the handler would be another trampoline's
      obtain ⟨⟨d, hy⟩, hnot⟩ := (r.custodian.held y k).mp hst
      obtain rfl := w.bridges f y c d k haw hy
      rw [hrun] at hnot
      cases hnot
    · exact ⟨.around (.drop k), by simp [Due, hst], rfl, Or.inr hst⟩
    · exact ⟨.around (.trampolineReturn f c k), rfl, rfl, hrun, haw, hst⟩
  · rw [Bool.not_eq_true] at hrun
    have hst := (r.custodian.held f k).mpr ⟨⟨c, haw⟩, hrun⟩
    exact ⟨.around (.trampolineInvoke f c k), rfl, rfl, hp.resolve_left (by simp [hrun]), haw, hst⟩

/-- A body that is executed goes on, or fails. -/
theorem Tended.running_goes (w : s.Tended) (p : s.Placed) (t : s.Told) {f : FrameId}
    (hp : (s.runtime.frame f).phase.isRunning = true) : s.CanGoOn ∨ s.Fails f := by
  obtain ⟨b, r⟩ := p.reachable.accounts
  by_cases hk : (s.runtime.frame f).kind = .trampoline
  · exact Or.inl (w.trampoline_goes p hk (Or.inl hp))
  have hin : s.runtime.inBody f = true := by simp [inBody, hp, hk]
  obtain ⟨u, hu⟩ := Phase.isRunning_iff.mp hp
  have hadvance : Advances s.runtime f (s.point f) → s.CanGoOn ∨ s.Fails f :=
    fun ha => Or.inl ⟨.advance f, rfl, ha⟩
  have hstory := t.story f
  rcases p.stands (Or.inl hp) with hunder | habsent | hreaped
  · cases hf : s.point f with
    | rest b =>
        rcases executes_or_fails hf hin with he | hfail
        · refine hadvance ?_
          rw [hf]
          simpa [Advances, hu, Phase.isResuming] using he
        · exact Or.inr hfail
    | called c b k =>
        rw [hf] at hstory
        have hc := p.coupled c
        rw [hstory.2.2] at hc
        refine hadvance ?_
        rw [hf]
        exact ⟨hin, by simp [isFresh, hc.1, hc.2]⟩
    | leaving c v k =>
        refine hadvance ?_
        rw [hf]
        exact ⟨hin, w.leaving f c v k hf⟩
    | waiting c k =>
        have hc := p.coupled f
        rw [hf] at hc
        cases hc.2 with
        | waits hw => rw [hu] at hw; cases hw
        | destroyed ho => rw [hu] at ho; cases ho
    | _ => rw [hf] at hunder; cases hunder
  · exact absurd (w.absent f (r.lt_of_born (by simp [hu])) habsent) hk
  · have hover := w.reaped f hreaped
    rw [hu] at hover
    cases hover

/-- A coroutine that is resumed takes what it has waited for. -/
theorem Tended.resuming_goes (w : s.Tended) (p : s.Placed) {f : FrameId}
    (hp : (s.runtime.frame f).phase.isResuming = true) : s.CanGoOn := by
  obtain ⟨b, r⟩ := p.reachable.accounts
  by_cases hk : (s.runtime.frame f).kind = .trampoline
  · exact w.trampoline_goes p hk (Or.inr hp)
  obtain ⟨u, hu⟩ := Phase.isResuming_iff.mp hp
  have hen : s.runtime.Enabled (.awaitResume f) := ⟨hp, hk⟩
  rcases p.stands (Or.inr hp) with hunder | habsent | hreaped
  · have hc := p.coupled f
    cases hf : s.point f with
    | rest b =>
        refine ⟨.advance f, rfl, ?_⟩
        change Advances s.runtime f (s.point f)
        rw [hf, Advances, if_pos hp]
        exact hen
    | waiting c k =>
        refine ⟨.advance f, rfl, ?_⟩
        change Advances s.runtime f (s.point f)
        rw [hf]
        exact hen
    | called c b k | leaving c v k =>
        rw [hf, Coupled, hu] at hc
        cases hc.2
    | _ => rw [hf] at hunder; cases hunder
  · exact absurd (w.absent f (r.lt_of_born (by simp [hu])) habsent) hk
  · have hover := w.reaped f hreaped
    rw [hu] at hover
    cases hover

/-- The awaiting side goes on from the initiation to its exchange, and makes it. -/
theorem Placed.suspending_goes (p : s.Placed) {f : FrameId}
    (hp : (s.runtime.frame f).phase.isSuspending = true) : s.CanGoOn := by
  obtain ⟨b, r⟩ := p.reachable.accounts
  obtain ⟨u, hu⟩ := Phase.isSuspending_iff.mp hp
  obtain ⟨k, hl⟩ := r.custodian.leased_of_suspending hp
  rcases hfin : (s.runtime.susp k).kind.isFinal with _ | _
  · obtain ⟨-, haw, hside⟩ := r.custodian.own f k hl hfin
    rcases hs : (s.runtime.susp k).side with (_ | _) | o | _
    · exact ⟨.around (.initiationReturns f k), rfl, rfl, hp, haw, Or.inr hs⟩
    · exact ⟨.around (.initiationReturns f k), rfl, rfl, hp, haw, Or.inl hs⟩
    · exact ⟨.around (.resumeAwaiting f k), rfl, rfl, hp, haw, by simp [hs, AwaitSide.saved]⟩
    · have hsus := hside.mpr hs
      rw [hu] at hsus
      cases hsus
  · have hsus := (r.custodian.final f k hl hfin).2.1
    rw [hu] at hsus
    cases hsus

/-- A callee that is over gives its caller back. -/
theorem Placed.finalizing_goes (p : s.Placed) {f : FrameId}
    (hp : (s.runtime.frame f).phase.isFinalizing = true) : s.CanGoOn := by
  obtain ⟨b, r⟩ := p.reachable.accounts
  obtain ⟨k, haw, hside, hcb⟩ := r.custodian.finalizing f hp
  obtain ⟨-, hfin, -⟩ := r.custodian.leased_of_finalizing
    (by simp [Suspension.isOpen, hside]) hcb hp haw
  rcases hs : (s.runtime.susp k).side with m | o | _
  · -- a `final_awaitable` has no initiation
    have hcomp := (r.sound k).initiating ⟨m, hs⟩
    cases hkind : (s.runtime.susp k).kind <;> rw [hkind] at hcomp hfin <;>
      simp [AwaitKind.isCompletion, AwaitKind.isFinal] at hcomp hfin
  · exact ⟨.around (.finalResumeAwaiting f k), rfl, rfl, hp, haw, by simp [hs, AwaitSide.saved]⟩
  · exact absurd hs hside

/-- A frame that is to be destroyed is destroyed, by its caller if that took its result. -/
theorem Placed.destroying_goes (p : s.Placed) (hb : Buried s) {f : FrameId}
    (hp : (s.runtime.frame f).phase = .destroying) : s.CanGoOn := by
  cases hr : (s.point f).isReaped with
  | false => exact ⟨.around (.destroy f), rfl, by simp [Permits, hr], hp⟩
  | true =>
      have hf : s.point f = .reaped := by
        cases hf : s.point f <;> rw [hf] at hr <;> first | rfl | cases hr
      rcases hb f hf with hd | ⟨v, k, hg⟩
      · rw [hp] at hd
        cases hd
      · have hc := p.coupled (s.caller f)
        rw [hg] at hc
        refine ⟨.advance (s.caller f), rfl, ?_⟩
        change Advances s.runtime _ (s.point (s.caller f))
        rw [hg]
        exact ⟨by simp [inBody, hc.1, hc.2], hp⟩

/-- A handler that is not over goes on, unless a trampoline holds it. -/
theorem Placed.handler_goes [Inhabited V] (p : s.Placed) {k : SuspId}
    (hgone : (s.runtime.susp k).stage ≠ .gone)
    (hheld : ∀ y, (s.runtime.susp k).stage ≠ .held y) : s.CanGoOn := by
  cases hst : (s.runtime.susp k).stage with
  | asio =>
      cases hk : (s.runtime.susp k).kind with
      | deferred | timer =>
          exact ⟨.around (.setValue k [] (.ok default)), rfl, by simp [Permits, Except.isOk,
            Except.toBool], hst, by simp [hk, AwaitKind.isCompletion]⟩
      | dispatch | final =>
          obtain ⟨ex, hex⟩ := p.reachable.targeted k (by simp [hk, AwaitKind.isHop])
          exact ⟨.around (.dispatchEnter k ex), rfl, rfl, hst, by simp [hk], hex⟩
      | post | finalDefer =>
          obtain ⟨ex, hex⟩ := p.reachable.targeted k (by simp [hk, AwaitKind.isHop])
          exact ⟨.around (.plainResume k ex), rfl, rfl, hst, by simp [hk], hex⟩
      | callback =>
          rcases ((p.reachable.sound k).callback hk).2 with ⟨y, hy⟩ | hy | hy <;>
            rw [hst] at hy <;> cases hy
  | held y => exact absurd hst (hheld y)
  | invoked t => exact ⟨.around (.resumeCompleted k t), rfl, rfl, hst⟩
  | claimed t => exact ⟨.around (.handlerResume k t), rfl, rfl, hst⟩
  | dropping => exact ⟨.around (.drop k), by simp [Due, hst], rfl, Or.inr hst⟩
  | gone => exact absurd hst hgone

end Program

/-- Where all is quiet nobody goes on. -/
theorem Program.not_goes_of_quiescent {s : Program V E L} (p : s.Placed)
    (hq : Quiescent s.runtime) : ¬ s.CanGoOn := by
  obtain ⟨b, r⟩ := p.reachable.accounts
  have hrest : ∀ x, (s.runtime.frame x).phase.isResting = true := by
    intro x
    by_cases hx : x < s.runtime.nextFrame
    · exact hq.1 x hx
    · rw [r.custodian.unborn_frame (Nat.le_of_not_lt hx)]
      rfl
  have hstage : ∀ k, (s.runtime.susp k).stage = .gone ∨ ∃ y, (s.runtime.susp k).stage = .held y := by
    intro k
    by_cases hk : k < s.runtime.nextSusp
    · exact (hq.2 k hk).imp_right fun ⟨y, _, hy⟩ => ⟨y, hy⟩
    · rw [r.custodian.newSusp k (Nat.le_of_not_lt hk)]
      exact Or.inl rfl
  have hbody : ∀ f, s.runtime.inBody f = false := by
    intro f
    have hf := hrest f
    cases hp : (s.runtime.frame f).phase <;>
      simp_all [inBody, Phase.isRunning, Phase.isResting]
  have hbusy : ∀ f, (s.runtime.frame f).phase.isResuming = false ∧
      (s.runtime.frame f).phase.isSuspending = false ∧
      (s.runtime.frame f).phase.isFinalizing = false ∧
      (s.runtime.frame f).phase.isRunning = false ∧ (s.runtime.frame f).phase ≠ .destroying := by
    intro f
    have hf := hrest f
    cases hp : (s.runtime.frame f).phase <;> rw [hp] at hf <;>
      simp_all [Phase.isResting, Phase.isResuming, Phase.isSuspending, Phase.isFinalizing,
        Phase.isRunning]
  rintro ⟨m, hdue, hen⟩
  cases m with
  | launch => cases hdue
  | ready f v => simp [Program.Enabled, hbody] at hen
  | advance f =>
      change Advances s.runtime f (s.point f) at hen
      cases hf : s.point f with
      | rest b =>
          rw [hf, Advances, if_neg (by simp [hbusy])] at hen
          rcases b with _ | _ | _ | _ | _ | ⟨_ | _ | _, _, _⟩ <;>
            simp [Executes, State.Enabled, hbody] at hen
      | _ => simp [hf, Advances, State.Enabled, hbody, hbusy] at hen
  | around a =>
      obtain ⟨hp, hen⟩ := hen
      cases a with
      | drop k =>
          have hd : (s.runtime.susp k).stage = .dropping := by simpa [Due] using hdue
          rcases hstage k with hs | ⟨y, hs⟩ <;> rw [hd] at hs <;> cases hs
      | setValue k | dispatchEnter k | plainResume k =>
          rcases hstage k with hs | ⟨y, hs⟩ <;> rw [hen.1] at hs <;> cases hs
      | resumeCompleted k | handlerResume k =>
          have hen : (s.runtime.susp k).stage = _ := hen
          rcases hstage k with hs | ⟨y, hs⟩ <;> rw [hen] at hs <;> cases hs
      | initiationThrows f | initiationReturns f | resumeAwaiting f | finalResumeAwaiting f
      | trampolineInvoke f | trampolineReturn f =>
          have hf := hen.1
          simp [hbusy] at hf
      | destroy f => exact (hbusy f).2.2.2.2 hen
      | startAwait | discard | unwind | release | retain => cases hdue
      | _ => cases hp

/-- When nobody can go on, all is quiet. -/
theorem Program.quiescent_of_not_goes [Inhabited V] {s : Program V E L}
    (hs : Transition.Reachable machine Program.init s) (hf : ∀ f, ¬ s.Fails f)
    (hgo : ¬ s.CanGoOn) : Quiescent s.runtime := by
  obtain ⟨p, t, w, hb⟩ := Program.reached_tended hs
  obtain ⟨b, r⟩ := p.reachable.accounts
  refine ⟨fun f _ => ?_, fun k _ => ?_⟩
  · cases hp : (s.runtime.frame f).phase with
    | running u =>
        rcases w.running_goes p t (f := f) (by rw [hp]; rfl) with h | h
        · exact absurd h hgo
        · exact absurd h (hf f)
    | resuming u => exact absurd (w.resuming_goes p (f := f) (by rw [hp]; rfl)) hgo
    | suspending u => exact absurd (p.suspending_goes (f := f) (by rw [hp]; rfl)) hgo
    | finalizing u => exact absurd (p.finalizing_goes (f := f) (by rw [hp]; rfl)) hgo
    | destroying => exact absurd (p.destroying_goes hb hp) hgo
    | _ => rfl
  · by_cases hgone : (s.runtime.susp k).stage = .gone
    · exact Or.inl hgone
    · by_cases hheld : ∃ y, (s.runtime.susp k).stage = .held y
      · obtain ⟨y, hy⟩ := hheld
        obtain ⟨⟨c, haw⟩, -⟩ := (r.custodian.held y k).mp hy
        refine Or.inr ⟨y, ?_, hy⟩
        by_contra hn
        rw [r.custodian.unborn_frame (Nat.le_of_not_lt hn)] at haw
        cases haw
      · exact absurd (p.handler_goes hgone fun y hy => hheld ⟨y, hy⟩) hgo

/-- **No deadlock**: in every state of a program in which no body does what it must not, somebody
    can go on if and only if not all is quiet; and when nobody can go on, no coroutine is suspended,
    and no suspension has a side that is still to come: nobody waits for anybody. -/
theorem no_deadlock [Inhabited V] {s : Program V E L}
    (hs : Transition.Reachable machine Program.init s) (hf : ∀ f, ¬ s.Fails f) :
    (s.CanGoOn ↔ ¬ Quiescent s.runtime) ∧
      (¬ s.CanGoOn → (∀ f, (s.runtime.frame f).phase ≠ .suspended) ∧
        ∀ k, (s.runtime.susp k).isOpen = false) := by
  have p := (Program.reached_tended hs).1
  obtain ⟨b, r⟩ := p.reachable.accounts
  refine ⟨⟨fun hgo hq => Program.not_goes_of_quiescent p hq hgo, fun hq => ?_⟩, fun hgo => ?_⟩
  · by_contra hgo
    exact hq (Program.quiescent_of_not_goes hs hf hgo)
  · have hq := Program.quiescent_of_not_goes hs hf hgo
    exact ⟨r.not_suspended_of_quiescent hq, r.over_of_quiescent hq⟩

/-- Only coroutines that were called can fail. -/
theorem Program.not_fails {s : Program V E L} (p : s.Placed)
    (h : ∀ f < s.runtime.nextFrame, s.runtime.inBody f = false) (f : FrameId) : ¬ s.Fails f := by
  have hno : ∀ b, s.point f = .rest b → s.runtime.inBody f = false :=
    fun b hf => h f (p.lt (by simp [hf]))
  intro hfail
  cases hfail with
  | escapes e hin hf => rw [hno _ hf] at hin; cases hin
  | orphaned o b k hin hf => rw [hno _ hf] at hin; cases hin

/-- In the middle of `caughtRun` an initiation is under way; at its end nobody waits. -/
theorem no_deadlock_caught :
    let s := machine.exec Program.init (caughtRun.take 5)
    let t := machine.exec Program.init caughtRun
    (s.CanGoOn ↔ ¬ Quiescent s.runtime) ∧ (∀ f, (t.runtime.frame f).phase ≠ .suspended) ∧
      ∀ k, (t.runtime.susp k).isOpen = false := by
  have hs : Transition.Reachable machine Program.init
      (machine.exec Program.init (caughtRun.take 5)) := .of_legal (by decide)
  have ht : Transition.Reachable machine Program.init (machine.exec Program.init caughtRun) :=
    .of_legal (by decide)
  have p := (Program.reached hs).1
  have q := (Program.reached ht).1
  exact ⟨(no_deadlock hs (Program.not_fails p (by decide))).1,
    (no_deadlock ht (Program.not_fails q (by decide))).2
      (Program.not_goes_of_quiescent q (by decide))⟩

/-! ## Everything is done in the end -/

theorem Program.due_less {s : Program V E L} (p : s.Placed) (t : s.Told) {m : Step V E L}
    (h : s.Enabled m) (hd : s.Due m = true) : Less (s.next m).rank s.rank := by
  have hkind : m.isLaunch = false ∧ m.isOutside = false := by
    cases m with
    | around a => cases a <;> first | exact ⟨rfl, rfl⟩ | cases hd
    | launch => cases hd
    | _ => exact ⟨rfl, rfl⟩
  exact step_less p t h hkind.1 hkind.2

/-- Steps that are due leave less to do. -/
noncomputable def dueRanking : Transition.Ranking (machine (V := V) (E := E) (L := L)) Less where
  rank := Program.rank
  wf := less_wf
  inv s := s.Placed ∧ s.Told
  step := Program.kept
  busy s m := s.Due m = true
  quiet _ _ := False
  lowers _ _ h hm hd := Program.due_less h.1 h.2 hm hd
  keeps _ _ _ _ hq := False.elim hq

/-- **Total correctness**: the steps that are due come to an end under every schedule; and a run
    that cannot be continued, in which no body does what it must not and no handler was lost, has
    executed every coroutine that was called from outside and awaited, to the end and with the
    result that it has as a function. -/
theorem total_correctness [Inhabited V] {s : Program V E L}
    (hs : Transition.Reachable machine Program.init s) :
    (¬ ∃ e : Transition.Endless machine s, ∀ n, (e.state n).Due (e.action n) = true) ∧
      ∀ ms s', Transition.Run machine s ms s' → ¬ s'.CanGoOn → (∀ f, ¬ s'.Fails f) →
        (∀ k, ¬ (s'.runtime.susp k).Lost) → ∀ {σ : Type} (C : Coroutine σ V E L) (l : σ)
          (f : FrameId), s'.root f = f → s'.code f = some (C.body l) →
            (∃ b, s'.point f = .lazy b) ∨ ∃ e, s'.point f = .ended e ∧
              C.eval l (results (s'.log f)) = ⟨s'.log f, some (e, [])⟩ := by
  constructor
  · rintro ⟨e, hdue⟩
    obtain ⟨p, t, -, -⟩ := Program.reached hs
    obtain ⟨n, hn⟩ := dueRanking.eventually_quiet ⟨p, t⟩ e ⟨0, fun i _ => Or.inl (hdue i)⟩
    exact hn n (Nat.le_refl n)
  · intro ms s' hrun hstop hfails hlost σ C l f hroot hcode
    have hs' := hs.run hrun
    obtain ⟨p, t, hb, hk⟩ := Program.reached hs'
    have hstyle := Program.in_direct_style p t hb hk
    have hq : Quiescent s'.runtime := Program.quiescent_of_not_goes hs' hfails hstop
    rcases hstyle.complete hq hlost f hroot (by simp [hcode]) with hlazy | ⟨e, he⟩
    · exact Or.inl hlazy
    · exact Or.inr ⟨e, he, hstyle.result C l f e hroot hcode he⟩

/-- Only handlers that were made can be lost. -/
theorem not_lost {s : State V E} (hs : Reachable s)
    (h : ∀ k < s.nextSusp, (s.susp k).isOpen = true ∨
      (s.susp k).fate ≠ some .dropped ∧ (s.susp k).fate ≠ some .ownerLost) (k : SuspId) :
    ¬ (s.susp k).Lost := by
  obtain ⟨b, r⟩ := hs.accounts
  rintro ⟨hclosed, hfate⟩
  by_cases hk : k < s.nextSusp
  · rcases h k hk with ho | ⟨hd, ho⟩
    · rw [hclosed] at ho
      cases ho
    · exact hfate.elim hd ho
  · rw [r.custodian.newSusp k (Nat.le_of_not_lt hk)] at hfate
    rcases hfate with hf | hf <;> cases hf

/-- `caughtRun` cannot be continued, and `catches` has ended as it does as a function. -/
theorem total_correctness_caught :
    let s := machine.exec Program.init caughtRun
    (∃ b, s.point 0 = .lazy b) ∨ ∃ e, s.point 0 = .ended e ∧
      catches.eval 0 (results (s.log 0)) = ⟨s.log 0, some (e, [])⟩ := by
  have hs : Transition.Reachable machine Program.init (machine.exec Program.init caughtRun) :=
    .of_legal (by decide)
  have p := (Program.reached hs).1
  exact (total_correctness hs).2 [] _ (.nil _) (Program.not_goes_of_quiescent p (by decide))
    (Program.not_fails p (by decide)) (not_lost p.reachable (by decide)) catches 0 0 rfl rfl

end Direct

end WebAsio.Coro
