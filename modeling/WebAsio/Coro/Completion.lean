import WebAsio.Coro.Story

set_option autoImplicit false

/-! # Callees are destroyed, and nobody is abandoned

The frame of a callee is destroyed before the caller goes on with the result. A coroutine that is
under way is destroyed only where a handler was lost; without that, nobody is under way any more
when no thread executes a coroutine and no handler is left. -/

namespace WebAsio.Coro.Direct

open Custody State

variable {V E L : Type}

/-- The body has begun and is not over. -/
def Point.isUnderWay : Point V E L → Bool
  | .rest _ | .called .. | .waiting .. | .leaving .. => true
  | _ => false

/-- A callee whose result was taken is destroyed, unless its caller is about to do that. -/
def Buried (s : Program V E L) : Prop :=
  ∀ c, s.point c = .reaped →
    (s.runtime.frame c).phase = .destroyed ∨ ∃ r k, s.point (s.caller c) = .leaving c r k

/-- A coroutine that is under way was not destroyed, unless a handler was lost. -/
def Kept (s : Program V E L) : Prop :=
  (∃ k, (s.runtime.susp k).Lost) ∨
    ∀ x, (s.point x).isUnderWay = true → (s.runtime.frame x).phase.isOver = false

variable {s s' : Program V E L}

/-! ## Callees -/

/-- A coroutine leaves the `co_await` of its callee when that is destroyed. -/
theorem Buried.keep (hb : Buried s)
    (hd : ∀ c, (s.runtime.frame c).phase = .destroyed → (s'.runtime.frame c).phase = .destroyed)
    (hcaller : ∀ c, s.point c = .reaped → s'.caller c = s.caller c)
    (hpoint : ∀ x, s'.point x = s.point x ∨
      (∀ c r k, s.point x = .leaving c r k → (s'.runtime.frame c).phase = .destroyed) ∧
        (s'.point x = .reaped → ∃ r k, s'.point (s'.caller x) = .leaving x r k)) : Buried s' := by
  intro c hc
  rcases hpoint c with hsame | ⟨-, hnew⟩
  · rw [hsame] at hc
    rcases hb c hc with hdead | ⟨r, k, hg⟩
    · exact Or.inl (hd c hdead)
    · rcases hpoint (s.caller c) with hsame' | ⟨hleft, -⟩
      · exact Or.inr ⟨r, k, by rw [hcaller c hc, hsame', hg]⟩
      · exact Or.inl (hleft c r k hg)
  · exact Or.inr (hnew hc)

theorem Phase.Next.destroyed {q : Phase} (h : Phase.destroyed.Next q) : q = .destroyed := by
  cases h with
  | same => rfl
  | destroy hp => rcases hp with hp | hp | hp <;> cases hp

namespace Program

theorem Placed.next_destroyed (p : s.Placed) {a : Action V E} (h : s.runtime.Enabled a)
    {c : FrameId} (hc : (s.runtime.frame c).phase = .destroyed) :
    ((s.runtime.next a).frame c).phase = .destroyed := by
  obtain ⟨b, r⟩ := p.reachable.accounts
  have hn : c ≠ s.runtime.nextFrame := Delivers.ne_nextFrame r (by simp [hc])
  exact Phase.Next.destroyed (hc ▸ r.next_phase h hn)

theorem buried_turn (hb : Buried s) (p : s.Placed) (t : s.Told) {f : FrameId} (h : Turn s f s') :
    Buried s' := by
  obtain ⟨b₀, r⟩ := p.reachable.accounts
  have hstory := t.story f
  cases h with
  | finish e hf hen =>
      refine hb.keep (fun c => p.next_destroyed hen) (fun _ _ => rfl) fun x => ?_
      by_cases hx : x = f <;> simp [hx, hf]
  | effect y c hf hin | expired c v hf hin =>
      refine hb.keep (fun _ => id) (fun _ _ => rfl) fun x => ?_
      by_cases hx : x = f <;> simp [hx, hf]
  | call o c k hf hin hen =>
      have hd : s.point s.runtime.nextFrame = .absent := p.absent _ (Nat.le_refl _)
      refine hb.keep (fun c => p.next_destroyed hen) (fun c hc => ?_) fun x => ?_
      · exact Function.update_of_ne (by rintro rfl; rw [hd] at hc; cases hc) ..
      · by_cases hxc : x = s.runtime.nextFrame
        · simp [Program.call, hxc, hd]
        · by_cases hx : x = f <;> simp [Program.call, hx, hf, hxc]
          simp [hx ▸ hxc]
  | opens c a hf ha hen =>
      exact hb.keep (fun c => p.next_destroyed hen) (fun _ _ => rfl) fun _ => Or.inl rfl
  | awaitCallee c d k hf hen =>
      rw [hf] at hstory
      refine hb.keep (fun c => p.next_destroyed hen) (fun _ _ => rfl) fun x => ?_
      by_cases hxc : x = c
      · simp [awaitCallee, hxc, hstory.2.2]
      · by_cases hx : x = f <;> simp [awaitCallee, hx, hf, hxc]
        simp [hx ▸ hxc]
  | takeResult c k v hf hen haw hres =>
      rw [hf] at hstory
      have hne : f ≠ c := Nat.ne_of_lt hstory.2.1.lt
      refine hb.keep (fun c => p.next_destroyed hen) (fun _ _ => rfl) fun x => ?_
      by_cases hxc : x = c
      · subst hxc
        refine Or.inr ⟨fun d v k hd => ?_, fun _ => ⟨v, k, ?_⟩⟩
        · obtain ⟨e, hx, -⟩ := t.callee_ended p hf hen haw
          rw [hx] at hd
          cases hd
        · have hcaller : s.caller x = f := hstory.2.1.caller
          simp [hcaller, hne]
      · by_cases hx : x = f <;> simp [hx, hf, hxc, hne]
  | destroyCallee c v k hf hin hen =>
      refine hb.keep (fun c => p.next_destroyed hen) (fun _ _ => rfl) fun x => ?_
      by_cases hx : x = f
      · subst hx
        refine Or.inr ⟨fun d v' k' hd => ?_, fun hr => by simp [destroyCallee] at hr⟩
        obtain rfl : c = d := by
          rw [hf] at hd
          injection hd
        simp [destroyCallee, State.next,
          s.runtime.destroyFrame_frame (r.custodian.caller_ne hen)]
      · simp [destroyCallee, hx]
  | takeAnswer c k v hf hb' hen | hopped how ex c hf hen =>
      refine hb.keep (fun c => p.next_destroyed hen) (fun _ _ => rfl) fun x => ?_
      by_cases hx : x = f <;> simp [hx, hf]

theorem buried_step (hb : Buried s) (p : s.Placed) (t : s.Told) {m : Step V E L}
    (h : s.Enabled m) : Buried (s.next m) := by
  cases m with
  | launch a b =>
      have hd : s.point s.runtime.nextFrame = .absent := p.absent _ (Nat.le_refl _)
      have hq : entry b a ≠ .reaped := by rcases entry_eq a b with hq | hq <;> rw [hq] <;> simp
      refine hb.keep (fun c => p.next_destroyed h.2) (fun _ _ => rfl) fun x => ?_
      by_cases hx : x = s.runtime.nextFrame <;> simp [Program.next, Program.launch, hx, hd, hq]
  | advance f => exact buried_turn hb p t (p.turn h)
  | ready f v => exact buried_turn hb p t (turn_ready h)
  | around a =>
      cases a with
      | startAwait u c =>
          obtain ⟨b, hc⟩ := Point.isLazy_iff.mp h.1
          refine hb.keep (fun c => p.next_destroyed h.2) (fun _ _ => rfl) fun x => ?_
          by_cases hx : x = c <;> simp [Program.next, hx, hc, Point.start]
      | _ => exact hb.keep (fun c => p.next_destroyed h.2) (fun _ _ => rfl) fun _ => Or.inl rfl

/-! ## Coroutines under way -/

/-- A coroutine under way is executed or waits, unless it was destroyed. -/
theorem Placed.under_way (p : s.Placed) {x : FrameId} (hx : (s.point x).isUnderWay = true)
    (ho : (s.runtime.frame x).phase.isOver = false) : (s.runtime.frame x).kind ≠ .trampoline ∧
      ((s.runtime.frame x).phase.isRunning = true ∨
        (s.runtime.frame x).phase.isWaiting = true) := by
  have hc := p.coupled x
  cases hpoint : s.point x with
  | rest b =>
      rw [hpoint] at hc
      refine ⟨hc.1, ?_⟩
      cases hc.2 with
      | executes hp => exact Or.inl hp
      | waits k hp => exact Or.inr hp
      | destroyed hp => rw [ho] at hp; cases hp
  | waiting c k =>
      rw [hpoint] at hc
      refine ⟨hc.1, ?_⟩
      cases hc.2 with
      | waits hp => exact Or.inr hp
      | destroyed hp => rw [ho] at hp; cases hp
  | called | leaving =>
      rw [hpoint] at hc
      exact ⟨hc.1, Or.inl hc.2⟩
  | _ => rw [hpoint] at hx; cases hx

/-- The callee that is to resume a coroutine under way is under way itself. -/
theorem Placed.callee_under_way (p : s.Placed) (t : s.Told) {x c : FrameId}
    (hx : (s.point x).isUnderWay = true) (ho : (s.runtime.frame x).phase.isOver = false)
    (hc : (s.runtime.frame c).caller = some x) : (s.point c).isUnderWay = true := by
  obtain ⟨b, r⟩ := p.reachable.accounts
  have hfits := r.custodian.fits x
  rw [(r.custodian.owned x c).mpr hc] at hfits
  obtain ⟨-, hsus, haw⟩ := hfits
  have hcx := p.coupled x
  have hstory := t.story x
  have hlive : (s.point c).isLive = true := by
    cases hpoint : s.point x with
    | rest b =>
        rw [hpoint] at hcx
        cases hcx.2 with
        | executes hp => rw [hsus] at hp; cases hp
        | waits k _ hk => rw [hk] at haw; cases haw
        | destroyed hp => rw [ho] at hp; cases hp
    | waiting d k =>
        rw [hpoint] at hcx hstory
        cases hcx.2 with
        | waits _ hk =>
            rw [hk] at haw
            obtain rfl : d = c := Option.some.inj haw
            exact hstory.2.2
        | destroyed hp => rw [ho] at hp; cases hp
    | called | leaving =>
        rw [hpoint] at hcx
        have hrun := hcx.2
        rw [hsus] at hrun
        cases hrun
    | _ => rw [hpoint] at hx; cases hx
  have hcc := p.coupled c
  cases hpoint : s.point c with
  | lazy b =>
      rw [hpoint] at hcc
      rw [hcc.2.1] at hc
      cases hc
  | ended e =>
      rw [hpoint] at hcc
      rw [hcc.2.caller] at hc
      cases hc
  | rest | called | waiting | leaving => rfl
  | _ => rw [hpoint] at hlive; cases hlive

/-- A step of the runtime abandons nobody unless a handler is lost. -/
theorem kept_next (hk : Kept s) (p : s.Placed) (t : s.Told) {a : Action V E}
    (h : s.runtime.Enabled a) (hr : s'.runtime = s.runtime.next a)
    (hx : ∀ x, (s'.point x).isUnderWay = true →
      ((s.runtime.next a).frame x).phase.isOver = false ∨
        (s.point x).isUnderWay = true ∧ a.mover ≠ some x) : Kept s' := by
  obtain ⟨b, r⟩ := p.reachable.accounts
  rw [Kept, hr]
  rcases hk with ⟨k, hl⟩ | hk
  · exact Or.inl ⟨k, r.next_lost h hl⟩
  by_cases hl : ∃ k, ((s.runtime.next a).susp k).Lost
  · exact Or.inl hl
  refine Or.inr fun x hx' => ?_
  rcases hx x hx' with ho | ⟨hu, hm⟩
  · exact ho
  by_contra hover
  obtain ⟨hkind, hphase⟩ := p.under_way hu (hk x hu)
  have hp : ∃ u, (s.runtime.frame x).phase = .running u ∨ (s.runtime.frame x).phase = .resuming u ∨
      (s.runtime.frame x).phase = .suspending u ∨ (s.runtime.frame x).phase = .suspended := by
    cases hph : (s.runtime.frame x).phase <;> simp_all [Phase.isRunning, Phase.isWaiting]
  rcases r.next_abandoned h hkind hm hp (by simpa using hover) with ⟨c, hc, rfl⟩ | hlost
  · -- the callee was destroyed before, and was under way
    have ho := hk c (p.callee_under_way t hu (hk x hu) hc)
    rw [show (s.runtime.frame c).phase = .destroying from h] at ho
    cases ho
  · exact hl hlost

theorem not_over {q : Phase}
    (h : q.isRunning = true ∨ q.isWaiting = true) : q.isOver = false := by
  cases q <;> simp_all [Phase.isRunning, Phase.isWaiting, Phase.isOver]

theorem kept_turn (hk : Kept s) (p : s.Placed) (t : s.Told) {f : FrameId} (h : Turn s f s') :
    Kept s' := by
  obtain ⟨b₀, r⟩ := p.reachable.accounts
  -- who neither moves nor begins was under way before
  have hrest : ∀ {a : Action V E} {x : FrameId}, a.mover = some f ∨ a.mover = none → x ≠ f →
      s'.point x = s.point x → (s'.point x).isUnderWay = true →
      (s.point x).isUnderWay = true ∧ a.mover ≠ some x := by
    intro a x hm hx hsame hu
    refine ⟨hsame ▸ hu, ?_⟩
    rcases hm with hm | hm <;> simp [hm, Ne.symm hx]
  cases h with
  | finish e hf hen =>
      refine kept_next hk p t hen rfl fun x hu => Or.inr ?_
      by_cases hx : x = f
      · simp [hx, Point.isUnderWay] at hu
      · exact hrest (Or.inl rfl) hx (by simp [hx]) hu
  | effect y c hf hin | expired c v hf hin =>
      refine hk.imp_right fun hk x hu => hk x ?_
      by_cases hx : x = f
      · rw [hx, hf]
        rfl
      · simpa [hx] using hu
  | call o c k hf hin hen =>
      refine kept_next hk p t hen rfl fun x hu => Or.inr ⟨?_, by simp [Action.mover]⟩
      by_cases hxc : x = s.runtime.nextFrame
      · simp [Program.call, hxc, Point.isUnderWay] at hu
      · by_cases hx : x = f
        · rw [hx, hf]
          rfl
        · simpa [Program.call, hx, hxc] using hu
  | opens c a hf ha hen =>
      obtain ⟨⟨k, hw, -, -⟩, -, -, hm, -, -⟩ := waits_of_opens (s := s.runtime) ha
      refine kept_next hk p t hen rfl fun x hu => ?_
      by_cases hx : x = f
      · subst hx
        exact Or.inl (not_over (Or.inr hw))
      · exact Or.inr (hrest (Or.inl hm) hx rfl hu)
  | awaitCallee c d k hf hen =>
      obtain ⟨hcp, hcc, hne⟩ := r.custodian.of_call hen
      have hframe := s.runtime.coroAwaitSuspend_frame hcp hcc hne
      refine kept_next hk p t hen rfl fun x hu => ?_
      by_cases hxc : x = c
      · exact Or.inl (by simp [State.next, hframe, hxc, Phase.isOver])
      · by_cases hx : x = f
        · exact Or.inl (by simp [State.next, hframe, hx, hne, Phase.isOver])
        · exact Or.inr (hrest (Or.inl rfl) hx (by simp [awaitCallee, hx, hxc]) hu)
  | takeResult c k v hf hen haw hres =>
      refine kept_next hk p t hen rfl fun x hu => ?_
      by_cases hxc : x = c
      · simp [hxc, Point.isUnderWay] at hu
      · by_cases hx : x = f
        · subst hx
          exact Or.inl (not_over (Or.inl (executes_of_awaitResume r hen).1))
        · exact Or.inr (hrest (Or.inl rfl) hx (by simp [hx, hxc]) hu)
  | destroyCallee c v k hf hin hen =>
      refine kept_next hk p t hen rfl fun x hu => Or.inr ⟨?_, by simp [Action.mover]⟩
      by_cases hx : x = f
      · rw [hx, hf]
        rfl
      · simpa [destroyCallee, hx] using hu
  | takeAnswer c k v hf hb hen | hopped how ex c hf hen =>
      refine kept_next hk p t hen rfl fun x hu => ?_
      by_cases hx : x = f
      · subst hx
        exact Or.inl (not_over (Or.inl (executes_of_awaitResume r hen).1))
      · exact Or.inr (hrest (Or.inl rfl) hx (by simp [hx]) hu)

theorem kept_step (hk : Kept s) (p : s.Placed) (t : s.Told) {m : Step V E L}
    (h : s.Enabled m) : Kept (s.next m) := by
  obtain ⟨b₀, r⟩ := p.reachable.accounts
  cases m with
  | launch a b =>
      have hl := h.1
      refine kept_next hk p t h.2 rfl fun x hu => ?_
      by_cases hx : x = s.runtime.nextFrame
      · left
        cases a with
        | detach | startMain | create => simp [State.next, hx, Phase.isOver]
        | _ => cases hl
      · refine Or.inr ⟨by simpa [Program.next, Program.launch, hx] using hu, ?_⟩
        cases a with
        | detach | startMain | create => simp [Action.mover]
        | _ => cases hl
  | advance f => exact kept_turn hk p t (p.turn h)
  | ready f v => exact kept_turn hk p t (turn_ready h)
  | around a =>
      cases a with
      | startAwait u c =>
          obtain ⟨hcp, hcc, hcn⟩ := r.custodian.of_startAwait h.2
          refine kept_next hk p t h.2 rfl fun x hu => ?_
          by_cases hx : x = c
          · left
            simp [State.next, hx, s.runtime.startAwait_frame hcp hcc hcn, Phase.isOver]
          · exact Or.inr ⟨by simpa [Program.next, hx] using hu, by simp [Action.mover]⟩
      | detach | startMain | create | awaitPromise | awaitDeferred | awaitTimer | awaitAwait
      | awaitDispatch | awaitPost | awaitResume | coReturn => cases h.1
      | _ => exact kept_next hk p t h.2 rfl fun x hu => Or.inr ⟨hu, by simp [Action.mover]⟩

/-- When nothing is being executed and no handler is left, nobody is under way. -/
theorem Placed.settled (p : s.Placed) (hk : Kept s) (hq : Quiescent s.runtime)
    (hl : ∀ k, ¬ (s.runtime.susp k).Lost) (x : FrameId) : (s.point x).isUnderWay = false := by
  obtain ⟨b, r⟩ := p.reachable.accounts
  by_contra hu
  rw [Bool.not_eq_false] at hu
  have ho := hk.resolve_left (fun ⟨k, hk⟩ => hl k hk) x hu
  have hp := (p.under_way hu ho).2
  have hwait := (r.quiet hq).not_waiting r.wf x
  have hfits := r.custodian.fits x
  cases hst : b.status x <;> rw [hst] at hfits hwait <;>
    grind [Frame.Fits, Status.inProgress, Phase.isRunning, Phase.isWaiting, Phase.isFinalizing]

end Program

end WebAsio.Coro.Direct
