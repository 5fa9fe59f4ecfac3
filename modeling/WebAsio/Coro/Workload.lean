import WebAsio.Coro.OwnerSafety
import WebAsio.Coro.Undisturbed

set_option autoImplicit false

/-! # The work left in the runtime

What the runtime does between the moves of the bodies comes to an end: each exchange, completion and
destruction is one that is not made again. `State.workload` counts those still to come, so that all
of these steps lower it, and the moves of the bodies alone may raise it. -/

namespace WebAsio.Coro

open Custody State

variable {V E : Type}

/-! ## The count -/

/-- A frame that is executed may yet hand one suspension to Boost.Asio before it is suspended. -/
def Phase.workload : Phase → ℕ
  | .unborn | .destroyed => 0
  | .destroying | .resuming _ => 1
  | .suspended | .parked => 2
  | .suspending _ | .finalizing _ => 3
  | .running _ => 10
  | .initial => 11

def AwaitSide.workload : AwaitSide → ℕ
  | .initiating _ => 3
  | .exchanging _ => 2
  | .left => 0

/-- The trampoline that holds a handler is going to be executed. -/
def HandlerStage.workload : HandlerStage → ℕ
  | .asio => 3
  | .held _ => 12
  | .invoked _ => 2
  | .claimed _ | .dropping => 1
  | .gone => 0

def Suspension.workload (r : Suspension V E) : ℕ := r.side.workload + r.stage.workload

def State.workload (s : State V E) : ℕ :=
  (∑ x ∈ Finset.range s.nextFrame, (s.frame x).phase.workload) +
    (∑ k ∈ Finset.range s.nextSusp, (s.susp k).workload) + s.stack.length

/-- The step is one of a thread on its way between the bodies: an exchange, a completion, what a
    trampoline or a destructor does. -/
def Action.isTransit : Action V E → Bool
  | .discard _ | .initiationThrows .. | .initiationReturns .. | .resumeAwaiting ..
  | .finalResumeAwaiting .. | .setValue .. | .dispatchEnter .. | .plainResume ..
  | .resumeCompleted .. | .handlerResume .. | .drop _ | .trampolineInvoke .. | .trampolineReturn ..
  | .destroy _ | .unwind _ => true
  | _ => false

/-! ## What the parts have left -/

/-- A frame has less left after each change of its phase, but for the return from a `co_await`. -/
theorem Phase.Next.workload_le {p q : Phase} (h : p.Next q)
    (hr : p.isResuming = true → q.isRunning = false) : q.workload ≤ p.workload := by
  cases h <;> simp_all [Phase.workload, Phase.isResuming, Phase.isRunning]
  case destroy hp => rcases hp with rfl | rfl | rfl <;> simp

/-- Every step of the protocol leaves less of a suspension. -/
theorem Suspension.Step.workload_lt {r r' : Suspension V E} (h : r.Step r') :
    r'.workload < r.workload := by
  cases h with
  | completes t hs =>
      simp only [workload, hs, HandlerStage.workload]
      split_ifs <;> simp
  | sets v t hs =>
      rcases hs with ⟨hs, -⟩ | ⟨⟨b, hs⟩, -⟩ <;> simp [workload, hs, HandlerStage.workload]
  | drops hs | dropsLate hs | dropsPlain hs | dropsCallback hs =>
      rcases hs with hs | hs <;> simp [workload, endBy, hs, HandlerStage.workload]
  | throws e hs | awaits hs | eager hs | abandons hs | returns m o hs =>
      rw [workload, workload, hs]
      simp [endBy, AwaitSide.workload]
  | enters ex hk hs | plain hk hs =>
      simp [workload, endBy, hs, HandlerStage.workload]
  | resumes t hs | ownerLost t hs | calls b v hs | condemns b hs =>
      simp [workload, endBy, hs, HandlerStage.workload]

/-- What a suspension is left with that begins in a body. -/
theorem Suspension.Begins.workload_le {r : Suspension V E} (h : r.Begins)
    (hh : ∀ b, r.stage ≠ .held b) : r.workload ≤ 6 := by
  cases h with
  | bridged f b o => exact absurd rfl (hh b)
  | callback b => exact absurd rfl (hh b)
  | dispatch k f g ex t hk =>
      unfold State.dispatchContext
      split_ifs <;> simp [workload, AwaitSide.workload, HandlerStage.workload]
  | _ => simp [workload, AwaitSide.workload, HandlerStage.workload]

/-- A sum where one summand makes good for what it may gain otherwise. -/
theorem sum_range_add_le {n i d e : ℕ} {f g : ℕ → ℕ} (hi : i < n) (hg : g i + d ≤ f i + e)
    (hle : ∀ x < n, x ≠ i → g x ≤ f x) :
    (∑ x ∈ Finset.range n, g x) + d ≤ (∑ x ∈ Finset.range n, f x) + e := by
  have hmem : i ∈ Finset.range n := Finset.mem_range.mpr hi
  rw [← Finset.add_sum_erase _ g hmem, ← Finset.add_sum_erase _ f hmem]
  have hrest : ∑ x ∈ (Finset.range n).erase i, g x ≤ ∑ x ∈ (Finset.range n).erase i, f x :=
    Finset.sum_le_sum fun x hx =>
      hle x (Finset.mem_range.mp (Finset.mem_of_mem_erase hx)) (Finset.ne_of_mem_erase hx)
  omega

/-! ## Transit steps -/

namespace State

/-- Nothing is made in transit. -/
theorem next_counts {s : State V E} {a : Action V E} (ha : a.isTransit = true) :
    (s.next a).nextFrame = s.nextFrame ∧ (s.next a).nextSusp = s.nextSusp := by
  cases a <;> simp only [next]
  case resumeAwaiting f k =>
    simp only [State.resumeAwaiting]
    split_ifs <;> simp
  case finalResumeAwaiting c k =>
    simp only [State.finalResumeAwaiting]
    split_ifs <;> simp
  case handlerResume k t =>
    simp only [State.handlerResume]
    split_ifs <;> simp
  case drop k =>
    simp only [handlerDrop]
    split_ifs <;> simp
  case trampolineInvoke x c k =>
    simp only [State.trampolineInvoke]
    split <;> simp [completionSetValue]
  case unwind o => simp
  case discard | initiationThrows | initiationReturns | setValue | dispatchEnter | plainResume
  | resumeCompleted | trampolineReturn | destroy =>
    simp [completionSetValue, State.initiationThrows, State.initiationReturns,
      State.dispatchEnter, State.plainResume, State.resumeCompleted, State.trampolineReturn]
  all_goals cases ha

theorem isRunning_of_resume {s s' : State V E} {f x : FrameId} {t : Site}
    (hp : (s'.frame x).phase = (s.frame x).phase)
    (h : ((s'.resume f t).frame x).phase.isRunning = true) :
    (s.frame x).phase.isRunning = true ∨ (s.frame x).phase = .initial := by
  rw [resume_frame] at h
  split_ifs at h with hx
  · subst hx
    simp only [hp] at h
    cases hs : (s.frame x).phase <;> simp_all [Phase.afterResume, Phase.isRunning]
  · exact Or.inl (hp ▸ h)

theorem isRunning_of_destroyHandle {s s' : State V E} {f x : FrameId}
    (hp : (s'.frame x).phase = (s.frame x).phase)
    (h : ((s'.destroyHandle f).frame x).phase.isRunning = true) :
    (s.frame x).phase.isRunning = true := by
  rw [destroyHandle_frame] at h
  split_ifs at h with hx
  · subst hx
    simp only [hp] at h
    cases hs : (s.frame x).phase <;> simp_all [Phase.afterDestroy, Phase.isRunning]
  · exact hp ▸ h

/-- No suspension gets more to do, and one that takes a step gets less. -/
theorem susp_workload {s : State V E} {a : Action V E} (h : s.Enabled a) {k : SuspId}
    (hk : k < s.nextSusp) : (s.next a).susp k = s.susp k ∨
      ((s.next a).susp k).workload < (s.susp k).workload := by
  rcases next_susp h k with hsame | hstep | ⟨rfl, -⟩
  · exact Or.inl hsame
  · exact Or.inr hstep.workload_lt
  · exact absurd hk (Nat.lt_irrefl _)

theorem susp_workload_le {s : State V E} {a : Action V E} (h : s.Enabled a) {k : SuspId}
    (hk : k < s.nextSusp) : ((s.next a).susp k).workload ≤ (s.susp k).workload := by
  rcases susp_workload h hk with hsame | hlt
  · rw [hsame]
  · exact Nat.le_of_lt hlt

end State

namespace Accounts

variable {s : State V E} {b : Book FrameId SuspId}

/-- In transit only a trampoline begins to run. -/
theorem isRunning_of_transit (r : Accounts s b) {a : Action V E} (hen : s.Enabled a)
    (ha : a.isTransit = true) {x : FrameId} (hi : ∀ c k, a ≠ .trampolineInvoke x c k)
    (h : ((s.next a).frame x).phase.isRunning = true) :
    (s.frame x).phase.isRunning = true ∨ (s.frame x).phase = .initial := by
  cases a <;> simp only [next] at h
  case discard c => exact Or.inl (isRunning_of_destroyHandle rfl h)
  case plainResume k ex => exact isRunning_of_resume (by simp) h
  case resumeAwaiting f k =>
    left
    simp only [State.resumeAwaiting] at h
    split_ifs at h <;> by_cases hx : x = f <;>
      simp_all [Phase.isRunning, Phase.afterDestroy, destroyHandle_frame]
  case finalResumeAwaiting c k =>
    simp only [State.finalResumeAwaiting] at h
    by_cases hx : x = c
    · exfalso
      split_ifs at h
      · rw [resume_frame] at h
        split_ifs at h <;> simp_all [Phase.isRunning, Phase.afterResume]
      · rw [destroyHandle_frame] at h
        split_ifs at h <;> simp_all [Phase.isRunning, Phase.afterDestroy]
      · simp [hx, Phase.isRunning] at h
    · split_ifs at h
      · exact isRunning_of_resume (by simp [hx]) h
      · exact Or.inl (isRunning_of_destroyHandle (by simp [hx]) h)
      · simpa [hx] using Or.inl h
  case handlerResume k t =>
    simp only [State.handlerResume] at h
    split_ifs at h
    · refine isRunning_of_resume ?_ h
      simp only [endBy_frame, modFrame_frame]
      split <;> simp_all
    · refine Or.inl (isRunning_of_destroyHandle ?_ h)
      simp only [endBy_frame, modSusp_frame, modFrame_frame]
      split <;> simp_all
    · exact isRunning_of_resume (by simp) h
  case drop k =>
    left
    simp only [handlerDrop] at h
    split_ifs at h
    · exact isRunning_of_destroyHandle (by simp) h
    · simpa using h
    · exact h
    · exact isRunning_of_destroyHandle (by simp) h
  case trampolineInvoke y c k =>
    have hx : x ≠ y := by
      rintro rfl
      exact hi c k rfl
    left
    simp only [State.trampolineInvoke] at h
    split at h <;> simpa [completionSetValue, hx] using h
  case trampolineReturn y c k =>
    left
    by_cases hx : x = y
    · simp [State.trampolineReturn, hx, Phase.isRunning] at h
    · simp only [State.trampolineReturn, modFrame_frame, hx, if_false] at h
      exact isRunning_of_destroyHandle rfl h
  case destroy f =>
    left
    rw [s.destroyFrame_frame (r.custodian.caller_ne hen)] at h
    split_ifs at h
    · cases h
    · cases hs : (s.frame x).phase <;> simp_all [Phase.afterDestroy, Phase.isRunning]
    · exact h
  case unwind o => exact Or.inl h
  case initiationThrows f k e =>
    left
    by_cases hx : x = f <;> simp_all [State.initiationThrows, Phase.isRunning]
  case initiationReturns f k =>
    left
    by_cases hx : x = f <;> simp_all [State.initiationReturns]
  case setValue | dispatchEnter | resumeCompleted =>
    exact Or.inl (by simpa [completionSetValue, State.dispatchEnter, State.resumeCompleted] using h)
  all_goals cases ha

/-- In transit no frame gets more to do, but for a trampoline that begins to run. -/
theorem phase_workload_le (r : Accounts s b) {a : Action V E} (h : s.Enabled a)
    (ha : a.isTransit = true) {x : FrameId} (hi : ∀ c k, a ≠ .trampolineInvoke x c k)
    (hx : x < s.nextFrame) :
    ((s.next a).frame x).phase.workload ≤ (s.frame x).phase.workload := by
  refine (r.next_phase h (Nat.ne_of_lt hx)).workload_le fun hp => ?_
  by_contra hrun
  rw [Bool.not_eq_false] at hrun
  rcases r.isRunning_of_transit h ha hi hrun with hold | hold <;>
    cases hs : (s.frame x).phase <;> simp_all [Phase.isRunning, Phase.isResuming]

/-- A suspension that is not over was made. -/
theorem lt_of_isOpen (r : Accounts s b) {k : SuspId} (ho : (s.susp k).isOpen = true) :
    k < s.nextSusp := by
  by_contra hn
  rw [r.custodian.newSusp k (Nat.le_of_not_lt hn)] at ho
  cases ho

end Accounts

/-- The suspension on which a transit step is taken. -/
def Action.onSusp : Action V E → Option SuspId
  | .initiationThrows _ k _ | .initiationReturns _ k | .resumeAwaiting _ k
  | .finalResumeAwaiting _ k | .setValue k _ _ | .dispatchEnter k _ | .plainResume k _
  | .resumeCompleted k _ | .handlerResume k _ | .drop k | .trampolineInvoke _ _ k => some k
  | _ => none

namespace Accounts

variable {s : State V E} {b : Book FrameId SuspId}

/-- A step on a suspension takes one that is not over, and changes it. -/
theorem onSusp_changes {a : Action V E} (h : s.Enabled a) {k : SuspId} (hk : a.onSusp = some k) :
    (s.susp k).isOpen = true ∧ (s.next a).susp k ≠ s.susp k := by
  cases a <;> cases hk <;> simp only [Enabled] at h <;> simp only [next]
  case initiationThrows f e =>
    refine ⟨by simp [Suspension.isOpen, h.2.2.1], fun he => ?_⟩
    simpa [State.initiationThrows, h.2.2.1, Suspension.endBy] using congrArg Suspension.side he
  case initiationReturns f =>
    refine ⟨by rcases h.2.2 with hm | hm <;> simp [Suspension.isOpen, hm], fun he => ?_⟩
    have hs := congrArg Suspension.side he
    rcases h.2.2 with hm | hm <;> simp [State.initiationReturns, hm] at hs
  case resumeAwaiting f =>
    obtain ⟨o, hside⟩ : ∃ o, (s.susp k).side = .exchanging o := ⟨_, h.2.2⟩
    refine ⟨by simp [Suspension.isOpen, hside], fun he => ?_⟩
    have hs := congrArg Suspension.side he
    rw [hside] at hs
    simp only [State.resumeAwaiting] at hs
    split_ifs at hs <;> simp [Suspension.endBy] at hs
  case finalResumeAwaiting c =>
    obtain ⟨o, hside⟩ : ∃ o, (s.susp k).side = .exchanging o := ⟨_, h.2.2⟩
    refine ⟨by simp [Suspension.isOpen, hside], fun he => ?_⟩
    have hs := congrArg Suspension.side he
    rw [hside] at hs
    simp only [State.finalResumeAwaiting] at hs
    split_ifs at hs <;> simp [Suspension.endBy] at hs
  case setValue t v =>
    refine ⟨by simp [Suspension.isOpen, h.1], fun he => ?_⟩
    simpa [completionSetValue, h.1] using congrArg Suspension.stage he
  case dispatchEnter ex =>
    refine ⟨by simp [Suspension.isOpen, h.1], fun he => ?_⟩
    simpa [State.dispatchEnter, h.1] using congrArg Suspension.stage he
  case plainResume ex =>
    refine ⟨by simp [Suspension.isOpen, h.1], fun he => ?_⟩
    simpa [State.plainResume, h.1, Suspension.endBy] using congrArg Suspension.stage he
  case resumeCompleted t =>
    refine ⟨by simp [Suspension.isOpen, h], fun he => ?_⟩
    have hs := congrArg Suspension.stage he
    simp only [State.resumeCompleted, modSusp_susp, if_true, h] at hs
    split_ifs at hs
  case handlerResume t =>
    refine ⟨by simp [Suspension.isOpen, h], fun he => ?_⟩
    have hs := congrArg Suspension.stage he
    simp only [State.handlerResume] at hs
    split_ifs at hs <;> simp [Suspension.endBy, h] at hs
  case drop =>
    refine ⟨by rcases h with h | h <;> simp [Suspension.isOpen, h], fun he => ?_⟩
    have hs := congrArg Suspension.stage he
    simp only [handlerDrop] at hs
    rcases h with h | h <;> split_ifs at hs <;> simp [Suspension.endBy, h] at hs
  case trampolineInvoke x c =>
    refine ⟨by simp [Suspension.isOpen, h.2.2], fun he => ?_⟩
    have hs := congrArg Suspension.stage he
    simp only [State.trampolineInvoke] at hs
    split_ifs at hs <;> simp [completionSetValue, h.2.2] at hs

/-- In transit the suspensions have no more left together, and a step on one of them pays. -/
theorem susps_workload_le (r : Accounts s b) {a : Action V E} (h : s.Enabled a) {k : SuspId}
    (hk : a.onSusp = some k) {d : ℕ}
    (hd : ((s.next a).susp k).workload + d ≤ (s.susp k).workload) :
    (∑ k ∈ Finset.range s.nextSusp, ((s.next a).susp k).workload) + d ≤
      ∑ k ∈ Finset.range s.nextSusp, (s.susp k).workload :=
  sum_range_add_le (e := 0) (r.lt_of_isOpen (onSusp_changes h hk).1) hd
    fun _ hx _ => susp_workload_le h hx

/-- Transit that leaves the stacks alone and starts no trampoline lowers the workload when a frame
    or a suspension has less to do. -/
theorem plain_transit_lt (r : Accounts s b) {a : Action V E} (h : s.Enabled a)
    (ha : a.isTransit = true) (hi : ∀ x c k, a ≠ .trampolineInvoke x c k)
    (hstack : (s.next a).stack = s.stack)
    (hlt : (∃ x < s.nextFrame, ((s.next a).frame x).phase.workload < (s.frame x).phase.workload) ∨
      ∃ k, a.onSusp = some k) : (s.next a).workload < s.workload := by
  obtain ⟨hnf, hns⟩ := next_counts (s := s) ha
  have hphase : ∀ x < s.nextFrame,
      ((s.next a).frame x).phase.workload ≤ (s.frame x).phase.workload :=
    fun x hx => r.phase_workload_le h ha (hi x) hx
  have hframes : ∑ x ∈ Finset.range s.nextFrame, ((s.next a).frame x).phase.workload ≤
      ∑ x ∈ Finset.range s.nextFrame, (s.frame x).phase.workload :=
    Finset.sum_le_sum fun x hx => hphase x (Finset.mem_range.mp hx)
  have hsusps : ∑ k ∈ Finset.range s.nextSusp, ((s.next a).susp k).workload ≤
      ∑ k ∈ Finset.range s.nextSusp, (s.susp k).workload :=
    Finset.sum_le_sum fun k hk => susp_workload_le h (Finset.mem_range.mp hk)
  rw [workload, workload, hnf, hns, hstack]
  rcases hlt with ⟨x, hx, hlt⟩ | ⟨k, hk⟩
  · have hpay := sum_range_add_le (d := 1) (e := 0) hx hlt fun y hy _ => hphase y hy
    omega
  · obtain ⟨ho, hne⟩ := onSusp_changes h hk
    have hpay := r.susps_workload_le h hk (d := 1)
      ((susp_workload h (r.lt_of_isOpen ho)).resolve_left hne)
    omega

/-- The awaiting side leaves at most one reference on the stack. -/
theorem resumeAwaiting_workload_lt (r : Accounts s b) {f : FrameId} {k : SuspId}
    (h : s.Enabled (.resumeAwaiting f k)) :
    (s.next (.resumeAwaiting f k)).workload < s.workload := by
  obtain ⟨hnf, hns⟩ := next_counts (s := s) (a := .resumeAwaiting f k) rfl
  have hframes : ∑ x ∈ Finset.range s.nextFrame,
      ((s.next (.resumeAwaiting f k)).frame x).phase.workload ≤
        ∑ x ∈ Finset.range s.nextFrame, (s.frame x).phase.workload :=
    Finset.sum_le_sum fun x hx => r.phase_workload_le h rfl (by simp) (Finset.mem_range.mp hx)
  have hpay := r.susps_workload_le h (k := k) rfl (d := 2) (by
    have hside := h.2.2
    rw [Suspension.workload, Suspension.workload, hside]
    simp only [next, State.resumeAwaiting]
    split_ifs <;> simp [Suspension.endBy, AwaitSide.workload] <;> omega)
  have hstack : (s.next (.resumeAwaiting f k)).stack.length ≤ s.stack.length + 1 := by
    simp only [next, State.resumeAwaiting]
    split_ifs
    · simp
    all_goals cases (s.susp k).side.saved <;> simp [leave]
  rw [workload, workload, hnf, hns]
  omega

/-- The handler that a trampoline invokes makes good for its execution. -/
theorem trampolineInvoke_workload_lt (r : Accounts s b) {x c : FrameId} {k : SuspId}
    (h : s.Enabled (.trampolineInvoke x c k)) :
    (s.next (.trampolineInvoke x c k)).workload < s.workload := by
  obtain ⟨hnf, hns⟩ := next_counts (s := s) (a := .trampolineInvoke x c k) rfl
  obtain ⟨t, ht⟩ := Phase.isResuming_iff.mp h.1
  have hx : x < s.nextFrame := r.custodian.lt_of_started (by
    simp [r.custodian.active_of_running (Or.inr h.1)])
  have hframes := sum_range_add_le (d := 0) (e := 9) hx
    (g := fun y => ((s.next (.trampolineInvoke x c k)).frame y).phase.workload)
    (f := fun y => (s.frame y).phase.workload)
    (by simp only [next, State.trampolineInvoke]; split <;>
          simp [completionSetValue, ht, Phase.workload])
    fun y hy hyx => r.phase_workload_le h rfl (by simp [Ne.symm hyx]) hy
  have hpay := r.susps_workload_le h (k := k) rfl (d := 10) (by
    rw [Suspension.workload, Suspension.workload, h.2.2]
    simp only [next, State.trampolineInvoke]
    split <;> simp [completionSetValue, HandlerStage.workload])
  have hstack : (s.next (.trampolineInvoke x c k)).stack = s.stack :=
    (next_roots (by simp) (by simp) (by simp) (by simp)).2
  rw [workload, workload, hnf, hns, hstack]
  omega

/-- **Transit comes to an end**: every step between the moves of the bodies leaves less to do. -/
theorem transit_workload_lt (r : Accounts s b) {a : Action V E} (h : s.Enabled a)
    (ha : a.isTransit = true) : (s.next a).workload < s.workload := by
  have hborn : ∀ {x : FrameId}, (s.frame x).phase ≠ .unborn → x < s.nextFrame := by
    intro x hx
    by_contra hn
    rw [r.custodian.unborn_frame (Nat.le_of_not_lt hn)] at hx
    exact hx rfl
  cases a with
  | resumeAwaiting f k => exact r.resumeAwaiting_workload_lt h
  | trampolineInvoke x c k => exact r.trampolineInvoke_workload_lt h
  | unwind o =>
      have hlen := List.length_erase_add_one (a := o) (l := s.stack) h
      simp only [next, workload]
      omega
  | discard c =>
      obtain ⟨-, hp, -⟩ := r.custodian.of_isFresh h
      refine r.plain_transit_lt h ha (by simp)
        (next_roots (by simp) (by simp) (by simp) (by simp)).2
        (Or.inl ⟨c, hborn (by simp [hp]), ?_⟩)
      simp [next, destroyHandle_frame, hp, Phase.afterDestroy, Phase.workload]
  | destroy f =>
      have hp : (s.frame f).phase = .destroying := h
      refine r.plain_transit_lt h ha (by simp)
        (next_roots (by simp) (by simp) (by simp) (by simp)).2
        (Or.inl ⟨f, hborn (by simp [hp]), ?_⟩)
      simp [next, s.destroyFrame_frame (r.custodian.caller_ne h), hp, Phase.workload]
  | trampolineReturn x c k =>
      obtain ⟨t, ht⟩ := Phase.isRunning_iff.mp h.1
      refine r.plain_transit_lt h ha (by simp)
        (next_roots (by simp) (by simp) (by simp) (by simp)).2
        (Or.inl ⟨x, hborn (by simp [ht]), ?_⟩)
      simp [next, State.trampolineReturn, ht, Phase.workload]
  | initiationThrows | initiationReturns | finalResumeAwaiting | setValue | dispatchEnter
  | plainResume | resumeCompleted | handlerResume | drop =>
      exact r.plain_transit_lt h ha (by simp)
        (next_roots (by simp) (by simp) (by simp) (by simp)).2 (Or.inr ⟨_, rfl⟩)
  | _ => cases ha

end Accounts

/-! ## What a body hands over -/

/-- A body that hands one suspension over and leaves its thread has less to do than it had. -/
theorem State.workload_lt_of_hands {s s' : State V E} {f : FrameId} {r : Suspension V E}
    (hf : f < s.nextFrame) (hp : (s.frame f).phase.isRunning = true)
    (hphase : (s'.frame f).phase.workload ≤ 3)
    (hother : ∀ x, x ≠ f → (s'.frame x).phase = (s.frame x).phase)
    (hbegins : r.Begins) (hheld : ∀ b, r.stage ≠ .held b) (hr : s'.susp s.nextSusp = r)
    (hsusp : ∀ k, k ≠ s.nextSusp → s'.susp k = s.susp k) (hnf : s'.nextFrame = s.nextFrame)
    (hns : s'.nextSusp = s.nextSusp + 1) (hstack : s'.stack = s.stack) :
    s'.workload < s.workload := by
  obtain ⟨t, ht⟩ := Phase.isRunning_iff.mp hp
  have hframes := sum_range_add_le (d := 7) (e := 0) hf
    (g := fun x => (s'.frame x).phase.workload) (f := fun x => (s.frame x).phase.workload)
    (by rw [ht]; exact Nat.add_le_add_right hphase 7) fun x _ hx => by rw [hother x hx]
  have hsusps : ∑ k ∈ Finset.range s.nextSusp, (s'.susp k).workload =
      ∑ k ∈ Finset.range s.nextSusp, (s.susp k).workload :=
    Finset.sum_congr rfl fun k hk => by rw [hsusp k (Nat.ne_of_lt (Finset.mem_range.mp hk))]
  have hnew := hbegins.workload_le hheld
  rw [workload, workload, hnf, hns, hstack, Finset.sum_range_succ, hr, hsusps]
  omega

/-- The actions by which a body hands an operation or a hop over. -/
def Action.handsOver : Action V E → Option FrameId
  | .awaitDeferred f | .awaitTimer f | .awaitDispatch f _ | .awaitPost f _ => some f
  | _ => none

theorem Accounts.handsOver_workload_lt {s : State V E} {b : Book FrameId SuspId}
    (r : Accounts s b) {a : Action V E} {f : FrameId} (h : s.Enabled a)
    (ha : a.handsOver = some f) : (s.next a).workload < s.workload := by
  have hin : s.inBody f = true := by cases a <;> cases ha <;> exact h
  obtain ⟨hf, -, -, t, ht⟩ := r.custodian.of_inBody hin
  have hlt := r.custodian.lt_of_started (f := f) (by simp [hf])
  have hrun : (s.frame f).phase.isRunning = true := by rw [ht]; rfl
  cases a <;> cases ha
  case awaitDeferred =>
    refine State.workload_lt_of_hands hlt hrun ?_ (fun x hx => ?_)
      (.completion f .deferred (s.frame f).sharedThis true rfl) (by simp) ?_ (fun k hk => ?_) ?_ ?_
      ?_ <;> simp_all [next, completionAwaitSuspend, Phase.workload]
  case awaitTimer =>
    refine State.workload_lt_of_hands hlt hrun ?_ (fun x hx => ?_)
      (.completion f .timer (s.frame f).sharedThis false rfl) (by simp) ?_ (fun k hk => ?_) ?_ ?_
      ?_ <;> simp_all [next, completionAwaitSuspend, Phase.workload]
  case awaitDispatch ex =>
    refine State.workload_lt_of_hands hlt hrun ?_ (fun x hx => ?_)
      (.dispatch .dispatch f f ex.executor t (.inl rfl)) (by simp) ?_ (fun k hk => ?_) ?_ ?_
      ?_ <;> simp_all [next, dispatchAwaitSuspend, Phase.workload, Phase.site]
  case awaitPost ex =>
    refine State.workload_lt_of_hands hlt hrun ?_ (fun x hx => ?_)
      (.plain .post f f ex.executor (.inl rfl)) (by simp) ?_ (fun k hk => ?_) ?_ ?_
      ?_ <;> simp_all [next, postAwaitSuspend, Phase.workload]

end WebAsio.Coro
