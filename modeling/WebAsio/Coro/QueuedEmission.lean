import WebAsio.Asio.CancellationProxy
import WebAsio.Coro.Multicast

set_option autoImplicit false

/-! # Emissions that wait in the queue of an executor

`cancellation_signal::emit(ex, type)` queues a closure with the raw address of the signal,
`multicast_cancellation::emit(ex, type)` one that shares the registry of the group, and the handler
of a `cancellation_proxy` one with a weak pointer. This file puts the three together: signals,
groups and proxies that are made, used and destroyed in any order, while closures wait in any
queues.

Signals of groups are `cancellation_signal`s, too, and can be emitted through by themselves. -/

namespace WebAsio.Coro.QueuedEmission

open Transition Asio

variable {X T : Type}

/-- A `cancellation_signal`: one of its own, or the base of a `multicast_cancellation::signal`. -/
inductive Signal
  | single (n : Nat)
  | member (x : Nat)
  deriving DecidableEq

/-- `cancellation_signal::emit_signal` -/
structure EmitSignal (T : Type) where
  signal : Signal
  type : T
  deriving DecidableEq

/-- The single signals, how many were made and which are alive; the groups and their signals; the
    proxies; and the closures of single emissions. `gone` are the groups destroyed, and `ended` the
    signals of proxies that were reset or destroyed; the program reads neither. -/
structure State (X T : Type) where
  count : Nat
  alive : Nat → Bool
  groups : Multicast.State T
  gone : Nat → Bool
  proxies : CancellationProxy.State X T
  ended : Nat → Bool
  queued : List (EmitSignal T)

inductive Action (X T : Type)
  | construct
  | destroy (n : Nat)
  /-- `emit(ex, type)` of a signal -/
  | emitVia (σ : Signal) (t : T)
  /-- an executor runs the closure at position `n` -/
  | serve (n : Nat)
  | group (a : Multicast.Action T)
  /-- the destructor of a `multicast_cancellation` -/
  | destroyGroup (g : Nat)
  | proxy (a : CancellationProxy.Action X T)

/-- The signal of a proxy comes to its end when the object that holds it is reset or destroyed. -/
def endedBy (s : CancellationProxy.State X T) (ended : Nat → Bool) :
    CancellationProxy.Action X T → Nat → Bool
  | .reset i | .destruct i => (s.slot i).elim ended fun n => Function.update ended n true
  | _ => ended

namespace State

def empty : State X T :=
  ⟨0, fun _ => false, Multicast.State.empty, fun _ => false,
    CancellationProxy.State.empty, fun _ => false, []⟩

/-- The signal was constructed and not destroyed. -/
def Alive (s : State X T) : Signal → Prop
  | .single n => s.alive n = true
  | .member x => ∃ σ ∈ s.groups.signal x, σ.alive = true

instance (s : State X T) (σ : Signal) : Decidable (s.Alive σ) := by
  cases σ <;> unfold Alive <;> infer_instance

/-- The group that a call is made on, a constructor of a signal included. -/
def callee : Multicast.Action T → Option Nat
  | .construct g | .emit g _ _ | .emitVia g _ => some g
  | _ => none

/-- Signals, groups and proxies are used while they exist. -/
def Enabled (s : State X T) : Action X T → Prop
  | .construct => True
  | .destroy n => s.alive n = true
  | .emitVia σ _ => s.Alive σ
  | .serve n => n < s.queued.length
  | .group a => s.groups.Enabled a ∧ ∀ g ∈ callee a, s.gone g = false
  | .destroyGroup g => s.gone g = false
  | .proxy a => s.proxies.Enabled a

variable (grow : Nat → Nat)

/-- What the handler in the slot of an emitting signal does is left to the steps that follow. -/
def next (s : State X T) : Action X T → State X T
  | .construct =>
    { s with count := s.count + 1, alive := Function.update s.alive s.count true }
  | .destroy n => { s with alive := Function.update s.alive n false }
  | .emitVia σ t => { s with queued := s.queued ++ [⟨σ, t⟩] }
  | .serve n => { s with queued := s.queued.eraseIdx n }
  | .group a => { s with groups := s.groups.next grow a }
  | .destroyGroup g => { s with gone := Function.update s.gone g true }
  | .proxy a => { s with proxies := s.proxies.next a, ended := endedBy s.proxies s.ended a }

end State

def machine (grow : Nat → Nat) : System (State X T) (Action X T) :=
  ⟨State.Enabled, State.next grow⟩

namespace State

variable (grow : Nat → Nat)

/-- A closure emits on living signals only: on its own signal, on members of the group that are
    registered when it is run, or on the signal of a proxy that was neither reset nor destroyed, for
    which it does nothing otherwise. -/
def StepOk (s : State X T) : Action X T → Prop
  | .serve n => ∀ k ∈ s.queued[n]?, s.Alive k.signal
  | .group (.serve n script) => ∀ k ∈ s.groups.pending[n]?,
      let r := ((s.groups.take n).serve grow k script).2
      (∀ p ∈ r.hits, s.groups.Live k.group p.1) ∧ r.dead = [] ∧ r.fault = false
  | .proxy (.serve n) => ∀ k ∈ s.proxies.dispatched[n]?,
      s.ended k.weakSignal = true ∨ ¬ s.proxies.Alive k.weakSignal →
        s.proxies.next (.serve n) =
          { s.proxies with dispatched := s.proxies.dispatched.eraseIdx n }
  | _ => True

/-- No signal is destroyed by the step while an emission through it is queued, and the emission of a
    group is steady. -/
def Spares (s : State X T) (a : Action X T) : Prop :=
  (∀ k ∈ s.queued, s.Alive k.signal → (s.next grow a).Alive k.signal) ∧
    match a with
    | .group (.serve n script) => s.groups.EmitsSteadily grow (.serve n script)
    | _ => True

end State

instance (grow : Nat → Nat) (s : State X T) (a : Action X T) :
    Decidable ((machine grow).enabled s a) := by
  unfold machine
  cases a <;> unfold State.Enabled <;> infer_instance

instance (grow : Nat → Nat) (s : State X T) (a : Action X T) : Decidable (s.Spares grow a) :=
  haveI := List.decidableBAll (fun k : EmitSignal T =>
    s.Alive k.signal → (s.next grow a).Alive k.signal) s.queued
  match a with
  | .group (.serve n script) => inferInstanceAs (Decidable
      ((∀ k ∈ s.queued, s.Alive k.signal →
          (s.next grow (.group (.serve n script))).Alive k.signal) ∧
        s.groups.EmitsSteadily grow (.serve n script)))
  | .group (.construct _) | .group (.destroy _) | .group (.emit ..) | .group (.emitVia ..)
  | .construct | .destroy _ | .emitVia .. | .serve _ | .destroyGroup _ | .proxy _ =>
    inferInstanceAs (Decidable ((∀ k ∈ s.queued, _ → _) ∧ True))

/-! ## Proxies that came to their end -/

section Proxies

open CancellationProxy (Proxy)
open CancellationProxy.State (reset_proxy destruct_proxy)

/-- Signals are owned by the objects they were made in or moved to, and none of a proxy that was
    reset or destroyed is. -/
structure Owned (s : CancellationProxy.State X T) (ended : Nat → Bool) : Prop where
  sound : s.Sound
  installed : ∀ i p n, s.proxy i = some p → p.signal = some n → p.installed = some n
  running : ∀ i p n, s.proxy i = some p → p.signal = some n → ended n = false
  made : ∀ n, ended n = true → n < s.signals

theorem Owned.empty : Owned (CancellationProxy.State.empty : CancellationProxy.State X T)
    fun _ => false := by
  refine ⟨CancellationProxy.State.Sound.empty, ?_, fun _ _ _ _ _ => rfl, ?_⟩
  · intro i p n h
    cases h
  · intro n h
    cases h

variable {s s' : CancellationProxy.State X T} {ended : Nat → Bool}

/-- Steps by which no signal of a proxy comes to its end: what owns a signal afterwards owned it
    before, or made it. -/
theorem Owned.keep (h : Owned s ended) (hs' : s'.Sound) (hle : s.signals ≤ s'.signals)
    (hold : ∀ i p n, s'.proxy i = some p → p.signal = some n →
      (∃ j q, s.proxy j = some q ∧ q.signal = some n ∧ q.installed = p.installed) ∨
        n = s.signals ∧ p.installed = some n) : Owned s' ended := by
  refine ⟨hs', fun i p n hi hn => ?_, fun i p n hi hn => ?_, fun n hn =>
    Nat.lt_of_lt_of_le (h.made n hn) hle⟩
  · rcases hold i p n hi hn with ⟨j, q, hj, hq, hin⟩ | ⟨-, hin⟩
    · exact hin ▸ h.installed j q n hj hq
    · exact hin
  · rcases hold i p n hi hn with ⟨j, q, hj, hq, -⟩ | ⟨rfl, -⟩
    · exact h.running j q n hj hq
    · by_contra he
      exact Nat.lt_irrefl _ (h.made _ (by simpa using he))

theorem Owned.same (h : Owned s ended) (hs' : s'.Sound)
    (hsame : CancellationProxy.State.Same s s') : Owned s' ended :=
  h.keep hs' (Nat.le_of_eq hsame.signals.symm) fun i p _ hi hn =>
    Or.inl ⟨i, p, hsame.proxy ▸ hi, hn, rfl⟩

/-- The object `i` gives up its signal, and the others keep theirs. -/
theorem Owned.retire (h : Owned s ended) (hs' : s'.Sound) (hle : s.signals ≤ s'.signals) {i : Nat}
    {p : Proxy X} (hi : s.proxy i = some p)
    (hold : ∀ j q, s'.proxy j = some q → q.signal ≠ none → j ≠ i ∧ s.proxy j = some q) :
    Owned s' (p.signal.elim ended fun n => Function.update ended n true) := by
  cases hp : p.signal with
  | none =>
      refine h.keep hs' hle fun j q n hj hq => ?_
      exact Or.inl ⟨j, q, (hold j q hj (by simp [hq])).2, hq, rfl⟩
  | some m =>
      refine ⟨hs', fun j q n hj hq => h.installed j q n (hold j q hj (by simp [hq])).2 hq,
        fun j q n hj hq => ?_, fun n hn => ?_⟩
      · obtain ⟨hji, hj⟩ := hold j q hj (by simp [hq])
        have hnm : n ≠ m := by
          rintro rfl
          exact hji (h.sound.distinct j i q p n hj hi (h.installed j q n hj hq)
            (h.installed i p n hi hp))
        show Function.update ended m true n = false
        rw [Function.update_of_ne hnm]
        exact h.running j q n hj hq
      · by_cases hnm : n = m
        · subst hnm
          exact Nat.lt_of_lt_of_le (h.sound.numbered i p n hi (h.installed i p n hi hp)) hle
        · have hn' : Function.update ended m true n = true := hn
          rw [Function.update_of_ne hnm] at hn'
          exact Nat.lt_of_lt_of_le (h.made n hn') hle

theorem Owned.step (h : Owned s ended) {a : CancellationProxy.Action X T} (ha : s.Enabled a) :
    Owned (s.next a) (endedBy s ended a) := by
  have hs' := h.sound.step ha
  cases a with
  | construct ex slot =>
      cases slot with
      | none =>
          refine h.keep hs' (Nat.le_refl _) fun i p n hi hn => Or.inl ⟨i, p, ?_, hn, rfl⟩
          have hi' : Function.update s.proxy s.count _ i = some p := hi
          rw [Function.update_apply] at hi'
          split_ifs at hi'
          · cases hi'
            cases hn
          · exact hi'
      | some c =>
          refine h.keep hs' (Nat.le_succ _) fun i p n hi hn => ?_
          have hi' : Function.update s.proxy s.count _ i = some p := hi
          rw [Function.update_apply] at hi'
          split_ifs at hi'
          · cases hi'
            cases hn
            exact Or.inr ⟨rfl, rfl⟩
          · exact Or.inl ⟨i, p, hi', hn, rfl⟩
  | moveConstruct i =>
      obtain ⟨q, hq⟩ := Option.isSome_iff_exists.mp ha
      have hlt := h.sound.made i q hq
      refine h.keep hs' ?_ fun j p n hj hn => Or.inl ?_
      · simp only [CancellationProxy.State.next, CancellationProxy.State.moveConstruct, hq]
        exact Nat.le_refl _
      · simp only [CancellationProxy.State.next, CancellationProxy.State.moveConstruct, hq,
          CancellationProxy.State.setProxy_proxy] at hj
        split_ifs at hj with hji
        · cases hj
          cases hn
        · rw [Function.update_apply] at hj
          split_ifs at hj
          · cases hj
            exact ⟨i, q, hq, hn, rfl⟩
          · exact ⟨j, p, hj, hn, rfl⟩
  | reset i =>
      obtain ⟨q, hq⟩ := Option.isSome_iff_exists.mp ha
      have hslot : s.slot i = q.signal := by rw [CancellationProxy.State.slot, hq]; rfl
      simp only [endedBy, hslot]
      refine h.retire hs' (Nat.le_of_eq (CancellationProxy.State.reset_count hq).2.symm) hq
        fun j p hj hn => ?_
      rw [show (s.next (.reset i)).proxy j = _ from reset_proxy hq j] at hj
      split_ifs at hj with hji
      · cases hj
        exact absurd rfl hn
      · exact ⟨hji, hj⟩
  | destruct i =>
      obtain ⟨q, hq⟩ := Option.isSome_iff_exists.mp ha
      have hslot : s.slot i = q.signal := by rw [CancellationProxy.State.slot, hq]; rfl
      simp only [endedBy, hslot]
      refine h.retire hs' (Nat.le_of_eq (CancellationProxy.State.reset_count hq).2.symm) hq
        fun j p hj _ => ?_
      rw [show (s.next (.destruct i)).proxy j = _ from destruct_proxy hq j] at hj
      split_ifs at hj with hji
      exact ⟨hji, hj⟩
  | bind i k => exact h.same hs' (CancellationProxy.State.bind_same s i k)
  | install c k => exact h.keep hs' (Nat.le_refl _) fun i p n hi hn => Or.inl ⟨i, p, hi, hn, rfl⟩
  | remove c => exact h.keep hs' (Nat.le_refl _) fun i p n hi hn => Or.inl ⟨i, p, hi, hn, rfl⟩
  | emit c t => exact h.same hs' (CancellationProxy.State.emit_same s c t)
  | serve n => exact h.same hs' (CancellationProxy.State.serve_same s n)

/-- A signal of a proxy that came to its end is not alive. -/
theorem Owned.not_alive (h : Owned s ended) {n : Nat} (hn : ended n = true) : ¬ s.Alive n := by
  rintro ⟨i, -, hi⟩
  obtain ⟨p, hp, hsig⟩ := Option.bind_eq_some_iff.mp hi
  exact Bool.false_ne_true ((h.running i p n hp hsig).symm.trans hn)

theorem serve_idle {n : Nat} {k : CancellationProxy.Task X T} (hk : s.dispatched[n]? = some k)
    (h : ¬ s.Alive k.weakSignal) :
    s.next (.serve n) = { s with dispatched := s.dispatched.eraseIdx n } := by
  simp only [CancellationProxy.State.next, hk]
  exact if_neg h

end Proxies

/-! ## Steps -/

/-- A steady emission of a group is received by its living signals and uses no others. -/
theorem serve_living {grow : Nat → Nat} {s : Multicast.State T} (hs : s.Sound) {n : Nat}
    {script : Nat → List Multicast.Op} (h : s.EmitsSteadily grow (.serve n script))
    {k : Multicast.Task T} (hk : s.pending[n]? = some k) :
    (∀ p ∈ ((s.take n).serve grow k script).2.hits, s.Live k.group p.1) ∧
      ((s.take n).serve grow k script).2.dead = [] ∧
      ((s.take n).serve grow k script).2.fault = false := by
  unfold Multicast.State.serve
  split_ifs with hc
  · rw [(h k hk hc).emit grow (hs.take n)]
    refine ⟨fun p hp => ?_, rfl, rfl⟩
    obtain ⟨x, hx, rfl⟩ := List.mem_map.mp hp
    exact (hs.registered.listed k.group x).mp hx
  · exact ⟨fun p hp => absurd hp List.not_mem_nil, rfl, rfl⟩

namespace State

variable {grow : Nat → Nat} {s : State X T}

/-- The invariant of runs that spare the signals with queued emissions. -/
structure Safe (s : State X T) : Prop where
  queued : ∀ k ∈ s.queued, s.Alive k.signal
  groups : s.groups.Sound
  proxies : Owned s.proxies s.ended

theorem Safe.empty : Safe (empty : State X T) := by
  refine ⟨?_, Multicast.State.Sound.empty, Owned.empty⟩
  intro k hk
  cases hk

theorem Safe.stepOk (hs : s.Safe) {a : Action X T} (h : s.Spares grow a) : s.StepOk grow a := by
  cases a with
  | serve n => exact fun k hk => hs.queued k (List.mem_of_getElem? hk)
  | group a =>
      cases a with
      | serve n script => exact fun k hk => serve_living hs.groups h.2 hk
      | construct g | destroy x | emit g t script | emitVia g t => trivial
  | proxy a =>
      cases a with
      | serve n =>
          rintro k hk (he | hdead)
          · exact serve_idle hk (hs.proxies.not_alive he)
          · exact serve_idle hk hdead
      | construct _ _ | moveConstruct i | reset i | destruct i | bind i k | install c k | remove c
      | emit c t => trivial
  | construct | destroy n | emitVia σ t | destroyGroup g => trivial

theorem Safe.next (hs : s.Safe) {a : Action X T} (ha : s.Enabled a) (h : s.Spares grow a) :
    (s.next grow a).Safe := by
  have hqueued : ∀ k ∈ s.queued, (s.next grow a).Alive k.signal := fun k hk =>
    h.1 k hk (hs.queued k hk)
  cases a with
  | emitVia σ t =>
      refine ⟨fun k hk => ?_, hs.groups, hs.proxies⟩
      rcases List.mem_append.mp hk with hk | hk
      · exact hqueued k hk
      · rw [List.mem_singleton.mp hk]
        exact ha
  | serve n =>
      exact ⟨fun k hk => hqueued k (List.mem_of_mem_eraseIdx hk), hs.groups, hs.proxies⟩
  | group a => exact ⟨hqueued, hs.groups.step grow a, hs.proxies⟩
  | proxy a => exact ⟨hqueued, hs.groups, hs.proxies.step ha⟩
  | construct => exact ⟨hqueued, hs.groups, hs.proxies⟩
  | destroy n => exact ⟨hqueued, hs.groups, hs.proxies⟩
  | destroyGroup g => exact ⟨hqueued, hs.groups, hs.proxies⟩

end State

/-- In a run of any signals, groups and proxies where no signal is destroyed while an emission
    through it is queued, and the queued emissions of groups are steady, every closure that is run
    emits on living signals only and does nothing for a signal or a proxy that came to its end, and
    every signal with a queued emission is alive. -/
theorem queued_emission_safe (grow : Nat → Nat) {as : List (Action X T)} {s : State X T}
    (h : Run (machine grow) State.empty as s)
    (hp : Along (machine grow) (State.Spares grow) State.empty as) :
    Along (machine grow) (State.StepOk grow) State.empty as ∧
      ∀ k ∈ s.queued, s.Alive k.signal :=
  ⟨h.along hp State.Safe.empty (fun _ _ hs _ hq => hs.stepOk hq) fun _ _ hs ha hq => hs.next ha hq,
    (h.invariant_of hp State.Safe.empty fun _ _ hs ha hq => hs.next ha hq).queued⟩

/-- A signal, a member of a group and a proxy are emitted through; the member is destroyed, the
    proxy reset, and the group destroyed before the closures are run, the signal after that. -/
theorem queued_emission_safe_late :
    Along (machine (2 * · + 2) : System (State Unit Unit) (Action Unit Unit))
      (State.StepOk (2 * · + 2)) State.empty
      [.construct, .emitVia (.single 0) (), .group (.construct 0), .group (.construct 0),
        .group (.emitVia 0 ()), .group (.destroy 0), .destroyGroup 0,
        .group (.serve 0 fun _ => []), .proxy (.construct () (some 0)), .proxy (.emit 0 ()),
        .proxy (.reset 0), .proxy (.serve 0), .serve 0, .destroy 0] :=
  (queued_emission_safe _ (.of_legal (by decide)) (by decide)).1

/-- A signal is destroyed while an emission through it is queued. -/
theorem queued_emission_dangles :
    Run (machine (2 * · + 2) : System (State Unit Unit) (Action Unit Unit)) State.empty
        [.construct, .emitVia (.single 0) (), .destroy 0, .serve 0]
        ((machine (2 * · + 2)).exec State.empty
          [.construct, .emitVia (.single 0) (), .destroy 0, .serve 0]) ∧
      ¬ Along (machine (2 * · + 2) : System (State Unit Unit) (Action Unit Unit))
        (State.StepOk (2 * · + 2)) State.empty
        [.construct, .emitVia (.single 0) (), .destroy 0, .serve 0] := by
  refine ⟨.of_legal (by decide), fun h => ?_⟩
  have halive : ((machine (2 * · + 2) : System (State Unit Unit) (Action Unit Unit)).exec
      State.empty [.construct, .emitVia (.single 0) (), .destroy 0]).Alive (.single 0) :=
    h.2.2.2.1 ⟨.single 0, ()⟩ rfl
  revert halive
  decide

end WebAsio.Coro.QueuedEmission
