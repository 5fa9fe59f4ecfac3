import Mathlib.SetTheory.Ordinal.Family
import WebAsio.Coro.Refinement
import WebAsio.Coro.Workload
import WebAsio.Library.Termination

set_option autoImplicit false

/-! # Programs do not run in circles

The bodies of coroutines are finite, and what the runtime does between their moves is, too. A body
is ranked by an ordinal, since what follows a `co_await` depends on its result; the ranks of all
coroutines form a multiset, in which a call trades one rank for two lower ones. Steps that move no
body lower the workload of the runtime. So no schedule goes on forever. -/

namespace WebAsio.Coro.Direct

open Custody State Weights

variable {V E L : Type}

/-! ## Ranks -/

/-- What is left of a body at most. -/
noncomputable def Body.rank : Body V E L → Ordinal.{0}
  | .finish _ => 1
  | .effect _ b | .hop _ _ b => b.rank + 1
  | .call _ c k => max c.rank (⨆ r, (k r).rank) + 4
  | .deferred k | .sleep k => (⨆ r, (k r).rank) + 1

/-- What is left of a coroutine at most. Awaiting the promise, taking its result and destroying its
    frame are moves of their own. -/
noncomputable def Point.rank : Point V E L → Ordinal.{0}
  | .lazy b | .temporary b => b.rank + 1
  | .rest b => b.rank
  | .called _ _ k => (⨆ r, (k r).rank) + 3
  | .waiting _ k => (⨆ r, (k r).rank) + 2
  | .leaving _ _ k => (⨆ r, (k r).rank) + 1
  | .absent | .ended _ | .reaped | .aborted => 0

theorem rank_le_iSup (k : Except E V → Body V E L) (r : Except E V) :
    (k r).rank ≤ ⨆ r, (k r).rank := Ordinal.le_iSup (fun r => (k r).rank) r

/-- A body that ranks no higher, with fewer moves to come. -/
theorem add_lt_add_moves {a b : Ordinal.{0}} {m n : ℕ} (h : a ≤ b) (hmn : m < n) :
    a + m < b + n :=
  add_lt_add_of_le_of_lt h (Nat.cast_lt.mpr hmn)

/-- A call trades a body for what follows the call and the body that is called. -/
theorem rank_call (o : Option OwnerId) (c : Body V E L) (k : Except E V → Body V E L)
    (x : FrameId) : (Point.called x c k).rank < (Point.rest (.call o c k)).rank ∧
      (Point.temporary c).rank < (Point.rest (.call o c k)).rank := by
  constructor
  · exact add_lt_add_moves (m := 3) (n := 4) (le_max_right _ _) (by decide)
  · simpa [Point.rank, Body.rank] using
      add_lt_add_moves (m := 1) (n := 4) (le_max_left c.rank _) (by decide)

section Moves

variable (c : FrameId) (b : Body V E L) (k : Except E V → Body V E L) (r : Except E V)

theorem rank_waiting : (Point.waiting c k).rank < (Point.called c b k).rank :=
  add_lt_add_moves (m := 2) (n := 3) (le_refl _) (by decide)

theorem rank_leaving : (Point.leaving c r k).rank < (Point.waiting c k).rank := by
  simp [Point.rank]

theorem rank_leaves : (Point.rest (k r)).rank < (Point.leaving c r k).rank :=
  Order.lt_succ_of_le (rank_le_iSup k r)

end Moves

theorem rank_answer {b : Body V E L} {k : Except E V → Body V E L}
    (hb : b = .deferred k ∨ b = .sleep k) (r : Except E V) :
    (Point.rest (k r)).rank < (Point.rest b).rank := by
  rcases hb with rfl | rfl <;>
    simpa [Point.rank, Body.rank] using Order.lt_succ_of_le (rank_le_iSup k r)

/-- Bodies and what is left to do between their moves, in this order. -/
def Less : Multiset Ordinal.{0} × ℕ → Multiset Ordinal.{0} × ℕ → Prop :=
  Prod.Lex Multiset.IsDershowitzMannaLT (· < ·)

theorem less_wf : WellFounded Less :=
  Multiset.wellFounded_isDershowitzMannaLT.prod_lex Nat.lt_wfRel.wf

namespace Program

noncomputable def rank (s : Program V E L) : Multiset Ordinal.{0} × ℕ :=
  (weights s.runtime.nextFrame fun x => (s.point x).rank, s.runtime.workload)

variable {s s' : Program V E L}

/-- A body moves, and nobody else gets more to do than what it had. -/
theorem less_of_moves {f : FrameId} (hn : s.runtime.nextFrame ≤ s'.runtime.nextFrame)
    (hf : f < s.runtime.nextFrame) (hlt : (s'.point f).rank < (s.point f).rank)
    (hx : ∀ x < s'.runtime.nextFrame, x ≠ f →
      (x < s.runtime.nextFrame ∧ (s'.point x).rank ≤ (s.point x).rank) ∨
        (s'.point x).rank < (s.point f).rank) : Less s'.rank s.rank := by
  refine Prod.Lex.left _ _ (weights_lt hn ⟨f, hf, hlt.ne⟩ fun x hxn => ?_)
  by_cases hxf : x = f
  · exact Or.inr ⟨f, hf, hlt.ne, hxf ▸ hlt⟩
  rcases hx x hxn hxf with ⟨hxn', hle⟩ | hlt'
  · rcases hle.eq_or_lt with he | hlt'
    · exact Or.inl ⟨hxn', he⟩
    · exact Or.inr ⟨x, hxn', hlt'.ne, hlt'⟩
  · exact Or.inr ⟨f, hf, hlt.ne, hlt'⟩

/-- No body moves, and the runtime has less to do. -/
theorem less_of_workload (hn : s'.runtime.nextFrame = s.runtime.nextFrame)
    (hp : ∀ x, s'.point x = s.point x) (hlt : s'.runtime.workload < s.runtime.workload) :
    Less s'.rank s.rank := by
  rw [rank, rank, hn, show s'.point = s.point from funext hp]
  exact Prod.Lex.right _ hlt

/-! ## Every step leaves less -/

/-- A body whose own point is all that changes. -/
theorem Placed.less_of_point (p : s.Placed) {f : FrameId} (hn : s'.runtime.nextFrame =
    s.runtime.nextFrame) (hf : s.point f ≠ .absent) (hlt : (s'.point f).rank < (s.point f).rank)
    (hx : ∀ x, x ≠ f → (s'.point x).rank ≤ (s.point x).rank) : Less s'.rank s.rank :=
  less_of_moves hn.ge (p.lt hf) hlt fun x hxn hxf => Or.inl ⟨hn ▸ hxn, hx x hxf⟩

theorem turn_less (p : s.Placed) (t : s.Told) {f : FrameId} (h : Turn s f s') :
    Less s'.rank s.rank := by
  obtain ⟨b₀, r⟩ := p.reachable.accounts
  cases h with
  | finish e hf hen =>
      refine p.less_of_point (f := f) (next_nextFrame rfl) (by simp [hf]) ?_ fun x hx => ?_
      · simp [hf, Point.rank, Body.rank]
      · simp [hx]
  | effect y c hf hin =>
      refine p.less_of_point (f := f) rfl (by simp [hf]) ?_ fun x hx => ?_
      · simp [hf, Point.rank, Body.rank]
      · simp [hx]
  | expired k v hf hin =>
      refine p.less_of_point (f := f) rfl (by simp [hf]) ?_ fun x hx => ?_
      · simpa [hf] using rank_answer (Or.inr rfl) v
      · simp [hx]
  | call o c k hf hin hen =>
      have hlt : f < s.runtime.nextFrame := p.lt (by simp [hf])
      obtain ⟨hcalled, htemp⟩ := rank_call o c k s.runtime.nextFrame
      refine less_of_moves (f := f) (by simp [Program.call, State.next]) hlt ?_ fun x hx hxf => ?_
      · simpa [Program.call, hf, Nat.ne_of_lt hlt] using hcalled
      · by_cases hxc : x = s.runtime.nextFrame
        · right
          simpa [Program.call, hxc, hf] using htemp
        · have hle : x ≤ s.runtime.nextFrame := Nat.lt_succ_iff.mp hx
          exact Or.inl ⟨lt_of_le_of_ne hle hxc, by simp [Program.call, hxc, hxf]⟩
  | opens c a hf ha hen =>
      obtain ⟨-, -, hnf, -⟩ := waits_of_opens (s := s.runtime) ha
      have hover : a.handsOver = some f := by
        rcases c with _ | _ | _ | _ | _ | ⟨_ | _ | _, _, _⟩ <;> cases ha <;> rfl
      exact less_of_workload hnf (fun _ => rfl) (r.handsOver_workload_lt hen hover)
  | awaitCallee c d k hf hen =>
      have hstory := t.story f
      rw [hf] at hstory
      have hne : f ≠ c := Nat.ne_of_lt hstory.2.1.lt
      refine p.less_of_point (f := f) (next_nextFrame rfl) (by simp [hf]) ?_ fun x hx => ?_
      · simpa [awaitCallee, hf, hne] using rank_waiting c d k
      · by_cases hxc : x = c
        · simp [awaitCallee, hxc, hstory.2.2, Point.rank]
        · simp [awaitCallee, hxc, hx]
  | takeResult c k v hf hen haw hres =>
      have hstory := t.story f
      rw [hf] at hstory
      have hne : f ≠ c := Nat.ne_of_lt hstory.2.1.lt
      refine p.less_of_point (f := f) (next_nextFrame rfl) (by simp [hf]) ?_ fun x hx => ?_
      · simpa [hf, hne] using rank_leaving c k v
      · by_cases hxc : x = c <;> simp [hxc, hx, Point.rank]
  | destroyCallee c v k hf hin hen =>
      refine p.less_of_point (f := f) (next_nextFrame rfl) (by simp [hf]) ?_ fun x hx => ?_
      · simpa [destroyCallee, hf] using rank_leaves c k v
      · simp [destroyCallee, hx]
  | takeAnswer c k v hf hb hen =>
      refine p.less_of_point (f := f) (next_nextFrame rfl) (by simp [hf]) ?_ fun x hx => ?_
      · simpa [hf] using rank_answer hb v
      · simp [hx]
  | hopped how ex c hf hen =>
      refine p.less_of_point (f := f) (next_nextFrame rfl) (by simp [hf]) ?_ fun x hx => ?_
      · simp [hf, Point.rank, Body.rank]
      · simp [hx]

/-- A promise that was called from outside begins. -/
theorem startAwait_less (p : s.Placed) {u : Site} {c : FrameId}
    (h : s.Enabled (.around (.startAwait u c))) :
    Less (s.next (.around (.startAwait u c))).rank s.rank := by
  obtain ⟨b, hc⟩ := Point.isLazy_iff.mp h.1
  have hlow : (Point.rest b).rank < (Point.lazy b).rank := Order.lt_succ_of_le (le_refl _)
  refine less_of_moves (f := c) (by simp [Program.next, State.next]) (p.lt (by simp [hc])) ?_
    fun x hx hxc => ?_
  · simpa [Program.next, hc, Point.start] using hlow
  · by_cases hxn : x = s.runtime.nextFrame
    · right
      -- the trampoline has no body
      have ha : s.point x = .absent := p.absent x hxn.ge
      have hpos : (Point.absent : Point V E L).rank < (Point.lazy b).rank :=
        lt_of_le_of_lt zero_le hlow
      simpa [Program.next, hxc, ha, hc] using hpos
    · have hlt : x < s.runtime.nextFrame + 1 := by simpa [Program.next, State.next] using hx
      exact Or.inl ⟨lt_of_le_of_ne (Nat.lt_succ_iff.mp hlt) hxn, by simp [Program.next, hxc]⟩

end Program

/-! ## No schedule goes on forever -/

namespace Step

/-- A coroutine is called from outside. -/
def isLaunch : Step V E L → Bool
  | .launch .. => true
  | _ => false

/-- What happens to the objects that coroutines are members of, outside them. -/
def isOutside : Step V E L → Bool
  | .around (.release _) | .around (.retain _) => true
  | _ => false

end Step

namespace Program

variable {s s' : Program V E L}

theorem around_less (p : s.Placed) {a : Action V E} (h : s.Enabled (.around a))
    (ho : (Step.around a : Step V E L).isOutside = false) :
    Less (s.next (.around a)).rank s.rank := by
  obtain ⟨b, r⟩ := p.reachable.accounts
  have htransit : a.isTransit = true → (∀ u c, a ≠ .startAwait u c) →
      Less (s.next (.around a)).rank s.rank := by
    intro ha hs
    have hnext : s.next (.around a) = s.act a := by
      cases a <;> first | rfl | exact absurd rfl (hs _ _)
    rw [hnext]
    exact less_of_workload (next_counts ha).1 (fun _ => rfl) (r.transit_workload_lt h.2 ha)
  cases a with
  | startAwait u c => exact startAwait_less p h
  | release | retain => cases ho
  | detach | startMain | create | awaitPromise | awaitDeferred | awaitTimer | awaitAwait
  | awaitDispatch | awaitPost | awaitResume | coReturn => cases h.1
  | _ => exact htransit rfl (by simp)

/-- **Every step leaves less**, but for the calls from outside and for what happens to the owners
    there. -/
theorem step_less (p : s.Placed) (t : s.Told) {m : Step V E L} (h : s.Enabled m)
    (hl : m.isLaunch = false) (ho : m.isOutside = false) : Less (s.next m).rank s.rank := by
  cases m with
  | launch a b => cases hl
  | advance f => exact turn_less p t (p.turn h)
  | ready f v => exact turn_less p t (turn_ready h)
  | around a => exact around_less p h ho

/-- What is done to the owners leaves everything else as it is. -/
theorem outside_rank {m : Step V E L} (ho : m.isOutside = true) : (s.next m).rank = s.rank := by
  cases m with
  | around a => cases a <;> first | rfl | cases ho
  | _ => cases ho

theorem kept (s : Program V E L) (m : Step V E L) (h : s.Placed ∧ s.Told)
    (hm : machine.enabled s m) : (machine.next s m).Placed ∧ (machine.next s m).Told :=
  ⟨h.1.step hm, h.2.step h.1 hm⟩

end Program

/-- The steps of a program and what they leave to do. -/
noncomputable def ranking : Transition.Ranking (machine (V := V) (E := E) (L := L)) Less where
  rank := Program.rank
  wf := less_wf
  inv s := s.Placed ∧ s.Told
  step := Program.kept
  busy _ m := m.isLaunch = false ∧ m.isOutside = false
  quiet _ m := m.isOutside = true
  lowers _ _ h hm hb := Program.step_less h.1 h.2 hm hb.1 hb.2
  keeps _ _ _ _ hq := Program.outside_rank hq

/-- **No livelock**: in an infinite run in which coroutines are called from outside only finitely
    often, nothing else happens either from some point on, but to the owners. -/
theorem no_livelock {s : Program V E L} (hs : Transition.Reachable machine Program.init s)
    (e : Transition.Endless machine s) (hl : ∃ n, ∀ i ≥ n, (e.action i).isLaunch = false) :
    ∃ n, ∀ i ≥ n, (e.action i).isOutside = true := by
  obtain ⟨p, t, -, -⟩ := Program.reached hs
  obtain ⟨n, hn⟩ := hl
  refine ranking.eventually_quiet ⟨p, t⟩ e ⟨n, fun i hi => ?_⟩
  cases ho : (e.action i).isOutside with
  | false => exact Or.inl ⟨hn i hi, ho⟩
  | true => exact Or.inr ho

/-- An owner is released again and again. -/
def releasing (s : Program V E L) (o : OwnerId) : Transition.Endless machine s where
  state n := machine.exec s (List.replicate n (.around (.release o)))
  action _ := .around (.release o)
  start := rfl
  enabled _ := ⟨rfl, trivial⟩
  next n := by
    rw [List.replicate_succ']
    exact List.foldl_append

/-- `caughtRun`, after which only that goes on. -/
def caughtThenReleasing : Transition.Endless machine (Program.init : Program Nat Nat Nat) :=
  .append caughtRun (by decide) (releasing _ 0)

/-- Everything completes before. -/
theorem no_livelock_releasing :
    ∃ n, ∀ i ≥ n, (caughtThenReleasing.action i).isOutside = true :=
  no_livelock (.refl _) caughtThenReleasing ⟨caughtRun.length,
    Transition.Endless.append_action (P := fun m : Step Nat Nat Nat => m.isLaunch = false) _ _
      fun _ => rfl⟩

end WebAsio.Coro.Direct
