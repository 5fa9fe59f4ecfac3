import WebAsio.Library.Transition
import Mathlib.Data.List.Basic
import Mathlib.Data.List.Perm.Basic
import Mathlib.Tactic.NormNum
import Mathlib.Tactic.SplitIfs

set_option autoImplicit false

/-! # `detail::main`: running `co_main` and the grace period

The bootstrap resumes `co_main`, and unless the context is stopped by then it runs the context on
all threads, joins them, restarts the context and runs it for the grace period. The model has a
clock: an outstanding handler is due at some time, running it may make more work outstanding, and in
the grace period, when only `detail::main` is left to run handlers, time does not pass while one is
due.

`co_main` is given by its segments, each of which starts detached work and ends with a suspension,
on the context or on something that another thread completes, and by how it ends. -/

namespace WebAsio.Coro.EntryPoint

open Transition

/-- Detached work: a handler that is due after `delay` and then starts more work. -/
inductive Work
  | mk (delay : Nat) (next : List Work)

inductive Task
  | work (next : List Work)
  /-- the handler that resumes `co_main` -/
  | main

/-- A handler outstanding on the context. -/
structure Pending where
  due : Nat
  task : Task

/-- What `co_main` is suspended on. -/
inductive Wait
  | context (delay : Nat)
  | elsewhere
  deriving DecidableEq

structure Segment where
  spawns : List Work
  wait : Wait

/-- `co_return code` or `co_return { code, timeout }`. -/
inductive Result
  | code (code : Int)
  | codeAndTimeout (code timeout : Int)
  deriving DecidableEq

structure Body where
  segments : List Segment
  last : List Work
  result : Result

/-- Where `detail::main` is. -/
inductive Pc
  | start
  | resumed
  | running
  | joined
  | servicing
  | returned (code : Int)
  deriving DecidableEq

/-- The context and the promise of `co_main`. A `timeout` of `none` is `duration::min()`; `finished`
    is when `co_main` returned, `restarted` and `deadline` belong to the call of `run_for`. -/
structure State where
  pc : Pc
  now : Nat
  stopped : Bool
  outstanding : List Pending
  segments : List Segment
  elsewhere : Bool
  code : Int
  timeout : Option Int
  work : Bool
  finished : Option Nat
  restarted : Nat
  deadline : Option Int

namespace State

variable (body : Body)

def initial : State :=
  ⟨.start, 0, false, [], body.segments, false, 0, none, true, none, 0, none⟩

def spawn (s : State) (ws : List Work) : State :=
  { s with
    outstanding := s.outstanding ++ ws.map fun | .mk delay next => ⟨s.now + delay, .work next⟩ }

/-- `return_value`: both overloads stop the context and release the work guard. -/
def returnValue (s : State) : Result → State
  | .code code =>
    { s with code := code, stopped := true, work := false, finished := some s.now }
  | .codeAndTimeout code timeout =>
    { s with code := code, timeout := some timeout, stopped := true, work := false,
             finished := some s.now }

/-- `co_main` runs until its next suspension or its end. -/
def resumeBody (s : State) : State :=
  match s.segments with
  | [] => (s.spawn body.last).returnValue body.result
  | seg :: segs =>
    let s := { s.spawn seg.spawns with segments := segs }
    match seg.wait with
    | .context delay => { s with outstanding := s.outstanding ++ [⟨s.now + delay, .main⟩] }
    | .elsewhere => { s with elsewhere := true }

/-- A thread runs the outstanding handler at position `n`. -/
def runHandler (s : State) (n : Nat) : State :=
  match s.outstanding[n]? with
  | none => s
  | some p =>
    let s := { s with outstanding := s.outstanding.eraseIdx n }
    match p.task with
    | .work next => s.spawn next
    | .main => s.resumeBody body

/-- `if (!ioc.stopped())` -/
def test (s : State) : State :=
  if s.stopped then { s with pc := .returned s.code } else { s with pc := .running }

/-- `ioc.restart()` and the start of `ioc.run_for(coro.timeout())`. -/
def restart (s : State) : State :=
  { s with pc := .servicing, stopped := false, restarted := s.now,
           deadline := s.timeout.map fun timeout => s.now + timeout }

/-- The loop condition of `run_for`. -/
def BeforeDeadline (s : State) : Prop := ∃ d ∈ s.deadline, (s.now : Int) < d

instance (s : State) : Decidable s.BeforeDeadline := by
  unfold BeforeDeadline
  infer_instance

/-- The handler at position `n` is due. -/
def Due (s : State) (n : Nat) : Prop := ∃ p ∈ s.outstanding[n]?, p.due ≤ s.now

instance (s : State) (n : Nat) : Decidable (s.Due n) := by
  unfold Due
  infer_instance

end State

/-! ## Runs -/

inductive Action
  /-- `coro.resume()` -/
  | resume
  | test
  /-- some thread runs a handler in `ioc.run()` -/
  | run (n : Nat)
  /-- another thread resumes `co_main` -/
  | elsewhere
  /-- another thread makes work outstanding -/
  | post (w : Work)
  | tick
  /-- all threads have returned from `ioc.run()` and are joined -/
  | join
  | restart
  /-- `ioc.run_for` runs a handler -/
  | service (n : Nat)
  /-- `ioc.run_for` returns, and `detail::main` returns the code -/
  | finish

namespace State

variable (body : Body)

def Enabled (s : State) : Action → Prop
  | .resume => s.pc = .start
  | .test => s.pc = .resumed
  | .run n => s.pc = .running ∧ s.stopped = false ∧ s.Due n
  | .elsewhere => s.elsewhere = true
  | .post _ => ∀ c, s.pc ≠ .returned c
  | .tick => (∀ c, s.pc ≠ .returned c) ∧
      (s.pc = .servicing → s.BeforeDeadline → ∀ p ∈ s.outstanding, s.now < p.due)
  | .join => s.pc = .running ∧ s.stopped = true
  | .restart => s.pc = .joined
  | .service n => s.pc = .servicing ∧ s.BeforeDeadline ∧ s.Due n
  | .finish => s.pc = .servicing ∧ (s.outstanding = [] ∨ ¬ s.BeforeDeadline)

instance (pc : Pc) : Decidable (∀ c, pc ≠ .returned c) :=
  match pc with
  | .returned c => .isFalse fun h => h c rfl
  | .start | .resumed | .running | .joined | .servicing => .isTrue nofun

instance (s : State) (a : Action) : Decidable (s.Enabled a) := by
  cases a <;> unfold Enabled <;> infer_instance

def next (s : State) : Action → State
  | .resume => { s.resumeBody body with pc := .resumed }
  | .test => s.test
  | .run n => s.runHandler body n
  | .elsewhere => State.resumeBody body { s with elsewhere := false }
  | .post w => s.spawn [w]
  | .tick => { s with now := s.now + 1 }
  | .join => { s with pc := .joined }
  | .restart => s.restart
  | .service n => s.runHandler body n
  | .finish => { s with pc := .returned s.code }

end State

def machine (body : Body) : System State Action := ⟨State.Enabled, State.next body⟩

instance (body : Body) (s : State) (a : Action) : Decidable ((machine body).enabled s a) :=
  inferInstanceAs (Decidable (s.Enabled a))

def Result.exitCode : Result → Int
  | .code c => c
  | .codeAndTimeout c _ => c

def Result.grace : Result → Option Int
  | .code _ => none
  | .codeAndTimeout _ g => some g

namespace State

variable (body : Body)

/-- The handler is due inside the grace period that began when `co_main` returned. -/
def WithinGrace (s : State) (p : Pending) : Prop :=
  ∃ t ∈ s.finished, ∃ g ∈ body.result.grace, 0 < g ∧ (p.due : Int) < t + g

/-- The grace period is over. -/
def Elapsed (s : State) : Prop :=
  ∀ g ∈ body.result.grace, ∃ t ∈ s.finished, (t : Int) + g ≤ s.now

/-- The outstanding work is exhausted or the grace period is over, and what was due in it has run.
    -/
structure Serviced (s : State) : Prop where
  exhausted : s.outstanding = [] ∨ s.Elapsed body
  due : ∀ p ∈ s.outstanding, ¬ s.WithinGrace body p

/-- `detail::main` returns the code of `co_main`, and only when the outstanding work is serviced. -/
structure Honoured (s : State) : Prop where
  code : ∀ c, s.pc = .returned c → s.finished ≠ none ∧ c = body.result.exitCode
  serviced : ∀ c, s.pc = .returned c → s.Serviced body

/-- When `detail::main` tests `ioc.stopped()`, `co_main` has not returned yet, or there is nothing
    left to service. -/
def Timely (s : State) : Action → Prop
  | .test => s.stopped = false ∨ s.Serviced body
  | _ => True

/-! ## The invariant -/

def isMain (p : Pending) : Bool :=
  match p.task with
  | .work _ => false
  | .main => true

/-- Who can resume `co_main`: the bootstrap, another thread, or handlers of the context. -/
def tokens (s : State) : Nat :=
  (if s.pc = .start then 1 else 0) + (if s.elsewhere then 1 else 0) + s.outstanding.countP isMain

/-- The invariant of all runs: `co_main` can be resumed by one party until it returns, `stop` was
    called by its return only, and in the grace period all handlers due earlier have been run. -/
structure Sound (s : State) : Prop where
  tokens : s.tokens = if s.finished = none then 1 else 0
  fate : ∀ t, s.finished = some t →
    t ≤ s.now ∧ s.code = body.result.exitCode ∧ s.timeout = body.result.grace
  unfinished : s.finished = none → s.stopped = false ∧ s.timeout = none
  late : s.pc = .joined ∨ s.pc = .servicing ∨ (∃ c, s.pc = .returned c) → s.finished ≠ none
  period : s.pc = .servicing → (∀ t, s.finished = some t → t ≤ s.restarted) ∧
    s.restarted ≤ s.now ∧ s.deadline = s.timeout.map (fun timeout : Int => s.restarted + timeout) ∧
    (s.restarted < s.now → ∀ p ∈ s.outstanding, ∀ d, s.deadline = some d → (s.restarted : Int) < d →
      (s.now : Int) ≤ p.due ∨ d ≤ p.due)

theorem Sound.initial : Sound body (initial body) := by
  refine ⟨rfl, nofun, fun _ => ⟨rfl, rfl⟩, ?_, nofun⟩
  rintro (h | h | ⟨c, h⟩) <;> cases h

theorem countP_spawn (s : State) (ws : List Work) :
    (s.spawn ws).outstanding.countP isMain = s.outstanding.countP isMain := by
  unfold spawn
  rw [List.countP_append, Nat.add_eq_left, List.countP_eq_zero]
  intro p hp
  obtain ⟨⟨delay, next⟩, _, rfl⟩ := List.mem_map.mp hp
  exact Bool.false_ne_true

/-- What is spawned is not due before now. -/
theorem mem_spawn {s : State} {ws : List Work} {p : Pending} (hp : p ∈ (s.spawn ws).outstanding) :
    p ∈ s.outstanding ∨ s.now ≤ p.due := by
  rcases List.mem_append.mp hp with h | h
  · exact Or.inl h
  · obtain ⟨⟨delay, next⟩, _, rfl⟩ := List.mem_map.mp h
    exact Or.inr (Nat.le_add_right _ _)

/-- The return of `co_main`. -/
theorem returnValue_eq {s : State} (ht : s.timeout = none) (r : Result) :
    s.returnValue r = { s with code := r.exitCode, timeout := r.grace, stopped := true,
                               work := false, finished := some s.now } := by
  cases r
  · rw [returnValue, Result.grace, ← ht]
    rfl
  · rfl

/-- `co_main` runs a segment: afterwards one party can resume it, or it has returned. -/
theorem Sound.resumeBody {s : State} (hpc : s.pc = .resumed ∨ s.pc = .running)
    (hstop : s.stopped = false) (ht : s.timeout = none) (hfin : s.finished = none)
    (helse : s.elsewhere = false) (hmain : s.outstanding.countP isMain = 0) :
    Sound body (s.resumeBody body) := by
  have hstart : s.pc ≠ .start := by rcases hpc with h | h <;> rw [h] <;> nofun
  have hlate : ¬ (s.pc = .joined ∨ s.pc = .servicing ∨ ∃ c, s.pc = .returned c) := by
    rintro (h | h | ⟨c, h⟩) <;> rcases hpc with h' | h' <;> rw [h'] at h <;> cases h
  have hperiod : s.pc ≠ .servicing := fun h => hlate (Or.inr (Or.inl h))
  unfold State.resumeBody
  cases s.segments with
  | nil =>
      show Sound body ((s.spawn body.last).returnValue body.result)
      rw [returnValue_eq (show (s.spawn body.last).timeout = none from ht)]
      refine ⟨?_, ?_, nofun, fun h => absurd h hlate, fun h => absurd h hperiod⟩
      · show (if s.pc = _ then 1 else 0) + (if s.elsewhere then 1 else 0) +
          (s.spawn body.last).outstanding.countP isMain = 0
        rw [countP_spawn, if_neg hstart, helse, hmain]
        rfl
      · rintro t ⟨⟩
        exact ⟨Nat.le_refl _, rfl, rfl⟩
  | cons seg segs =>
      cases hw : seg.wait with
      | context delay =>
          simp only [hw]
          refine ⟨?_, fun t h => ?_, fun _ => ⟨hstop, ht⟩, fun h => absurd h hlate,
            fun h => absurd h hperiod⟩
          · show (if s.pc = _ then 1 else 0) + (if s.elsewhere then 1 else 0) +
              ((s.spawn seg.spawns).outstanding ++ ([⟨s.now + delay, .main⟩] : List Pending)).countP
                isMain =
                if s.finished = none then 1 else 0
            rw [List.countP_append, countP_spawn, if_neg hstart, helse, hmain, if_pos hfin]
            rfl
          · have h' : s.finished = some t := h
            rw [hfin] at h'
            cases h'
      | elsewhere =>
          simp only [hw]
          refine ⟨?_, fun t h => ?_, fun _ => ⟨hstop, ht⟩, fun h => absurd h hlate,
            fun h => absurd h hperiod⟩
          · show (if s.pc = _ then 1 else 0) + 1 + (s.spawn seg.spawns).outstanding.countP isMain =
              if s.finished = none then 1 else 0
            rw [countP_spawn, if_neg hstart, hmain, if_pos hfin]
          · have h' : s.finished = some t := h
            rw [hfin] at h'
            cases h'

/-- The handler of `co_main` is run. -/
theorem runHandler_main {s : State} {n : Nat} {p : Pending} (hp : s.outstanding[n]? = some p)
    (hm : p.task = .main) : s.runHandler body n =
      State.resumeBody body { s with outstanding := s.outstanding.eraseIdx n } := by
  simp only [runHandler, hp, hm]

theorem runHandler_work {s : State} {n : Nat} {p : Pending} (hp : s.outstanding[n]? = some p)
    {next : List Work} (hm : p.task = .work next) : s.runHandler body n =
      State.spawn { s with outstanding := s.outstanding.eraseIdx n } next := by
  simp only [runHandler, hp, hm]

/-- Taking a handler out of the queue. -/
theorem countP_eraseIdx {l : List Pending} {n : Nat} {p : Pending} (hp : l[n]? = some p) :
    l.countP isMain = (l.eraseIdx n).countP isMain + if isMain p then 1 else 0 := by
  have hlt : n < l.length := (List.getElem?_eq_some_iff.mp hp).1
  have hperm := List.getElem_cons_eraseIdx_perm hlt
  rw [(List.getElem?_eq_some_iff.mp hp).2] at hperm
  rw [← hperm.countP_eq, List.countP_cons]

/-- Work that is run or posted changes nothing but the queue. -/
theorem Sound.queue {s : State} (hs : Sound body s) {l : List Pending}
    (hmain : l.countP isMain = s.outstanding.countP isMain)
    (hmem : ∀ p ∈ l, p ∈ s.outstanding ∨ s.now ≤ p.due) :
    Sound body { s with outstanding := l } := by
  refine ⟨?_, hs.fate, hs.unfinished, hs.late, fun h => ?_⟩
  · have := hs.tokens
    unfold State.tokens at this ⊢
    simp only [hmain]
    exact this
  · obtain ⟨hle, hnow, hdl, hdue⟩ := hs.period h
    refine ⟨hle, hnow, hdl, fun hlt p hp d hd hg => ?_⟩
    rcases hmem p hp with hp | hp
    · exact hdue hlt p hp d hd hg
    · exact Or.inl (by exact_mod_cast hp)

/-- Running a handler of detached work. -/
theorem Sound.runWork {s : State} (hs : Sound body s) {n : Nat} {p : Pending}
    (hp : s.outstanding[n]? = some p) {next : List Work} (hm : p.task = .work next) :
    Sound body (s.runHandler body n) := by
  rw [runHandler_work body hp hm]
  refine hs.queue body ?_ fun q hq => ?_
  · show (spawn { s with outstanding := s.outstanding.eraseIdx n } next).outstanding.countP isMain =
      _
    rw [countP_spawn, countP_eraseIdx hp, show isMain p = false by simp only [isMain, hm]]
    rfl
  · rcases mem_spawn hq with hq | hq
    · exact Or.inl (List.mem_of_mem_eraseIdx hq)
    · exact Or.inr hq

/-- While somebody can resume `co_main`, it has not returned. -/
theorem Sound.unreturned {s : State} (hs : Sound body s) (h : 0 < s.tokens) :
    s.finished = none ∧ s.tokens = 1 := by
  have htokens := hs.tokens
  by_cases hfin : s.finished = none
  · exact ⟨hfin, by rw [htokens, if_pos hfin]⟩
  · rw [if_neg hfin] at htokens
    omega

/-- Running the handler of `co_main`, which is the only party that can resume it. -/
theorem Sound.runMain {s : State} (hs : Sound body s) (hpc : s.pc = .running) {n : Nat}
    {p : Pending} (hp : s.outstanding[n]? = some p) (hm : p.task = .main) :
    Sound body (s.runHandler body n) := by
  have hcount := countP_eraseIdx hp
  rw [show isMain p = true by simp only [isMain, hm], if_pos rfl] at hcount
  have htokens : s.tokens = (if s.pc = .start then 1 else 0) + (if s.elsewhere then 1 else 0) +
      ((s.outstanding.eraseIdx n).countP isMain + 1) := by
    unfold State.tokens
    rw [hcount]
  obtain ⟨hfin, hone⟩ := hs.unreturned body (by omega)
  obtain ⟨hstop, ht⟩ := hs.unfinished hfin
  rw [runHandler_main body hp hm]
  refine Sound.resumeBody body (Or.inr hpc) hstop ht hfin ?_ ?_
  · show s.elsewhere = false
    by_contra he
    rw [if_pos (c := s.elsewhere = true) (by simpa using he)] at htokens
    omega
  · show (s.outstanding.eraseIdx n).countP isMain = 0
    omega

/-- Once `co_main` has returned, no handler resumes it. -/
theorem Sound.no_main {s : State} (hs : Sound body s) (hfin : s.finished ≠ none) {p : Pending}
    (hp : p ∈ s.outstanding) : ∃ next, p.task = .work next := by
  have htokens := hs.tokens
  rw [if_neg hfin] at htokens
  unfold State.tokens at htokens
  have hzero : s.outstanding.countP isMain = 0 := by omega
  have := List.countP_eq_zero.mp hzero p hp
  unfold isMain at this
  cases hm : p.task with
  | work next => exact ⟨next, rfl⟩
  | main =>
      rw [hm] at this
      exact absurd rfl this

/-- Moving on in `detail::main` without touching the rest. -/
theorem Sound.move {s : State} (hs : Sound body s) {pc : Pc} (hstart : s.pc ≠ .start)
    (hpc : pc ≠ .start) (hserv : pc ≠ .servicing)
    (hfin : (pc = .joined ∨ ∃ c, pc = .returned c) → s.finished ≠ none) :
    Sound body { s with pc := pc } := by
  refine ⟨?_, hs.fate, hs.unfinished, ?_, fun h => absurd h hserv⟩
  · have := hs.tokens
    unfold State.tokens at this ⊢
    rw [if_neg hstart] at this
    simp only [if_neg hpc]
    exact this
  · rintro (h | h | h)
    · exact hfin (Or.inl h)
    · exact absurd h hserv
    · exact hfin (Or.inr h)

theorem Sound.test {s : State} (hs : Sound body s) (hpc : s.pc = .resumed) :
    Sound body s.test := by
  have hstart : s.pc ≠ .start := by rw [hpc]; nofun
  unfold State.test
  split_ifs with h
  · refine hs.move body hstart nofun nofun fun _ hfin => ?_
    rw [(hs.unfinished hfin).1] at h
    cases h
  · refine hs.move body hstart nofun nofun ?_
    rintro (h | ⟨c, h⟩) <;> cases h

theorem Sound.restart {s : State} (hs : Sound body s) (hpc : s.pc = .joined) :
    Sound body s.restart := by
  have hfin := hs.late (Or.inl hpc)
  refine ⟨?_, hs.fate, fun h => absurd h hfin, fun _ => hfin, fun _ => ?_⟩
  · have := hs.tokens
    unfold State.tokens at this ⊢
    rw [if_neg (by rw [hpc]; nofun)] at this
    exact this
  · exact ⟨fun t ht => (hs.fate t ht).1, Nat.le_refl _, rfl,
      fun h => absurd h (Nat.lt_irrefl _)⟩

theorem Sound.tick {s : State} (hs : Sound body s) (ha : s.Enabled .tick) :
    Sound body { s with now := s.now + 1 } := by
  refine ⟨hs.tokens, fun t ht => ?_, hs.unfinished, hs.late, fun h => ?_⟩
  · obtain ⟨hle, h⟩ := hs.fate t ht
    exact ⟨Nat.le_succ_of_le hle, h⟩
  · obtain ⟨hle, hnow, hdl, hdue⟩ := hs.period h
    refine ⟨hle, Nat.le_succ_of_le hnow, hdl, fun _ p hp d hd hg => ?_⟩
    have hg : (s.restarted : Int) < d := hg
    show ((s.now + 1 : Nat) : Int) ≤ p.due ∨ d ≤ p.due
    -- before the deadline all that was due has been run, and after it nothing new matters
    by_cases hb : (s.now : Int) < d
    · have := ha.2 h ⟨d, hd, hb⟩ p hp
      omega
    · have := hdue (by omega) p hp d hd hg
      omega

theorem resumeBody_pc (s : State) (pc : Pc) :
    { s.resumeBody body with pc := pc } = State.resumeBody body { s with pc := pc } := by
  obtain ⟨_, _, _, _, segments, _⟩ := s
  unfold State.resumeBody
  cases segments with
  | nil => cases body.result <;> rfl
  | cons seg segs =>
      cases hw : seg.wait with
      | context delay => simp only [hw, spawn]
      | elsewhere => simp only [hw, spawn]

/-- The bootstrap resumes `co_main` for the first time. -/
theorem Sound.resume {s : State} (hs : Sound body s) (hpc : s.pc = .start) :
    Sound body { s.resumeBody body with pc := .resumed } := by
  have hstart : s.tokens = 1 + (if s.elsewhere then 1 else 0) + s.outstanding.countP isMain := by
    unfold State.tokens
    rw [if_pos hpc]
  obtain ⟨hfin, hone⟩ := hs.unreturned body (by omega)
  obtain ⟨hstop, ht⟩ := hs.unfinished hfin
  rw [resumeBody_pc]
  refine Sound.resumeBody body (Or.inl rfl) hstop ht hfin ?_
    (by show s.outstanding.countP isMain = 0; omega)
  show s.elsewhere = false
  by_contra he
  rw [if_pos (c := s.elsewhere = true) (by simpa using he)] at hstart
  omega

/-- Another thread resumes `co_main`. -/
theorem Sound.elsewhere {s : State} (hs : Sound body s) (he : s.elsewhere = true) :
    Sound body (State.resumeBody body { s with elsewhere := false }) := by
  have htokens : s.tokens =
      (if s.pc = .start then 1 else 0) + 1 + s.outstanding.countP isMain := by
    unfold State.tokens
    rw [if_pos he]
  obtain ⟨hfin, hone⟩ := hs.unreturned body (by omega)
  obtain ⟨hstop, ht⟩ := hs.unfinished hfin
  refine Sound.resumeBody body ?_ hstop ht hfin rfl (by show s.outstanding.countP isMain = 0; omega)
  show s.pc = .resumed ∨ s.pc = .running
  cases hpc : s.pc with
  | start =>
      rw [hpc, if_pos rfl] at htokens
      omega
  | resumed => exact Or.inl rfl
  | running => exact Or.inr rfl
  | joined => exact absurd hfin (hs.late (Or.inl hpc))
  | servicing => exact absurd hfin (hs.late (Or.inr (Or.inl hpc)))
  | returned c => exact absurd hfin (hs.late (Or.inr (Or.inr ⟨c, hpc⟩)))

theorem Sound.step {s : State} {a : Action} (hs : Sound body s) (ha : s.Enabled a) :
    Sound body (s.next body a) := by
  cases a with
  | resume => exact hs.resume body ha
  | test => exact hs.test body ha
  | run n =>
      obtain ⟨hpc, _, p, hp, _⟩ := ha
      cases hm : p.task with
      | work next => exact hs.runWork body hp hm
      | main => exact hs.runMain body hpc hp hm
  | elsewhere => exact hs.elsewhere body ha
  | post w => exact hs.queue body (countP_spawn s [w]) fun p hp => mem_spawn hp
  | tick => exact hs.tick body ha
  | join =>
      obtain ⟨hpc, hstop⟩ := ha
      refine hs.move body (by rw [hpc]; nofun) nofun nofun fun _ hfin => ?_
      rw [(hs.unfinished hfin).1] at hstop
      cases hstop
  | restart => exact hs.restart body ha
  | service n =>
      obtain ⟨hpc, _, p, hp, _⟩ := ha
      obtain ⟨next, hm⟩ := hs.no_main body (hs.late (Or.inr (Or.inl hpc))) (List.mem_of_getElem? hp)
      exact hs.runWork body hp hm
  | finish =>
      have hfin := hs.late (Or.inr (Or.inl ha.1))
      exact hs.move body (by rw [ha.1]; nofun) nofun nofun fun _ => hfin

/-! ## The return of `detail::main` -/

theorem Honoured.of_unreturned {s : State} (h : ∀ c, s.pc ≠ .returned c) : Honoured body s :=
  ⟨fun c hc => absurd hc (h c), fun c hc => absurd hc (h c)⟩

theorem pc_resumeBody (s : State) : (s.resumeBody body).pc = s.pc := by
  have h := resumeBody_pc body s s.pc
  rw [← h]

theorem pc_runHandler (s : State) (n : Nat) : (s.runHandler body n).pc = s.pc := by
  cases hp : s.outstanding[n]? with
  | none => simp only [runHandler, hp]
  | some p =>
      cases hm : p.task with
      | work next => rw [runHandler_work body hp hm]; rfl
      | main => rw [runHandler_main body hp hm, pc_resumeBody]

/-- `run_for` returns when the grace period is honoured. -/
theorem Sound.finish {s : State} (hs : Sound body s) (ha : s.Enabled .finish) :
    Serviced body s := by
  obtain ⟨hpc, hdone⟩ := ha
  rcases hdone with hnil | hdone
  · exact ⟨Or.inl hnil, by rw [hnil]; nofun⟩
  · obtain ⟨t, ht⟩ := Option.ne_none_iff_exists'.mp (hs.late (Or.inr (Or.inl hpc)))
    obtain ⟨_, _, htime⟩ := hs.fate t ht
    obtain ⟨hle, hnow, hdl, hdue⟩ := hs.period hpc
    have htr := hle t ht
    have hdead : ∀ g ∈ body.result.grace, s.deadline = some (s.restarted + g) ∧
        (s.restarted : Int) + g ≤ s.now := by
      intro g hg
      rw [htime, show body.result.grace = some g from hg] at hdl
      exact ⟨hdl, Int.not_lt.mp fun hlt => hdone ⟨_, hdl, hlt⟩⟩
    refine ⟨Or.inr fun g hg => ⟨t, ht, ?_⟩, ?_⟩
    · have := (hdead g hg).2
      omega
    · rintro p hp ⟨t', ht', g, hg, hpos, hlt⟩
      obtain ⟨hd, hover⟩ := hdead g hg
      have hdue := hdue (by omega) p hp _ hd (by omega)
      rw [show s.finished = some t' from ht'] at ht
      cases ht
      omega

/-- One step from a state that `detail::main` has not returned in too early. -/
theorem honoured_step {s : State} {a : Action} (hs : Sound body s) (ha : s.Enabled a) :
    (s.next body a).Honoured body ↔ s.Timely body a := by
  have hother : (∀ c, (s.next body a).pc ≠ .returned c) → s.Timely body a →
      ((s.next body a).Honoured body ↔ s.Timely body a) :=
    fun h ht => iff_of_true (Honoured.of_unreturned body h) ht
  cases a with
  | resume => exact hother nofun trivial
  | test =>
      show s.test.Honoured body ↔ (s.stopped = false ∨ s.Serviced body)
      cases hstop : s.stopped with
      | false =>
          refine iff_of_true (Honoured.of_unreturned body ?_) (Or.inl rfl)
          rw [State.test, hstop]
          nofun
      | true =>
          have hfin : s.finished ≠ none := fun hfin => by
            rw [(hs.unfinished hfin).1] at hstop
            cases hstop
          obtain ⟨t, ht⟩ := Option.ne_none_iff_exists'.mp hfin
          have hcode := (hs.fate t ht).2.1
          rw [State.test, hstop, if_pos rfl]
          constructor
          · intro h
            obtain ⟨hnil, hdue⟩ := h.serviced s.code rfl
            exact Or.inr ⟨hnil, hdue⟩
          · rintro (h | ⟨hnil, hdue⟩)
            · cases h
            · exact ⟨fun c hc => ⟨hfin, (Pc.returned.inj hc).symm.trans hcode⟩,
                fun _ _ => ⟨hnil, hdue⟩⟩
  | run n =>
      refine hother (fun c => ?_) trivial
      show (s.runHandler body n).pc ≠ _
      rw [pc_runHandler, ha.1]
      nofun
  | elsewhere =>
      refine hother (fun c hc => ?_) trivial
      have hpc : s.pc = .returned c :=
        (pc_resumeBody body { s with elsewhere := false }).symm.trans hc
      have := hs.tokens
      unfold State.tokens at this
      rw [if_neg (hs.late (Or.inr (Or.inr ⟨c, hpc⟩))), if_pos (c := s.elsewhere = true) ha] at this
      omega
  | post w => exact hother ha trivial
  | tick => exact hother ha.1 trivial
  | join => exact hother nofun trivial
  | restart => exact hother nofun trivial
  | service n =>
      refine hother (fun c => ?_) trivial
      show (s.runHandler body n).pc ≠ _
      rw [pc_runHandler, ha.1]
      nofun
  | finish =>
      obtain ⟨hnil, hdue⟩ := hs.finish body ha
      obtain ⟨t, ht⟩ := Option.ne_none_iff_exists'.mp (hs.late (Or.inr (Or.inl ha.1)))
      refine iff_of_true ⟨fun c hc => ?_, fun _ _ => ⟨hnil, hdue⟩⟩ trivial
      exact ⟨hs.late (Or.inr (Or.inl ha.1)), (Pc.returned.inj hc).symm.trans (hs.fate t ht).2.1⟩

end State

/-- In every run `detail::main` returns only when the grace period is honoured if and only if,
    whenever it tests `ioc.stopped()`, `co_main` has not returned yet or there is nothing to
    service. -/
theorem grace_honoured_iff (body : Body) {as : List Action} {t : State}
    (h : Run (machine body) (State.initial body) as t) :
    Along (machine body) (fun s a => (s.next body a).Honoured body) (State.initial body) as ↔
      Along (machine body) (State.Timely body) (State.initial body) as :=
  h.along_iff (J := State.Sound body) (State.Sound.initial body)
    (fun _ _ hs ha => State.honoured_step body hs ha) fun _ _ hs ha _ => hs.step body ha

/-- A `co_main` that suspends once, and both before and after it starts work. -/
def suspending : Body := ⟨[⟨[.mk 1 []], .context 2⟩], [.mk 1 []], .codeAndTimeout 3 5⟩

/-- The same without the suspension. -/
def immediate : Body := ⟨[], [.mk 1 []], .codeAndTimeout 3 5⟩

theorem grace_honoured_suspending :
    Along (machine suspending) (fun s a => (s.next suspending a).Honoured suspending)
      (State.initial suspending)
      [.resume, .test, .tick, .run 0, .tick, .run 0, .join, .restart, .tick, .service 0, .finish] :=
  (grace_honoured_iff suspending (.of_legal (by decide))).mpr
    ⟨trivial, Or.inl rfl, trivial, trivial, trivial, trivial, trivial, trivial, trivial, trivial,
      trivial, trivial⟩

/-- A `co_main` that never suspends: its code is returned at once, and the handler that is due
    inside the grace period is not run. -/
theorem grace_skipped :
    Run (machine immediate) (State.initial immediate) [.resume, .test]
        ((machine immediate).exec (State.initial immediate) [.resume, .test]) ∧
      ((machine immediate).exec (State.initial immediate) [.resume, .test]).pc = .returned 3 ∧
      (∃ p ∈ ((machine immediate).exec (State.initial immediate) [.resume, .test]).outstanding,
        ((machine immediate).exec (State.initial immediate) [.resume, .test]).WithinGrace
          immediate p) ∧
      ¬ ((machine immediate).exec (State.initial immediate) [.resume, .test]).Honoured
        immediate := by
  have hdue : ∃ p ∈ ((machine immediate).exec (State.initial immediate)
      [.resume, .test]).outstanding, ((machine immediate).exec (State.initial immediate)
        [.resume, .test]).WithinGrace immediate p :=
    ⟨⟨1, .work []⟩, List.mem_singleton.mpr rfl, 0, rfl, 5, rfl, by decide, by decide⟩
  refine ⟨.of_legal (by decide), rfl, hdue, fun h => ?_⟩
  obtain ⟨p, hp, hw⟩ := hdue
  exact (h.serviced 3 rfl).due p hp hw

end WebAsio.Coro.EntryPoint
