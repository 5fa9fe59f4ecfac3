import WebAsio.Coro.Completion

set_option autoImplicit false

/-! # Asynchronous execution refines direct style

Whatever the schedule, what a coroutine and those it awaits do is what the statements do when
`co_await` is a function call, given the same results of operations. -/

namespace WebAsio.Coro.Direct

open Custody State

variable {V E L : Type}

/-- A program and its coroutines in direct style. The events of a coroutine that was called from
    outside are those of its frame, which is the outermost one. -/
structure InDirectStyle (s : Program V E L) : Prop where
  /-- what was done so far is the beginning of what is done in direct style -/
  trace : ∀ {σ : Type} (C : Coroutine σ V E L) (l : σ) (f : FrameId), s.root f = f →
    s.code f = some (C.body l) → s.log f <+: (C.eval l (results (s.log f))).events
  /-- a coroutine that is over has done all of it, and has ended as in direct style -/
  result : ∀ {σ : Type} (C : Coroutine σ V E L) (l : σ) (f : FrameId) (e : BodyEnd V E),
    s.root f = f → s.code f = some (C.body l) → s.point f = .ended e →
    C.eval l (results (s.log f)) = ⟨s.log f, some (e, [])⟩
  /-- `co_await` of a promise gives what its body returns or throws as a function, given the results
      that were taken since the body began -/
  observed : ∀ f c r k, s.point f = .leaving c r k → ∃ b es e, s.code c = some b ∧
    s.log (s.root f) = s.before c ++ es ∧ b.run (results es) = ⟨es, some (e, [])⟩ ∧ r = e.result
  /-- the body of a promise does not begin before the promise is awaited; one that was called from
      outside may be discarded -/
  unstarted : ∀ c b, (s.point c = .temporary b → (s.runtime.frame c).phase = .initial) ∧
    (s.point c = .lazy b →
      (s.runtime.frame c).phase = .initial ∨ (s.runtime.frame c).phase.isOver = true)
  /-- a callee is destroyed before its caller goes on -/
  buried : Buried s
  /-- an outcome is always set -/
  set : ∀ f, s.point f ≠ .aborted
  /-- when all operations have completed, every coroutine that was called from outside is over,
      unless it was never awaited -/
  complete : Quiescent s.runtime → (∀ k, ¬ (s.runtime.susp k).Lost) → ∀ f, s.root f = f →
    s.code f ≠ none → (∃ b, s.point f = .lazy b) ∨ ∃ e, s.point f = .ended e

variable {s : Program V E L}

namespace Program

/-- The events since the body of a coroutine began, those of its callees among them, lead somewhere
    in its direct-style meaning. -/
theorem Told.follows (t : s.Told) (p : s.Placed) {x : FrameId}
    (hx : (s.point x).isLive = true) : ∃ m, Follows s x m := by
  -- a callee is younger than its caller
  induction hn : s.runtime.nextFrame - x using Nat.strong_induction_on generalizing x with
  | _ n ih =>
    subst hn
    have hstory := t.story x
    cases hpoint : s.point x with
    | lazy b | rest b =>
        rw [hpoint] at hstory
        exact ⟨b.run, hstory⟩
    | called c b k =>
        rw [hpoint] at hstory
        exact ⟨b.awaited k, hstory.1⟩
    | waiting c k =>
        rw [hpoint] at hstory
        obtain ⟨⟨b, d, es, hb, hd, hbefore, hm⟩, hcalls, hc⟩ := hstory
        have hlt : c < s.runtime.nextFrame := p.lt (by intro ha; rw [ha] at hc; cases hc)
        obtain ⟨n, d', fs, hd', hlog, hn⟩ :=
          ih _ (Nat.sub_lt_sub_left (Nat.lt_trans hcalls.lt hlt) hcalls.lt) hc rfl
        obtain rfl : d = d' := Option.some.inj (hd.symm.trans hd')
        refine ⟨_, b, es ++ ([.begins] ++ fs), hb, ?_, hm.awaiting hn⟩
        rw [← hcalls.root, hlog, hbefore]
        simp
    | leaving c r k =>
        rw [hpoint] at hstory
        exact ⟨goOn r k, hstory.1⟩
    | ended e =>
        rw [hpoint] at hstory
        exact ⟨pure e, hstory⟩
    | _ => rw [hpoint] at hx; cases hx

/-- A coroutine that was called from outside keeps its result. -/
theorem Told.outer_live (t : s.Told) (p : s.Placed) {f : FrameId} (hr : s.root f = f)
    (hc : s.code f ≠ none) : (s.point f).isLive = true := by
  have hinner := (t.outer f hr).2
  have hcoupled := p.coupled f
  cases hpoint : s.point f with
  | absent => exact absurd (t.coded f hpoint) hc
  | temporary | reaped => rw [hpoint] at hinner; cases hinner
  | aborted => rw [hpoint] at hcoupled; exact hcoupled.elim
  | _ => rfl

/-- The events of a coroutine that was called from outside begin with its body. -/
theorem Follows.outer (t : s.Told) {f : FrameId} {b : Body V E L} {m : Talk V E L (BodyEnd V E)}
    (hr : s.root f = f) (hb : s.code f = some b) (h : Follows s f m) :
    LeadsTo b.run (s.log f) m := by
  obtain ⟨d, es, hd, hlog, hm⟩ := h
  obtain rfl : b = d := Option.some.inj (hb.symm.trans hd)
  rw [hr, (t.outer f hr).1, List.nil_append] at hlog
  rwa [hlog]

theorem in_direct_style (p : s.Placed) (t : s.Told) (hb : Buried s) (hk : Kept s) :
    InDirectStyle s where
  trace C l f hr hc := by
    obtain ⟨m, hm⟩ := t.follows p (t.outer_live p hr (by simp [hc]))
    rw [← C.run_body]
    exact (Follows.outer t hr hc hm).reported
  result C l f e hr hc he := by
    have hstory := t.story f
    rw [he] at hstory
    rw [← C.run_body]
    exact (Follows.outer t hr hc hstory).course
  observed f c r k hf := by
    have hstory := t.story f
    rw [hf] at hstory
    obtain ⟨-, hcalls, -, e, rfl, b, es, hb, hlog, hm⟩ := hstory
    exact ⟨b, es, e, hb, by rw [← hcalls.root, hlog], hm.course, rfl⟩
  unstarted c b := by
    have hcoupled := p.coupled c
    refine ⟨fun hc => ?_, fun hc => ?_⟩
    · rw [hc] at hcoupled
      exact hcoupled.2
    · rw [hc] at hcoupled
      exact hcoupled.2.2
  buried := hb
  set f hf := by
    have hcoupled := p.coupled f
    rwa [hf] at hcoupled
  complete hq hl f hr hc := by
    have hlive := t.outer_live p hr hc
    have hover := p.settled hk hq hl f
    cases hpoint : s.point f with
    | lazy b => exact Or.inl ⟨b, rfl⟩
    | ended e => exact Or.inr ⟨e, rfl⟩
    | rest | called | waiting | leaving => rw [hpoint] at hover; cases hover
    | _ => rw [hpoint] at hlive; cases hlive

/-- What holds in every state of a program. -/
theorem reached (hs : Transition.Reachable machine Program.init s) :
    s.Placed ∧ s.Told ∧ Buried s ∧ Kept s := by
  refine hs.invariant (I := fun s => s.Placed ∧ s.Told ∧ Buried s ∧ Kept s) ⟨?_, ?_, ?_, ?_⟩ ?_
  · exact ⟨⟨[], .nil _⟩, ⟨nofun, nofun⟩, fun _ _ => rfl, fun _ => trivial⟩
  · exact ⟨fun _ => trivial, nofun, fun _ hx => absurd rfl hx, fun _ _ => ⟨rfl, rfl⟩,
      fun _ _ => rfl⟩
  · exact nofun
  · exact Or.inr nofun
  · rintro s m ⟨p, t, hb, hk⟩ h
    exact ⟨p.step h, t.step p h, buried_step hb p t h, kept_step hk p t h⟩

end Program

/-- **Asynchronous execution refines direct style**: for all programs of coroutines and under all
    schedules, with operations that complete eagerly or late and on any thread. -/
theorem refines_direct_style (hs : Transition.Reachable machine Program.init s) :
    InDirectStyle s := by
  obtain ⟨p, t, hb, hk⟩ := Program.reached hs
  exact Program.in_direct_style p t hb hk

/-- It awaits an operation, and makes of its exception a value; then it goes to another context, and
    throws what it has. -/
def relays : Coroutine Nat Nat Nat Nat where
  stmts := .seq (.effect id) <|
    .seq (.tryCatch (.awaitDeferred fun v _ => v) (fun e l => e + l) (.effect id)) <|
    .seq (.hop .post fun _ => ⟨.context 7, false⟩) <| .throw id
  last l := .returned l none

/-- It awaits `relays`, catches what that throws, and sleeps twice. -/
def catches : Coroutine Nat Nat Nat Nat where
  stmts := .seq
    (.tryCatch (.awaitPromise (fun _ => none) (fun _ => relays.stmts) (fun _ => 100) relays.last
      fun v _ => v) (fun e _ => e) (.effect id)) <|
    .seq (.awaitSleep fun v l => v + l) <| .awaitSleep fun v l => v + l
  last l := .returned l none

/-- A run of `catches` in which the operation fails at once, the first deadline has passed, and the
    second sleep lasts. -/
def caughtRun : List (Step Nat Nat Nat) :=
  [.launch (.detach [] none false) (catches.body 0), .advance 0, .advance 0, .advance 1, .advance 1,
   .around (.setValue 0 [] (.error 42)), .around (.resumeCompleted 0 []),
   .around (.initiationReturns 1 0), .around (.resumeAwaiting 1 0), .advance 1, .advance 1,
   .advance 1, .around (.plainResume 1 (.context 7)), .advance 1, .advance 1, .advance 0,
   .advance 0, .advance 0, .ready 0 (.ok 3), .advance 0, .around (.initiationReturns 0 2),
   .around (.resumeAwaiting 0 2), .around (.setValue 2 [] (.ok 5)),
   .around (.resumeCompleted 2 []), .around (.handlerResume 2 []), .advance 0, .advance 0]

/-- Everything completes, the exception of the callee is observed, and the events and the value are
    those of `catches` as a function. -/
theorem refines_direct_style_caught :
    let s := machine.exec Program.init caughtRun
    InDirectStyle s ∧ Quiescent s.runtime ∧ s.point 0 = .ended (.returned 150 none) ∧ s.log 0 =
      [.begins, .effect 100, .result (.error 42), .effect 142, .hopped, .destroyed,
        .observed (.error 142), .effect 142, .result (.ok 3), .result (.ok 5)] :=
  ⟨refines_direct_style (.of_legal (by decide)), by decide, rfl, rfl⟩

/-! ## Two schedules -/

/-- What was reported with some of the answers is reported with all of them. -/
theorem LeadsTo.reported_of_prefix {m n : Talk V E L (BodyEnd V E)} {es : List (Event V E L)}
    (h : LeadsTo m es n) {rs : List (Except E V)} (hrs : results es <+: rs) :
    es <+: (m rs).events := by
  obtain ⟨qs, rfl⟩ := hrs
  rw [show m (results es ++ qs) = _ from h qs]
  exact List.prefix_append ..

/-- **The schedule does not matter**: of two coroutines with the same body, called from outside in
    any two runs, one has done what the other has done so far, where the results that one has had
    are the first ones of the other; and they end alike. -/
theorem schedule_independent {s s' : Program V E L}
    (hs : Transition.Reachable machine Program.init s)
    (hs' : Transition.Reachable machine Program.init s') {f f' : FrameId} {b : Body V E L}
    (hr : s.root f = f) (hr' : s'.root f' = f') (hc : s.code f = some b)
    (hc' : s'.code f' = some b) (hres : results (s.log f) <+: results (s'.log f')) :
    (s.log f <+: s'.log f' ∨ s'.log f' <+: s.log f) ∧
      ∀ e, s.point f = .ended e → s'.log f' <+: s.log f ∧
        ∀ e', s'.point f' = .ended e' → s'.log f' = s.log f ∧ e' = e := by
  obtain ⟨p, t, -, -⟩ := Program.reached hs
  obtain ⟨p', t', -, -⟩ := Program.reached hs'
  obtain ⟨m, hm⟩ := t.follows p (t.outer_live p hr (by simp [hc]))
  obtain ⟨m', hm'⟩ := t'.follows p' (t'.outer_live p' hr' (by simp [hc']))
  have hlog := Program.Follows.outer t hr hc hm
  have hlog' := Program.Follows.outer t' hr' hc' hm'
  have hfirst := hlog.reported_of_prefix hres
  have hsecond := hlog'.reported_of_prefix (List.prefix_refl _)
  refine ⟨List.prefix_or_prefix_of_prefix hfirst hsecond, fun e he => ?_⟩
  have hstory := t.story f
  rw [he] at hstory
  have hend := Program.Follows.outer t hr hc hstory
  obtain ⟨qs, hqs⟩ := hres
  -- the events up to the end are all there are
  have hall : b.run (results (s'.log f')) = ⟨s.log f, some (e, qs)⟩ := by
    rw [← hqs, show b.run (results (s.log f) ++ qs) = _ from hend qs]
    simp [Dialogue.pure_apply, Dialogue.Course.after]
  rw [hall] at hsecond
  refine ⟨hsecond, fun e' he' => ?_⟩
  have hstory' := t'.story f'
  rw [he'] at hstory'
  have hcourse : b.run (results (s'.log f')) = ⟨s'.log f', some (e', [])⟩ :=
    (Program.Follows.outer t' hr' hc' hstory').course
  rw [hall] at hcourse
  simp_all

/-- Another run of `catches`, called as a promise and awaited from outside, in which nothing
    completes at once. -/
def lateRun : List (Step Nat Nat Nat) :=
  [.launch (.create none) (catches.body 0), .around (.startAwait [] 0), .advance 0, .advance 0,
   .advance 2, .advance 2, .around (.initiationReturns 2 1), .around (.resumeAwaiting 2 1),
   .around (.setValue 1 [.context 1] (.error 42)), .around (.resumeCompleted 1 [.context 1]),
   .around (.handlerResume 1 [.context 1]), .advance 2, .advance 2, .advance 2,
   .around (.plainResume 2 (.context 7)), .advance 2, .advance 2, .advance 0]

theorem schedule_independent_caught :
    let s := machine.exec Program.init lateRun
    let s' := machine.exec Program.init caughtRun
    s.log 0 <+: s'.log 0 ∨ s'.log 0 <+: s.log 0 :=
  And.left (schedule_independent (b := catches.body 0) (.of_legal (by decide))
    (.of_legal (by decide)) rfl rfl rfl rfl ⟨[.ok 3, .ok 5], rfl⟩)

end WebAsio.Coro.Direct
