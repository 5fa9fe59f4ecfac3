import WebAsio.Asio.Yield
import WebAsio.Library.Outline

set_option autoImplicit false

/-! # `test_operation`: a composed operation

The operation of `example/test.hpp` enters a strand, waits in it until a wait fails or `count` of
them have succeeded, leaves the strand and completes. `E` are the errors; `none` is an `error_code`
without one.

What is bound to the strand runs inside it. What is dispatched to it does not have to: inside the
strand `asio::dispatch` hands its handler on to the executor associated with that. `inside` tells
whether this executor runs the handler on the spot, as it is when none is associated with it. -/

namespace WebAsio.Asio.TestOperation

open Transition Switch

variable {E : Type}

/-- `enum class state` -/
inductive Point
  | start
  | enter
  | wait
  | done
  deriving DecidableEq

/-- What the operation initiates, each with its `self` as the handler. -/
inductive Initiation (E : Type)
  | dispatch
  /-- `async_wait`, with whether the expiry was set since the last one -/
  | asyncWait (armed : Bool)
  | post (ec : Option E)

/-- A line of the log, with `count` and whether the strand is running in this thread. -/
structure Entry where
  text : String
  count : Nat
  inStrand : Bool
  deriving DecidableEq

/-- `self.complete(ec)`, and where it was called. -/
structure Completion (E : Type) where
  ec : Option E
  proxyReset : Bool
  inStrand : Bool
  deriving DecidableEq

/-- The members that change, the argument of the call, and what has happened. The strand is made by
    `test`, so only what is bound to it runs in it. -/
structure Operation (E : Type) where
  count : Nat := 3
  ec : Option E := none
  inStrand : Bool := false
  armed : Bool := false
  proxyReset : Bool := false
  completed : List (Completion E) := []
  log : List Entry := []

namespace Operation

def info (text : String) (x : Operation E) : Operation E :=
  { x with log := ⟨text, x.count, x.inStrand⟩ :: x.log }

def expiresAfter (x : Operation E) : Operation E := { x with armed := true }
def decrement (x : Operation E) : Operation E := { x with count := x.count - 1 }
def reset (x : Operation E) : Operation E := { x with proxyReset := true }

def complete (x : Operation E) : Operation E :=
  { x with completed := ⟨x.ec, x.proxyReset, x.inStrand⟩ :: x.completed }

/-- `!ec && count > 0` -/
def goesOn (x : Operation E) : Bool := x.ec.isNone && decide (0 < x.count)

/-- The call with which an initiation completes: the one that was dispatched, with no argument; that
    of a wait, which is bound to the strand, with the error of the wait; and `prepend` passes on the
    error that it was given. -/
def call (inside : Bool) : Initiation E → Option E → Operation E → Operation E
  | .dispatch, _, x => { x with ec := none, inStrand := inside }
  | .asyncWait _, ec, x => { x with ec := ec, inStrand := true, armed := false }
  | .post ec, _, x => { x with ec := ec, inStrand := false }

end Operation

open Operation

/-- The `while` loop. -/
def loopBody : Body (Operation E) (Initiation E) Point :=
  .loop goesOn
    (.seq (.act expiresAfter)
    (.seq (.await .wait fun x => .asyncWait x.armed)
    (.seq (.act decrement)
    (.act (info "Resume Loop")))))

/-- What the `switch` of `operator()` does, from its first label on. -/
def body : Body (Operation E) (Initiation E) Point :=
  .seq (.act (info "Start"))
  (.seq (.await .enter fun _ => .dispatch)
  (.seq (.act (info "Enter Loop"))
  (.seq loopBody
  (.seq (.act (info "Exit Loop"))
  (.seq (.await .done fun x => .post x.ec)
  (.seq (.act (info "Complete"))
  (.seq (.act reset)
  (.act complete))))))))

/-- `operator()` -/
def operator : Stmt (Operation E) (Initiation E) Point := Yield.operation .start body

/-- The waits came to these results and left this `count` and `ec`: all have succeeded but the last,
    whose result is `ec`. -/
structure Waited (n : Nat) (ws : List (Option E)) (count : Nat) (ec : Option E) : Prop where
  counted : ws.length + count = n
  succeeded : ec = none → ws = List.replicate ws.length none
  failed : ∀ e, ec = some e → ws = List.replicate (ws.length - 1) none ++ [some e]

/-- After the answers `rs`, of which the first is that of the dispatch, the operation is inside the
    strand: always once a wait is over, and before that if the dispatched call was. -/
def InStrand (inside : Bool) (rs : List (Option E)) (x : Operation E) : Prop :=
  x.inStrand = (inside || decide (1 < rs.length))

/-- What holds while the operation waits, after the answers `rs`: it has not completed, and waits in
    the strand, if the dispatched call runs there, for an expiry set anew and at most `n` times. -/
def Promise (n : Nat) (inside : Bool) (rs : List (Option E)) (i : Initiation E)
    (x : Operation E) : Prop :=
  x.completed = [] ∧
    match i with
    | .dispatch => rs = []
    | .asyncWait armed => armed = true ∧ InStrand inside rs x ∧ rs.length ≤ n
    | .post ec => InStrand inside rs x ∧ ∃ d ws count, rs = d :: ws ∧ Waited n ws count ec ∧
        (ec = none → count = 0)

/-- Before the strand is entered. -/
def Entering (n : Nat) : Condition (Operation E) (Option E) := fun rs x =>
  rs = [] ∧ x.completed = [] ∧ x.count = n

/-- The invariant of the loop. -/
def Looping (n : Nat) (inside : Bool) : Condition (Operation E) (Option E) := fun rs x =>
  x.completed = [] ∧ InStrand inside rs x ∧ ∃ d ws, rs = d :: ws ∧ Waited n ws x.count x.ec

/-- Inside the loop, before the wait. -/
def Armed (n : Nat) (inside : Bool) : Condition (Operation E) (Option E) := fun rs x =>
  Looping n inside rs x ∧ x.armed = true ∧ x.ec = none ∧ 0 < x.count

/-- The operation has completed once, outside the strand and with the proxy reset. -/
def Completed (n : Nat) : Condition (Operation E) (Option E) := fun rs x =>
  ∃ d ws count p ec, rs = d :: ws ++ [p] ∧ Waited n ws count ec ∧ (ec = none → count = 0) ∧
    x.completed = [⟨ec, true, false⟩]

theorem goesOn_iff {x : Operation E} : x.goesOn = true ↔ x.ec = none ∧ 0 < x.count := by
  simp [goesOn]

/-- One more wait. -/
theorem Waited.snoc {n count : Nat} {ws : List (Option E)} (h : Waited n ws count none)
    (hc : 0 < count) (ec : Option E) : Waited n (ws ++ [ec]) (count - 1) ec := by
  have hws := h.succeeded rfl
  have hcounted := h.counted
  constructor
  · rw [List.length_append, List.length_singleton]
    omega
  · rintro rfl
    rw [List.length_append, List.length_singleton, List.replicate_succ', ← hws]
  · rintro e rfl
    rw [List.length_append, List.length_singleton, Nat.add_sub_cancel, ← hws]

section Outlines

variable {n : Nat} {inside : Bool}

theorem Armed.answer {rs : List (Option E)} {x : Operation E} (h : Armed n inside rs x)
    (a : Option E) : Looping n inside (rs ++ [a])
      (info "Resume Loop" (decrement (call inside (.asyncWait x.armed) a x))) := by
  obtain ⟨⟨hdone, hstrand, d, ws, rfl, hw⟩, -, hec, hcount⟩ := h
  rw [hec] at hw
  refine ⟨hdone, ?_, d, ws ++ [a], rfl, hw.snoc hcount a⟩
  simp [InStrand, info, decrement, call]

theorem outline_loop : Outline (call inside) (Promise n inside) (Looping n inside)
    (loopBody (E := E)) fun rs x => Looping n inside rs x ∧ x.goesOn = false := by
  refine .loop (.weaken ?_ (.seq (.act _ (Armed n inside)) (.seq (.await ?_ ?_)
    (.seq (.act _ _) (.act _ (Looping n inside))))) fun _ _ => id)
  · rintro rs x ⟨⟨hdone, hstrand, hws⟩, hgoes⟩
    obtain ⟨hec, hcount⟩ := goesOn_iff.mp hgoes
    exact ⟨⟨hdone, hstrand, hws⟩, rfl, hec, hcount⟩
  · rintro rs x ⟨⟨hdone, hstrand, d, ws, rfl, hw⟩, harmed, -, hcount⟩
    have hcounted := hw.counted
    refine ⟨hdone, harmed, hstrand, ?_⟩
    rw [List.length_cons]
    omega
  · exact fun rs x a h => h.answer a

theorem outline_enter : Outline (call inside) (Promise n inside) (Entering n)
    (.await Point.enter fun _ => .dispatch) (Looping (E := E) n inside) := by
  refine .await ?_ ?_
  · rintro rs x ⟨hrs, hdone, -⟩
    exact ⟨hdone, hrs⟩
  · rintro rs x a ⟨rfl, hdone, hcount⟩
    refine ⟨hdone, ?_, a, [], rfl, ?_, fun _ => rfl, ?_⟩
    · simp [InStrand, call]
    · exact (Nat.zero_add _).trans hcount
    · rintro e h
      cases h

theorem outline_done : Outline (call inside) (Promise n inside)
    (fun rs x => Looping n inside rs x ∧ x.goesOn = false) (.await Point.done fun x => .post x.ec)
    fun rs x => Completed (E := E) n rs (complete (reset x)) := by
  have hend : ∀ x : Operation E, x.goesOn = false → x.ec = none → x.count = 0 := by
    intro x hx hec
    by_contra hc
    rw [goesOn_iff.mpr ⟨hec, Nat.pos_of_ne_zero hc⟩] at hx
    cases hx
  refine .await ?_ ?_
  · rintro rs x ⟨⟨hdone, hstrand, d, ws, hrs, hw⟩, hx⟩
    exact ⟨hdone, hstrand, d, ws, x.count, hrs, hw, hend x hx⟩
  · rintro rs x a ⟨⟨hdone, hstrand, d, ws, rfl, hw⟩, hx⟩
    refine ⟨d, ws, x.count, a, x.ec, rfl, hw, hend x hx, ?_⟩
    simp only [complete, reset, call, hdone]

theorem outline_body : Outline (call inside) (Promise n inside) (Entering n) (body (E := E))
    (Completed n) :=
  .seq (.act (info "Start") (Entering n))
    (.seq outline_enter
    (.seq (.act (info "Enter Loop") (Looping n inside))
    (.seq outline_loop
    (.seq (.act (info "Exit Loop") fun rs x => Looping n inside rs x ∧ x.goesOn = false)
    (.seq outline_done
    (.seq (.act (info "Complete") fun rs x => Completed n rs (complete (reset x)))
    (.seq (.act reset fun rs x => Completed n rs (complete x))
    (.act complete (Completed n)))))))))

end Outlines

/-- **`test_operation` completes once.** However its calls, their returns and the completions of
    what it initiates are ordered, and wherever Boost.Asio runs the call that was dispatched to the
    strand: as long as it waits it has not completed, it sets the expiry before each wait and waits
    at most `count` times, in the strand but for the first wait, which is made where the dispatched
    call runs; when it is over, it has completed once, outside the strand and with its proxy reset,
    with the error of the wait that failed, or with none after `count` waits. -/
theorem test_operation_completes {n : Nat} (inside : Bool) {as : List (Action (Option E))}
    {t : Caller (Operation E) (Initiation E) Point}
    (h : Run (Caller.machine operator (call inside)) (Caller.start operator .start { count := n })
      as t) :
    (∀ i, t.status = .waiting i → Promise n inside (answers as) i t.object) ∧
      (t.status = .finished → Completed n (answers as) t.object) := by
  have hlabels : (Point.start :: (body (E := E)).labels).Nodup :=
    (by decide : [Point.start, .enter, .wait, .done].Nodup)
  obtain ⟨bs, u, hrun, hanswers, hagrees⟩ :=
    (Yield.agrees_start body .start { count := n }).run_forward hlabels h
  obtain ⟨hwaits, hover⟩ := outline_body.sound ⟨rfl, rfl, rfl⟩ hrun
  rw [hagrees.view.1, hagrees.view.2, ← hanswers]
  exact ⟨hwaits, hover⟩

/-- The second wait fails, and two calls return late. -/
def failedWait : List (Action (Option String)) :=
  List.replicate 8 .step ++ .resume none :: List.replicate 13 .step ++
    .resume none :: .leave :: List.replicate 13 .step ++ .resume (some "aborted") ::
    List.replicate 13 .step ++ .resume none :: .leave :: .leave :: List.replicate 6 .step

/-- An executor of its own is associated with the handler, so the first wait is made outside. -/
theorem legal_failedWait :
    (Caller.machine (operator (E := String)) (call false)).Legal
      (Caller.start operator .start { count := 3 }) failedWait := by decide

theorem test_operation_completes_failed :
    let t := (Caller.machine operator (call false)).exec
      (Caller.start operator .start { count := 3 }) failedWait
    (∀ i, t.status = .waiting i →
        Promise 3 false [none, none, some "aborted", none] i t.object) ∧
      (t.status = .finished → Completed 3 [none, none, some "aborted", none] t.object) :=
  test_operation_completes false (Run.of_legal legal_failedWait)

end WebAsio.Asio.TestOperation
