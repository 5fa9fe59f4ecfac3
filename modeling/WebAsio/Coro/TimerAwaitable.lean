import WebAsio.Library.Transition
import Mathlib.Algebra.Ring.Nat
import Mathlib.Algebra.Order.Ring.Int
import Mathlib.Tactic.SplitIfs

set_option autoImplicit false

/-! # `basic_timer_awaitable`: the expiry that a sleep arms

`sleep_for` and `sleep_until` hand durations of any integral type and unit to a timer whose clock
counts nanoseconds in a word of 64 bits; the language converts them without a check. Boost.Asio adds
a duration to the time with saturation, and completes a wait with success when the clock has reached
the expiry, or with an error when it is cancelled.

Signed overflow in the conversion, which has no defined behaviour, is modelled as the wrapping
around of two's complement. -/

namespace WebAsio.Coro.Timer

open Transition

/-- An integral type: `bits` is its width, the sign included. -/
structure IntegralType where
  signed : Bool
  bits : Nat

def IntegralType.Contains (r : IntegralType) (n : Int) : Prop :=
  if r.signed then -2 ^ (r.bits - 1) ≤ n ∧ n < 2 ^ (r.bits - 1) else 0 ≤ n ∧ n < 2 ^ r.bits

instance (r : IntegralType) (n : Int) : Decidable (r.Contains n) :=
  inferInstanceAs (Decidable (if r.signed then _ ∧ _ else _ ∧ _))

/-- `std::chrono::duration<Rep, std::ratio<num, den>>` that is converted to nanoseconds implicitly:
    its unit is a whole number of them. -/
structure Duration where
  rep : IntegralType
  num : Nat
  den : Nat
  num_pos : 0 < num
  den_pos : 0 < den
  whole : den ∣ num * 10 ^ 9
  count : Int
  inRange : rep.Contains count

namespace Duration

/-- The nanoseconds of a unit, the `num` of the quotient of the two periods. -/
def factor (d : Duration) : Nat := d.num * 10 ^ 9 / d.den

/-- The nanoseconds of the duration, exactly. -/
def nanoseconds (d : Duration) : Int := d.count * d.factor

/-- The implicit conversion: `duration_cast`, which multiplies in the common type of the two
    representations and `intmax_t`. -/
def convert (d : Duration) : Int :=
  let w := max 64 d.rep.bits
  ((BitVec.ofInt w d.count * BitVec.ofInt w d.factor).setWidth 64).toInt

end Duration

/-- `time_point::max()` and `time_point::min()`, since the epoch. -/
def maxTime : Int := 2 ^ 63 - 1
def minTime : Int := -2 ^ 63

/-- `Time_Traits::add` -/
def add (t d : Int) : Int := max minTime (min maxTime (t + d))

inductive ErrorCode
  | success
  | operationAborted
  deriving DecidableEq

/-- Where the coroutine is. -/
inductive Phase
  /-- in its body, with what the last sleep returned -/
  | body (last : Option (ErrorCode × Int))
  /-- about to call `await_ready` of a sleep -/
  | armed
  /-- in `async_wait` -/
  | suspended
  deriving DecidableEq

def Phase.inBody : Phase → Bool
  | .body _ => true
  | _ => false

/-- A coroutine, its steady timer, and the clock. The last field is the time, in exact arithmetic,
    before which the sleep must not succeed. -/
structure State where
  now : Int
  expiry : Int
  phase : Phase
  due : Int

namespace State

/-- The clock may show any time. -/
def init (now : BitVec 64) : State := ⟨now.toInt, 0, .body none, 0⟩

end State

inductive Action
  /-- the clock goes on -/
  | tick (now : Int)
  | sleepFor (d : Duration)
  /-- the time point is given by the duration since the epoch -/
  | sleepUntil (d : Duration)
  | awaitReady
  /-- the handler of `async_wait` resumes the coroutine -/
  | complete (ec : ErrorCode)

namespace State

/-- A wait succeeds once the clock has reached the expiry, and can be cancelled at any time. -/
def Enabled (s : State) : Action → Prop
  | .tick now => s.now ≤ now ∧ now ≤ maxTime
  | .sleepFor _ | .sleepUntil _ => s.phase.inBody = true
  | .awaitReady => s.phase = .armed
  | .complete ec => s.phase = .suspended ∧ (ec = .success → s.expiry ≤ s.now)

/-- `timer_.expires_after(expiry)` -/
def expiresAfter (s : State) (d : Int) : State := { s with expiry := add s.now d }

/-- `timer_.expires_at(expiry)` -/
def expiresAt (s : State) (t : Int) : State := { s with expiry := t }

/-- `await_ready` -/
def awaitReady (s : State) : Bool := s.expiry ≤ s.now

/-- `await_resume` -/
def awaitResume (s : State) (ec : ErrorCode) : State :=
  { s with phase := .body (some (ec, s.expiry)) }

def next (s : State) : Action → State
  | .tick now => { s with now := now }
  | .sleepFor d => { s.expiresAfter d.convert with phase := .armed, due := s.now + d.nanoseconds }
  | .sleepUntil d => { s.expiresAt d.convert with phase := .armed, due := d.nanoseconds }
  | .awaitReady => if s.awaitReady then s.awaitResume .success else { s with phase := .suspended }
  | .complete ec => s.awaitResume ec

/-- The time that the sleep waits for, as far as the clock can tell it. -/
def DueReached (s : State) (t : Int) : Prop := min s.due maxTime ≤ t

/-- A sleep arms an expiry that is not before its time, and the coroutine does not go on with
    success before. -/
def StepOk (s : State) : Action → Prop
  | .tick _ => True
  | .sleepFor d => (s.next (.sleepFor d)).DueReached (s.next (.sleepFor d)).expiry
  | .sleepUntil d => (s.next (.sleepUntil d)).DueReached (s.next (.sleepUntil d)).expiry
  | .awaitReady => s.awaitReady = true → s.DueReached s.now
  | .complete ec => ec = .success → s.DueReached s.now

end State

def machine : System State Action := ⟨State.Enabled, State.next⟩

/-- The nanoseconds fit into a word; or they do not, and what remains of them in a word, added to
    `t`, happens to reach the end of time. -/
def Covers (t : Int) (d : Duration) : Prop :=
  d.nanoseconds ≤ maxTime ∨
    ∃ j : Int, maxTime - t ≤ d.nanoseconds - 2 ^ 64 * j ∧ d.nanoseconds - 2 ^ 64 * j ≤ maxTime

/-- The condition on the durations slept for, and the clock at that time. -/
def Convertible (s : State) : Action → Prop
  | .sleepFor d => Covers s.now d
  | .sleepUntil d => Covers 0 d
  | _ => True

instance (s : State) (a : Action) : Decidable (machine.enabled s a) :=
  match a with
  | .tick now => inferInstanceAs (Decidable (s.now ≤ now ∧ now ≤ maxTime))
  | .sleepFor _ | .sleepUntil _ => inferInstanceAs (Decidable (s.phase.inBody = true))
  | .awaitReady => inferInstanceAs (Decidable (s.phase = .armed))
  | .complete ec =>
    inferInstanceAs (Decidable (s.phase = .suspended ∧ (ec = .success → s.expiry ≤ s.now)))

/-! ## The conversion -/

/-- The conversion wraps around. -/
theorem Duration.convert_eq (d : Duration) : d.convert = d.nanoseconds.bmod (2 ^ 64) := by
  have hdvd : ((2 ^ 64 : Nat) : Int) ∣ ((2 ^ max 64 d.rep.bits : Nat) : Int) :=
    Int.natCast_dvd_natCast.mpr (Nat.pow_dvd_pow 2 (Nat.le_max_left _ _))
  have hpos : 0 < 2 ^ max 64 d.rep.bits := Nat.two_pow_pos _
  unfold Duration.convert Duration.nanoseconds
  simp only
  rw [← BitVec.ofInt_mul, BitVec.toInt_setWidth, BitVec.toNat_ofInt,
    Int.toNat_of_nonneg (Int.emod_nonneg _ (by omega)), ← Int.emod_bmod,
    Int.emod_emod_of_dvd _ hdvd, Int.emod_bmod]

theorem Duration.convert_spec (d : Duration) :
    minTime ≤ d.convert ∧ d.convert ≤ maxTime ∧
      ∃ j : Int, d.convert = d.nanoseconds - 2 ^ 64 * j := by
  rw [convert_eq]
  have hle := Int.le_bmod (x := d.nanoseconds) (m := 2 ^ 64) (by decide)
  have hlt := Int.bmod_lt (x := d.nanoseconds) (m := 2 ^ 64) (by decide)
  have hj := Int.bmod_eq_self_sub_mul_bdiv d.nanoseconds (2 ^ 64)
  unfold minTime maxTime
  refine ⟨?_, ?_, Int.bdiv d.nanoseconds (2 ^ 64), hj⟩
  · omega
  · omega

/-- Counted from a time `t`, the duration converted is as long as the exact one, as far as the clock
    can tell, exactly when the exact one is covered. -/
theorem covers_iff {t : Int} (ht : minTime ≤ t) (d : Duration) :
    min (t + d.nanoseconds) maxTime ≤ add t d.convert ↔ Covers t d := by
  obtain ⟨hmin, hmax, j, hj⟩ := d.convert_spec
  unfold add Covers
  unfold minTime maxTime at *
  constructor
  · intro h
    by_cases hd : d.nanoseconds ≤ 2 ^ 63 - 1
    · exact Or.inl hd
    · exact Or.inr ⟨j, by omega, by omega⟩
  · rintro (hd | ⟨i, hi, hi'⟩)
    · omega
    · omega

/-- The same for a time point. -/
theorem covers_zero_iff (d : Duration) :
    min d.nanoseconds maxTime ≤ d.convert ↔ Covers 0 d := by
  obtain ⟨hmin, hmax, _⟩ := d.convert_spec
  have hadd : add 0 d.convert = d.convert := by
    unfold add
    omega
  have h := covers_iff (t := 0) (by decide) d
  rw [hadd, Int.zero_add] at h
  exact h

/-! ## Runs -/

variable {s : State}

/-- The timer does not expire before the time of the sleep that waits for it. -/
structure Punctual (s : State) : Prop where
  clock : minTime ≤ s.now
  timer : s.phase.inBody = false → s.DueReached s.expiry

theorem Punctual.init (now : BitVec 64) : Punctual (State.init now) := by
  refine ⟨?_, fun h => Bool.noConfusion h⟩
  have h := BitVec.le_toInt now
  exact h

theorem stepOk_iff (hs : Punctual s) {a : Action} (ha : machine.enabled s a) :
    s.StepOk a ↔ Convertible s a := by
  cases a with
  | tick now => exact Iff.rfl
  | sleepFor d => exact covers_iff hs.clock d
  | sleepUntil d => exact covers_zero_iff d
  | awaitReady =>
      refine iff_of_true (fun h => ?_) trivial
      have hbody : s.phase.inBody = false := by rw [show s.phase = .armed from ha]; rfl
      exact Int.le_trans (hs.timer hbody) (of_decide_eq_true h)
  | complete ec =>
      refine iff_of_true (fun h => ?_) trivial
      have hbody : s.phase.inBody = false := by rw [ha.1]; rfl
      exact Int.le_trans (hs.timer hbody) (ha.2 h)

theorem Punctual.next (hs : Punctual s) {a : Action} (ha : machine.enabled s a)
    (hc : Convertible s a) : Punctual (s.next a) := by
  cases a with
  | tick now => exact ⟨Int.le_trans hs.clock ha.1, hs.timer⟩
  | sleepFor d => exact ⟨hs.clock, fun _ => (covers_iff hs.clock d).mpr hc⟩
  | sleepUntil d => exact ⟨hs.clock, fun _ => (covers_zero_iff d).mpr hc⟩
  | awaitReady =>
      have hbody : s.phase.inBody = false := by rw [show s.phase = .armed from ha]; rfl
      simp only [State.next]
      split_ifs
      · exact ⟨hs.clock, fun h => Bool.noConfusion h⟩
      · exact ⟨hs.clock, fun _ => hs.timer hbody⟩
  | complete ec => exact ⟨hs.clock, fun h => Bool.noConfusion h⟩

/-- In a run of a coroutine with any sleeps, whatever the clock shows and whenever waits complete,
    no sleep arms too early an expiry or succeeds before its time, exactly when every duration and
    time point that is slept for is covered by the conversion. -/
theorem sleep_never_early_iff (now : BitVec 64) {as : List Action} {s : State}
    (h : Run machine (State.init now) as s) :
    Along machine State.StepOk (State.init now) as ↔
      Along machine Convertible (State.init now) as :=
  h.along_iff (Punctual.init now) (fun _ _ hs ha => stepOk_iff hs ha)
    fun _ _ hs ha hc => hs.next ha hc

/-- 200 milliseconds, slept to the end. -/
def shortSleep : Duration where
  rep := ⟨true, 64⟩
  num := 1
  den := 1000
  num_pos := by decide
  den_pos := by decide
  whole := by decide
  count := 200
  inRange := by decide

/-- `std::chrono::nanoseconds::max()` -/
def longSleep : Duration where
  rep := ⟨true, 64⟩
  num := 1
  den := 10 ^ 9
  num_pos := by decide
  den_pos := by decide
  whole := by decide
  count := 2 ^ 63 - 1
  inRange := by decide

/-- A short sleep, and one for as long as nanoseconds can tell that is cancelled. -/
theorem sleep_never_early_iff_long :
    Along machine State.StepOk (State.init 5)
      [.sleepFor shortSleep, .awaitReady, .tick 200000005, .complete .success, .sleepFor longSleep,
        .awaitReady, .complete .operationAborted] := by
  refine (sleep_never_early_iff 5 (.of_legal (by decide))).mpr ?_
  exact ⟨Or.inl (by decide), trivial, trivial, trivial, Or.inl (by decide), trivial, trivial,
    trivial⟩

/-- `std::chrono::duration<std::uint64_t>::max()` -/
def forever : Duration where
  rep := ⟨false, 64⟩
  num := 1
  den := 1
  num_pos := by decide
  den_pos := by decide
  whole := by decide
  count := 2 ^ 64 - 1
  inRange := by decide

/-- A sleep for ever arms an expiry in the past, and is over at once. -/
theorem sleep_forever_returns :
    Run machine (State.init 5) [.sleepFor forever, .awaitReady]
        ⟨5, -999999995, .body (some (.success, -999999995)), 5 + (2 ^ 64 - 1) * 10 ^ 9⟩ ∧
      ¬ Along machine State.StepOk (State.init 5) [.sleepFor forever, .awaitReady] := by
  refine ⟨.of_legal (by decide), fun h => ?_⟩
  have hdue : min (5 + forever.nanoseconds) maxTime ≤ add 5 forever.convert := h.1
  revert hdue
  decide

end WebAsio.Coro.Timer
