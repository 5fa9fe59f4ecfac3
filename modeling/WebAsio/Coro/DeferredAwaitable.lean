import WebAsio.Library.Transition
import WebAsio.Coro.Outcome
import WebAsio.Coro.ResumeContext
import Mathlib.Tactic.SplitIfs

set_option autoImplicit false

/-! # `deferred_awaitable`: awaiting an operation with any completion signature

A leading error parameter is stripped twice: by `asio_outcome` from the types of the signature, when
the awaitable is declared, and by `set_value` from the arguments that the handler is invoked with,
whose types are known up to `const` and references only. The two agree unless the signature begins
with a reference to an error type, which `asio_outcome` keeps: `set_value` does not compile then.

What `set_value` constructs may throw. The exception leaves the handler's call, and the handler is
destroyed with its `handle_` still set. -/

namespace WebAsio.Coro.Deferred

open Transition

/-- The types that occur in signatures: any number of value types, none of which is an error type
    that is stripped, and the error types, with what the code relies on: which value types can be
    copied (all can be moved), when an error is set, how a Boost error code converts, and the
    `exception_ptr` made of a `system_error`. -/
structure Types where
  Base : Type
  val : Base → Type
  copyable : Base → Bool
  StdCode : Type
  BoostCode : Type
  Exception : Type
  stdSet : StdCode → Bool
  boostSet : BoostCode → Bool
  toStd : BoostCode → StdCode
  systemError : StdCode → Exception

/-- A type without `const` and references. -/
inductive Ty (L : Types)
  | errorCode
  | boostErrorCode
  | exceptionPtr
  | base (b : L.Base)

instance (L : Types) [DecidableEq L.Base] : DecidableEq (Ty L) := fun
  | .errorCode, .errorCode | .boostErrorCode, .boostErrorCode
  | .exceptionPtr, .exceptionPtr => .isTrue rfl
  | .base b, .base c => decidable_of_iff (b = c) ⟨congrArg _, Ty.base.inj⟩
  | .errorCode, .boostErrorCode | .errorCode, .exceptionPtr | .errorCode, .base _
  | .boostErrorCode, .errorCode | .boostErrorCode, .exceptionPtr | .boostErrorCode, .base _
  | .exceptionPtr, .errorCode | .exceptionPtr, .boostErrorCode | .exceptionPtr, .base _
  | .base _, .errorCode | .base _, .boostErrorCode | .base _, .exceptionPtr => .isFalse nofun

/-- What a parameter is: an object, whose `const` is no part of the signature, or a reference. -/
inductive Ref
  | object
  | lvalue (const : Bool)
  | rvalue (const : Bool)
  deriving DecidableEq

/-- A parameter of a completion signature. -/
structure Param (L : Types) where
  type : Ty L
  ref : Ref

variable {L : Types}

/-- The values of a type; a null `exception_ptr` is `none`. -/
def Ty.Val : Ty L → Type
  | .errorCode => L.StdCode
  | .boostErrorCode => L.BoostCode
  | .exceptionPtr => Option L.Exception
  | .base b => L.val b

def Ty.isError : Ty L → Bool
  | .base _ => false
  | _ => true

def Ty.copyable : Ty L → Bool
  | .base b => L.copyable b
  | _ => true

/-- Constructing it may throw: an object of a value type. -/
def Param.mayThrow (p : Param L) : Bool := !p.type.isError && p.ref == .object

/-- Values for a list of parameters; a reference is given by what it refers to. -/
inductive Values (L : Types) : List (Param L) → Type
  | nil : Values L []
  | cons {p : Param L} {ts : List (Param L)} (v : p.type.Val) (vs : Values L ts) :
      Values L (p :: ts)

/-! ## Types -/

/-- `asio_outcome`: the types of the `outcome` for a signature. -/
def asioOutcome : List (Param L) → List (Param L)
  | ⟨.errorCode, .object⟩ :: ts => ts
  | ⟨.boostErrorCode, .object⟩ :: ts => ts
  | ⟨.exceptionPtr, .object⟩ :: ts => ts
  | ts => ts

/-- The signature begins with a reference to an error type. -/
def ledByReference : List (Param L) → Bool
  | [] => false
  | p :: _ => p.type.isError && p.ref != .object

/-- `outcome<Ts...>::value_type`: `void` for no type, the type for one, a tuple for more. -/
def ValueType : List (Param L) → Type
  | [] => Unit
  | [p] => p.type.Val
  | ts => Values L ts

/-- `outcome<Ts...>`; of a tuple, the primary template is `outcome<std::tuple<Ts...>>`. -/
abbrev Result (L : Types) (ts : List (Param L)) : Type := Outcome (ValueType ts) L.Exception

/-- The value constructed from arguments of exactly the types of the outcome. -/
def ValueType.of : {ts : List (Param L)} → Values L ts → ValueType ts
  | [], _ => ()
  | [_], .cons v .nil => v
  | _ :: _ :: _, vs => vs

/-- What constructing a value of the types `ts` throws, given what constructors throw. -/
def raised (ts : List (Param L)) (throws : Option L.Exception) : Option L.Exception :=
  if ts.any Param.mayThrow then throws else none

namespace Result

/-- `set_value` of `outcome<void>` stores nothing, the others construct the value in place. -/
def setValue (throws : Option L.Exception) :
    {ts : List (Param L)} → Result L ts → Values L ts → Except L.Exception (Result L ts)
  | [], o, _ => .ok o
  | p :: ts, _, vs => (raised (p :: ts) throws).elim (.ok (.value (ValueType.of vs))) .error

/-- `set_exception` of a `system_error`, whose constructor makes its message. -/
def setSystemError {ts : List (Param L)} (throws : Option L.Exception) (c : L.StdCode) :
    Except L.Exception (Result L ts) :=
  throws.elim (.ok (.exception (L.systemError c))) .error

/-- What is to be rethrown or returned: `outcome<void>` returns unless there is an exception; on the
    others, `none` stands for `bug_abort`. -/
def held : {ts : List (Param L)} → Result L ts → Option (Except L.Exception (ValueType ts))
  | [], .nothing => some (.ok ())
  | _, o => Outcome.get o

variable {ts : List (Param L)}

/-- What moving the value out throws. -/
def raises (throws : Option L.Exception) : Result L ts → Option L.Exception
  | .value _ => raised ts throws
  | _ => none

/-- `get`: moves the value out, or rethrows. -/
def get (throws : Option L.Exception) (o : Result L ts) :
    Option (Except L.Exception (ValueType ts)) :=
  (o.raises throws).elim o.held fun e => some (.error e)

end Result

/-! ## Arguments -/

/-- `const` and reference qualifiers of an argument. -/
structure Qualifier where
  const : Bool
  lvalue : Bool
  deriving DecidableEq

/-- An argument of the handler's call: its qualifiers, its type without them, and its value. -/
structure Argument (L : Types) where
  qualifier : Qualifier
  type : Ty L
  value : type.Val

/-- The arguments of a call with the values `vs`, qualified in any way. -/
def arguments : {ts : List (Param L)} → List Qualifier → Values L ts → List (Argument L)
  | _, _, .nil => []
  | _, [], .cons v vs => ⟨⟨false, false⟩, _, v⟩ :: arguments [] vs
  | _, q :: qs, .cons v vs => ⟨q, _, v⟩ :: arguments qs vs

/-- A parameter can be constructed from an argument of its type. Where it is the only one, a
    reference is stored as a `std::reference_wrapper`, which takes no temporary. -/
def Param.takes (alone : Bool) (p : Param L) (q : Qualifier) : Bool :=
  match p.ref with
  | .object => p.type.copyable || (!q.lvalue && !q.const)
  | .lvalue const => (q.lvalue || (const && !alone)) && (const || !q.const)
  | .rvalue const => !alone && !q.lvalue && (const || !q.const)

/-- Every parameter takes the argument in its place. -/
def binds (alone : Bool) (ts : List (Param L)) (as : List (Argument L)) : Bool :=
  (ts.zip as).all fun x => x.1.takes alone x.2.qualifier

section SetValue

variable [DecidableEq L.Base]

/-- Construction from a list of arguments: possible when their number and types are right and each
    can be taken. -/
def fit (alone : Bool) : (ts : List (Param L)) → List (Argument L) → Option (Values L ts)
  | [], [] => some .nil
  | p :: ts, a :: as =>
    if h : a.type = p.type then
      if p.takes alone a.qualifier then (fit alone ts as).map (Values.cons (h ▸ a.value)) else none
    else none
  | _, _ => none

variable {ts : List (Param L)}

/-- `result_.set_value(args...)`; `none` when it does not compile. -/
def setResult (throws : Option L.Exception) (o : Result L ts) (as : List (Argument L)) :
    Option (Except L.Exception (Result L ts)) :=
  (fit (ts.length == 1) ts as).map (o.setValue throws)

/-- The overloads of `set_value` of the awaitable. The `if constexpr` tests compare
    `std::remove_cvref_t<CArg>`, so qualifiers play no role; in the branch taken, the call for an
    error that is not set has to compile even if one is. -/
def setValue (throws : Option L.Exception) (o : Result L ts) :
    List (Argument L) → Option (Except L.Exception (Result L ts))
  | [] => some (.ok o)
  | ⟨_, .errorCode, c⟩ :: as => (setResult throws o as).map fun stored =>
    if L.stdSet c then Result.setSystemError throws c else stored
  | ⟨_, .boostErrorCode, c⟩ :: as => (setResult throws o as).map fun stored =>
    if L.boostSet c then Result.setSystemError throws (L.toStd c) else stored
  | ⟨_, .exceptionPtr, e⟩ :: as => (setResult throws o as).map fun stored =>
    Option.elim e stored fun e => .ok (.exception e)
  | as => setResult throws o as

end SetValue

/-- The arguments that `set_value` forwards to the outcome. -/
def forwarded : List (Argument L) → List (Argument L)
  | ⟨_, .errorCode, _⟩ :: as => as
  | ⟨_, .boostErrorCode, _⟩ :: as => as
  | ⟨_, .exceptionPtr, _⟩ :: as => as
  | as => as

/-! ## The awaitable -/

/-- How far the awaiting side is: inside the initiation, between it and `resume_awaiting`,
    suspended, resumed, past `await_resume` or its `bug_abort`, or destroyed with its coroutine. -/
inductive Phase (L : Types) (ts : List (Param L))
  | initiating
  | exchanging
  | suspended
  | resumed
  | completed (r : Option (Except L.Exception (ValueType ts)))
  | destroyed

/-- The completion handler: not invoked, past its `set_value` or left by an exception of it, past
    its exchange, or destroyed with its `handle_` set. -/
inductive Handler
  | pending
  | stored
  | failed
  | finished
  | dropped
  deriving DecidableEq

/-- How the operation ended. -/
inductive End (L : Types) (sig : List (Param L))
  | threw (e : L.Exception)
  | invoked (vs : Values L sig)

/-- The awaitable of an operation with signature `void(sig...)`. `restore` tells whether the
    coroutine has a `shared_this` to restore; `sets`, how often the result was set, `ended`,
    `storing` and `taking`, what storing a value and moving it out threw, and `orphaned`, that the
    owner was gone when the handler wanted to resume, are recorded for the statements below. -/
structure State (L : Types) (sig : List (Param L)) where
  word : ContextState
  result : Result L (asioOutcome sig)
  phase : Phase L (asioOutcome sig)
  handler : Handler
  restore : Bool
  sets : Nat
  ended : Option (End L sig)
  storing : Option L.Exception
  taking : Option L.Exception
  orphaned : Bool

inductive Action (L : Types) (sig : List (Param L))
  /-- the initiation throws, and the catch block of `await_suspend` runs -/
  | initiationThrows (e : L.Exception)
  | initiationReturns
  /-- the handler is invoked: its call of `set_value`, where a constructor may throw -/
  | handlerStores (qs : List Qualifier) (vs : Values L sig) (throws : Option L.Exception)
  /-- the rest of the handler's call, which finds the owner alive or not -/
  | handlerResumes (locks : Bool)
  /-- the handler is destroyed without having been invoked, or after its `set_value` has thrown -/
  | handlerDropped
  /-- `resume_awaiting` -/
  | resumeAwaiting
  /-- `await_resume`, where moving the value out may throw -/
  | awaitResume (throws : Option L.Exception)

namespace State

variable {sig : List (Param L)}

def initial (restore : Bool) : State L sig :=
  ⟨.initializing, .nothing, .initiating, .pending, restore, 0, none, none, none, false⟩

variable [DecidableEq L.Base]

/-- What may happen next. An initiation that throws has not invoked the handler, the handler's call
    compiles, and an invoked handler is dropped only if its `set_value` has thrown. -/
def Enabled (s : State L sig) : Action L sig → Prop
  | .initiationThrows _ => s.phase = .initiating ∧ s.ended = none
  | .initiationReturns => s.phase = .initiating
  | .handlerStores qs vs throws =>
      s.handler = .pending ∧ s.phase ≠ .resumed ∧ (∀ r, s.phase ≠ .completed r) ∧
        (setValue throws s.result (arguments qs vs)).isSome = true
  | .handlerResumes _ => s.handler = .stored
  | .handlerDropped =>
      s.handler = .failed ∨
        s.handler = .pending ∧ s.phase ≠ .resumed ∧ ∀ r, s.phase ≠ .completed r
  | .resumeAwaiting => s.phase = .exchanging
  | .awaitResume _ => s.phase = .resumed

def next (s : State L sig) : Action L sig → State L sig
  | .initiationThrows e =>
    { s with result := .exception e, sets := s.sets + 1, phase := .resumed,
             ended := some (.threw e) }
  | .initiationReturns => { s with phase := .exchanging }
  | .handlerStores qs vs throws =>
    match setValue throws s.result (arguments qs vs) with
    | none => s
    | some (.error e) =>
      { s with handler := .failed, storing := some e, ended := some (.invoked vs) }
    | some (.ok r) =>
      { s with result := r, sets := s.sets + 1, handler := .stored, ended := some (.invoked vs) }
  | .handlerResumes locks =>
    let x := s.word.resumeCompleted
    { s with word := x.word, handler := .finished,
             phase := if x.resumes then
                (if s.restore && !locks then .destroyed else .resumed) else s.phase,
             orphaned := s.orphaned || (x.resumes && s.restore && !locks) }
  | .handlerDropped =>
    let x := s.word.destroy
    { s with word := x.word, handler := .dropped,
             phase := if x.destroys then .destroyed else s.phase }
  | .resumeAwaiting =>
    let x := s.word.resumeAwaiting
    { s with word := x.word,
             phase := if x.resumes then .resumed else if x.destroys then .destroyed
                else .suspended }
  | .awaitResume throws =>
    { s with phase := .completed (s.result.get throws), taking := s.result.raises throws }

end State

def machine (L : Types) [DecidableEq L.Base] (sig : List (Param L)) :
    System (State L sig) (Action L sig) :=
  ⟨State.Enabled, State.next⟩

/-! ## What is to be delivered -/

/-- What the values of a completion mean: an error that is set is thrown, and otherwise the values
    behind the error parameter are returned. -/
def verdict : {sig : List (Param L)} → Values L sig →
    Except L.Exception (ValueType (asioOutcome sig))
  | ⟨.errorCode, .object⟩ :: _, .cons c vs =>
    if L.stdSet c then .error (L.systemError c) else .ok (ValueType.of vs)
  | ⟨.boostErrorCode, .object⟩ :: _, .cons c vs =>
    if L.boostSet c then .error (L.systemError (L.toStd c)) else .ok (ValueType.of vs)
  | ⟨.exceptionPtr, .object⟩ :: _, .cons e vs =>
    Option.elim e (.ok (ValueType.of vs)) .error
  | [], vs | ⟨.base _, _⟩ :: _, vs
  | ⟨.errorCode, .lvalue _⟩ :: _, vs | ⟨.errorCode, .rvalue _⟩ :: _, vs
  | ⟨.boostErrorCode, .lvalue _⟩ :: _, vs | ⟨.boostErrorCode, .rvalue _⟩ :: _, vs
  | ⟨.exceptionPtr, .lvalue _⟩ :: _, vs | ⟨.exceptionPtr, .rvalue _⟩ :: _, vs =>
    .ok (ValueType.of vs)

def End.verdict {sig : List (Param L)} :
    End L sig → Except L.Exception (ValueType (asioOutcome sig))
  | .threw e => .error e
  | .invoked vs => Deferred.verdict vs

/-! ## The two ways of stripping -/

/-- The head of a list of arguments, with the qualifiers it got. -/
theorem arguments_cons (qs : List Qualifier) {p : Param L} {ts : List (Param L)} (v : p.type.Val)
    (vs : Values L ts) :
    ∃ q qs', arguments qs (.cons v vs) = ⟨q, p.type, v⟩ :: arguments qs' vs := by
  cases qs with
  | nil => exact ⟨⟨false, false⟩, [], rfl⟩
  | cons q qs => exact ⟨q, qs, rfl⟩

@[simp] theorem arguments_nil (qs : List Qualifier) : arguments qs (.nil : Values L []) = [] := by
  cases qs <;> rfl

theorem arguments_types (qs : List Qualifier) {ts : List (Param L)} (vs : Values L ts) :
    (arguments qs vs).map Argument.type = ts.map Param.type := by
  induction vs generalizing qs with
  | nil => rw [arguments_nil]; rfl
  | cons v vs ih =>
      obtain ⟨q, qs', h⟩ := arguments_cons qs v vs
      rw [h, List.map_cons, List.map_cons, ih]

theorem arguments_length (qs : List Qualifier) {ts : List (Param L)} (vs : Values L ts) :
    (arguments qs vs).length = ts.length := by
  simpa using congrArg List.length (arguments_types qs vs)

/-- A reference to an error type stays in the outcome, and its argument is not forwarded. -/
theorem forwarded_length (qs : List Qualifier) {sig : List (Param L)} (vs : Values L sig)
    (hled : ledByReference sig = true) :
    (forwarded (arguments qs vs)).length + 1 = (asioOutcome sig).length := by
  cases vs with
  | nil => cases hled
  | @cons p ts v vs =>
      obtain ⟨q, qs', h⟩ := arguments_cons qs v vs
      have hlen := arguments_length qs' vs
      rw [h]
      obtain ⟨t, r⟩ := p
      cases r with
      | object => cases t <;> cases hled
      | _ =>
          cases t with
          | base b => cases hled
          | _ => exact congrArg (· + 1) hlen

/-- Otherwise what is forwarded to the outcome has its types, in number and order. -/
theorem forwarded_types (qs : List Qualifier) {sig : List (Param L)} (vs : Values L sig)
    (hled : ledByReference sig = false) :
    (forwarded (arguments qs vs)).map Argument.type = (asioOutcome sig).map Param.type := by
  cases vs with
  | nil => rw [arguments_nil]; rfl
  | @cons p ts v vs =>
      obtain ⟨q, qs', h⟩ := arguments_cons qs v vs
      have htypes := arguments_types qs' vs
      rw [h]
      obtain ⟨t, r⟩ := p
      cases t with
      | base b => exact congrArg (Ty.base b :: ·) htypes
      | _ =>
          cases r with
          | object => exact htypes
          | _ => cases hled

/-- The two ways of stripping agree exactly on the signatures that do not begin with a reference to
    an error type. -/
theorem forwarded_types_iff (qs : List Qualifier) {sig : List (Param L)} (vs : Values L sig) :
    (forwarded (arguments qs vs)).map Argument.type = (asioOutcome sig).map Param.type ↔
      ledByReference sig = false := by
  cases hled : ledByReference sig with
  | false => exact iff_of_true (forwarded_types qs vs hled) rfl
  | true =>
      refine iff_of_false (fun h => ?_) Bool.noConfusion
      have hlen := forwarded_length qs vs hled
      have heq := congrArg List.length h
      rw [List.length_map, List.length_map] at heq
      omega

theorem held_setValue {throws : Option L.Exception} {ts : List (Param L)} (vs : Values L ts)
    {r : Result L ts} (h : Result.setValue throws .nothing vs = .ok r) :
    r.held = some (.ok (ValueType.of vs)) := by
  cases vs with
  | nil =>
      cases h
      rfl
  | @cons p ts v vs =>
      simp only [Result.setValue] at h
      cases hr : raised (p :: ts) throws <;> rw [hr] at h <;> cases h
      rfl

theorem held_exception {ts : List (Param L)} (e : L.Exception) :
    Result.held (.exception e : Result L ts) = some (.error e) := by
  cases ts <;> rfl

theorem held_setSystemError {throws : Option L.Exception} {ts : List (Param L)} {c : L.StdCode}
    {r : Result L ts} (h : Result.setSystemError throws c = .ok r) :
    r.held = some (.error (L.systemError c)) := by
  cases throws with
  | none =>
      cases h
      exact held_exception _
  | some e => cases h

/-- A code that is set is rethrown; the value is returned otherwise. -/
theorem held_code {throws : Option L.Exception} {ts : List (Param L)} {vs : Values L ts}
    {isSet : Bool} {c : L.StdCode} {r : Result L ts}
    (h : (if isSet then Result.setSystemError throws c else Result.setValue throws .nothing vs) =
      .ok r) :
    r.held = some (if isSet then .error (L.systemError c) else .ok (ValueType.of vs)) := by
  cases isSet with
  | true => exact held_setSystemError h
  | false => exact held_setValue vs h

theorem raised_eq_some {ts : List (Param L)} {throws : Option L.Exception} {e : L.Exception}
    (h : raised ts throws = some e) : throws = some e ∧ ts.any Param.mayThrow = true := by
  unfold raised at h
  split_ifs at h with hts
  exact ⟨h, hts⟩

/-- Only an object that is moved out can throw. -/
theorem raises_eq_some {ts : List (Param L)} {throws : Option L.Exception} {o : Result L ts}
    {e : L.Exception} (h : o.raises throws = some e) :
    ts.any Param.mayThrow = true ∧ ∃ v, o.held = some (.ok v) := by
  cases o with
  | value v =>
      refine ⟨(raised_eq_some h).2, v, ?_⟩
      cases ts <;> rfl
  | nothing => cases h
  | exception _ => cases h

theorem binds_cons (alone : Bool) {p : Param L} {ts : List (Param L)} {a : Argument L}
    {as : List (Argument L)} :
    binds alone (p :: ts) (a :: as) = (p.takes alone a.qualifier && binds alone ts as) := rfl

section SetValue

variable [DecidableEq L.Base]

/-- Arguments of the right types give back their values, if they can be taken. -/
theorem fit_arguments (alone : Bool) (qs : List Qualifier) {ts : List (Param L)}
    (vs : Values L ts) :
    fit alone ts (arguments qs vs) =
      if binds alone ts (arguments qs vs) then some vs else none := by
  induction vs generalizing qs with
  | nil => rw [arguments_nil]; rfl
  | @cons p ts v vs ih =>
      obtain ⟨q, qs', h⟩ := arguments_cons qs v vs
      rw [h, fit, dif_pos rfl, ih, binds_cons]
      cases p.takes alone q with
      | false => rfl
      | true => cases binds alone ts (arguments qs' vs) <;> rfl

theorem fit_of_length_ne (alone : Bool) {ts : List (Param L)} {as : List (Argument L)}
    (h : as.length ≠ ts.length) : fit alone ts as = none := by
  induction ts generalizing as with
  | nil =>
      cases as with
      | nil => exact absurd rfl h
      | cons a as => rfl
  | cons p ts ih =>
      cases as with
      | nil => rfl
      | cons a as =>
          rw [fit, ih (by simpa using h)]
          split_ifs <;> rfl

theorem setResult_arguments (throws : Option L.Exception) (qs : List Qualifier)
    {ts : List (Param L)} (vs : Values L ts) :
    setResult throws (.nothing : Result L ts) (arguments qs vs) =
      if binds (ts.length == 1) ts (arguments qs vs) then some (Result.setValue throws .nothing vs)
      else none := by
  rw [setResult, fit_arguments]
  split_ifs <;> rfl

theorem setResult_map {ts : List (Param L)}
    (f : Except L.Exception (Result L ts) → Except L.Exception (Result L ts))
    (throws : Option L.Exception) (qs : List Qualifier) (vs : Values L ts) :
    (setResult throws .nothing (arguments qs vs)).map f =
      if binds (ts.length == 1) ts (arguments qs vs)
      then some (f (Result.setValue throws .nothing vs)) else none := by
  rw [setResult_arguments]
  split_ifs <;> rfl

/-- A call that drops an argument which the outcome has kept does not compile. -/
theorem setValue_of_led (throws : Option L.Exception) (qs : List Qualifier)
    {sig : List (Param L)} (vs : Values L sig) (hled : ledByReference sig = true) :
    setValue throws (.nothing : Result L (asioOutcome sig)) (arguments qs vs) = none := by
  have hlen := forwarded_length qs vs hled
  have hnone (as : List (Argument L)) (h : as.length + 1 = (asioOutcome sig).length) :
      setResult throws (.nothing : Result L (asioOutcome sig)) as = none := by
    rw [setResult, fit_of_length_ne _ (by omega)]
    rfl
  cases vs with
  | nil => cases hled
  | @cons p ts v vs =>
      obtain ⟨q, qs', h⟩ := arguments_cons qs v vs
      rw [h] at hlen ⊢
      obtain ⟨t, r⟩ := p
      cases t with
      | base b => cases hled
      | _ => exact congrArg (Option.map _) (hnone _ hlen)

/-- Otherwise it compiles if the outcome takes what is forwarded to it, and leaves what the
    completion means, unless it throws. -/
theorem setValue_arguments (throws : Option L.Exception) (qs : List Qualifier)
    {sig : List (Param L)} (vs : Values L sig) (hled : ledByReference sig = false) :
    ∃ o, setValue throws (.nothing : Result L (asioOutcome sig)) (arguments qs vs) =
        (if binds ((asioOutcome sig).length == 1) (asioOutcome sig) (forwarded (arguments qs vs))
          then some o else none) ∧
      ∀ r, o = .ok r → r.held = some (verdict vs) := by
  cases vs with
  | nil =>
      rw [arguments_nil]
      exact ⟨.ok .nothing, rfl, fun r h => by cases h; rfl⟩
  | @cons p ts v vs =>
      obtain ⟨q, qs', h⟩ := arguments_cons qs v vs
      have hall := setResult_arguments throws qs (Values.cons v vs)
      rw [h] at hall ⊢
      obtain ⟨t, r⟩ := p
      cases t with
      | errorCode =>
          cases r with
          | object =>
              refine ⟨if L.stdSet v then Result.setSystemError throws v
                else Result.setValue throws .nothing vs, setResult_map _ throws qs' vs, ?_⟩
              exact fun r hr => held_code hr
          | _ => cases hled
      | boostErrorCode =>
          cases r with
          | object =>
              refine ⟨if L.boostSet v then Result.setSystemError throws (L.toStd v)
                else Result.setValue throws .nothing vs, setResult_map _ throws qs' vs, ?_⟩
              exact fun r hr => held_code hr
          | _ => cases hled
      | exceptionPtr =>
          cases r with
          | object =>
              refine ⟨Option.elim v (Result.setValue throws .nothing vs)
                fun e => .ok (.exception e), setResult_map _ throws qs' vs, fun r hr => ?_⟩
              cases v with
              | none => exact held_setValue vs hr
              | some e =>
                  cases hr
                  exact held_exception e
          | _ => cases hled
      | base b => exact ⟨_, hall, fun r hr => held_setValue (Values.cons v vs) hr⟩

/-- A call that stores something stores what the completion means. -/
theorem held_of_setValue {throws : Option L.Exception} {qs : List Qualifier}
    {sig : List (Param L)} {vs : Values L sig} {r : Result L (asioOutcome sig)}
    (h : setValue throws .nothing (arguments qs vs) = some (.ok r)) :
    r.held = some (verdict vs) := by
  cases hled : ledByReference sig with
  | true =>
      rw [setValue_of_led throws qs vs hled] at h
      cases h
  | false =>
      obtain ⟨o, ho, hheld⟩ := setValue_arguments throws qs vs hled
      rw [ho] at h
      split_ifs at h
      exact hheld r (Option.some.inj h)

/-- When the handler's call of `set_value` compiles. -/
theorem setValue_isSome_iff (throws : Option L.Exception) (qs : List Qualifier)
    {sig : List (Param L)} (vs : Values L sig) :
    (setValue throws (.nothing : Result L (asioOutcome sig)) (arguments qs vs)).isSome = true ↔
      ledByReference sig = false ∧
        binds ((asioOutcome sig).length == 1) (asioOutcome sig) (forwarded (arguments qs vs)) =
          true := by
  cases hled : ledByReference sig with
  | true =>
      rw [setValue_of_led throws qs vs hled]
      exact iff_of_false Bool.noConfusion fun h => Bool.noConfusion h.1
  | false =>
      obtain ⟨o, ho, _⟩ := setValue_arguments throws qs vs hled
      rw [ho]
      split_ifs with hb <;> simp [hb]

end SetValue

/-! ## Runs -/

namespace State

variable {sig : List (Param L)}

/-- The result was set once the operation ended, and gives what it ended with, unless storing it
    threw; the handler is then on its way out. -/
def Fated [DecidableEq L.Base] (s : State L sig) : Prop :=
  match s.ended, s.storing with
  | none, storing =>
      storing = none ∧ s.sets = 0 ∧ s.result = .nothing ∧
        (s.handler = .pending ∨ s.handler = .dropped)
  | some d, none =>
      s.sets = 1 ∧ s.result.held = some d.verdict ∧ s.handler ≠ .failed ∧
        (s.handler = .stored ∨ s.handler = .finished → ∃ vs, d = .invoked vs) ∧
        (s.handler = .pending ∨ s.handler = .dropped → ∃ e, d = .threw e)
  | some d, some e =>
      s.sets = 0 ∧ (s.handler = .failed ∨ s.handler = .dropped) ∧
        ∃ throws qs vs, d = .invoked vs ∧
          setValue throws (.nothing : Result L (asioOutcome sig)) (arguments qs vs) =
            some (.error e)

/-- Where the awaiting side, the handler and the word can be at the same time. -/
def Placed (s : State L sig) : Prop :=
  match s.phase, s.handler with
  | .initiating, .pending | .initiating, .stored | .initiating, .failed
  | .exchanging, .pending | .exchanging, .stored | .exchanging, .failed =>
      s.word = .initializing ∧ ∀ e, s.ended ≠ some (.threw e)
  | .initiating, .finished | .exchanging, .finished => s.word = .completed
  | .initiating, .dropped | .exchanging, .dropped =>
      s.word = .destroyed ∧ ∀ e, s.ended ≠ some (.threw e)
  | .suspended, .pending | .suspended, .stored | .suspended, .failed =>
      s.word = .awaiting ∧ ∀ e, s.ended ≠ some (.threw e)
  | .suspended, _ => False
  | .resumed, .stored | .resumed, .failed | .completed _, .stored | .completed _, .failed => False
  | .resumed, _ | .completed _, _ => s.ended.isSome = true ∧ s.storing = none
  | .destroyed, .pending | .destroyed, .stored | .destroyed, .failed => False
  | .destroyed, .finished => s.orphaned = true
  | .destroyed, .dropped => ∀ e, s.ended ≠ some (.threw e)

/-- While the handler can still complete the operation or be dropped, the awaiting side is before
    its exchange or suspended. -/
theorem Placed.of_open {s : State L sig} (h : s.Placed)
    (hh : s.handler = .stored ∨ s.handler = .failed ∨
      s.handler = .pending ∧ s.phase ≠ .resumed ∧ ∀ r, s.phase ≠ .completed r) :
    (∀ e, s.ended ≠ some (.threw e)) ∧ (∀ r, s.phase ≠ .completed r) ∧
      ((s.phase = .initiating ∨ s.phase = .exchanging) ∧ s.word = .initializing ∨
        s.phase = .suspended ∧ s.word = .awaiting) := by
  unfold Placed at h
  cases hp : s.phase <;> rw [hp] at h hh
  case initiating | exchanging | suspended =>
    rcases hh with hh | hh | ⟨hh, _⟩ <;> rw [hh] at h <;> exact ⟨h.2, nofun, by simp [h.1]⟩
  case resumed =>
    rcases hh with hh | hh | ⟨_, hr, _⟩
    case inr.inr => exact absurd rfl hr
    all_goals
      rw [hh] at h
      exact h.elim
  case completed r =>
    rcases hh with hh | hh | ⟨_, _, hc⟩
    case inr.inr => exact absurd rfl (hc r)
    all_goals
      rw [hh] at h
      exact h.elim
  case destroyed => rcases hh with hh | hh | ⟨hh, _⟩ <;> rw [hh] at h <;> exact h.elim

structure Sound [DecidableEq L.Base] (s : State L sig) : Prop where
  fated : s.Fated
  placed : s.Placed
  taken : ∀ r, s.phase = .completed r →
    ∃ throws, r = s.result.get throws ∧ s.taking = s.result.raises throws
  untaken : (∀ r, s.phase ≠ .completed r) → s.taking = none
  orphaned : s.orphaned = true → s.restore = true

variable [DecidableEq L.Base]

theorem Sound.initial (restore : Bool) : Sound (initial restore : State L sig) :=
  ⟨⟨rfl, rfl, rfl, Or.inl rfl⟩, ⟨rfl, nofun⟩, nofun, fun _ => rfl, nofun⟩

theorem Sound.sets_le {s : State L sig} (hs : Sound s) : s.sets ≤ 1 := by
  have h := hs.fated
  unfold Fated at h
  cases hd : s.ended with
  | none =>
      rw [hd] at h
      exact h.2.1 ▸ Nat.zero_le 1
  | some d =>
      rw [hd] at h
      cases he : s.storing <;> rw [he] at h
      · exact Nat.le_of_eq h.1
      · exact h.1 ▸ Nat.zero_le 1

/-- Before the operation has ended, nothing is stored. -/
theorem Fated.of_ended_none {s : State L sig} (h : s.Fated) (hd : s.ended = none) :
    s.storing = none ∧ s.sets = 0 ∧ s.result = .nothing ∧
      (s.handler = .pending ∨ s.handler = .dropped) := by
  unfold Fated at h
  rw [hd] at h
  exact h

/-- An operation whose handler has not been invoked has not ended, unless its initiation threw. -/
theorem Fated.of_pending {s : State L sig} (h : s.Fated) (hh : s.handler = .pending)
    (he : ∀ e, s.ended ≠ some (.threw e)) : s.ended = none := by
  unfold Fated at h
  cases hd : s.ended with
  | none => rfl
  | some d =>
      rw [hd] at h
      cases hs : s.storing <;> rw [hs] at h
      · obtain ⟨e, rfl⟩ := h.2.2.2.2 (Or.inl hh)
        exact absurd hd (he e)
      · rcases h.2.1 with h' | h' <;> rw [hh] at h' <;> cases h'

/-- A handler past its `set_value` belongs to an operation that has ended with it. -/
theorem Fated.of_stored {s : State L sig} (h : s.Fated)
    (hh : s.handler = .stored ∨ s.handler = .finished) :
    ∃ vs, s.ended = some (.invoked vs) ∧ s.storing = none := by
  unfold Fated at h
  cases hd : s.ended with
  | none =>
      rw [hd] at h
      rcases h.2.2.2 with h' | h' <;> rcases hh with hh | hh <;> rw [h'] at hh <;> cases hh
  | some d =>
      rw [hd] at h
      cases hs : s.storing <;> rw [hs] at h
      · obtain ⟨vs, rfl⟩ := h.2.2.2.1 hh
        exact ⟨vs, rfl, rfl⟩
      · rcases h.2.1 with h' | h' <;> rcases hh with hh | hh <;> rw [h'] at hh <;> cases hh

/-- What was stored is what the operation ended with. -/
theorem Fated.held {s : State L sig} (h : s.Fated) (hs : s.storing = none) {d : End L sig}
    (hd : s.ended = some d) : s.result.held = some d.verdict := by
  unfold Fated at h
  rw [hd, hs] at h
  exact h.2.1

/-- A constructor that throws does so in the handler's `set_value`. -/
theorem Fated.of_storing {s : State L sig} (h : s.Fated) {e : L.Exception}
    (hs : s.storing = some e) : s.sets = 0 ∧ (s.handler = .failed ∨ s.handler = .dropped) ∧
      ∃ throws qs vs, s.ended = some (.invoked vs) ∧
        setValue throws (.nothing : Result L (asioOutcome sig)) (arguments qs vs) =
          some (.error e) := by
  unfold Fated at h
  rw [hs] at h
  cases hd : s.ended with
  | none =>
      rw [hd] at h
      cases h.1
  | some d =>
      rw [hd] at h
      obtain ⟨hsets, hh, throws, qs, vs, rfl, hset⟩ := h
      exact ⟨hsets, hh, throws, qs, vs, rfl, hset⟩

/-- A handler was left by an exception only if storing threw it. -/
theorem Fated.of_failed {s : State L sig} (h : s.Fated) (hh : s.handler = .failed) :
    ∃ e, s.storing = some e := by
  refine Option.ne_none_iff_exists'.mp fun hs => ?_
  unfold Fated at h
  rw [hs] at h
  cases hd : s.ended <;> rw [hd] at h
  · rcases h.2.2.2 with h' | h' <;> rw [hh] at h' <;> cases h'
  · exact absurd hh h.2.2.1

/-- `await_resume` gives what the operation ended with, unless moving it out throws. -/
theorem Sound.delivered {s : State L sig} (hs : Sound s)
    {r : Option (Except L.Exception (ValueType (asioOutcome sig)))} (hp : s.phase = .completed r) :
    s.storing = none ∧
      ∃ d, s.ended = some d ∧ r = some (s.taking.elim d.verdict Except.error) := by
  have hplaced := hs.placed
  unfold Placed at hplaced
  rw [hp] at hplaced
  obtain ⟨hsome, hnone⟩ : s.ended.isSome = true ∧ s.storing = none := by
    cases hh : s.handler <;> rw [hh] at hplaced
    case stored | failed => exact hplaced.elim
    all_goals exact hplaced
  obtain ⟨d, hd⟩ := Option.isSome_iff_exists.mp hsome
  obtain ⟨throws, hr, htaking⟩ := hs.taken r hp
  refine ⟨hnone, d, hd, ?_⟩
  rw [hr, Result.get, ← htaking, hs.fated.held hnone hd]
  cases s.taking <;> rfl

/-- Only the value of a completion without error throws when it is moved out. -/
theorem Sound.of_taking {s : State L sig} (hs : Sound s) {e : L.Exception}
    (he : s.taking = some e) :
    (asioOutcome sig).any Param.mayThrow = true ∧
      ∃ d v, s.ended = some d ∧ d.verdict = .ok v := by
  by_cases hp : ∃ r, s.phase = .completed r
  · obtain ⟨r, hp⟩ := hp
    obtain ⟨throws, _, htaking⟩ := hs.taken r hp
    obtain ⟨hmay, v, hv⟩ := raises_eq_some (htaking.symm.trans he)
    obtain ⟨hnone, d, hd, _⟩ := hs.delivered hp
    rw [hs.fated.held hnone hd] at hv
    exact ⟨hmay, d, v, hd, Option.some.inj hv⟩
  · rw [hs.untaken fun r h => hp ⟨r, h⟩] at he
    cases he

/-- Once the operation has ended, the coroutine gets on until `await_resume`, unless storing the
    value threw or its owner is gone. -/
theorem Sound.progress {s : State L sig} (hs : Sound s) (hstuck : ∀ a, ¬ s.Enabled a)
    {d : End L sig} (hd : s.ended = some d) :
    s.storing = none ∧ s.phase = .completed (some (s.taking.elim d.verdict Except.error)) ∨
      s.phase = .destroyed ∧ (s.storing ≠ none ∨ s.orphaned = true) := by
  have hplaced := hs.placed
  unfold Placed at hplaced
  have hstored : s.handler ≠ .stored := fun h => hstuck (.handlerResumes true) h
  have hfailed : s.handler ≠ .failed := fun h => hstuck .handlerDropped (Or.inl h)
  cases hp : s.phase <;> rw [hp] at hplaced
  case initiating => exact absurd hp (hstuck .initiationReturns)
  case exchanging => exact absurd hp (hstuck .resumeAwaiting)
  case resumed => exact absurd hp (hstuck (.awaitResume none))
  case completed r =>
    obtain ⟨hnone, d', hd', rfl⟩ := hs.delivered hp
    rw [hd] at hd'
    cases hd'
    exact Or.inl ⟨hnone, rfl⟩
  case suspended =>
    cases hc : s.handler <;> rw [hc] at hplaced
    case pending =>
      have hnone := hs.fated.of_pending hc hplaced.2
      rw [hd] at hnone
      cases hnone
    case stored => exact absurd hc hstored
    case failed => exact absurd hc hfailed
    all_goals exact hplaced.elim
  case destroyed =>
    refine Or.inr ⟨rfl, ?_⟩
    cases hc : s.handler <;> rw [hc] at hplaced
    case finished => exact Or.inr hplaced
    case dropped =>
      refine Or.inl fun hnone => ?_
      have hfated := hs.fated
      unfold Fated at hfated
      rw [hd, hnone] at hfated
      obtain ⟨e, rfl⟩ := hfated.2.2.2.2 (Or.inr hc)
      exact hplaced e hd
    all_goals exact hplaced.elim

/-- Steps left at most. -/
def rank (s : State L sig) : Nat :=
  (match s.phase with
    | .initiating => 4
    | .exchanging => 3
    | .suspended => 2
    | .resumed => 1
    | .completed _ | .destroyed => 0) +
  match s.handler with
  | .pending => 2
  | .stored | .failed => 1
  | .finished | .dropped => 0

theorem Sound.initiationThrows {s : State L sig} (hs : Sound s) {e : L.Exception}
    (ha : s.Enabled (.initiationThrows e)) :
    Sound (s.next (.initiationThrows e)) ∧ (s.next (.initiationThrows e)).rank < s.rank := by
  obtain ⟨hphase, hended⟩ := ha
  obtain ⟨hstoring, hsets, _, hhandler⟩ := hs.fated.of_ended_none hended
  have huntaken := hs.untaken fun r h => by rw [hphase] at h; cases h
  refine ⟨⟨?_, ?_, nofun, fun _ => huntaken, hs.orphaned⟩, ?_⟩
  · unfold Fated
    simp only [next, hstoring]
    refine ⟨congrArg (· + 1) hsets, held_exception e, ?_, fun h => ?_, fun _ => ⟨e, rfl⟩⟩
    · rcases hhandler with h | h <;> rw [h] <;> decide
    · rcases hhandler with h' | h' <;> rw [h'] at h <;> rcases h with h | h <;> cases h
  · unfold Placed
    rcases hhandler with h | h <;> simp [next, h, hstoring]
  · unfold rank
    simp only [next, hphase]
    omega

theorem Sound.initiationReturns {s : State L sig} (hs : Sound s)
    (ha : s.Enabled .initiationReturns) :
    Sound (s.next .initiationReturns) ∧ (s.next .initiationReturns).rank < s.rank := by
  have hphase : s.phase = .initiating := ha
  have hplaced := hs.placed
  have huntaken := hs.untaken fun r h => by rw [hphase] at h; cases h
  refine ⟨⟨hs.fated, ?_, nofun, fun _ => huntaken, hs.orphaned⟩, ?_⟩
  · unfold Placed at hplaced ⊢
    rw [hphase] at hplaced
    simp only [next]
    cases hh : s.handler <;> rw [hh] at hplaced <;> exact hplaced
  · unfold rank
    simp only [next, hphase]
    omega

theorem Sound.handlerStores {s : State L sig} (hs : Sound s) {qs : List Qualifier}
    {vs : Values L sig} {throws : Option L.Exception}
    (ha : s.Enabled (.handlerStores qs vs throws)) :
    Sound (s.next (.handlerStores qs vs throws)) ∧
      (s.next (.handlerStores qs vs throws)).rank < s.rank := by
  obtain ⟨hhandler, hresumed, hcompleted, hcompiles⟩ := ha
  obtain ⟨hthrew, -, hplace⟩ :=
    hs.placed.of_open (Or.inr (Or.inr ⟨hhandler, hresumed, hcompleted⟩))
  have hended := hs.fated.of_pending hhandler hthrew
  obtain ⟨hstoring, hsets, hresult, _⟩ := hs.fated.of_ended_none hended
  have huntaken := hs.untaken hcompleted
  rw [hresult] at hcompiles
  obtain ⟨o, ho⟩ := Option.isSome_iff_exists.mp hcompiles
  have hplaced' (h : Handler) (hh : h = .stored ∨ h = .failed) (r : Result L (asioOutcome sig))
      (n : Nat) (storing : Option L.Exception) :
      Placed { s with
        result := r, sets := n, handler := h, ended := some (.invoked vs), storing } := by
    unfold Placed
    rcases hplace with ⟨hp | hp, hw⟩ | ⟨hp, hw⟩ <;> rcases hh with rfl | rfl <;>
      simp [hp, hw]
  cases o with
  | error e =>
      have hnext : s.next (.handlerStores qs vs throws) =
          { s with handler := .failed, storing := some e, ended := some (.invoked vs) } := by
        simp only [next, hresult, ho]
      rw [hnext]
      refine ⟨⟨⟨hsets, Or.inl rfl, throws, qs, vs, rfl, ho⟩, hplaced' _ (Or.inr rfl) _ _ _,
        fun r h => absurd h (hcompleted r), fun _ => huntaken, hs.orphaned⟩, ?_⟩
      unfold rank
      simp only [hhandler]
      omega
  | ok r =>
      have hnext : s.next (.handlerStores qs vs throws) =
          { s with
            result := r, sets := s.sets + 1, handler := .stored, ended := some (.invoked vs) } := by
        simp only [next, hresult, ho]
      rw [hnext]
      refine ⟨⟨?_, hplaced' _ (Or.inl rfl) _ _ _, fun r h => absurd h (hcompleted r),
        fun _ => huntaken, hs.orphaned⟩, ?_⟩
      · unfold Fated
        simp only [hstoring]
        exact ⟨congrArg (· + 1) hsets, held_of_setValue ho, by decide, fun _ => ⟨vs, rfl⟩,
          fun h => by rcases h with h | h <;> cases h⟩
      · unfold rank
        simp only [hhandler]
        omega

theorem Sound.handlerResumes {s : State L sig} (hs : Sound s) {locks : Bool}
    (ha : s.Enabled (.handlerResumes locks)) :
    Sound (s.next (.handlerResumes locks)) ∧ (s.next (.handlerResumes locks)).rank < s.rank := by
  have hhandler : s.handler = .stored := ha
  obtain ⟨hthrew, hcompleted, hplace⟩ := hs.placed.of_open (Or.inl hhandler)
  obtain ⟨vs, hended, hstoring⟩ := hs.fated.of_stored (Or.inl hhandler)
  have huntaken := hs.untaken hcompleted
  -- the result and the end of the operation stay as they are
  have hfated : (s.next (.handlerResumes locks)).Fated := by
    have h := hs.fated
    unfold Fated at h ⊢
    simp only [next, hended, hstoring] at h ⊢
    exact ⟨h.1, h.2.1, by decide, fun _ => ⟨vs, rfl⟩,
      fun h' => by rcases h' with h' | h' <;> cases h'⟩
  rcases hplace with ⟨hp, hw⟩ | ⟨hp, hw⟩
  · have hnext : s.next (.handlerResumes locks) =
        { s with word := .completed, handler := .finished } := by
      simp [next, hw, ContextState.resumeCompleted]
    rw [hnext] at hfated ⊢
    refine ⟨⟨hfated, ?_, fun r h => absurd h (hcompleted r), fun _ => huntaken, hs.orphaned⟩, ?_⟩
    · unfold Placed
      rcases hp with hp | hp <;> simp [hp]
    · unfold rank
      simp [hhandler]
  · cases hl : s.restore && !locks with
    | true =>
        have hnext : s.next (.handlerResumes locks) =
            { s with
              word := .completed, handler := .finished,
              phase := .destroyed, orphaned := true } := by
          simp [next, hw, ContextState.resumeCompleted, hl]
        rw [hnext] at hfated ⊢
        refine ⟨⟨hfated, rfl, nofun, fun _ => huntaken,
          fun _ => (Bool.and_eq_true_iff.mp hl).1⟩, ?_⟩
        unfold rank
        simp [hhandler, hp]
    | false =>
        have hnext : s.next (.handlerResumes locks) =
            { s with word := .completed, handler := .finished, phase := .resumed } := by
          simp [next, hw, ContextState.resumeCompleted, hl]
        rw [hnext] at hfated ⊢
        refine ⟨⟨hfated, ?_, nofun, fun _ => huntaken, hs.orphaned⟩, ?_⟩
        · unfold Placed
          simp [hended, hstoring]
        · unfold rank
          simp [hhandler, hp]

theorem Sound.handlerDropped {s : State L sig} (hs : Sound s) (ha : s.Enabled .handlerDropped) :
    Sound (s.next .handlerDropped) ∧ (s.next .handlerDropped).rank < s.rank := by
  obtain ⟨hthrew, hcompleted, hplace⟩ := hs.placed.of_open (Or.inr ha)
  have huntaken := hs.untaken hcompleted
  have hrank : s.handler = .pending ∨ s.handler = .failed := ha.symm.imp And.left id
  -- nothing is stored: the operation has not ended, or storing threw
  have hfated : (s.next .handlerDropped).Fated := by
    have h := hs.fated
    unfold Fated
    simp only [next]
    rcases ha with hh | ⟨hh, _⟩
    · obtain ⟨e, he⟩ := h.of_failed hh
      obtain ⟨hsets, _, throws, qs, vs, hd, hset⟩ := h.of_storing he
      rw [hd, he]
      exact ⟨hsets, Or.inr trivial, throws, qs, vs, rfl, hset⟩
    · have hd := h.of_pending hh hthrew
      obtain ⟨hstoring, hsets, hresult, _⟩ := h.of_ended_none hd
      rw [hd]
      exact ⟨hstoring, hsets, hresult, Or.inr trivial⟩
  rcases hplace with ⟨hp, hw⟩ | ⟨hp, hw⟩
  · have hnext : s.next .handlerDropped = { s with word := .destroyed, handler := .dropped } := by
      simp [next, hw, ContextState.destroy]
    rw [hnext] at hfated ⊢
    refine ⟨⟨hfated, ?_, fun r h => absurd h (hcompleted r), fun _ => huntaken, hs.orphaned⟩, ?_⟩
    · unfold Placed
      rcases hp with hp | hp <;> simpa [hp] using hthrew
    · unfold rank
      rcases hrank with h | h <;> simp [h]
  · have hnext : s.next .handlerDropped =
        { s with word := .destroyed, handler := .dropped, phase := .destroyed } := by
      simp [next, hw, ContextState.destroy]
    rw [hnext] at hfated ⊢
    refine ⟨⟨hfated, hthrew, nofun, fun _ => huntaken, hs.orphaned⟩, ?_⟩
    unfold rank
    rcases hrank with h | h <;> simp [h, hp]

theorem Sound.resumeAwaiting {s : State L sig} (hs : Sound s) (ha : s.Enabled .resumeAwaiting) :
    Sound (s.next .resumeAwaiting) ∧ (s.next .resumeAwaiting).rank < s.rank := by
  have hphase : s.phase = .exchanging := ha
  have hplaced := hs.placed
  have huntaken := hs.untaken fun r h => by rw [hphase] at h; cases h
  unfold Placed at hplaced
  rw [hphase] at hplaced
  cases hh : s.handler <;> rw [hh] at hplaced
  case pending | stored | failed =>
    have hw := hplaced.1
    refine ⟨⟨hs.fated, ?_, ?_, fun _ => huntaken, hs.orphaned⟩, ?_⟩
    · unfold Placed
      simpa [next, hw, ContextState.resumeAwaiting, hh] using hplaced.2
    · simp [next, hw, ContextState.resumeAwaiting]
    · unfold rank
      simp [next, hw, ContextState.resumeAwaiting, hphase]
  case finished =>
    obtain ⟨vs, hended, hstoring⟩ := hs.fated.of_stored (Or.inr hh)
    refine ⟨⟨hs.fated, ?_, ?_, fun _ => huntaken, hs.orphaned⟩, ?_⟩
    · unfold Placed
      simp [next, hplaced, ContextState.resumeAwaiting, hh, hended, hstoring]
    · simp [next, hplaced, ContextState.resumeAwaiting]
    · unfold rank
      simp [next, hplaced, ContextState.resumeAwaiting, hphase]
  case dropped =>
    obtain ⟨hw, hthrew⟩ := hplaced
    refine ⟨⟨hs.fated, ?_, ?_, fun _ => huntaken, hs.orphaned⟩, ?_⟩
    · unfold Placed
      simpa [next, hw, ContextState.resumeAwaiting, hh] using hthrew
    · simp [next, hw, ContextState.resumeAwaiting]
    · unfold rank
      simp [next, hw, ContextState.resumeAwaiting, hphase]

theorem Sound.awaitResume {s : State L sig} (hs : Sound s) {throws : Option L.Exception}
    (ha : s.Enabled (.awaitResume throws)) :
    Sound (s.next (.awaitResume throws)) ∧ (s.next (.awaitResume throws)).rank < s.rank := by
  have hphase : s.phase = .resumed := ha
  have hplaced := hs.placed
  unfold Placed at hplaced
  rw [hphase] at hplaced
  refine ⟨⟨hs.fated, ?_, fun r h => ?_, fun h => absurd rfl (h _), hs.orphaned⟩, ?_⟩
  · unfold Placed
    simp only [next]
    cases hh : s.handler <;> rw [hh] at hplaced <;> exact hplaced
  · simp only [next, Phase.completed.injEq] at h
    exact ⟨throws, h.symm, rfl⟩
  · unfold rank
    simp only [next, hphase]
    omega

theorem Sound.step {s : State L sig} (hs : Sound s) {a : Action L sig} (ha : s.Enabled a) :
    Sound (s.next a) ∧ (s.next a).rank < s.rank := by
  cases a with
  | initiationThrows e => exact hs.initiationThrows ha
  | initiationReturns => exact hs.initiationReturns ha
  | handlerStores qs vs throws => exact hs.handlerStores ha
  | handlerResumes locks => exact hs.handlerResumes ha
  | handlerDropped => exact hs.handlerDropped ha
  | resumeAwaiting => exact hs.resumeAwaiting ha
  | awaitResume throws => exact hs.awaitResume ha

end State

/-- Runs are short: every step brings the awaitable nearer to its end. -/
theorem State.Sound.run [DecidableEq L.Base] {sig : List (Param L)} {s t : State L sig}
    {as : List (Action L sig)} (h : Run (machine L sig) s as t) (hs : s.Sound) :
    t.Sound ∧ as.length + t.rank ≤ s.rank := by
  induction h with
  | nil => exact ⟨hs, Nat.le_of_eq (Nat.zero_add _)⟩
  | @cons s t a as ha _ ih =>
      obtain ⟨hsound, hrank⟩ := hs.step ha
      obtain ⟨ht, hle⟩ := ih hsound
      refine ⟨ht, ?_⟩
      rw [List.length_cons]
      change as.length + t.rank ≤ (s.next a).rank at hle
      omega

theorem restore_run [DecidableEq L.Base] {sig : List (Param L)} {s t : State L sig}
    {as : List (Action L sig)} (h : Run (machine L sig) s as t) : t.restore = s.restore := by
  refine h.invariant (I := fun t => t.restore = s.restore) rfl fun u a hu _ => ?_
  rw [← hu]
  cases a with
  | handlerStores qs vs throws =>
      simp only [machine, State.next]
      split <;> rfl
  | _ => rfl

/-- Deferred operations deliver exactly their completion. For every signature, the two ways of
    stripping the error parameter agree in number and types unless it is a reference, and the
    handler's call compiles exactly when they agree and the outcome takes the other arguments. In
    every run the result is set at most once; `await_resume` throws or returns what the operation
    ended with, or throws what moving the value out throws; and an operation that has ended is
    delivered in a few steps, unless the coroutine is destroyed: because storing the result threw,
    which leaves the handler's call, or because it has an owner and that was gone. -/
theorem deferred_exact (L : Types) [DecidableEq L.Base] (sig : List (Param L)) (restore : Bool) :
    (∀ (qs : List Qualifier) (vs : Values L sig),
      ((forwarded (arguments qs vs)).map Argument.type = (asioOutcome sig).map Param.type ↔
        ledByReference sig = false) ∧
      ∀ throws, (setValue throws (.nothing : Result L (asioOutcome sig)) (arguments qs vs)).isSome =
          true ↔
        ledByReference sig = false ∧
          binds ((asioOutcome sig).length == 1) (asioOutcome sig) (forwarded (arguments qs vs)) =
            true) ∧
    ∀ as s, Run (machine L sig) (State.initial restore) as s →
      s.sets ≤ 1 ∧ as.length ≤ 6 ∧
      (∀ r, s.phase = .completed r → s.storing = none ∧
        ∃ d, s.ended = some d ∧ r = some (s.taking.elim d.verdict Except.error)) ∧
      (∀ e, s.taking = some e → (asioOutcome sig).any Param.mayThrow = true ∧
        ∃ d v, s.ended = some d ∧ d.verdict = .ok v) ∧
      (∀ e, s.storing = some e → ∃ throws qs vs, s.ended = some (.invoked vs) ∧
        setValue throws (.nothing : Result L (asioOutcome sig)) (arguments qs vs) =
          some (.error e)) ∧
      ((∀ a, ¬ s.Enabled a) → ∀ d, s.ended = some d →
        s.storing = none ∧ s.phase = .completed (some (s.taking.elim d.verdict Except.error)) ∨
          s.phase = .destroyed ∧
            (s.storing ≠ none ∨ s.orphaned = true ∧ restore = true)) := by
  refine ⟨fun qs vs => ⟨forwarded_types_iff qs vs, fun throws => setValue_isSome_iff throws qs vs⟩,
    fun as s h => ?_⟩
  obtain ⟨hs, hlen⟩ := State.Sound.run h (State.Sound.initial restore)
  have hrank : (State.initial restore : State L sig).rank = 6 := rfl
  refine ⟨hs.sets_le, by omega, fun r => hs.delivered, fun e => hs.of_taking, fun e he => ?_,
    fun hstuck d hd => ?_⟩
  · exact (hs.fated.of_storing he).2.2
  · refine (hs.progress hstuck hd).imp_right fun ⟨hp, hwhy⟩ => ⟨hp, hwhy.imp_right fun ho => ?_⟩
    exact ⟨ho, (restore_run h).symm.trans (hs.orphaned ho)⟩

/-- Numbers as values, codes and exceptions; the code 0 is no error. -/
def plainTypes : Types :=
  ⟨Unit, fun _ => Nat, fun _ => true, Nat, Nat, Nat, (· != 0), (· != 0), id, id⟩

instance : DecidableEq plainTypes.Base := inferInstanceAs (DecidableEq Unit)

/-- `std::size_t`, by value. -/
def size : Param plainTypes := ⟨.base (), .object⟩

/-- An eager completion of `void(boost::system::error_code, std::size_t)` with no error. -/
def eagerCompletion : List (Action plainTypes [⟨.boostErrorCode, .object⟩, size]) :=
  [.handlerStores [⟨true, true⟩] (.cons (0 : Nat) (.cons (7 : Nat) .nil)) none,
    .handlerResumes true, .initiationReturns, .resumeAwaiting, .awaitResume none]

/-- The eager completion is delivered: the coroutine gets 7. -/
theorem deferred_exact_eager :
    ((machine plainTypes [⟨.boostErrorCode, .object⟩, size]).exec (State.initial false)
        eagerCompletion).sets ≤ 1 ∧
      ∃ d, ((machine plainTypes [⟨.boostErrorCode, .object⟩, size]).exec (State.initial false)
          eagerCompletion).ended = some d ∧
        some (.ok (7 : Nat)) = some (End.verdict d) := by
  have hrun : Run (machine plainTypes [⟨.boostErrorCode, .object⟩, size]) (State.initial false)
      eagerCompletion ((machine plainTypes [⟨.boostErrorCode, .object⟩, size]).exec
        (State.initial false) eagerCompletion) :=
    .of_legal ⟨⟨rfl, nofun, nofun, rfl⟩, rfl, rfl, rfl, rfl, trivial⟩
  have h := (deferred_exact plainTypes [⟨.boostErrorCode, .object⟩, size] false).2
    eagerCompletion _ hrun
  exact ⟨h.1, (h.2.2.1 _ rfl).2⟩

/-! ## What is not delivered -/

/-- If nothing is left to happen after these actions, the coroutine got what the operation of
    `void(std::size_t)` ended with. -/
def Delivers (restore : Bool) (as : List (Action plainTypes [size])) : Prop :=
  ∀ s, Run (machine plainTypes [size]) (State.initial restore) as s → (∀ a, ¬ s.Enabled a) →
    ∀ d, s.ended = some d → s.phase = .completed (some d.verdict)

/-- The constructor of the value throws 5 in the handler's call, and the handler is destroyed. -/
def throwingStore : List (Action plainTypes [size]) :=
  [.initiationReturns, .resumeAwaiting, .handlerStores [] (.cons (7 : Nat) .nil) (some (5 : Nat)),
    .handlerDropped]

/-- Moving the value out throws 5. -/
def throwingMove : List (Action plainTypes [size]) :=
  [.initiationReturns, .resumeAwaiting, .handlerStores [] (.cons (7 : Nat) .nil) none,
    .handlerResumes true, .awaitResume (some (5 : Nat))]

/-- The owner is gone when the handler wants to resume. -/
def ownerGone : List (Action plainTypes [size]) :=
  [.initiationReturns, .resumeAwaiting, .handlerStores [] (.cons (7 : Nat) .nil) none,
    .handlerResumes false]

theorem State.over {L : Types} [DecidableEq L.Base] {sig : List (Param L)} {s : State L sig}
    (hp : s.phase = .destroyed ∨ ∃ r, s.phase = .completed r)
    (hh : s.handler = .finished ∨ s.handler = .dropped) (a : Action L sig) : ¬ s.Enabled a := by
  intro ha
  have hphase : s.phase ≠ .initiating ∧ s.phase ≠ .exchanging ∧ s.phase ≠ .resumed := by
    rcases hp with hp | ⟨r, hp⟩ <;> simp [hp]
  have hhandler : s.handler ≠ .pending ∧ s.handler ≠ .stored ∧ s.handler ≠ .failed := by
    rcases hh with hh | hh <;> simp [hh]
  cases a with
  | initiationThrows e => exact hphase.1 ha.1
  | initiationReturns => exact hphase.1 ha
  | handlerStores qs vs throws => exact hhandler.1 ha.1
  | handlerResumes locks => exact hhandler.2.1 ha
  | handlerDropped => exact ha.elim hhandler.2.2 fun h => hhandler.1 h.1
  | resumeAwaiting => exact hphase.2.1 ha
  | awaitResume throws => exact hphase.2.2 ha

/-- Not for every signature and not in every run: of `void(std::error_code const&, std::size_t)`,
    `asio_outcome` keeps two types and `set_value` forwards one argument; and a completion is not
    delivered when a constructor of the value throws, or when the owner is gone. -/
theorem not_deferred_exact :
    (¬ ∀ (sig : List (Param plainTypes)) (qs : List Qualifier) (vs : Values plainTypes sig),
      (forwarded (arguments qs vs)).length = (asioOutcome sig).length) ∧
    ¬ Delivers false throwingStore ∧ ¬ Delivers false throwingMove ∧ ¬ Delivers true ownerGone := by
  refine ⟨fun h => ?_, fun h => ?_, fun h => ?_, fun h => ?_⟩
  · have hlen := h [⟨.errorCode, .lvalue true⟩, size] [] (.cons (0 : Nat) (.cons (7 : Nat) .nil))
    exact absurd hlen (by decide)
  · have hphase := h _ (.of_legal ⟨rfl, rfl, ⟨rfl, nofun, nofun, rfl⟩, Or.inl rfl, trivial⟩)
      (State.over (Or.inl rfl) (Or.inr rfl)) _ rfl
    cases hphase
  · have hphase := h _ (.of_legal ⟨rfl, rfl, ⟨rfl, nofun, nofun, rfl⟩, rfl, rfl, trivial⟩)
      (State.over (Or.inr ⟨_, rfl⟩) (Or.inl rfl)) _ rfl
    cases hphase
  · have hphase := h _ (.of_legal ⟨rfl, rfl, ⟨rfl, nofun, nofun, rfl⟩, rfl, trivial⟩)
      (State.over (Or.inl rfl) (Or.inl rfl)) _ rfl
    cases hphase

end WebAsio.Coro.Deferred
