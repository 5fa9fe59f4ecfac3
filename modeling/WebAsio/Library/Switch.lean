import Mathlib.Data.List.Nodup
import WebAsio.Library.Transition

set_option autoImplicit false

/-! # Functions that resume at a label

Two languages for a function that waits. In the first it says `await`; what is left to do is a list
of statements. The second is that of a function which returns while it waits and whose body is one
`switch` over a variable: each call begins at the `case` that the variable names, wherever that
stands, so also in the middle of a loop, and goes on from there. `S` is the object whose members the
function uses, `I` what it initiates, `L` the labels and `A` the arguments of a call, which
`enter` stores. -/

namespace Switch

open Transition

variable {S I L A : Type*}

/-- Where a function stands, as its caller sees it. -/
inductive Status (I : Type*)
  | running
  | waiting (i : I)
  | finished

inductive Action (A : Type*)
  | step
  | resume (a : A)
  /-- a call that has returned to its caller is over -/
  | leave

/-- The arguments of the calls in a history. -/
def answers (as : List (Action A)) : List A :=
  as.filterMap fun
    | .resume a => some a
    | _ => none

theorem answers_append (as bs : List (Action A)) :
    answers (as ++ bs) = answers as ++ answers bs := List.filterMap_append

theorem answers_cons (a : Action A) (as : List (Action A)) :
    answers (a :: as) = answers [a] ++ answers as := answers_append [a] as

/-! ## Functions that wait -/

inductive Body (S I L : Type*)
  | skip
  | act (f : S → S)
  | seq (b c : Body S I L)
  | cond (t : S → Bool) (b c : Body S I L)
  | loop (t : S → Bool) (b : Body S I L)
  | await (p : L) (i : S → I)

namespace Body

/-- What a statement, as far as it is not executed at once, leaves to do first. -/
def expand (x : S) : Body S I L → List (Body S I L)
  | .seq b c => [b, c]
  | .cond t b c => [if t x then b else c]
  | .loop t b => if t x then [b, .loop t b] else []
  | _ => []

def effect : Body S I L → S → S
  | .act f => f
  | _ => id

def labels : Body S I L → List L
  | .seq b c => b.labels ++ c.labels
  | .cond _ b c => b.labels ++ c.labels
  | .loop _ b => b.labels
  | .await p _ => [p]
  | _ => []

/-- Where an execution of a statement can stand: the lists of what may be left of it. -/
inductive Within : Body S I L → List (Body S I L) → Prop
  | start (b : Body S I L) : Within b [b]
  | past (b : Body S I L) : Within b []
  | first {b c : Body S I L} {k : List (Body S I L)} (h : Within b k) :
      Within (.seq b c) (k ++ [c])
  | second {b c : Body S I L} {k : List (Body S I L)} (h : Within c k) : Within (.seq b c) k
  | yes {t : S → Bool} {b c : Body S I L} {k : List (Body S I L)} (h : Within b k) :
      Within (.cond t b c) k
  | no {t : S → Bool} {b c : Body S I L} {k : List (Body S I L)} (h : Within c k) :
      Within (.cond t b c) k
  | again {t : S → Bool} {b : Body S I L} {k : List (Body S I L)} (h : Within b k) :
      Within (.loop t b) (k ++ [.loop t b])
  /-- the answer was given -/
  | answered {b : Body S I L} {p : L} {i : S → I} {k : List (Body S I L)}
      (h : Within b (.await p i :: k)) : Within b (.skip :: k)

theorem within_expand (b : Body S I L) (x : S) : Within b (b.expand x) := by
  cases b with
  | skip => exact .past _
  | act f => exact .past _
  | await p i => exact .past _
  | seq b c => exact .first (.start b)
  | cond t b c =>
      simp only [expand]
      split_ifs
      · exact .yes (.start b)
      · exact .no (.start c)
  | loop t b =>
      simp only [expand]
      split_ifs
      · exact .again (.start b)
      · exact .past _

/-- An execution stays within the statement. -/
theorem Within.step {b h : Body S I L} {k : List (Body S I L)} (hw : Within b (h :: k)) (x : S) :
    Within b (h.expand x ++ k) := by
  generalize hl : h :: k = l at hw
  induction hw generalizing h k with
  | start b =>
      obtain ⟨rfl, rfl⟩ := List.cons.inj hl
      rw [List.append_nil]
      exact within_expand h x
  | past b => cases hl
  | @first b c k₀ hw ih =>
      cases k₀ with
      | nil =>
          obtain ⟨rfl, rfl⟩ := List.cons.inj hl
          rw [List.append_nil]
          exact .second (within_expand h x)
      | cons h₀ k₁ =>
          obtain ⟨rfl, rfl⟩ := List.cons.inj hl
          have hin := Within.first (c := c) (ih rfl)
          rwa [List.append_assoc] at hin
  | second hw ih => exact .second (ih hl)
  | yes hw ih => exact .yes (ih hl)
  | no hw ih => exact .no (ih hl)
  | @again t b k₀ hw ih =>
      cases k₀ with
      | nil =>
          obtain ⟨rfl, rfl⟩ := List.cons.inj hl
          rw [List.append_nil]
          exact within_expand _ x
      | cons h₀ k₁ =>
          obtain ⟨rfl, rfl⟩ := List.cons.inj hl
          have hin := Within.again (t := t) (ih rfl)
          rwa [List.append_assoc] at hin
  | @answered b p i k hw ih =>
      obtain ⟨rfl, rfl⟩ := List.cons.inj hl
      exact ih (h := .await p i) rfl

/-- An execution is at labels of the statement only. -/
theorem Within.mem_labels {b : Body S I L} {p : L} {i : S → I} {k : List (Body S I L)}
    (hw : Within b (.await p i :: k)) : p ∈ b.labels := by
  generalize hl : Body.await p i :: k = l at hw
  induction hw generalizing k with
  | start b =>
      cases hl
      exact List.mem_singleton.mpr rfl
  | past b => cases hl
  | @first b c k₀ hw ih =>
      cases k₀ with
      | nil =>
          cases hl
          exact List.mem_append.mpr (Or.inr (List.mem_singleton.mpr rfl))
      | cons h₀ k₁ =>
          cases hl
          exact List.mem_append.mpr (Or.inl (ih rfl))
  | second hw ih => exact List.mem_append.mpr (Or.inr (ih hl))
  | yes hw ih => exact List.mem_append.mpr (Or.inl (ih hl))
  | no hw ih => exact List.mem_append.mpr (Or.inr (ih hl))
  | @again t b k₀ hw ih =>
      cases k₀ with
      | nil => cases hl
      | cons h₀ k₁ =>
          cases hl
          exact ih rfl
  | answered hw ih => cases hl

end Body

/-- A function that waits: the object, and the statements left or where it waits. -/
structure Waiter (S I L : Type*) where
  object : S
  rest : List (Body S I L)
  waits : Option I

namespace Waiter

/-- What the environment sees. -/
def status (u : Waiter S I L) : Status I :=
  match u.waits, u.rest with
  | some i, _ => .waiting i
  | none, [] => .finished
  | none, _ :: _ => .running

def Enabled (u : Waiter S I L) : Action A → Prop
  | .step => u.waits = none ∧ u.rest ≠ []
  | .resume _ => u.waits ≠ none
  | .leave => False

def step (u : Waiter S I L) : Waiter S I L :=
  match u.rest with
  | [] => u
  | .await _ i :: k => { u with rest := .skip :: k, waits := some (i u.object) }
  | h :: k => { u with object := h.effect u.object, rest := h.expand u.object ++ k }

def next (enter : I → A → S → S) (u : Waiter S I L) : Action A → Waiter S I L
  | .step => u.step
  | .resume a =>
    match u.waits with
    | some i => { u with object := enter i a u.object, waits := none }
    | none => u
  | .leave => u

def machine (enter : I → A → S → S) : System (Waiter S I L) (Action A) := ⟨Enabled, next enter⟩

def start (b : Body S I L) (x : S) : Waiter S I L := ⟨x, [b], none⟩

end Waiter

/-! ## Functions that return -/

inductive Stmt (S I L : Type*)
  | skip
  | act (f : S → S)
  /-- the variable gets a label -/
  | assign (p : L)
  /-- a `case` label -/
  | case (p : L)
  /-- the function initiates something and returns -/
  | ret (i : S → I)
  | seq (b c : Stmt S I L)
  | cond (t : S → Bool) (b c : Stmt S I L)
  | loop (t : S → Bool) (b : Stmt S I L)
  /-- a loop that is left after its first round -/
  | once (b : Stmt S I L)

namespace Stmt

def expand (x : S) : Stmt S I L → List (Stmt S I L)
  | .seq b c => [b, c]
  | .cond t b c => [if t x then b else c]
  | .loop t b => if t x then [b, .loop t b] else []
  | .once b => [b]
  | _ => []

def effect : Stmt S I L → S → S
  | .act f => f
  | _ => id

/-- What is left of a statement behind a `case` label in it: the jump of the `switch` leads there.
    -/
def behind [DecidableEq L] (p : L) : Stmt S I L → Option (List (Stmt S I L))
  | .case q => if q = p then some [] else none
  | .seq b c =>
    match b.behind p with
    | some k => some (k ++ [c])
    | none => c.behind p
  | .cond _ b c =>
    match b.behind p with
    | some k => some k
    | none => c.behind p
  | .loop t b => (b.behind p).map (· ++ [.loop t b])
  | .once b => b.behind p
  | _ => none

end Stmt

/-- A function that returns: its variable, the object, the statements left of the call that is
    executed, or what was initiated last; and how many calls have initiated something and not yet
    returned to their callers. Those run nothing any more. -/
structure Caller (S I L : Type*) where
  label : L
  object : S
  rest : List (Stmt S I L)
  waits : Option I
  leaving : ℕ

namespace Caller

def status (t : Caller S I L) : Status I :=
  match t.waits, t.rest with
  | some i, _ => .waiting i
  | none, [] => .finished
  | none, _ :: _ => .running

/-- The completion of what was initiated may call the function again at once, inside the call that
    initiated it, or on another thread before that call has returned. -/
def Enabled (t : Caller S I L) : Action A → Prop
  | .step => t.waits = none ∧ t.rest ≠ []
  | .resume _ => t.waits ≠ none
  | .leave => 0 < t.leaving

instance (t : Caller S I L) : (a : Action A) → Decidable (t.Enabled a)
  | .step => inferInstanceAs (Decidable (t.waits = none ∧ t.rest ≠ []))
  | .resume _ => inferInstanceAs (Decidable (t.waits ≠ none))
  | .leave => inferInstanceAs (Decidable (0 < t.leaving))

def step (t : Caller S I L) : Caller S I L :=
  match t.rest with
  | [] => t
  | .assign p :: k => { t with label := p, rest := k }
  | .ret i :: _ => { t with rest := [], waits := some (i t.object), leaving := t.leaving + 1 }
  | h :: k => { t with object := h.effect t.object, rest := h.expand t.object ++ k }

/-- A call begins behind the label that the variable names. -/
def next [DecidableEq L] (body : Stmt S I L) (enter : I → A → S → S) (t : Caller S I L) :
    Action A → Caller S I L
  | .step => t.step
  | .resume a =>
    match t.waits with
    | some i =>
      { t with object := enter i a t.object, rest := (body.behind t.label).getD [], waits := none }
    | none => t
  | .leave => { t with leaving := t.leaving - 1 }

def machine [DecidableEq L] (body : Stmt S I L) (enter : I → A → S → S) :
    System (Caller S I L) (Action A) := ⟨Enabled, next body enter⟩

instance [DecidableEq L] (body : Stmt S I L) (enter : I → A → S → S) (t : Caller S I L)
    (a : Action A) : Decidable ((machine body enter).enabled t a) :=
  inferInstanceAs (Decidable (t.Enabled a))

/-- The first call. -/
def start [DecidableEq L] (body : Stmt S I L) (p : L) (x : S) : Caller S I L :=
  ⟨p, x, (body.behind p).getD [], none, 0⟩

end Caller

end Switch
