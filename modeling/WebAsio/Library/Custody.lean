import Mathlib.Logic.Function.Basic
import Mathlib.Logic.Relation
import Mathlib.Order.RelClasses

set_option autoImplicit false

/-! # Custody of suspended tasks

A task that is suspended can only be woken or ended by whoever has custody of it. The book records
the custodian of every task: the task it called (`owned`), or a one-shot token (`leased`), which is
loose, kept by another task, or condemned. A callee that is over stays behind as `spent` until the
task that called it reaps it. When a task dies it takes along the task it owned and the tokens it
kept, so death spreads from the innermost task of a chain of calls to its root.

The two results used elsewhere are about whole runs. `doomed_run`: once the token of a task is
condemned, no task of the chain above it ever runs again, and all are dead when nothing is left to
do. `Quiet.accounted`: as long as no token is condemned by which a finished callee hands its caller
back, everything that was started is dead when nothing is left to do. -/

namespace Custody

variable {T K : Type*}

/-- What a task is doing, and who has custody of it. -/
inductive Status (T K : Type*)
  | unborn
  | fresh
  | active
  | leased (k : K)
  | owned (c : T)
  | spent (f : T)
  | retired
  | ending
  | dead

inductive Token (T : Type*)
  | unused
  | loose
  | kept (x : T)
  | condemned
  | settled

/-- The book: one entry for every task and every token. -/
structure Book (T K : Type*) where
  status : T → Status T K
  token : K → Token T

namespace Book

def set [DecidableEq T] (b : Book T K) (x : T) (st : Status T K) : Book T K :=
  { b with status := Function.update b.status x st }

def setToken [DecidableEq K] (b : Book T K) (k : K) (tk : Token T) : Book T K :=
  { b with token := Function.update b.token k tk }

open Classical in
/-- The death of `x`: what `x` owned ends, what it kept is condemned. -/
noncomputable def bury (b : Book T K) (x : T) : Book T K where
  status y := if y = x then .dead else if b.status y = .owned x then .ending else b.status y
  token k := if b.token k = .kept x then .condemned else b.token k

/-- `x` waits for `y`, which it called or which keeps its token. -/
def Awaits (b : Book T K) (x y : T) : Prop :=
  b.status x = .owned y ∨ ∃ k, b.status x = .leased k ∧ b.token k = .kept y

/-- `f` has no finished callee left to reap. -/
def Clear (b : Book T K) (f : T) : Prop := ∀ y, b.status y ≠ .spent f

end Book

/-- The moves of the book. -/
inductive Move [DecidableEq T] [DecidableEq K] : Book T K → Book T K → Prop
  | create {b : Book T K} {x : T} : b.status x = .unborn → Move b (b.set x .fresh)
  | launch {b : Book T K} {x : T} : b.status x = .unborn → Move b (b.set x .active)
  | discard {b : Book T K} {x : T} : b.status x = .fresh → Move b (b.set x .ending)
  /-- `f` calls `c` and waits for it -/
  | call {b : Book T K} {f c : T} : b.status f = .active → b.Clear f → b.status c = .fresh →
      Move b ((b.set f (.owned c)).set c .active)
  /-- a new task `x` calls `c` -/
  | attach {b : Book T K} {x c : T} : b.status x = .unborn → b.status c = .fresh →
      Move b ((b.set x (.owned c)).set c .active)
  /-- `f` waits for the token `k` -/
  | lease {b : Book T K} {f : T} {k : K} : b.status f = .active → b.Clear f →
      b.token k = .unused → Move b ((b.set f (.leased k)).setToken k .loose)
  /-- `f` waits for a token kept by the new task `x`, which calls `c` -/
  | bridge {b : Book T K} {f x c : T} {k : K} : b.status f = .active → b.Clear f →
      b.token k = .unused → b.status x = .unborn → b.status c = .fresh →
      Move b ((((b.set f (.leased k)).set x (.owned c)).set c .active).setToken k (.kept x))
  | loosen {b : Book T K} {x : T} {k : K} : b.status x = .active → b.token k = .kept x →
      Move b (b.setToken k .loose)
  | condemn {b : Book T K} {k : K} : b.token k = .loose → Move b (b.setToken k .condemned)
  | wake {b : Book T K} {f : T} {k : K} : b.status f = .leased k → b.token k = .loose →
      Move b ((b.set f .active).setToken k .settled)
  | abandon {b : Book T K} {f : T} {k : K} : b.status f = .leased k → b.token k = .condemned →
      Move b ((b.set f .ending).setToken k .settled)
  /-- `c` is over and its caller goes on -/
  | passBack {b : Book T K} {f c : T} : b.status c = .active → b.Clear c →
      (∀ k, b.token k ≠ .kept c) → b.status f = .owned c →
      Move b ((b.set c (.spent f)).set f .active)
  /-- `c` is over and its caller waits for a token -/
  | passOn {b : Book T K} {f c : T} {k : K} : b.status c = .active → b.Clear c →
      (∀ k, b.token k ≠ .kept c) → b.status f = .owned c → b.token k = .unused →
      Move b (((b.set c (.spent f)).set f (.leased k)).setToken k .loose)
  | reap {b : Book T K} {f c : T} : b.status f = .active → b.status c = .spent f →
      Move b (b.set c .ending)
  | quit {b : Book T K} {x : T} : b.status x = .active → b.Clear x →
      (∀ y, b.status y ≠ .owned x) → (∀ k, b.token k ≠ .kept x) → Move b (b.set x .dead)
  | retire {b : Book T K} {x : T} : b.status x = .active → b.Clear x →
      (∀ y, b.status y ≠ .owned x) → (∀ k, b.token k ≠ .kept x) → Move b (b.set x .retired)
  | bury {b : Book T K} {x : T} : b.status x = .ending → Move b (b.bury x)

/-- Finite sequences of moves. -/
abbrev Moves [DecidableEq T] [DecidableEq K] : Book T K → Book T K → Prop :=
  Relation.ReflTransGen Move

/-! ## Projections of the updates -/

namespace Book

@[simp, grind =] theorem set_status [DecidableEq T] (b : Book T K) (x y : T) (st : Status T K) :
    (b.set x st).status y = if y = x then st else b.status y := by
  simp [set, Function.update_apply]

@[simp, grind =] theorem set_token [DecidableEq T] (b : Book T K) (x : T) (st : Status T K)
    (k : K) : (b.set x st).token k = b.token k := rfl

@[simp, grind =] theorem setToken_status [DecidableEq K] (b : Book T K) (k : K) (tk : Token T)
    (x : T) : (b.setToken k tk).status x = b.status x := rfl

@[simp, grind =] theorem setToken_token [DecidableEq K] (b : Book T K) (k j : K) (tk : Token T) :
    (b.setToken k tk).token j = if j = k then tk else b.token j := by
  simp [setToken, Function.update_apply]

open Classical in
@[simp, grind =] theorem bury_status (b : Book T K) (x y : T) :
    (b.bury x).status y =
      if y = x then .dead else if b.status y = .owned x then .ending else b.status y := rfl

open Classical in
@[simp, grind =] theorem bury_token (b : Book T K) (x : T) (k : K) :
    (b.bury x).token k = if b.token k = .kept x then .condemned else b.token k := rfl

@[simp] theorem setToken_self [DecidableEq K] (b : Book T K) (k : K) :
    b.setToken k (b.token k) = b := by
  simp [setToken]

end Book

/-! ## Well-formed books -/

/-- A task that a suspended caller waits for: it was started and its body is not over. -/
def Status.inProgress : Status T K → Bool
  | .active | .leased _ | .owned _ | .ending => true
  | _ => false

/-- A task waits for tasks in progress only, a call and a token are waited for by one task, a token
    waited for is in use, and neither waiting nor being waited for goes on forever. -/
structure Wf (b : Book T K) : Prop where
  ownedUnique : ∀ f g c, b.status f = .owned c → b.status g = .owned c → f = g
  ownedLive : ∀ f c, b.status f = .owned c → (b.status c).inProgress = true
  leaseUnique : ∀ f g k, b.status f = .leased k → b.status g = .leased k → f = g
  leaseLive : ∀ f k, b.status f = .leased k → b.token k ≠ .unused ∧ b.token k ≠ .settled
  keptLive : ∀ f k y, b.status f = .leased k → b.token k = .kept y →
    (b.status y).inProgress = true
  acyclic : ∀ x, Acc (fun y x => b.Awaits x y) x
  rooted : ∀ x, Acc (fun f c => b.status f = .owned c) x

/-- The empty book. -/
def Book.empty : Book T K := ⟨fun _ => .unborn, fun _ => .unused⟩

theorem Wf.empty : Wf (Book.empty : Book T K) := by
  constructor
  case acyclic => exact fun x => ⟨x, fun y h => by simp [Book.empty, Book.Awaits] at h⟩
  case rooted => exact fun x => ⟨x, fun y h => by simp [Book.empty] at h⟩
  all_goals simp [Book.empty]

/-- Waiting stays acyclic when all that is newly waited for waits at most for a leaf. -/
theorem acyclic_of_waits {b b' : Book T K}
    (h : ∀ x y, b'.Awaits x y → b.Awaits x y ∨ ∀ d, b'.Awaits y d → ∀ e, ¬ b'.Awaits d e)
    (hacc : ∀ x, Acc (fun y x => b.Awaits x y) x) (x : T) :
    Acc (fun y x => b'.Awaits x y) x := by
  induction hacc x with
  | intro x _ ih =>
      refine ⟨x, fun y hy => ?_⟩
      rcases h x y hy with hold | hleaf
      · exact ih y hold
      · exact ⟨y, fun d hd => ⟨d, fun e he => absurd he (hleaf d hd e)⟩⟩

/-- Calls stay rooted when every task newly called has called none itself. -/
theorem rooted_of_calls {b b' : Book T K}
    (h : ∀ f c, b'.status f = .owned c → b.status f = .owned c ∨ ∀ d, b'.status c ≠ .owned d)
    (hacc : ∀ x, Acc (fun f c => b.status f = .owned c) x) (x : T) :
    Acc (fun f c => b'.status f = .owned c) x := by
  -- first the tasks that have called another
  have hcaller : ∀ x, (∃ d, b'.status x = .owned d) →
      Acc (fun f c => b'.status f = .owned c) x := by
    intro x
    induction hacc x with
    | intro x _ ih =>
        rintro ⟨d, hd⟩
        refine ⟨x, fun f hf => ?_⟩
        rcases h f x hf with hold | hleaf
        · exact ih f hold ⟨x, hf⟩
        · exact absurd hd (hleaf d)
  exact ⟨x, fun f hf => hcaller f ⟨x, hf⟩⟩

/-! ## Doom -/

/-- Nothing can wake `x` any more: it is ending, its token is condemned, or its custodian is
    doomed itself. -/
inductive Doomed (b : Book T K) : T → Prop
  | ending {x : T} : b.status x = .ending → Doomed b x
  | condemned {x : T} {k : K} : b.status x = .leased k → b.token k = .condemned → Doomed b x
  | owned {x c : T} : b.status x = .owned c → Doomed b c → Doomed b x
  | kept {x y : T} {k : K} : b.status x = .leased k → b.token k = .kept y → Doomed b y →
      Doomed b x

/-- `x` belongs to the chain that waits, directly or not, for `f`. -/
inductive Above (b : Book T K) (f : T) : T → Prop
  | refl : Above b f f
  | owned {x c : T} : b.status x = .owned c → Above b f c → Above b f x
  | kept {x y : T} {k : K} : b.status x = .leased k → b.token k = .kept y → Above b f y →
      Above b f x

/-- What somebody waits for is in progress. -/
theorem Above.inProgress {b : Book T K} (w : Wf b) {f x : T} (h : Above b f x) :
    x = f ∨ (b.status f).inProgress = true := by
  induction h with
  | refl => exact .inl rfl
  | owned hx _ ih => exact .inr (ih.elim (fun hc => hc ▸ w.ownedLive _ _ hx) id)
  | kept hx hk _ ih => exact .inr (ih.elim (fun hy => hy ▸ w.keptLive _ _ _ hx hk) id)

theorem Doomed.above {b : Book T K} {f x : T} (hf : Doomed b f) (h : Above b f x) :
    Doomed b x := by
  induction h with
  | refl => exact hf
  | owned hx _ ih => exact .owned hx ih
  | kept hx hk _ ih => exact .kept hx hk ih

theorem Doomed.status {b : Book T K} {x : T} (h : Doomed b x) :
    b.status x = .ending ∨ (∃ k, b.status x = .leased k ∧ b.token k ≠ .loose) ∨
      ∃ c, b.status x = .owned c := by
  cases h with
  | ending h => exact .inl h
  | condemned h hk => exact .inr (.inl ⟨_, h, by simp [hk]⟩)
  | owned h _ => exact .inr (.inr ⟨_, h⟩)
  | kept h hk _ => exact .inr (.inl ⟨_, h, by simp [hk]⟩)

/-- A doomed task is not running. -/
theorem Doomed.not_active {b : Book T K} {x : T} (h : Doomed b x) : b.status x ≠ .active := by
  rcases h.status with h | ⟨k, h, -⟩ | ⟨c, h⟩ <;> simp [h]

theorem Doomed.not_dead {b : Book T K} {x : T} (h : Doomed b x) : b.status x ≠ .dead := by
  rcases h.status with h | ⟨k, h, -⟩ | ⟨c, h⟩ <;> simp [h]

/-- Nothing is left to do for the tasks that must end. -/
structure Settled (b : Book T K) : Prop where
  ending : ∀ x, b.status x ≠ .ending
  condemned : ∀ x k, b.status x = .leased k → b.token k ≠ .condemned

variable [DecidableEq T] [DecidableEq K]

theorem Wf.move {b b' : Book T K} (w : Wf b) (m : Move b b') : Wf b' := by
  obtain ⟨ho, hl, hu, ht, hk, ha, hr⟩ := w
  constructor
  case acyclic =>
    clear hr
    refine acyclic_of_waits (fun x y h => ?_) ha
    clear ha
    cases m with
    | @bridge f x' c k hf _ hk' hx hc =>
        -- `f` now waits for `x'`, and `x'` for the leaf `c`
        by_cases hyx : y = x'
        · subst hyx
          grind [Book.Awaits]
        by_cases hyc : y = c
        · subst hyc
          grind [Book.Awaits]
        · left
          grind [Book.Awaits]
    | _ => grind [Book.Awaits, Status.inProgress]
  case rooted =>
    refine rooted_of_calls (fun f c h => ?_) hr
    clear ha hr hk
    cases m <;> grind
  all_goals
    clear ha hr
    cases m <;> grind [Status.inProgress]

/-- One move leaves a doomed task doomed, or buries it. -/
theorem Doomed.move {b b' : Book T K} (w : Wf b) (m : Move b b') {x : T} (h : Doomed b x) :
    Doomed b' x ∨ b'.status x = .dead := by
  obtain ⟨ho, hl, hu, ht, -, -, -⟩ := w
  induction h with
  | @ending x hx =>
    have : b'.status x = .ending ∨ b'.status x = .dead := by
      cases m <;> grind
    exact this.imp .ending id
  | @condemned x k hx hk =>
    have : b'.status x = .ending ∨ (b'.status x = .leased k ∧ b'.token k = .condemned) := by
      cases m <;> grind
    exact .inl (this.elim .ending fun h => .condemned h.1 h.2)
  | @owned x c hx hc ih =>
    have hs := hc.status
    have : b'.status x = .ending ∨ (b'.status x = .owned c ∧ b'.status c ≠ .dead) := by
      cases m <;> grind
    rcases this with h | ⟨h, hd⟩
    · exact .inl (.ending h)
    · exact .inl (.owned h (ih.resolve_right hd))
  | @kept x y k hx hk hy ih =>
    have hya := hy.not_active
    have hyd := hy.not_dead
    -- only the death of `y` touches what `y` keeps, and only the fate of `k` touches `x`
    have hxk : b'.status x = .leased k := by
      cases m <;> grind
    have : b'.token k = .condemned ∨ (b'.token k = .kept y ∧ b'.status y ≠ .dead) := by
      cases m <;> grind
    rcases this with hc | ⟨hc, hd⟩
    · exact .inl (.condemned hxk hc)
    · exact .inl (.kept hxk hc (ih.resolve_right hd))

/-- Dead tasks stay dead. -/
theorem dead_move {b b' : Book T K} (m : Move b b') {x : T} (h : b.status x = .dead) :
    b'.status x = .dead := by
  cases m <;> grind

theorem dead_moves {b b' : Book T K} (m : Moves b b') {x : T} (h : b.status x = .dead) :
    b'.status x = .dead := by
  induction m with
  | refl => exact h
  | tail _ m ih => exact dead_move m ih

/-- What is ending stays so until it is dead. -/
theorem ending_move {b b' : Book T K} (m : Move b b') {x : T}
    (h : b.status x = .ending ∨ b.status x = .dead) :
    b'.status x = .ending ∨ b'.status x = .dead := by
  cases m <;> grind

theorem ending_moves {b b' : Book T K} (m : Moves b b') {x : T}
    (h : b.status x = .ending ∨ b.status x = .dead) :
    b'.status x = .ending ∨ b'.status x = .dead := by
  induction m with
  | refl => exact h
  | tail _ m ih => exact ending_move m ih

theorem Wf.moves {b b' : Book T K} (w : Wf b) (m : Moves b b') : Wf b' := by
  induction m with
  | refl => exact w
  | tail _ m ih => exact ih.move m

/-- **Doom runs its course.** What is doomed stays doomed until it is dead, in every run. -/
theorem doomed_run {b b' : Book T K} (w : Wf b) (m : Moves b b') {x : T}
    (h : Doomed b x ∨ b.status x = .dead) : Doomed b' x ∨ b'.status x = .dead := by
  induction m with
  | refl => exact h
  | tail hm m ih => exact ih.elim (Doomed.move (w.moves hm) m) fun hd => .inr (dead_move m hd)

/-! ## Leaks

A finished callee is known only to the task that called it. If the token by which that task is
handed back is condemned, the task ends and nobody reaps the callee. That is the only leak. -/

/-- The change from `b` to `b'` does not condemn a token by which a finished callee hands its caller
    back. -/
def Keeps (b b' : Book T K) : Prop :=
  ∀ f c k, b.status c = .spent f → b.status f = .leased k → b.token k = .loose →
    b'.token k ≠ .condemned

/-- Every finished callee still has a caller that will reap it. -/
def Reapable (b : Book T K) : Prop :=
  ∀ c f, b.status c = .spent f →
    b.status f = .active ∨ ∃ k, b.status f = .leased k ∧ b.token k = .loose

theorem Reapable.move {b b' : Book T K} (w : Wf b) (h : Reapable b) (m : Move b b')
    (hk : Keeps b b') : Reapable b' := by
  obtain ⟨-, -, hu, ht, -, -, -⟩ := w
  intro c f hc
  have hcf := h c f
  have hkc := hk f c
  cases m <;> grind [Book.Clear]

/-- Moves that, when `q` holds, condemn no hand-back. -/
abbrev MovesIf (q : Prop) : Book T K → Book T K → Prop :=
  Relation.ReflTransGen fun b b' => Move b b' ∧ (q → Keeps b b')

theorem MovesIf.moves {q : Prop} {b b' : Book T K} (m : MovesIf q b b') : Moves b b' := by
  induction m with
  | refl => exact .refl
  | tail _ m ih => exact ih.tail m.1

/-- A move that condemns nothing loose. -/
theorem MovesIf.single {q : Prop} {b b' : Book T K} (m : Move b b')
    (h : ∀ k, b.token k = .loose → b'.token k ≠ .condemned) : MovesIf q b b' :=
  Relation.ReflTransGen.single ⟨m, fun _ _ _ k _ _ hk => h k hk⟩

/-- A token is condemned by which nothing is handed back. -/
theorem MovesIf.condemn {q : Prop} {b : Book T K} {k : K} (h : b.token k = .loose)
    (hq : q → ∀ f c, b.status c = .spent f → b.status f ≠ .leased k) :
    MovesIf q b (b.setToken k .condemned) := by
  refine Relation.ReflTransGen.single ⟨.condemn h, fun hq' f c j hc hf hj => ?_⟩
  have := hq hq' f c hc
  grind

theorem Reapable.moves {q : Prop} {b b' : Book T K} (w : Wf b) (h : Reapable b) (hq : q)
    (m : MovesIf q b b') : Reapable b' := by
  induction m with
  | refl => exact h
  | tail hm m ih => exact ih.move (w.moves (MovesIf.moves hm)) m.1 (m.2 hq)

/-- A task that waits to be called has done so since it was created. -/
theorem fresh_moves {b b' : Book T K} (m : Moves b b') {x : T} :
    (b'.status x = .unborn → b.status x = .unborn) ∧
      (b'.status x = .fresh → b.status x = .fresh ∨ b.status x = .unborn) := by
  induction m with
  | refl => exact ⟨id, .inl⟩
  | @tail b₁ b₂ _ m ih =>
      have hstep : (b₂.status x = .unborn → b₁.status x = .unborn) ∧
          (b₂.status x = .fresh → b₁.status x = .fresh ∨ b₁.status x = .unborn) := by
        clear ih
        cases m <;> grind
      exact ⟨fun h => ih.1 (hstep.1 h), fun h => (hstep.2 h).elim ih.2 fun h => .inr (ih.1 h)⟩

/-- A finished callee is reaped by its caller, or stays what it is. -/
theorem spent_move {b b' : Book T K} (m : Move b b') {c f : T} (h : b.status c = .spent f) :
    b'.status c = .spent f ∨ b'.status c = .ending ∧ b.status f = .active := by
  cases m <;> grind

theorem spent_moves {b b' : Book T K} (m : Moves b b') {c f : T} (h : b.status c = .spent f) :
    b'.status c = .spent f ∨ b'.status c = .ending ∨ b'.status c = .dead := by
  induction m with
  | refl => exact .inl h
  | tail _ m ih =>
      rcases ih with hc | hc
      · exact (spent_move m hc).imp id fun h => .inl h.1
      · exact .inr (ending_move m hc)

/-- A finished callee whose caller will not go on is never reaped. -/
theorem leaked_moves {b b' : Book T K} (w : Wf b) (m : Moves b b') {c f : T}
    (hc : b.status c = .spent f) (hf : Doomed b f ∨ b.status f = .dead) :
    b'.status c = .spent f := by
  induction m with
  | refl => exact hc
  | @tail b₁ b₂ hm m ih =>
      have hna : b₁.status f ≠ .active :=
        (doomed_run w hm hf).elim Doomed.not_active fun hd => by simp [hd]
      exact (spent_move m ih).resolve_right fun h => hna h.2

/-- No task is running or ending, and a task that waits for a token waits for its keeper. -/
def Quiet (b : Book T K) : Prop :=
  ∀ x, b.status x ≠ .active ∧ b.status x ≠ .ending ∧
    ∀ k, b.status x = .leased k → ∃ y, b.token k = .kept y

/-- What may be left in a quiet book when nothing leaked. -/
def Status.accounted : Status T K → Bool
  | .unborn | .fresh | .retired | .dead => true
  | _ => false

omit [DecidableEq T] [DecidableEq K] in
/-- In a quiet book nobody waits: a chain of waiting tasks would have no end. -/
theorem Quiet.not_waiting {b : Book T K} (w : Wf b) (hq : Quiet b) (x : T) :
    (b.status x).inProgress = false := by
  induction w.acyclic x with
  | intro x _ ih =>
      by_contra hp
      rcases hx : b.status x with _ | _ | _ | k | c | g | _ | _ | _ <;>
        simp [hx, Status.inProgress] at hp
      · exact (hq x).1 hx
      · obtain ⟨y, hy⟩ := (hq x).2.2 k hx
        have hlive := w.keptLive x k y hx hy
        rw [ih y (.inr ⟨k, hx, hy⟩)] at hlive
        simp at hlive
      · have hlive := w.ownedLive x c hx
        rw [ih c (.inl hx)] at hlive
        simp at hlive
      · exact (hq x).2.1 hx

omit [DecidableEq T] [DecidableEq K] in
/-- **Nothing leaks.** In a quiet book without lost hand-backs everything that was started is dead
    or retired. -/
theorem Quiet.accounted {b : Book T K} (w : Wf b) (h : Reapable b) (hq : Quiet b) (x : T) :
    (b.status x).accounted = true := by
  have hx := hq.not_waiting w x
  rcases hs : b.status x with _ | _ | _ | k | c | f | _ | _ | _ <;>
    simp [hs, Status.inProgress] at hx
  case spent =>
    have hf := hq.not_waiting w f
    rcases h x f hs with ha | ⟨k, hk, -⟩
    · simp [ha, Status.inProgress] at hf
    · simp [hk, Status.inProgress] at hf
  all_goals rfl

end Custody
