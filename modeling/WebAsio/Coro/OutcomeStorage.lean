import WebAsio.Library.Transition
import WebAsio.Coro.Outcome
import Mathlib.Logic.Function.Basic
import Mathlib.Logic.ExistsUnique
import Mathlib.Tactic.SplitIfs

set_option autoImplicit false

/-! # `outcome<T>::storage_t`: a union with its tag inside

Any number of `outcome<T>` objects in memory of arbitrary content. The tag `what_.v` is a word of
that memory, so a constructor that does not write it leaves there what was there before. Next to
the memory stands a ledger of the objects that were constructed in the unions, `T`s and
`exception_ptr`s alike: each gets a serial number, and its destructions are counted.

`residue v` is what moving from a `T` with value `v` leaves in it; an `exception_ptr` moved from is
null. -/

namespace WebAsio.Coro.OutcomeStorage

open Transition

/-- `enum class what`. -/
inductive What
  | nothing
  | value
  | exception
  deriving DecidableEq, Repr

/-- The representation of an enumerator. -/
def What.code : What → BitVec 32
  | .nothing => 0
  | .value => 1
  | .exception => 2

/-- The enumerator a word represents, if any: what a `switch` over the word does. -/
def What.ofCode (w : BitVec 32) : Option What :=
  if w = 0 then some .nothing else if w = 1 then some .value
  else if w = 2 then some .exception else none

@[simp] theorem What.ofCode_code (w : What) : What.ofCode w.code = some w := by
  cases w <;> rfl

theorem What.ofCode_eq_nothing {w : BitVec 32} : What.ofCode w = some .nothing ↔ w = 0 := by
  unfold What.ofCode
  split_ifs with h₀ h₁ h₂
  · exact ⟨fun _ => h₀, fun _ => rfl⟩
  all_goals exact ⟨nofun, fun h => absurd h h₀⟩

variable {V E : Type}

/-- The alternative that is alive. -/
def What.of : Outcome V (Option E) → What
  | .nothing => .nothing
  | .value _ => .value
  | .exception _ => .exception

theorem What.of_eq_nothing {o : Outcome V (Option E)} : What.of o = .nothing ↔ o = .nothing := by
  cases o <;> simp [What.of]

/-- The memory of one `outcome<T>`: whether an object lives there, the tag word, the member of the
    union that is alive and its serial number. -/
structure Cell (V E : Type) where
  lives : Bool
  tag : BitVec 32
  alive : Outcome V (Option E)
  serial : Nat
  deriving DecidableEq

/-- The memory and the ledger: how many objects were constructed in unions, how often each was
    destroyed, how often a member was used that was not alive, and how often an assertion of
    set-once failed. -/
structure State (V E : Type) where
  cell : Nat → Cell V E
  made : Nat
  destroyed : Nat → Nat
  stray : Nat
  traps : Nat

namespace State

/-- Memory before any outcome is constructed in it. -/
def blank (tag : Nat → BitVec 32) : State V E :=
  ⟨fun i => ⟨false, tag i, .nothing, 0⟩, 0, fun _ => 0, 0, 0⟩

/-- `storage_t::which`. -/
def which (s : State V E) (i : Nat) : Option What := What.ofCode (s.cell i).tag

def setCell (s : State V E) (i : Nat) (c : Cell V E) : State V E :=
  { s with cell := Function.update s.cell i c }

def setTag (s : State V E) (i : Nat) (w : What) : State V E :=
  s.setCell i { s.cell i with tag := w.code }

def strays (s : State V E) : State V E := { s with stray := s.stray + 1 }

/-- `std::construct_at` on a member of the union, by a constructor that returns. -/
def constructAt (s : State V E) (i : Nat) (o : Outcome V (Option E)) : State V E :=
  { s.setCell i { s.cell i with alive := o, serial := s.made } with made := s.made + 1 }

/-- `std::destroy_at` on the member `w` of the union. -/
def destroyAt (s : State V E) (i : Nat) (w : What) : State V E :=
  if What.of (s.cell i).alive = w then
    { s.setCell i { s.cell i with alive := .nothing } with
      destroyed := Function.update s.destroyed (s.cell i).serial
        (s.destroyed (s.cell i).serial + 1) }
  else s.strays

/-! ## The member functions of the union -/

/-- `emplace_value`; `none` stands for arguments that the constructor of `T` throws on. The second
    component tells whether it threw. -/
def emplaceValue (s : State V E) (i : Nat) : Option V → State V E × Bool
  | none => (s, true)
  | some v => ((s.constructAt i (.value v)).setTag i .value, false)

def emplaceException (s : State V E) (i : Nat) (e : Option E) : State V E :=
  (s.constructAt i (.exception e)).setTag i .exception

/-- `destroy`, which is also the destructor. -/
def destroy (s : State V E) (i : Nat) : State V E :=
  match s.which i with
  | some .nothing => s
  | some w => (s.destroyAt i w).setTag i .nothing
  | none => s.setTag i .nothing

variable (residue : V → V)

/-- `move`: the union at `i` takes over from the one at `j`. Using a member that is not alive has
    no defined outcome; it is entered as stray. -/
def move (s : State V E) (i j : Nat) (throws : Bool) : State V E × Bool :=
  match s.which j with
  | some .value =>
    match (s.cell j).alive with
    | .value v =>
      let (s, threw) := s.emplaceValue i (if throws then none else some v)
      (if threw then s else s.setCell j { s.cell j with alive := .value (residue v) }, threw)
    | _ => (s.strays.setTag i .value, false)
  | some .exception =>
    match (s.cell j).alive with
    | .exception e =>
      let s := s.emplaceException i e
      (s.setCell j { s.cell j with alive := .exception none }, false)
    | _ => (s.strays.setTag i .exception, false)
  | _ => (s, false)

/-! ## The member functions of `outcome<T>` -/

/-- An object begins or ends to live in the memory of `i`. -/
def setLives (s : State V E) (i : Nat) (b : Bool) : State V E :=
  s.setCell i { s.cell i with lives := b }

/-- The memory of `i` is used anew, with whatever its tag word holds. -/
def reuse (s : State V E) (i : Nat) : State V E :=
  s.setCell i { s.cell i with alive := .nothing }

def construct (s : State V E) (i : Nat) : State V E :=
  ((s.reuse i).setTag i .nothing).setLives i true

/-- The move constructor: no object comes to live when the constructor of `T` throws. -/
def moveConstruct (s : State V E) (i j : Nat) (throws : Bool) : State V E :=
  let (s, threw) := (s.reuse i).move residue i j throws
  s.setLives i !threw

/-- `assert_trap(storage_.which() == what::nothing, "outcome already set")`. -/
def assertUnset (s : State V E) (i : Nat) : State V E :=
  if s.which i = some .nothing then s else { s with traps := s.traps + 1 }

def setValue (s : State V E) (i : Nat) (v : Option V) : State V E :=
  ((s.assertUnset i).emplaceValue i v).1

def setException (s : State V E) (i : Nat) (e : E) : State V E :=
  (s.assertUnset i).emplaceException i (some e)

def destruct (s : State V E) (i : Nat) : State V E := (s.destroy i).setLives i false

end State

/-! ## Runs -/

inductive Action (V E : Type)
  | construct (i : Nat)
  | moveConstruct (i j : Nat) (throws : Bool)
  | setValue (i : Nat) (v : Option V)
  | setException (i : Nat) (e : E)
  | destruct (i : Nat)
  /-- memory in which no outcome lives is used for something else -/
  | scribble (i : Nat) (w : BitVec 32)
  deriving DecidableEq

namespace State

/-- Outcomes are constructed where none lives, used while they live, and set once. -/
def Enabled (s : State V E) : Action V E → Prop
  | .construct i => (s.cell i).lives = false
  | .moveConstruct i j _ => (s.cell i).lives = false ∧ (s.cell j).lives = true
  | .setValue i _ => (s.cell i).lives = true ∧ What.of (s.cell i).alive = .nothing
  | .setException i _ => (s.cell i).lives = true ∧ What.of (s.cell i).alive = .nothing
  | .destruct i => (s.cell i).lives = true
  | .scribble i _ => (s.cell i).lives = false

instance (s : State V E) (a : Action V E) : Decidable (s.Enabled a) := by
  cases a <;> unfold Enabled <;> infer_instance

variable (residue : V → V)

def next (s : State V E) : Action V E → State V E
  | .construct i => s.construct i
  | .moveConstruct i j throws => s.moveConstruct residue i j throws
  | .setValue i v => s.setValue i v
  | .setException i e => s.setException i e
  | .destruct i => s.destruct i
  | .scribble i w => s.setCell i { s.cell i with tag := w }

end State

def machine (residue : V → V) : System (State V E) (Action V E) :=
  ⟨State.Enabled, State.next residue⟩

instance (residue : V → V) (s : State V E) (a : Action V E) :
    Decidable ((machine residue).enabled s a) :=
  inferInstanceAs (Decidable (s.Enabled a))

namespace State

/-- The union at `i` holds the object with serial number `n`. -/
def Holds (s : State V E) (i n : Nat) : Prop :=
  (s.cell i).alive ≠ .nothing ∧ (s.cell i).serial = n

/-- Tags name what is alive, and objects are destroyed once, when no union holds them any more. -/
structure Truthful (s : State V E) : Prop where
  tags : ∀ i, (s.cell i).lives = true → s.which i = some (What.of (s.cell i).alive)
  once : ∀ n < s.made,
    (s.destroyed n = 0 ∧ ∃! i, (s.cell i).lives = true ∧ s.Holds i n) ∨
      (s.destroyed n = 1 ∧ ∀ i, ¬ s.Holds i n)
  unmade : ∀ n, s.made ≤ n → s.destroyed n = 0
  stray : s.stray = 0
  traps : s.traps = 0

variable (residue : V → V)

/-- What a step has to achieve: truthful tags, a target of a move in the state that the source had,
    and no value left behind by a constructor that throws. -/
structure StepOk (s : State V E) (a : Action V E) : Prop where
  truthful : (s.next residue a).Truthful
  moved : ∀ i j, a = .moveConstruct i j false →
    ((s.next residue a).cell i).lives = true ∧
      ((s.next residue a).cell i).alive = (s.cell j).alive
  unset : ∀ i, a = .setValue i none → (s.next residue a).which i = some .nothing

/-- The step does not move an unset outcome to memory whose tag word says something else. -/
def SparesBlank (s : State V E) : Action V E → Prop
  | .moveConstruct i j _ => What.of (s.cell j).alive = .nothing → s.which i = some .nothing
  | _ => True

instance (s : State V E) (a : Action V E) : Decidable (s.SparesBlank a) := by
  cases a <;> unfold SparesBlank <;> infer_instance

/-! ## The operations on truthful memory -/

@[simp] theorem setCell_cell (s : State V E) (i : Nat) (c : Cell V E) :
    (s.setCell i c).cell i = c := Function.update_self ..

theorem setCell_cell_ne {i k : Nat} (hk : k ≠ i) (s : State V E) (c : Cell V E) :
    (s.setCell i c).cell k = s.cell k := Function.update_of_ne hk ..

@[simp] theorem setCell_setCell (s : State V E) (i : Nat) (c d : Cell V E) :
    (s.setCell i c).setCell i d = s.setCell i d := by
  simp [setCell]

@[simp] theorem setCell_self (s : State V E) (i : Nat) : s.setCell i (s.cell i) = s := by
  simp [setCell]

theorem construct_eq (s : State V E) (i : Nat) :
    s.construct i = s.setCell i ⟨true, What.nothing.code, .nothing, (s.cell i).serial⟩ := by
  simp [construct, setLives, setTag, reuse]

/-- A union with the alternative `o`, newly constructed. -/
def placed (s : State V E) (i : Nat) (o : Outcome V (Option E)) : State V E :=
  { s.setCell i ⟨true, (What.of o).code, o, s.made⟩ with made := s.made + 1 }

theorem setValue_some {s : State V E} {i : Nat} (hi : (s.cell i).lives = true)
    (hw : s.which i = some .nothing) (v : V) : s.setValue i (some v) = s.placed i (.value v) := by
  simp [setValue, assertUnset, hw, emplaceValue, constructAt, setTag, placed, setCell, hi, What.of]

theorem setValue_none {s : State V E} {i : Nat} (hw : s.which i = some .nothing) :
    s.setValue i none = s := by
  simp [setValue, assertUnset, hw, emplaceValue]

theorem setException_eq {s : State V E} {i : Nat} (hi : (s.cell i).lives = true)
    (hw : s.which i = some .nothing) (e : E) :
    s.setException i e = s.placed i (.exception (some e)) := by
  simp [setException, assertUnset, hw, emplaceException, constructAt, setTag, placed, setCell, hi,
    What.of]

theorem destruct_nothing {s : State V E} {i : Nat} (hw : s.which i = some .nothing) :
    s.destruct i = s.setLives i false := by
  simp [destruct, destroy, hw]

/-- A union whose alternative was destroyed together with it. -/
def buried (s : State V E) (i : Nat) : State V E :=
  { s.setCell i ⟨false, What.nothing.code, .nothing, (s.cell i).serial⟩ with
    destroyed := Function.update s.destroyed (s.cell i).serial
      (s.destroyed (s.cell i).serial + 1) }

theorem destruct_alive {s : State V E} {i : Nat} (hw : s.which i = some (What.of (s.cell i).alive))
    (hn : (s.cell i).alive ≠ .nothing) : s.destruct i = s.buried i := by
  cases ha : (s.cell i).alive with
  | nothing => exact absurd ha hn
  | value v =>
      simp only [ha, What.of] at hw
      simp [destruct, destroy, hw, destroyAt, ha, What.of, setTag, setLives, setCell, buried]
  | exception e =>
      simp only [ha, What.of] at hw
      simp [destruct, destroy, hw, destroyAt, ha, What.of, setTag, setLives, setCell, buried]

theorem which_reuse (s : State V E) (i j : Nat) : (s.reuse i).which j = s.which j := by
  unfold which reuse
  by_cases hj : j = i
  · rw [hj, setCell_cell]
  · rw [setCell_cell_ne hj]

theorem moveConstruct_nothing {s : State V E} {i j : Nat} (hw : s.which j = some .nothing)
    (throws : Bool) : s.moveConstruct residue i j throws = (s.reuse i).setLives i true := by
  simp [moveConstruct, move, which_reuse, hw]

theorem setCell_comm {i j : Nat} (hij : j ≠ i) (s : State V E) (c d : Cell V E) :
    (s.setCell i c).setCell j d = (s.setCell j d).setCell i c := by
  simp only [setCell, Function.update_comm hij]

theorem cell_reuse_ne {i j : Nat} (hij : j ≠ i) (s : State V E) : (s.reuse i).cell j = s.cell j :=
  setCell_cell_ne hij ..

/-- A new union taken over from another one, whose object is left moved from. -/
theorem placed_moved {s : State V E} {i j : Nat} (hij : j ≠ i) (o o' : Outcome V (Option E)) :
    (State.setLives (((s.reuse i).constructAt i o).setTag i (What.of o) |>.setCell j
      { (((s.reuse i).constructAt i o).setTag i (What.of o)).cell j with alive := o' }) i true) =
      (s.placed i o).setCell j { s.cell j with alive := o' } := by
  have hj : (((s.reuse i).constructAt i o).setTag i (What.of o)).cell j = s.cell j := by
    show ((((s.reuse i).setCell i _).setCell i _).cell j) = _
    rw [setCell_cell_ne hij, setCell_cell_ne hij, cell_reuse_ne hij]
  rw [hj, setLives, setCell_cell_ne hij.symm, setCell_comm hij.symm]
  congr 1
  simp [setTag, constructAt, placed, setCell, reuse]

theorem moveConstruct_value {s : State V E} {i j : Nat} (hij : j ≠ i)
    (hw : s.which j = some .value) {v : V} (ha : (s.cell j).alive = .value v) :
    s.moveConstruct residue i j false =
      (s.placed i (.value v)).setCell j { s.cell j with alive := .value (residue v) } := by
  rw [← placed_moved hij]
  simp only [moveConstruct, move, which_reuse, hw, cell_reuse_ne hij, ha]
  rfl

theorem moveConstruct_throws {s : State V E} {i j : Nat} (hij : j ≠ i)
    (hw : s.which j = some .value) {v : V} (ha : (s.cell j).alive = .value v) :
    s.moveConstruct residue i j true = (s.reuse i).setLives i false := by
  simp only [moveConstruct, move, which_reuse, hw, cell_reuse_ne hij, ha]
  rfl

theorem moveConstruct_exception {s : State V E} {i j : Nat} (hij : j ≠ i)
    (hw : s.which j = some .exception) {e : Option E} (ha : (s.cell j).alive = .exception e)
    (throws : Bool) :
    s.moveConstruct residue i j throws =
      (s.placed i (.exception e)).setCell j { s.cell j with alive := .exception none } := by
  rw [← placed_moved hij]
  simp only [moveConstruct, move, which_reuse, hw, cell_reuse_ne hij, ha]
  rfl

/-! ## The invariant -/

/-- What holds as long as no unset outcome was moved to memory with another tag. -/
structure Sound (s : State V E) : Prop where
  tags : ∀ i, (s.cell i).lives = true → (s.cell i).tag = (What.of (s.cell i).alive).code
  tidy : ∀ i, (s.cell i).alive ≠ .nothing → (s.cell i).lives = true
  intact : ∀ i n, s.Holds i n → n < s.made ∧ s.destroyed n = 0
  exclusive : ∀ i j n, s.Holds i n → s.Holds j n → i = j
  settled : ∀ n < s.made, (∀ i, ¬ s.Holds i n) → s.destroyed n = 1
  unmade : ∀ n, s.made ≤ n → s.destroyed n = 0
  stray : s.stray = 0
  traps : s.traps = 0

theorem Sound.blank (tag : Nat → BitVec 32) : Sound (blank tag : State V E) := by
  refine ⟨?_, ?_, ?_, ?_, ?_, fun _ _ => rfl, rfl, rfl⟩
  · intro i h
    cases h
  · intro i h
    exact absurd rfl h
  · intro i n h
    exact absurd rfl h.1
  · intro i j n h
    exact absurd rfl h.1
  · intro n h
    cases h

theorem Sound.which_eq {s : State V E} (hs : Sound s) {i : Nat} (hi : (s.cell i).lives = true) :
    s.which i = some (What.of (s.cell i).alive) := by
  rw [which, hs.tags i hi, What.ofCode_code]

theorem Sound.truthful {s : State V E} (hs : Sound s) : s.Truthful := by
  refine ⟨fun i => hs.which_eq, fun n hn => ?_, hs.unmade, hs.stray, hs.traps⟩
  by_cases h : ∃ i, s.Holds i n
  · obtain ⟨i, hi⟩ := h
    exact Or.inl ⟨(hs.intact i n hi).2, i, ⟨hs.tidy i hi.1, hi⟩,
      fun j hj => hs.exclusive j i n hj.2 hi⟩
  · have hno : ∀ i, ¬ s.Holds i n := fun i hi => h ⟨i, hi⟩
    exact Or.inr ⟨hs.settled n hn hno, hno⟩

theorem holds_setCell {s : State V E} {i k n : Nat} {c : Cell V E} :
    (s.setCell i c).Holds k n ↔
      if k = i then c.alive ≠ .nothing ∧ c.serial = n else s.Holds k n := by
  unfold Holds
  split_ifs with hk
  · rw [hk, setCell_cell]
  · rw [setCell_cell_ne hk]

theorem Sound.tags_setCell {s : State V E} (hs : Sound s) {i : Nat} {c : Cell V E}
    (ht : c.lives = true → c.tag = (What.of c.alive).code) (k : Nat)
    (hk : ((s.setCell i c).cell k).lives = true) :
    ((s.setCell i c).cell k).tag = (What.of ((s.setCell i c).cell k).alive).code := by
  by_cases hki : k = i
  · rw [hki, setCell_cell] at hk ⊢
    exact ht hk
  · rw [setCell_cell_ne hki] at hk ⊢
    exact hs.tags k hk

theorem Sound.tidy_setCell {s : State V E} (hs : Sound s) {i : Nat} {c : Cell V E}
    (hl : c.alive ≠ .nothing → c.lives = true) (k : Nat)
    (hk : ((s.setCell i c).cell k).alive ≠ .nothing) : ((s.setCell i c).cell k).lives = true := by
  by_cases hki : k = i
  · rw [hki, setCell_cell] at hk ⊢
    exact hl hk
  · rw [setCell_cell_ne hki] at hk ⊢
    exact hs.tidy k hk

/-- The object in the union stays the same one, be it moved from. -/
theorem Sound.keep {s : State V E} (hs : Sound s) {i : Nat} {c : Cell V E}
    (hw : What.of c.alive = What.of (s.cell i).alive) (hn : c.serial = (s.cell i).serial)
    (ht : c.lives = true → c.tag = (What.of c.alive).code)
    (hl : c.alive ≠ .nothing → c.lives = true) : Sound (s.setCell i c) := by
  have hholds : ∀ k n, (s.setCell i c).Holds k n ↔ s.Holds k n := by
    intro k n
    rw [holds_setCell]
    split_ifs with hk
    · rw [hk, hn, Holds, Ne, Ne, ← What.of_eq_nothing, hw, What.of_eq_nothing]
    · rfl
  refine ⟨hs.tags_setCell ht, hs.tidy_setCell hl, ?_, ?_, ?_, hs.unmade, hs.stray, hs.traps⟩
  · intro k n hk
    exact hs.intact k n ((hholds k n).mp hk)
  · intro k l n hk hl
    exact hs.exclusive k l n ((hholds k n).mp hk) ((hholds l n).mp hl)
  · intro n hn h
    exact hs.settled n hn fun k hk => h k ((hholds k n).mpr hk)

/-- An object is constructed where none was. -/
theorem Sound.place {s : State V E} (hs : Sound s) {i : Nat} (hi : (s.cell i).alive = .nothing)
    {o : Outcome V (Option E)} (ho : o ≠ .nothing) : Sound (s.placed i o) := by
  have hholds : ∀ k n, (s.placed i o).Holds k n ↔ (k = i ∧ n = s.made) ∨ s.Holds k n := by
    intro k n
    show (s.setCell i _).Holds k n ↔ _
    rw [holds_setCell]
    split_ifs with hk
    · subst hk
      refine ⟨fun h => Or.inl ⟨rfl, h.2.symm⟩, ?_⟩
      rintro (h | h)
      · exact ⟨ho, h.2.symm⟩
      · exact absurd hi h.1
    · exact ⟨Or.inr, fun h => h.resolve_left fun h => hk h.1⟩
  refine ⟨hs.tags_setCell fun _ => rfl, hs.tidy_setCell fun _ => rfl, ?_, ?_, ?_, ?_,
    hs.stray, hs.traps⟩
  · intro k n hk
    rcases (hholds k n).mp hk with ⟨_, hn⟩ | hk
    · subst hn
      exact ⟨Nat.lt_succ_self _, hs.unmade _ (Nat.le_refl _)⟩
    · exact ⟨Nat.lt_succ_of_lt (hs.intact k n hk).1, (hs.intact k n hk).2⟩
  · intro k l n hk hl
    have hlt := fun m h => (hs.intact m n h).1
    rcases (hholds k n).mp hk with ⟨hki, hn⟩ | hk <;> rcases (hholds l n).mp hl with ⟨hli, hn'⟩ | hl
    · rw [hki, hli]
    · have := hlt l hl
      omega
    · have := hlt k hk
      omega
    · exact hs.exclusive k l n hk hl
  · intro n hn h
    have hne : n ≠ s.made := fun he => h i ((hholds i n).mpr (Or.inl ⟨rfl, he⟩))
    have hlt : n < s.made := by
      have : n < s.made + 1 := hn
      omega
    exact hs.settled n hlt fun k hk => h k ((hholds k n).mpr (Or.inr hk))
  · intro n hn
    exact hs.unmade n (Nat.le_of_succ_le hn)

/-- An object is destroyed together with the union. -/
theorem Sound.bury {s : State V E} (hs : Sound s) {i : Nat} (hi : (s.cell i).alive ≠ .nothing) :
    Sound (s.buried i) := by
  have hholds : ∀ k n, (s.buried i).Holds k n ↔ k ≠ i ∧ s.Holds k n := by
    intro k n
    show (s.setCell i _).Holds k n ↔ _
    rw [holds_setCell]
    split_ifs with hk
    · exact ⟨fun h => absurd rfl h.1, fun h => absurd hk h.1⟩
    · exact ⟨fun h => ⟨hk, h⟩, fun h => h.2⟩
  have hself : s.Holds i (s.cell i).serial := ⟨hi, rfl⟩
  have hdestroyed : ∀ n, (s.buried i).destroyed n =
      if n = (s.cell i).serial then s.destroyed n + 1 else s.destroyed n := by
    intro n
    show Function.update s.destroyed _ _ n = _
    rw [Function.update_apply]
    split_ifs with hn
    · rw [hn]
    · rfl
  refine ⟨hs.tags_setCell (fun h => by cases h), hs.tidy_setCell (fun h => absurd rfl h), ?_, ?_,
    ?_, ?_, hs.stray, hs.traps⟩
  · intro k n hk
    obtain ⟨hki, hk⟩ := (hholds k n).mp hk
    have hne : n ≠ (s.cell i).serial := fun hn => hki (hs.exclusive k i n hk (hn ▸ hself))
    rw [hdestroyed, if_neg hne]
    exact hs.intact k n hk
  · intro k l n hk hl
    exact hs.exclusive k l n ((hholds k n).mp hk).2 ((hholds l n).mp hl).2
  · intro n hn h
    rw [hdestroyed]
    split_ifs with hne
    · rw [hne, (hs.intact i _ hself).2]
    · refine hs.settled n hn fun k hk => ?_
      by_cases hki : k = i
      · subst hki
        exact hne hk.2.symm
      · exact h k ((hholds k n).mpr ⟨hki, hk⟩)
  · intro n hn
    have hlt := (hs.intact i _ hself).1
    have hle : s.made ≤ n := hn
    rw [hdestroyed, if_neg (by omega)]
    exact hs.unmade n hle

/-! ## Steps -/

theorem Sound.alive_eq_nothing {s : State V E} (hs : Sound s) {i : Nat}
    (hi : (s.cell i).lives = false) : (s.cell i).alive = .nothing := by
  by_contra h
  have := hs.tidy i h
  rw [hi] at this
  cases this

/-- Memory in which no outcome lives may get any content. -/
theorem Sound.blur {s : State V E} (hs : Sound s) {i : Nat} (hi : (s.cell i).lives = false)
    {c : Cell V E} (hc : c.alive = .nothing) (hn : c.serial = (s.cell i).serial)
    (ht : c.lives = true → c.tag = What.nothing.code) : Sound (s.setCell i c) :=
  hs.keep (by rw [hc, hs.alive_eq_nothing hi]) hn (fun h => by rw [ht h, hc]; rfl)
    (fun h => absurd hc h)

/-- The target of a move takes over the object that was in the source. -/
theorem Sound.takeOver {s : State V E} (hs : Sound s) {i j : Nat} (hi : (s.cell i).lives = false)
    (hj : (s.cell j).lives = true) {o o' : Outcome V (Option E)} (ho : (s.cell j).alive = o)
    (hne : o ≠ .nothing) (ho' : What.of o' = What.of o) :
    Sound ((s.placed i o).setCell j { s.cell j with alive := o' }) := by
  have hij : j ≠ i := by
    rintro rfl
    rw [hi] at hj
    cases hj
  have hcell : (s.placed i o).cell j = s.cell j := setCell_cell_ne hij ..
  refine (hs.place (hs.alive_eq_nothing hi) hne).keep ?_ ?_ ?_ ?_
  · rw [hcell, ho]
    exact ho'
  · rw [hcell]
  · intro _
    show (s.cell j).tag = (What.of o').code
    rw [hs.tags j hj, ho, ho']
  · intro _
    exact hj

theorem Sound.moveConstruct {s : State V E} (hs : Sound s) {i j : Nat} {throws : Bool}
    (ha : s.Enabled (.moveConstruct i j throws))
    (hp : s.SparesBlank (.moveConstruct i j throws)) :
    Sound (s.moveConstruct residue i j throws) ∧
      (throws = false → ((s.moveConstruct residue i j throws).cell i).lives = true ∧
        ((s.moveConstruct residue i j throws).cell i).alive = (s.cell j).alive) := by
  obtain ⟨hi, hj⟩ := ha
  have hij : j ≠ i := by
    rintro rfl
    rw [hi] at hj
    cases hj
  have hw := hs.which_eq hj
  have hplaced : ∀ o c, ((s.placed i o).setCell j c).cell i =
      ⟨true, (What.of o).code, o, s.made⟩ := by
    intro o c
    rw [setCell_cell_ne hij.symm]
    exact setCell_cell ..
  cases halive : (s.cell j).alive with
  | nothing =>
      rw [halive] at hw
      rw [moveConstruct_nothing residue hw, setLives, reuse, setCell_cell, setCell_setCell]
      have htag : What.ofCode (s.cell i).tag = some .nothing := hp (by rw [halive]; rfl)
      refine ⟨hs.blur hi rfl rfl fun _ => ?_, fun _ => by rw [setCell_cell]; exact ⟨rfl, rfl⟩⟩
      rw [What.ofCode_eq_nothing.mp htag]
      rfl
  | value v =>
      rw [halive] at hw
      cases throws with
      | false =>
          rw [moveConstruct_value residue hij hw halive, hplaced]
          exact ⟨hs.takeOver hi hj halive (by simp) rfl, fun _ => ⟨rfl, rfl⟩⟩
      | true =>
          rw [moveConstruct_throws residue hij hw halive, setLives, reuse, setCell_cell,
            setCell_setCell]
          exact ⟨hs.blur hi rfl rfl (fun h => by cases h), fun h => by cases h⟩
  | exception e =>
      rw [halive] at hw
      rw [moveConstruct_exception residue hij hw halive, hplaced]
      exact ⟨hs.takeOver hi hj halive (by simp) rfl, fun _ => ⟨rfl, rfl⟩⟩

theorem Sound.step {s : State V E} (hs : Sound s) {a : Action V E} (ha : s.Enabled a)
    (hp : s.SparesBlank a) : Sound (s.next residue a) := by
  cases a with
  | construct i =>
      show Sound (s.construct i)
      rw [construct_eq]
      exact hs.blur ha rfl rfl fun _ => rfl
  | moveConstruct i j throws => exact (hs.moveConstruct residue ha hp).1
  | setValue i v =>
      have hw : s.which i = some .nothing := by rw [hs.which_eq ha.1, ha.2]
      cases v with
      | none =>
          show Sound (s.setValue i none)
          rw [setValue_none hw]
          exact hs
      | some v =>
          show Sound (s.setValue i (some v))
          rw [setValue_some ha.1 hw]
          exact hs.place (What.of_eq_nothing.mp ha.2) (by simp)
  | setException i e =>
      have hw : s.which i = some .nothing := by rw [hs.which_eq ha.1, ha.2]
      show Sound (s.setException i e)
      rw [setException_eq ha.1 hw]
      exact hs.place (What.of_eq_nothing.mp ha.2) (by simp)
  | destruct i =>
      show Sound (s.destruct i)
      have hw := hs.which_eq ha
      by_cases hn : (s.cell i).alive = .nothing
      · rw [destruct_nothing (by rw [hw, hn]; rfl)]
        exact hs.keep rfl rfl (fun h => by cases h) (fun h => absurd hn h)
      · rw [destruct_alive hw hn]
        exact hs.bury hn
  | scribble i w =>
      have hi : (s.cell i).lives = false := ha
      exact hs.blur hi (hs.alive_eq_nothing hi) rfl fun h => absurd (hi.symm.trans h) (by decide)

/-- After a move of an unset outcome to memory with another tag, that tag is believed. -/
theorem Sound.not_truthful {s : State V E} (hs : Sound s) {a : Action V E} (ha : s.Enabled a)
    (hp : ¬ s.SparesBlank a) : ¬ (s.next residue a).Truthful := by
  cases a with
  | moveConstruct i j throws =>
      obtain ⟨hblank, htag⟩ := Classical.not_imp.mp hp
      have hw := hs.which_eq ha.2
      rw [hblank] at hw
      intro h
      have htags := h.tags i
      simp only [next, moveConstruct_nothing residue hw, setLives, which, setCell_cell, reuse,
        What.of] at htags
      exact htag (htags trivial)
  | _ => exact absurd trivial hp

theorem Sound.stepOk_iff {s : State V E} (hs : Sound s) {a : Action V E} (ha : s.Enabled a) :
    s.StepOk residue a ↔ s.SparesBlank a := by
  constructor
  · intro h
    by_contra hp
    exact hs.not_truthful residue ha hp h.truthful
  · intro hp
    refine ⟨(hs.step residue ha hp).truthful, ?_, ?_⟩
    · rintro i j rfl
      exact (hs.moveConstruct residue ha hp).2 rfl
    · rintro i rfl
      have hw : s.which i = some .nothing := by rw [hs.which_eq ha.1, ha.2]
      show (s.setValue i none).which i = _
      rw [setValue_none hw, hw]

end State

/-- Every step of a run keeps the tags truthful and the ledger balanced exactly when no step of the
    run moves an unset outcome to memory whose tag word differs from `nothing`. -/
theorem outcome_tag_iff (residue : V → V) (tag : Nat → BitVec 32) {as : List (Action V E)}
    {s : State V E} (h : Run (machine residue) (State.blank tag) as s) :
    Along (machine residue) (State.StepOk residue) (State.blank tag) as ↔
      Along (machine residue) State.SparesBlank (State.blank tag) as :=
  h.along_iff (State.Sound.blank tag) (fun _ _ hs ha => hs.stepOk_iff residue ha)
    (fun _ _ hs ha hp => hs.step residue ha hp)

/-- A throwing constructor, a value moved away, an unset outcome moved to clean memory. -/
theorem outcome_tag_iff_concrete :
    Along (machine (id : Nat → Nat) : System (State Nat Nat) (Action Nat Nat)) (State.StepOk id)
      (State.blank fun i => i)
      [.construct 1, .moveConstruct 0 1 false, .setValue 0 none, .setValue 0 (some 5),
        .moveConstruct 2 0 false, .destruct 0, .destruct 2] :=
  (outcome_tag_iff id (fun i => i) (.of_legal (by decide))).mpr (by decide)

/-- An unset outcome moved to memory that holds the representation of `value`: `which` names a value
    that does not exist, and the destructor destroys it. -/
theorem moved_blank_destroys_garbage :
    Run (machine (id : Nat → Nat) : System (State Nat Nat) (Action Nat Nat))
        (State.blank fun i => i) [.construct 0, .moveConstruct 1 0 false, .destruct 1]
        ((machine id).exec (State.blank fun i => i)
          [.construct 0, .moveConstruct 1 0 false, .destruct 1]) ∧
      ¬ ((machine (id : Nat → Nat) : System (State Nat Nat) (Action Nat Nat)).exec
          (State.blank fun i => i) [.construct 0, .moveConstruct 1 0 false]).Truthful ∧
      ((machine (id : Nat → Nat) : System (State Nat Nat) (Action Nat Nat)).exec
          (State.blank fun i => i) [.construct 0, .moveConstruct 1 0 false, .destruct 1]).stray =
        1 := by
  refine ⟨.of_legal (by decide), fun h => ?_, by decide⟩
  have := h.tags 1 (by decide)
  revert this
  decide

end WebAsio.Coro.OutcomeStorage
