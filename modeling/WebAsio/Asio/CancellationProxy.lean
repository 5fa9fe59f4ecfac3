import WebAsio.Library.Transition
import Mathlib.Logic.Function.Basic
import Mathlib.Tactic.SplitIfs

set_option autoImplicit false

/-! # `cancellation_proxy`: cancelling through another executor

A parent slot is a reference to the handler cell of some signal. A proxy puts a handler there that
dispatches emissions to an executor and owns the signal they are repeated on. The slot is copied,
not moved, by the defaulted move constructor, and `reset` clears the cell whatever is in it: the
first result says when moved proxies stay connected, the second when a proxy only ever removes its
own handler.

`X` are the executors, `T` is `cancellation_type_t`; operations other than proxies are numbered. -/

namespace WebAsio.Asio.CancellationProxy

open Transition

variable {X T : Type}

/-- What a handler cell of a parent signal can hold: a `cancellation_proxy_handler`, whose weak
    pointer refers to a signal, or the handler of another operation. -/
inductive Handler (X : Type)
  | proxy (ex : X) (signal : Nat)
  | other (k : Nat)
  deriving DecidableEq

def Handler.isOther : Handler X → Bool
  | .proxy .. => false
  | .other _ => true

/-- A `cancellation_proxy` object. The last three fields are not in the source: the signal and the
    executor its handler was installed with, which a move hands on, and whether the object holds a
    connected proxy that was not reset. -/
structure Proxy (X : Type) where
  parentSlot : Option Nat
  signal : Option Nat
  installed : Option Nat
  executor : X
  inUse : Bool
  deriving DecidableEq

/-- The lambda given to `dispatch`. -/
structure Task (X T : Type) where
  executor : X
  weakSignal : Nat
  type : T
  deriving DecidableEq

structure State (X T : Type) where
  cell : Nat → Option (Handler X)
  proxy : Nat → Option (Proxy X)
  /-- how many objects and signals were made, which also numbers them -/
  count : Nat
  signals : Nat
  /-- the operation whose handler is in the cell of a proxy's signal -/
  bound : Nat → Option Nat
  dispatched : List (Task X T)
  received : List (Nat × T)

namespace State

def empty : State X T :=
  ⟨fun _ => none, fun _ => none, 0, 0, fun _ => none, [], []⟩

def setCell (s : State X T) (c : Nat) (h : Option (Handler X)) : State X T :=
  { s with cell := Function.update s.cell c h }

def setProxy (s : State X T) (i : Nat) (p : Option (Proxy X)) : State X T :=
  { s with proxy := Function.update s.proxy i p }

/-- `cancellation_slot::clear`; a slot that is not connected refers to no cell. -/
def clear (s : State X T) : Option Nat → State X T
  | none => s
  | some c => s.setCell c none

/-- Some proxy owns the signal, so that `weak_ptr::lock` gives it. -/
def Alive (s : State X T) (n : Nat) : Prop :=
  ∃ i < s.count, (s.proxy i).bind Proxy.signal = some n

instance (s : State X T) (n : Nat) : Decidable (s.Alive n) := by
  unfold Alive
  infer_instance

/-! ## The member functions -/

def construct (s : State X T) (ex : X) : Option Nat → State X T
  | none =>
    { s with proxy := Function.update s.proxy s.count (some ⟨none, none, none, ex, false⟩)
             count := s.count + 1 }
  | some c =>
    { s with proxy := Function.update s.proxy s.count
              (some ⟨some c, some s.signals, some s.signals, ex, true⟩)
             count := s.count + 1
             cell := Function.update s.cell c (some (.proxy ex s.signals))
             signals := s.signals + 1 }

/-- The defaulted move constructor: the slot is copied, the signal moved. -/
def moveConstruct (s : State X T) (i : Nat) : State X T :=
  match s.proxy i with
  | none => s
  | some p =>
    let s := { s with proxy := Function.update s.proxy s.count (some p), count := s.count + 1 }
    s.setProxy i (some { p with signal := none, installed := none, inUse := false })

def reset (s : State X T) (i : Nat) : State X T :=
  match s.proxy i with
  | none => s
  | some p => (s.setProxy i (some { p with signal := none, inUse := false })).clear p.parentSlot

/-- The destructor. -/
def destruct (s : State X T) (i : Nat) : State X T := (s.reset i).setProxy i none

/-- `slot`: the slot of the proxy's signal, if there is one. -/
def slot (s : State X T) (i : Nat) : Option Nat := (s.proxy i).bind Proxy.signal

/-- An operation bound by `bind` installs its handler in the slot that it was given. -/
def bind (s : State X T) (i k : Nat) : State X T :=
  match s.slot i with
  | none => s
  | some n => { s with bound := Function.update s.bound n (some k) }

/-- An emission on the parent signal calls the handler in its cell. -/
def emit (s : State X T) (c : Nat) (t : T) : State X T :=
  match s.cell c with
  | none => s
  | some (.proxy ex n) => { s with dispatched := s.dispatched ++ [⟨ex, n, t⟩] }
  | some (.other k) => { s with received := s.received ++ [(k, t)] }

/-- The dispatched lambda: `if (auto signal = weak_signal.lock()) signal->emit(type)`. -/
def invoke (s : State X T) (k : Task X T) : State X T :=
  if s.Alive k.weakSignal then
    match s.bound k.weakSignal with
    | none => s
    | some op => { s with received := s.received ++ [(op, k.type)] }
  else s

end State

/-! ## Runs -/

inductive Action (X T : Type)
  | construct (ex : X) (slot : Option Nat)
  | moveConstruct (i : Nat)
  | reset (i : Nat)
  | destruct (i : Nat)
  | bind (i k : Nat)
  /-- another operation puts its handler into a parent cell, or takes it out when it is done -/
  | install (c k : Nat)
  | remove (c : Nat)
  | emit (c : Nat) (t : T)
  /-- an executor runs one of the lambdas dispatched to it -/
  | serve (n : Nat)
  deriving DecidableEq

namespace State

/-- No connected proxy uses the parent cell. -/
def Free (s : State X T) (c : Nat) : Prop :=
  ∀ i < s.count, ∀ p ∈ s.proxy i, p.inUse = true → p.parentSlot ≠ some c

instance (s : State X T) (c : Nat) : Decidable (s.Free c) := by
  unfold Free
  infer_instance

/-- Objects are used while they exist, and a slot serves one operation at a time. -/
def Enabled (s : State X T) : Action X T → Prop
  | .construct _ slot => ∀ c ∈ slot, s.Free c
  | .moveConstruct i | .reset i | .destruct i | .bind i _ => (s.proxy i).isSome = true
  | .install c _ => s.Free c
  | .remove c => (s.cell c).any Handler.isOther = true
  | .emit .. => True
  | .serve n => n < s.dispatched.length

instance (s : State X T) (a : Action X T) : Decidable (s.Enabled a) := by
  cases a <;> unfold Enabled <;> infer_instance

def next (s : State X T) : Action X T → State X T
  | .construct ex slot => s.construct ex slot
  | .moveConstruct i => s.moveConstruct i
  | .reset i => s.reset i
  | .destruct i => s.destruct i
  | .bind i k => s.bind i k
  | .install c k => s.setCell c (some (.other k))
  | .remove c => s.clear (some c)
  | .emit c t => s.emit c t
  | .serve n =>
    match s.dispatched[n]? with
    | none => s
    | some k => State.invoke { s with dispatched := s.dispatched.eraseIdx n } k

end State

def machine : System (State X T) (Action X T) := ⟨State.Enabled, State.next⟩

instance (s : State X T) (a : Action X T) : Decidable (machine.enabled s a) :=
  inferInstanceAs (Decidable (s.Enabled a))

namespace State

/-- An emission on the parent slot of object `i` reaches, on the executor of the proxy that `i`
    holds, the operation bound to it. -/
def Connected (s : State X T) (i : Nat) : Prop :=
  ∀ p, s.proxy i = some p → p.inUse = true → ∃ c n, p.parentSlot = some c ∧ s.slot i = some n ∧
    (∀ t, (s.emit c t).dispatched = s.dispatched ++ [⟨p.executor, n, t⟩]) ∧
    ∀ t op, s.bound n = some op →
      (s.invoke ⟨p.executor, n, t⟩).received = s.received ++ [(op, t)]

/-- No object but `i` holds a connected proxy of the parent cell. -/
def FreeBut (s : State X T) (i c : Nat) : Prop :=
  ∀ j < s.count, j ≠ i → ∀ q ∈ s.proxy j, q.inUse = true → q.parentSlot ≠ some c

instance (s : State X T) (i c : Nat) : Decidable (s.FreeBut i c) := by
  unfold FreeBut
  infer_instance

/-- The step does not reset or destroy an object while another object holds a connected proxy of the
    same parent slot. -/
def SparesHolder (s : State X T) : Action X T → Prop
  | .reset i | .destruct i => ∀ p ∈ s.proxy i, ∀ c ∈ p.parentSlot, s.FreeBut i c
  | _ => True

instance (s : State X T) (a : Action X T) : Decidable (s.SparesHolder a) := by
  cases a <;> unfold SparesHolder <;> infer_instance

/-- What `reset` and the destructor of `i` may do to the parent cells: empty a cell that holds the
    handler installed for the proxy in `i`, and nothing when that proxy was reset or moved away. -/
def RemovesOwn (s : State X T) (a : Action X T) : Prop :=
  ∀ i p, a = .reset i ∨ a = .destruct i → s.proxy i = some p →
    (∀ c h, s.cell c = some h → (s.next a).cell c ≠ some h →
      ∃ ex n, h = .proxy ex n ∧ p.installed = some n) ∧
    (p.inUse = false → (s.next a).cell = s.cell)

/-- The step does not reset or destroy an object while its parent cell holds a handler other than
    the one installed for the proxy in that object. -/
def Undisturbed [DecidableEq X] (s : State X T) : Action X T → Prop
  | .reset i | .destruct i => ∀ p ∈ s.proxy i, ∀ c ∈ p.parentSlot, ∀ h ∈ s.cell c,
      some h = p.installed.map (.proxy p.executor)
  | _ => True

instance [DecidableEq X] (s : State X T) (a : Action X T) : Decidable (s.Undisturbed a) := by
  cases a <;> unfold Undisturbed <;> infer_instance

/-! ## The invariant of all runs -/

/-- Every handler that a proxy installed and that is still there belongs to one object, which holds
    the proxy and is the only one to do so for its parent slot. -/
structure Sound (s : State X T) : Prop where
  made : ∀ i p, s.proxy i = some p → i < s.count
  numbered : ∀ i p n, s.proxy i = some p → p.installed = some n → n < s.signals
  distinct : ∀ i j p q n, s.proxy i = some p → s.proxy j = some q → p.installed = some n →
    q.installed = some n → i = j
  owned : ∀ c ex n, s.cell c = some (.proxy ex n) → ∃ i p, s.proxy i = some p ∧
    p.inUse = true ∧ p.installed = some n ∧ p.executor = ex ∧ p.parentSlot = some c
  alone : ∀ i j p q c, s.proxy i = some p → s.proxy j = some q → p.inUse = true →
    q.inUse = true → p.parentSlot = some c → q.parentSlot = some c → i = j
  used : ∀ i p, s.proxy i = some p → p.inUse = true →
    ∃ c n, p.parentSlot = some c ∧ p.signal = some n ∧ p.installed = some n

theorem Sound.empty : Sound (empty : State X T) := by
  refine ⟨?_, ?_, ?_, ?_, ?_, ?_⟩
  · intro i p h
    cases h
  · intro i p n h
    cases h
  · intro i j p q n h
    cases h
  · intro c ex n h
    cases h
  · intro i j p q c h
    cases h
  · intro i p h
    cases h

/-- Steps that install no proxy's handler. Object `j` of the new state is object `f j` of the old
    one, possibly reset, or has never had a handler installed. -/
theorem Sound.relabel {s s' : State X T} (hs : Sound s) (f : Nat → Nat)
    (hmade : ∀ j r, s'.proxy j = some r → j < s'.count) (hn : s'.signals = s.signals)
    (hold : ∀ j r, s'.proxy j = some r → (r.inUse = false ∧ r.installed = none) ∨
      ∃ r₀, s.proxy (f j) = some r₀ ∧ r.installed = r₀.installed ∧ (r.inUse = true → r = r₀))
    (hinj : ∀ j k r t n, s'.proxy j = some r → s'.proxy k = some t → r.installed = some n →
      t.installed = some n → f j = f k → j = k)
    (hcell : ∀ c ex n, s'.cell c = some (.proxy ex n) → s.cell c = some (.proxy ex n))
    (hkept : ∀ c ex n i p, s'.cell c = some (.proxy ex n) → s.proxy i = some p →
      p.inUse = true → p.parentSlot = some c → ∃ j, s'.proxy j = some p) : Sound s' := by
  have hinstalled : ∀ j r n, s'.proxy j = some r → r.installed = some n →
      ∃ r₀, s.proxy (f j) = some r₀ ∧ r₀.installed = some n := by
    intro j r n hr hrn
    rcases hold j r hr with ⟨_, h⟩ | ⟨r₀, h₀, h, _⟩
    · rw [h] at hrn
      cases hrn
    · exact ⟨r₀, h₀, h ▸ hrn⟩
  have hused : ∀ j r, s'.proxy j = some r → r.inUse = true → s.proxy (f j) = some r := by
    intro j r hr hru
    rcases hold j r hr with ⟨h, _⟩ | ⟨r₀, h₀, _, h⟩
    · rw [h] at hru
      cases hru
    · rw [h hru, h₀]
  refine ⟨hmade, ?_, ?_, ?_, ?_, ?_⟩
  · intro j r n hr hrn
    obtain ⟨r₀, h₀, hn₀⟩ := hinstalled j r n hr hrn
    rw [hn]
    exact hs.numbered (f j) r₀ n h₀ hn₀
  · intro j k r t n hr ht hrn htn
    obtain ⟨r₀, h₀, hr₀⟩ := hinstalled j r n hr hrn
    obtain ⟨t₀, k₀, ht₀⟩ := hinstalled k t n ht htn
    exact hinj j k r t n hr ht hrn htn (hs.distinct _ _ r₀ t₀ n h₀ k₀ hr₀ ht₀)
  · intro c ex n h
    obtain ⟨i, p, hi, hu, hin, hex, hslot⟩ := hs.owned c ex n (hcell c ex n h)
    obtain ⟨j, hj⟩ := hkept c ex n i p h hi hu hslot
    exact ⟨j, p, hj, hu, hin, hex, hslot⟩
  · intro j k r t c hr ht hru htu hrc htc
    have hfr := hused j r hr hru
    have hft := hused k t ht htu
    have hjk := hs.alone _ _ r t c hfr hft hru htu hrc htc
    obtain ⟨_, n, _, _, hrn⟩ := hs.used _ r hfr hru
    have hrt : r = t := by
      rw [hjk, hft] at hfr
      exact (Option.some.inj hfr).symm
    exact hinj j k r t n hr ht hrn (hrt ▸ hrn) hjk
  · intro j r hr hru
    exact hs.used (f j) r (hused j r hr hru) hru

/-- Steps that change no proxy and put no proxy's handler into a cell. -/
theorem Sound.cells {s s' : State X T} (hs : Sound s) (hp : s'.proxy = s.proxy)
    (hc : s'.count = s.count) (hn : s'.signals = s.signals)
    (hcell : ∀ c ex n, s'.cell c = some (.proxy ex n) → s.cell c = some (.proxy ex n)) :
    Sound s' := by
  refine hs.relabel id ?_ hn ?_ (fun _ _ _ _ _ _ _ _ _ h => h) hcell ?_
  · rw [hp, hc]
    exact hs.made
  · rw [hp]
    exact fun j r hr => Or.inr ⟨r, hr, rfl, fun _ => rfl⟩
  · rw [hp]
    exact fun _ _ _ i p _ hi _ _ => ⟨i, hi⟩

theorem setProxy_proxy (s : State X T) (i j : Nat) (q : Option (Proxy X)) :
    (s.setProxy i q).proxy j = if j = i then q else s.proxy j := Function.update_apply ..

@[simp] theorem clear_proxy (s : State X T) (slot : Option Nat) :
    (s.clear slot).proxy = s.proxy := by
  cases slot <;> rfl

@[simp] theorem clear_count (s : State X T) (slot : Option Nat) :
    (s.clear slot).count = s.count := by
  cases slot <;> rfl

@[simp] theorem clear_signals (s : State X T) (slot : Option Nat) :
    (s.clear slot).signals = s.signals := by
  cases slot <;> rfl

theorem clear_cell (s : State X T) (slot : Option Nat) (c : Nat) :
    (s.clear slot).cell c = if slot = some c then none else s.cell c := by
  cases slot with
  | none => simp [clear]
  | some d =>
      simp only [clear, setCell, Function.update_apply, Option.some.injEq]
      split_ifs with h h' h'
      · rfl
      · exact absurd h.symm h'
      · exact absurd h'.symm h
      · rfl

/-- An object gives its proxy up and its parent cell is emptied. -/
theorem Sound.retire {s s' : State X T} (hs : Sound s) {i : Nat} {p : Proxy X}
    {q : Option (Proxy X)} (hi : s.proxy i = some p)
    (hq : ∀ r, q = some r → r.inUse = false ∧ r.installed = p.installed)
    (hproxy : ∀ j, s'.proxy j = if j = i then q else s.proxy j)
    (hc : s'.count = s.count) (hn : s'.signals = s.signals)
    (hcell : ∀ c, s'.cell c = if p.parentSlot = some c then none else s.cell c) : Sound s' := by
  have hold : ∀ j r, s'.proxy j = some r → ∃ r₀, s.proxy j = some r₀ ∧
      r.installed = r₀.installed ∧ (r.inUse = true → r = r₀) := by
    intro j r hr
    rw [hproxy] at hr
    split_ifs at hr with hj
    · obtain ⟨hu, hin⟩ := hq r hr
      refine ⟨p, hj ▸ hi, hin, fun h => ?_⟩
      rw [hu] at h
      cases h
    · exact ⟨r, hr, rfl, fun _ => rfl⟩
  refine hs.relabel id ?_ hn (fun j r hr => Or.inr (hold j r hr)) (fun _ _ _ _ _ _ _ _ _ h => h)
    ?_ ?_
  · intro j r hr
    obtain ⟨r₀, h₀, _⟩ := hold j r hr
    rw [hc]
    exact hs.made j r₀ h₀
  · intro c ex n h
    rw [hcell] at h
    split_ifs at h
    exact h
  · intro c ex n j r h hj _ hslot
    refine ⟨j, ?_⟩
    rw [hproxy, if_neg, hj]
    rintro rfl
    rw [hi] at hj
    cases hj
    rw [hcell, if_pos hslot] at h
    cases h

theorem Sound.constructNone {s : State X T} (hs : Sound s) (ex : X) :
    Sound (s.construct ex none) := by
  have hproxy : ∀ j, (s.construct ex none).proxy j =
      if j = s.count then some ⟨none, none, none, ex, false⟩ else s.proxy j :=
    fun j => Function.update_apply ..
  refine hs.relabel id ?_ rfl ?_ (fun _ _ _ _ _ _ _ _ _ h => h) (fun _ _ _ h => h) ?_
  · intro j r hr
    show j < s.count + 1
    rw [hproxy] at hr
    split_ifs at hr with hj
    · omega
    · exact Nat.lt_succ_of_lt (hs.made j r hr)
  · intro j r hr
    rw [hproxy] at hr
    split_ifs at hr with hj
    · cases hr
      exact Or.inl ⟨rfl, rfl⟩
    · exact Or.inr ⟨r, hr, rfl, fun _ => rfl⟩
  · intro c ex' n j p _ hj _ _
    refine ⟨j, ?_⟩
    rw [hproxy, if_neg (Nat.ne_of_lt (hs.made j p hj)), hj]

theorem Free.not_used {s : State X T} (hs : Sound s) {c : Nat} (h : s.Free c) {i : Nat}
    {p : Proxy X} (hi : s.proxy i = some p) (hu : p.inUse = true) : p.parentSlot ≠ some c :=
  h i (hs.made i p hi) p hi hu

theorem Sound.constructSome {s : State X T} (hs : Sound s) (ex : X) {c : Nat} (hfree : s.Free c) :
    Sound (s.construct ex (some c)) := by
  have hproxy : ∀ j r, (s.construct ex (some c)).proxy j = some r →
      s.proxy j = some r ∨
        (j = s.count ∧ r = ⟨some c, some s.signals, some s.signals, ex, true⟩) := by
    intro j r hr
    simp only [construct, Function.update_apply] at hr
    split_ifs at hr with hj
    · exact Or.inr ⟨hj, (Option.some.inj hr).symm⟩
    · exact Or.inl hr
  refine ⟨?_, ?_, ?_, ?_, ?_, ?_⟩
  · intro j r hr
    show j < s.count + 1
    rcases hproxy j r hr with h | ⟨rfl, _⟩
    · exact Nat.lt_succ_of_lt (hs.made j r h)
    · exact Nat.lt_succ_self _
  · intro j r n hr hn
    show n < s.signals + 1
    rcases hproxy j r hr with h | ⟨_, rfl⟩
    · exact Nat.lt_succ_of_lt (hs.numbered j r n h hn)
    · cases hn
      exact Nat.lt_succ_self _
  · intro j k r t n hr ht hrn htn
    rcases hproxy j r hr with h | ⟨hj, rfl⟩ <;> rcases hproxy k t ht with h' | ⟨hk, rfl⟩
    · exact hs.distinct j k r t n h h' hrn htn
    · cases htn
      exact absurd (hs.numbered j r _ h hrn) (Nat.lt_irrefl _)
    · cases hrn
      exact absurd (hs.numbered k t _ h' htn) (Nat.lt_irrefl _)
    · rw [hj, hk]
  · intro d ex' n h
    simp only [construct, Function.update_apply] at h
    split_ifs at h with hd
    · cases h
      exact ⟨s.count, _, Function.update_self .., rfl, rfl, rfl, congrArg some hd.symm⟩
    · obtain ⟨j, r, hj, hrest⟩ := hs.owned d ex' n h
      have hlt := hs.made j r hj
      refine ⟨j, r, ?_, hrest⟩
      simp only [construct, Function.update_apply]
      rw [if_neg (Nat.ne_of_lt hlt), hj]
  · intro j k r t d hr ht hru htu hrd htd
    rcases hproxy j r hr with h | ⟨hj, rfl⟩ <;> rcases hproxy k t ht with h' | ⟨hk, rfl⟩
    · exact hs.alone j k r t d h h' hru htu hrd htd
    · cases htd
      exact absurd hrd (Free.not_used hs hfree h hru)
    · cases hrd
      exact absurd htd (Free.not_used hs hfree h' htu)
    · rw [hj, hk]
  · intro j r hr hru
    rcases hproxy j r hr with h | ⟨_, rfl⟩
    · exact hs.used j r h hru
    · exact ⟨c, s.signals, rfl, rfl, rfl⟩

theorem Sound.moveConstruct {s : State X T} (hs : Sound s) {i : Nat} {p : Proxy X}
    (hi : s.proxy i = some p) : Sound (s.moveConstruct i) := by
  have hlt := hs.made i p hi
  -- where the objects of the new state come from
  have hproxy : ∀ j, (s.moveConstruct i).proxy j =
      if j = i then some { p with signal := none, installed := none, inUse := false }
      else if j = s.count then some p else s.proxy j := by
    intro j
    simp only [State.moveConstruct, hi, setProxy_proxy, Function.update_apply]
  have hcount : (s.moveConstruct i).count = s.count + 1 := by
    simp only [State.moveConstruct, hi]
    rfl
  have hcell : (s.moveConstruct i).cell = s.cell := by
    simp only [State.moveConstruct, hi]
    rfl
  -- the target is the old source; the source is left without a handler of its own
  refine hs.relabel (fun j => if j = s.count then i else j) ?_ ?_ ?_ ?_ ?_ ?_
  · intro j r hr
    rw [hproxy] at hr
    rw [hcount]
    split_ifs at hr with hji hjc
    · omega
    · omega
    · exact Nat.lt_succ_of_lt (hs.made j r hr)
  · simp only [State.moveConstruct, hi]
    rfl
  · intro j r hr
    rw [hproxy] at hr
    split_ifs at hr with hji hjc
    · cases hr
      exact Or.inl ⟨rfl, rfl⟩
    · cases hr
      exact Or.inr ⟨p, by rw [if_pos hjc, hi], rfl, fun _ => rfl⟩
    · exact Or.inr ⟨r, by rw [if_neg hjc, hr], rfl, fun _ => rfl⟩
  · intro j k r t n hr ht hrn htn hf
    have hne : ∀ l u, (s.moveConstruct i).proxy l = some u → u.installed = some n → l ≠ i := by
      rintro l u hl hun rfl
      rw [hproxy, if_pos rfl] at hl
      cases hl
      cases hun
    have hji := hne j r hr hrn
    have hki := hne k t ht htn
    split_ifs at hf with h h'
    · rw [h, h']
    · exact absurd hf.symm hki
    · exact absurd hf hji
    · exact hf
  · intro c ex n h
    rwa [hcell] at h
  · intro c ex n j q _ hj _ _
    by_cases hji : j = i
    · subst hji
      refine ⟨s.count, ?_⟩
      rw [hproxy, if_neg (by omega), if_pos rfl, ← hi, hj]
    · refine ⟨j, ?_⟩
      have := hs.made j q hj
      rw [hproxy, if_neg hji, if_neg (by omega), hj]

theorem reset_eq {s : State X T} {i : Nat} {p : Proxy X} (hi : s.proxy i = some p) :
    s.reset i =
      (s.setProxy i (some { p with signal := none, inUse := false })).clear p.parentSlot := by
  simp only [reset, hi]

theorem reset_proxy {s : State X T} {i : Nat} {p : Proxy X} (hi : s.proxy i = some p) (j : Nat) :
    (s.reset i).proxy j =
      if j = i then some { p with signal := none, inUse := false } else s.proxy j := by
  rw [reset_eq hi, clear_proxy, setProxy_proxy]

theorem reset_cell {s : State X T} {i : Nat} {p : Proxy X} (hi : s.proxy i = some p) (c : Nat) :
    (s.reset i).cell c = if p.parentSlot = some c then none else s.cell c := by
  rw [reset_eq hi, clear_cell]
  rfl

theorem destruct_proxy {s : State X T} {i : Nat} {p : Proxy X} (hi : s.proxy i = some p) (j : Nat) :
    (s.destruct i).proxy j = if j = i then none else s.proxy j := by
  rw [destruct, setProxy_proxy, reset_proxy hi]
  split_ifs <;> rfl

theorem destruct_cell {s : State X T} {i : Nat} {p : Proxy X} (hi : s.proxy i = some p) (c : Nat) :
    (s.destruct i).cell c = if p.parentSlot = some c then none else s.cell c :=
  reset_cell hi c

theorem reset_count {s : State X T} {i : Nat} {p : Proxy X} (hi : s.proxy i = some p) :
    (s.reset i).count = s.count ∧ (s.reset i).signals = s.signals := by
  rw [reset_eq hi, clear_count, clear_signals]
  exact ⟨rfl, rfl⟩

theorem Sound.reset {s : State X T} (hs : Sound s) {i : Nat} {p : Proxy X}
    (hi : s.proxy i = some p) : Sound (s.reset i) :=
  hs.retire hi (fun _ h => by cases h; exact ⟨rfl, rfl⟩) (reset_proxy hi) (reset_count hi).1
    (reset_count hi).2 (reset_cell hi)

theorem Sound.destruct {s : State X T} (hs : Sound s) {i : Nat} {p : Proxy X}
    (hi : s.proxy i = some p) : Sound (s.destruct i) :=
  hs.retire hi (fun _ h => by cases h) (destruct_proxy hi) (reset_count hi).1
    (reset_count hi).2 (destruct_cell hi)

/-! ## Steps that touch neither proxies nor parent cells -/

/-- `s'` differs from `s` in what was bound, dispatched or received only. -/
structure Same (s s' : State X T) : Prop where
  proxy : s'.proxy = s.proxy
  count : s'.count = s.count
  signals : s'.signals = s.signals
  cell : s'.cell = s.cell

theorem bind_same (s : State X T) (i k : Nat) : Same s (s.bind i k) := by
  unfold State.bind
  cases s.slot i <;> exact ⟨rfl, rfl, rfl, rfl⟩

theorem emit_same (s : State X T) (c : Nat) (t : T) : Same s (s.emit c t) := by
  unfold emit
  rcases s.cell c with _ | ⟨ex, n⟩ | k <;> exact ⟨rfl, rfl, rfl, rfl⟩

theorem invoke_same (s : State X T) (k : Task X T) : Same s (s.invoke k) := by
  unfold invoke
  split_ifs
  · cases s.bound k.weakSignal <;> exact ⟨rfl, rfl, rfl, rfl⟩
  · exact ⟨rfl, rfl, rfl, rfl⟩

theorem serve_same (s : State X T) (n : Nat) : Same s (s.next (.serve n)) := by
  simp only [next]
  cases s.dispatched[n]? with
  | none => exact ⟨rfl, rfl, rfl, rfl⟩
  | some k =>
      have h := invoke_same { s with dispatched := s.dispatched.eraseIdx n } k
      exact ⟨h.proxy, h.count, h.signals, h.cell⟩

theorem Sound.same {s s' : State X T} (hs : Sound s) (h : Same s s') : Sound s' :=
  hs.cells h.proxy h.count h.signals fun c ex n hc => by rwa [h.cell] at hc

theorem Sound.step {s : State X T} (hs : Sound s) {a : Action X T} (ha : s.Enabled a) :
    Sound (s.next a) := by
  cases a with
  | construct ex slot =>
      cases slot with
      | none => exact hs.constructNone ex
      | some c => exact hs.constructSome ex (ha c rfl)
  | moveConstruct i =>
      obtain ⟨p, hi⟩ := Option.isSome_iff_exists.mp ha
      exact hs.moveConstruct hi
  | reset i =>
      obtain ⟨p, hi⟩ := Option.isSome_iff_exists.mp ha
      exact hs.reset hi
  | destruct i =>
      obtain ⟨p, hi⟩ := Option.isSome_iff_exists.mp ha
      exact hs.destruct hi
  | bind i k => exact hs.same (bind_same s i k)
  | install c k =>
      refine hs.cells rfl rfl rfl fun d ex n h => ?_
      simp only [next, setCell, Function.update_apply] at h
      split_ifs at h
      · cases h
      · exact h
  | remove c =>
      refine hs.cells rfl rfl rfl fun d ex n h => ?_
      rw [show (s.next (.remove c)).cell d = _ from clear_cell s (some c) d] at h
      split_ifs at h
      exact h
  | emit c t => exact hs.same (emit_same s c t)
  | serve n => exact hs.same (serve_same s n)

/-! ## Staying connected -/

/-- The parent cell of every connected proxy still holds the handler installed for it. -/
def Attached (s : State X T) : Prop :=
  ∀ i p c, s.proxy i = some p → p.inUse = true → p.parentSlot = some c →
    ∃ n, p.installed = some n ∧ s.cell c = some (.proxy p.executor n)

theorem invoke_received {s : State X T} {n : Nat} (hn : s.Alive n) {op : Nat}
    (hop : s.bound n = some op) (ex : X) (t : T) :
    (s.invoke ⟨ex, n, t⟩).received = s.received ++ [(op, t)] := by
  simp only [invoke, if_pos hn, hop]

theorem Sound.connected_iff [Inhabited T] {s : State X T} (hs : Sound s) :
    (∀ i, s.Connected i) ↔ s.Attached := by
  constructor
  · intro h i p c hi hu hc
    obtain ⟨d, n, hd, hn, hemit, _⟩ := h i p hi hu
    obtain ⟨_, n', _, hsig, hin⟩ := hs.used i p hi hu
    rw [hc] at hd
    cases hd
    rw [slot, hi] at hn
    rw [show some n' = some n from hsig.symm.trans hn] at hin
    refine ⟨n, hin, ?_⟩
    -- only a handler with this executor and signal dispatches such a lambda
    have hdisp := hemit default
    unfold emit at hdisp
    rcases hcell : s.cell c with _ | ⟨ex, m⟩ | k
    · rw [hcell] at hdisp
      simp at hdisp
    · rw [hcell] at hdisp
      simp only [List.append_cancel_left_eq, List.cons.injEq, Task.mk.injEq, and_true] at hdisp
      rw [hdisp.1, hdisp.2]
    · rw [hcell] at hdisp
      simp at hdisp
  · intro h i p hi hu
    obtain ⟨c, n, hc, hsig, hin⟩ := hs.used i p hi hu
    obtain ⟨m, hm, hcell⟩ := h i p c hi hu hc
    rw [hin] at hm
    cases hm
    have hslot : s.slot i = some n := by rw [slot, hi]; exact hsig
    have halive : s.Alive n := ⟨i, hs.made i p hi, hslot⟩
    refine ⟨c, n, hc, hslot, fun t => ?_, fun t op hop => invoke_received halive hop _ t⟩
    simp only [emit, hcell]

/-- Taking the handler out of the parent cell of `i` harms no other connected proxy. -/
theorem Attached.retire {s s' : State X T} (h : s.Attached) {i : Nat} {p : Proxy X}
    {q : Option (Proxy X)} (hs : Sound s) (hq : ∀ r, q = some r → r.inUse = false)
    (hproxy : ∀ j, s'.proxy j = if j = i then q else s.proxy j)
    (hcell : ∀ c, s'.cell c = if p.parentSlot = some c then none else s.cell c) :
    s'.Attached ↔ ∀ c ∈ p.parentSlot, s.FreeBut i c := by
  constructor
  · intro h' c hc j _ hji r hr hru hrc
    have hj : s'.proxy j = some r := by rw [hproxy, if_neg hji]; exact hr
    obtain ⟨n, _, hn⟩ := h' j r c hj hru hrc
    rw [hcell, if_pos (Option.mem_def.mp hc)] at hn
    cases hn
  · intro hfree j r c hr hru hrc
    rw [hproxy] at hr
    split_ifs at hr with hji
    · rw [hq r hr] at hru
      cases hru
    · obtain ⟨n, hn, hcn⟩ := h j r c hr hru hrc
      refine ⟨n, hn, ?_⟩
      rw [hcell, if_neg, hcn]
      exact fun hpc => hfree c hpc j (hs.made j r hr) hji r hr hru hrc

theorem Attached.same {s s' : State X T} (h : s.Attached) (hsame : Same s s') : s'.Attached := by
  unfold Attached
  rw [hsame.proxy, hsame.cell]
  exact h

/-- A change of one cell that no connected proxy uses. -/
theorem Attached.setCell {s : State X T} (h : s.Attached) {c : Nat}
    (hfree : ∀ i p, s.proxy i = some p → p.inUse = true → p.parentSlot ≠ some c)
    (k : Option (Handler X)) : (s.setCell c k).Attached := by
  intro i p d hi hu hd
  obtain ⟨n, hn, hcell⟩ := h i p d hi hu hd
  refine ⟨n, hn, ?_⟩
  show Function.update s.cell c k d = _
  rw [Function.update_of_ne, hcell]
  rintro rfl
  exact hfree i p hi hu hd

theorem Attached.construct {s : State X T} (hs : Sound s) (h : s.Attached) {ex : X}
    {slot : Option Nat} (hfree : ∀ c ∈ slot, s.Free c) : (s.construct ex slot).Attached := by
  cases slot with
  | none =>
      intro i p c hi hu hc
      simp only [State.construct, Function.update_apply] at hi
      split_ifs at hi
      · cases hi
        cases hu
      · exact h i p c hi hu hc
  | some c =>
      intro i p d hi hu hd
      simp only [State.construct, Function.update_apply] at hi ⊢
      split_ifs at hi
      · cases hi
        cases hd
        exact ⟨s.signals, rfl, if_pos rfl⟩
      · obtain ⟨n, hn, hcell⟩ := h i p d hi hu hd
        refine ⟨n, hn, ?_⟩
        rw [if_neg, hcell]
        rintro rfl
        exact Free.not_used hs (hfree _ rfl) hi hu hd

theorem Attached.moveConstruct {s : State X T} (h : s.Attached) {i : Nat} {p : Proxy X}
    (hi : s.proxy i = some p) : (s.moveConstruct i).Attached := by
  intro j q c hj hu hc
  have hcell : (s.moveConstruct i).cell = s.cell := by
    simp only [State.moveConstruct, hi]
    rfl
  simp only [State.moveConstruct, hi, setProxy_proxy, Function.update_apply] at hj
  rw [hcell]
  split_ifs at hj
  · cases hj
    cases hu
  · cases hj
    exact h i p c hi hu hc
  · exact h j q c hj hu hc

/-- Only a step that does not spare a holder takes a proxy's handler away. -/
theorem Attached.step_iff {s : State X T} (hs : Sound s) (h : s.Attached) {a : Action X T}
    (ha : s.Enabled a) : (s.next a).Attached ↔ s.SparesHolder a := by
  cases a with
  | construct ex slot => exact iff_of_true (h.construct hs ha) trivial
  | moveConstruct i =>
      obtain ⟨p, hi⟩ := Option.isSome_iff_exists.mp ha
      exact iff_of_true (h.moveConstruct hi) trivial
  | reset i =>
      obtain ⟨p, hi⟩ := Option.isSome_iff_exists.mp ha
      rw [show (s.next (.reset i)).Attached ↔ _ from
        h.retire hs (fun _ hr => by cases hr; rfl) (reset_proxy hi) (reset_cell hi)]
      simp only [SparesHolder, hi, Option.mem_some_iff, forall_eq']
  | destruct i =>
      obtain ⟨p, hi⟩ := Option.isSome_iff_exists.mp ha
      rw [show (s.next (.destruct i)).Attached ↔ _ from
        h.retire hs (fun _ hr => by cases hr) (destruct_proxy hi) (destruct_cell hi)]
      simp only [SparesHolder, hi, Option.mem_some_iff, forall_eq']
  | bind i k => exact iff_of_true (h.same (bind_same s i k)) trivial
  | install c k =>
      refine iff_of_true (h.setCell (fun i p hi hu => ?_) _) trivial
      exact Free.not_used hs ha hi hu
  | remove c =>
      refine iff_of_true (h.setCell (fun i p hi hu hc => ?_) none) trivial
      obtain ⟨n, _, hcell⟩ := h i p c hi hu hc
      have hother : (s.cell c).any Handler.isOther = true := ha
      rw [hcell] at hother
      cases hother
  | emit c t => exact iff_of_true (h.same (emit_same s c t)) trivial
  | serve n => exact iff_of_true (h.same (serve_same s n)) trivial

end State

/-- Moved or not, proxies stay connected after every step of a run exactly when no step resets or
    destroys an object while another object holds a connected proxy of the same parent slot: the
    objects that were moved from have to outlive the proxy. -/
theorem proxy_connected_iff [Inhabited T] {as : List (Action X T)} {s : State X T}
    (h : Run machine State.empty as s) :
    Along machine (fun s a => ∀ i, (s.next a).Connected i) State.empty as ↔
      Along machine State.SparesHolder State.empty as := by
  refine h.along_iff (J := fun s => s.Sound ∧ s.Attached) ⟨State.Sound.empty, ?_⟩ ?_ ?_
  · intro i p c hi
    cases hi
  · rintro s a ⟨hs, hat⟩ ha
    exact (hs.step ha).connected_iff.trans (hat.step_iff hs ha)
  · rintro s a ⟨hs, hat⟩ ha hp
    exact ⟨hs.step ha, (hat.step_iff hs ha).mpr hp⟩

/-- The proxy is moved and the emptied object lives on: an emission still reaches the operation. -/
theorem proxy_connected_iff_patient :
    Along (machine : System (State Nat Nat) (Action Nat Nat))
      (fun s a => ∀ i, (s.next a).Connected i) State.empty
      [.construct 7 (some 0), .bind 0 3, .moveConstruct 0, .moveConstruct 1, .emit 0 1, .serve 0,
        .destruct 2, .destruct 1, .destruct 0] :=
  (proxy_connected_iff (.of_legal (by decide))).mpr (by decide)

/-- As in a composed operation: the proxy is bound and moved, and the object it was moved from dies.
    An emission on the parent slot is then lost. -/
theorem moved_proxy_disconnected :
    Run (machine : System (State Nat Nat) (Action Nat Nat)) State.empty
        [.construct 7 (some 0), .bind 0 3, .moveConstruct 0, .destruct 0, .emit 0 1]
        (machine.exec State.empty
          [.construct 7 (some 0), .bind 0 3, .moveConstruct 0, .destruct 0, .emit 0 1]) ∧
      ¬ (machine.exec (State.empty : State Nat Nat)
          [.construct 7 (some 0), .bind 0 3, .moveConstruct 0, .destruct 0]).Connected 1 ∧
      (machine.exec (State.empty : State Nat Nat)
          [.construct 7 (some 0), .bind 0 3, .moveConstruct 0, .destruct 0, .emit 0 1]).dispatched
        = [] := by
  refine ⟨.of_legal (by decide), fun h => ?_, by decide⟩
  obtain ⟨c, n, hc, _, hemit, _⟩ :=
    h ⟨some 0, some 0, some 0, 7, true⟩ (by decide) rfl
  cases hc
  exact absurd (hemit 1) (by cases n <;> simp [System.exec, machine, State.next, State.emit,
    State.construct, State.bind, State.moveConstruct, State.destruct, State.reset, State.clear,
    State.setCell, State.setProxy, State.slot, State.empty])

/-! ## Removing only one's own handler -/

namespace State

/-- A handler is in a cell only as long as its proxy is in use. -/
theorem Sound.inUse_of_own {s : State X T} (hs : Sound s) {i c : Nat} {p : Proxy X} {ex : X}
    {n : Nat} (hi : s.proxy i = some p) (hin : p.installed = some n)
    (hc : s.cell c = some (.proxy ex n)) : p.inUse = true ∧ p.executor = ex := by
  obtain ⟨j, q, hj, hu, hqin, hex, _⟩ := hs.owned c ex n hc
  have hij := hs.distinct i j p q n hi hj hin hqin
  subst hij
  rw [hi] at hj
  cases hj
  exact ⟨hu, hex⟩

/-- What clearing the parent cell of object `i` has to satisfy. -/
theorem Sound.removesOwn_iff {s s' : State X T} (hs : Sound s) {i : Nat} {p : Proxy X}
    (hi : s.proxy i = some p)
    (hcell : ∀ c, s'.cell c = if p.parentSlot = some c then none else s.cell c) :
    ((∀ c h, s.cell c = some h → s'.cell c ≠ some h →
        ∃ ex n, h = .proxy ex n ∧ p.installed = some n) ∧
      (p.inUse = false → s'.cell = s.cell)) ↔
      ∀ c ∈ p.parentSlot, ∀ h ∈ s.cell c, some h = p.installed.map (.proxy p.executor) := by
  constructor
  · rintro ⟨h, _⟩ c hc k hk
    have hgone : s'.cell c ≠ some k := by
      rw [hcell, if_pos (Option.mem_def.mp hc)]
      exact (Option.some_ne_none k).symm
    obtain ⟨ex, n, rfl, hn⟩ := h c k hk hgone
    rw [hn, Option.map_some, (hs.inUse_of_own hi hn hk).2]
  · intro h
    refine ⟨fun c k hk hgone => ?_, fun hu => funext fun c => ?_⟩
    · rw [hcell] at hgone
      split_ifs at hgone with hc
      · obtain ⟨n, hn, rfl⟩ := Option.map_eq_some_iff.mp (h c hc k hk).symm
        exact ⟨p.executor, n, rfl, hn⟩
      · exact absurd hk hgone
    · rw [hcell]
      split_ifs with hc
      · cases hk : s.cell c with
        | none => rfl
        | some k =>
            obtain ⟨n, hn, rfl⟩ := Option.map_eq_some_iff.mp (h c hc k hk).symm
            rw [(hs.inUse_of_own hi hn hk).1] at hu
            cases hu
      · rfl

theorem Sound.step_removesOwn_iff [DecidableEq X] {s : State X T} (hs : Sound s) {a : Action X T}
    (ha : s.Enabled a) : s.RemovesOwn a ↔ s.Undisturbed a := by
  cases a with
  | reset i =>
      obtain ⟨p, hi⟩ := Option.isSome_iff_exists.mp ha
      have h := hs.removesOwn_iff hi (reset_cell hi)
      constructor
      · intro hr q hq
        rw [hi] at hq
        cases hq
        exact h.mp (hr i p (Or.inl rfl) hi)
      · rintro hu j q (hj | hj) hq <;> cases hj
        rw [hi] at hq
        cases hq
        exact h.mpr (hu p hi)
  | destruct i =>
      obtain ⟨p, hi⟩ := Option.isSome_iff_exists.mp ha
      have h := hs.removesOwn_iff hi (destruct_cell hi)
      constructor
      · intro hr q hq
        rw [hi] at hq
        cases hq
        exact h.mp (hr i p (Or.inr rfl) hi)
      · rintro hu j q (hj | hj) hq <;> cases hj
        rw [hi] at hq
        cases hq
        exact h.mpr (hu p hi)
  | _ =>
      refine iff_of_true ?_ trivial
      rintro j q (hj | hj) <;> cases hj

end State

/-- In a run, `reset` and the destructor only ever remove the handler installed for the proxy, and
    do nothing to the parent slot once the proxy was reset, exactly when no step resets or destroys
    an object while its parent cell holds another handler. -/
theorem removes_own_handler_iff [DecidableEq X] {as : List (Action X T)} {s : State X T}
    (h : Run machine State.empty as s) :
    Along machine State.RemovesOwn State.empty as ↔
      Along machine State.Undisturbed State.empty as :=
  h.along_iff State.Sound.empty (fun _ _ hs ha => hs.step_removesOwn_iff ha)
    fun _ _ hs ha _ => hs.step ha

/-- Another operation uses the slot between two resets and is done before the second one. -/
theorem removes_own_handler_iff_apart :
    Along (machine : System (State Nat Nat) (Action Nat Nat)) State.RemovesOwn State.empty
      [.construct 7 (some 0), .reset 0, .install 0 4, .remove 0, .reset 0, .destruct 0] :=
  (removes_own_handler_iff (.of_legal (by decide))).mpr (by decide)

/-- The proxy is reset, the next operation installs its handler in the slot, and the destructor of
    the proxy takes it out: an emission no longer reaches that operation. -/
theorem destructor_removes_other_handler :
    Run (machine : System (State Nat Nat) (Action Nat Nat)) State.empty
        [.construct 7 (some 0), .reset 0, .install 0 4, .destruct 0, .emit 0 1]
        (machine.exec State.empty
          [.construct 7 (some 0), .reset 0, .install 0 4, .destruct 0, .emit 0 1]) ∧
      ¬ (machine.exec (State.empty : State Nat Nat)
          [.construct 7 (some 0), .reset 0, .install 0 4]).RemovesOwn (.destruct 0) ∧
      (machine.exec (State.empty : State Nat Nat)
          [.construct 7 (some 0), .reset 0, .install 0 4, .destruct 0, .emit 0 1]).received =
        [] := by
  refine ⟨.of_legal (by decide), fun h => ?_, by decide⟩
  obtain ⟨ex, n, hother, _⟩ := (h 0 ⟨some 0, none, some 0, 7, false⟩ (Or.inr rfl) (by decide)).1 0
    (.other 4) (by decide) (by decide)
  cases hother

end WebAsio.Asio.CancellationProxy
