import WebAsio.MemoryCache
import Mathlib.Algebra.BigOperators.Group.Finset.Basic

set_option autoImplicit false

/-! # Usage accounting of `memory_cache`

The build with `WEBASIO_MEMCACHE_USAGE_DEBUG`: `alloc` and `free` once more, as that build has them,
with the counters they update. Its caches are to hold and return the same blocks as the plain
build's. The array `usages_` has an element per entry of a bucket and is indexed by buckets, of
which there are more; an update of an element that does not exist is recorded as a fault. -/

namespace WebAsio.MemoryCache

open Transition

namespace Usage

/-- The counters of a cache. -/
structure Counters where
  usages : Nat → Size
  total : Size
  misses : Size
  oversize : Size
  overcache : Size
  fault : Bool

namespace Counters

def zero : Counters := ⟨fun _ => 0, 0, 0, 0, 0, false⟩

def incTotal (u : Counters) : Counters := { u with total := u.total + 1 }
def incMisses (u : Counters) : Counters := { u with misses := u.misses + 1 }
def incOversize (u : Counters) : Counters := { u with oversize := u.oversize + 1 }
def incOvercache (u : Counters) : Counters := { u with overcache := u.overcache + 1 }

/-- `++usages_[idx]` -/
def incUsages (u : Counters) (idx : Nat) : Counters :=
  if idx < entryCount then { u with usages := Function.update u.usages idx (u.usages idx + 1) }
  else { u with fault := true }

/-- The sum of all `usages_`, exactly. -/
def sum (u : Counters) : Nat := ∑ i ∈ Finset.range entryCount, (u.usages i).toNat

/-- The updates were in bounds, and the counters are right about each other and about the number of
    calls served from a slot. -/
structure Exact (u : Counters) (served : Nat) : Prop where
  bounds : u.fault = false
  total : u.total.toNat = u.sum + u.oversize.toNat
  misses : u.misses.toNat ≤ u.sum
  served : (u.total - u.misses - u.oversize).toNat = served

end Counters

/-- `::operator new(size)`, which throws without `memory`. -/
def operatorNew (s : State) (u : Counters) (size : Size) (memory : Bool) :
    Option Nat × State × Counters :=
  if memory then (some (s.operatorNew size).1, (s.operatorNew size).2, u) else (none, s, u)

/-- `alloc` -/
def alloc (s : State) (u : Counters) (c : Nat) (e : Cache) (size : Size) (memory : Bool) :
    Option Nat × State × Counters :=
  let idx := (cacheIndex size).toNat
  let u := u.incTotal
  if idx < cacheCount then
    let u := u.incUsages idx
    match e.filledEntry idx with
    | some k =>
      match e idx k with
      | some b => (some b, s.setCache c (some (e.set idx k none)), u)
      | none => operatorNew s u.incMisses (alignedSize size) memory
    | none => operatorNew s u.incMisses (alignedSize size) memory
  else operatorNew s u.incOversize size memory

/-- `free` -/
def free (s : State) (u : Counters) (c : Nat) (e : Cache) (b : Nat) (size : Size) :
    State × Counters :=
  let idx := (cacheIndex size).toNat
  if idx < cacheCount then
    match e.freeEntry idx with
    | some k => (s.setCache c (some (e.set idx k (some b))), u)
    | none => (s.operatorDelete b, u.incOvercache)
  else (s.operatorDelete b, u)

/-- The caches with their counters, and how many calls of `alloc` each of them served from a
    slot. -/
structure Instrumented where
  state : State
  counters : Nat → Counters
  served : Nat → Nat

def Instrumented.empty : Instrumented := ⟨State.empty, fun _ => .zero, fun _ => 0⟩

/-! ## Runs of both builds -/

/-- Calls on the caches of the threads. -/
inductive Action
  | construct (c : Nat)
  | alloc (c : Nat) (size : Size) (memory : Bool)
  | free (c b : Nat) (size : Size)
  | destroy (c : Nat)
  deriving DecidableEq

/-- What the plain build does. -/
def plain (s : State) : Action → State
  | .construct c => s.next (.construct c)
  | .alloc c size memory =>
    match s.cache c with
    | none => s
    | some e =>
      match s.tryAlloc c e size memory with
      | none => s
      | some (b, s) => s.setLive b (some size)
  | .free c b size => s.next (.free c b size)
  | .destroy c => s.next (.destroy c)

/-- What the plain build returns from `alloc`, none when it throws. -/
def plainReturned (s : State) : Action → Option Nat
  | .alloc c size memory =>
    (s.cache c).bind fun e => (s.tryAlloc c e size memory).map Prod.fst
  | _ => none

namespace Instrumented

/-- Nothing is asked of the sizes and pointers. -/
def Enabled (s : Instrumented) : Action → Prop
  | .construct c => (s.state.cache c).isNone = true
  | .alloc c _ _ | .free c _ _ | .destroy c => (s.state.cache c).isSome = true

instance (s : Instrumented) (a : Action) : Decidable (s.Enabled a) :=
  match a with
  | .construct c => inferInstanceAs (Decidable ((s.state.cache c).isNone = true))
  | .alloc c _ _ | .free c _ _ | .destroy c =>
    inferInstanceAs (Decidable ((s.state.cache c).isSome = true))

def next (s : Instrumented) : Action → Instrumented
  | .construct c =>
    ⟨s.state.next (.construct c), Function.update s.counters c .zero, Function.update s.served c 0⟩
  | .alloc c size memory =>
    match s.state.cache c with
    | none => s
    | some e =>
      let (b, state, u) := Usage.alloc s.state (s.counters c) c e size memory
      ⟨b.elim state fun b => state.setLive b (some size), Function.update s.counters c u,
        if e.serves size then Function.update s.served c (s.served c + 1) else s.served⟩
  | .free c b size =>
    match s.state.cache c with
    | none => s
    | some e =>
      let (state, u) := Usage.free (s.state.setLive b none) (s.counters c) c e b size
      { s with state := state, counters := Function.update s.counters c u }
  | .destroy c => { s with state := s.state.next (.destroy c) }

/-- What is returned from `alloc`. -/
def returned (s : Instrumented) : Action → Option Nat
  | .alloc c size memory =>
    (s.state.cache c).bind fun e => (Usage.alloc s.state (s.counters c) c e size memory).1
  | _ => none

/-- The counters of all caches are exact. -/
def Exact (s : Instrumented) : Prop := ∀ c, (s.counters c).Exact (s.served c)

/-- The counters are exact after the step, and it returns and does what the plain build does. -/
def StepOk (s : Instrumented) (a : Action) : Prop :=
  (s.next a).Exact ∧ (s.next a).state = plain s.state a ∧ s.returned a = plainReturned s.state a

/-- The bucket of the size is none or one of the first 16. -/
def InBounds : Action → Prop
  | .alloc _ size _ =>
    (cacheIndex size).toNat < entryCount ∨ cacheCount ≤ (cacheIndex size).toNat
  | _ => True

/-- `total_` does not wrap around. -/
def Countable (s : Instrumented) : Action → Prop
  | .alloc c _ _ => (s.counters c).total.toNat + 1 < 2 ^ 64
  | _ => True

end Instrumented

def machine : System Instrumented Action := ⟨Instrumented.Enabled, Instrumented.next⟩

instance (s : Instrumented) (a : Action) : Decidable (machine.enabled s a) :=
  inferInstanceAs (Decidable (s.Enabled a))

instance (s : Instrumented) (a : Action) : Decidable (s.Countable a) :=
  match a with
  | .alloc c _ _ => inferInstanceAs (Decidable ((s.counters c).total.toNat + 1 < 2 ^ 64))
  | .construct _ | .free .. | .destroy _ => .isTrue trivial

instance (a : Action) : Decidable (Instrumented.InBounds a) :=
  match a with
  | .alloc _ size _ => inferInstanceAs (Decidable
      ((cacheIndex size).toNat < entryCount ∨ cacheCount ≤ (cacheIndex size).toNat))
  | .construct _ | .free .. | .destroy _ => .isTrue trivial

/-! ## The counters -/

theorem toNat_inc {x : Size} (h : x.toNat + 1 < 2 ^ 64) : (x + 1).toNat = x.toNat + 1 := by
  rw [BitVec.toNat_add]
  exact Nat.mod_eq_of_lt h

namespace Counters

variable {u : Counters} {n : Nat}

/-- The counters without words: every call was served, missed, or was too large. -/
structure Balanced (u : Counters) (served : Nat) : Prop where
  bounds : u.fault = false
  total : u.total.toNat = u.sum + u.oversize.toNat
  sum : u.sum = u.misses.toNat + served

theorem Balanced.zero : Balanced zero 0 := ⟨rfl, rfl, rfl⟩

theorem Balanced.exact (h : u.Balanced n) : u.Exact n := by
  have htotal := h.total
  have hsum := h.sum
  have hlt := u.total.isLt
  refine ⟨h.bounds, htotal, by omega, ?_⟩
  rw [BitVec.toNat_sub, BitVec.toNat_sub]
  omega

/-- An update in bounds adds one to the sum. -/
theorem sum_incUsages {idx : Nat} (hidx : idx < entryCount) (h : u.sum + 1 < 2 ^ 64) :
    (u.incUsages idx).sum = u.sum + 1 := by
  have hmem : idx ∈ Finset.range entryCount := Finset.mem_range.mpr hidx
  have hsum : (u.usages idx).toNat + ∑ i ∈ (Finset.range entryCount).erase idx, (u.usages i).toNat =
      u.sum := Finset.add_sum_erase _ (fun i => (u.usages i).toNat) hmem
  have hother : ∑ i ∈ (Finset.range entryCount).erase idx,
      (Function.update u.usages idx (u.usages idx + 1) i).toNat =
      ∑ i ∈ (Finset.range entryCount).erase idx, (u.usages i).toNat :=
    Finset.sum_congr rfl fun i hi => by rw [Function.update_of_ne (Finset.ne_of_mem_erase hi)]
  have hinc : (u.usages idx + 1).toNat = (u.usages idx).toNat + 1 := toNat_inc (by omega)
  unfold incUsages
  rw [if_pos hidx]
  show ∑ i ∈ Finset.range entryCount,
    (Function.update u.usages idx (u.usages idx + 1) i).toNat = u.sum + 1
  rw [← Finset.add_sum_erase _ _ hmem, hother, Function.update_self, hinc]
  omega

/-- A call with a bucket that is counted in bounds, and served from a slot. -/
theorem Balanced.serve (h : u.Balanced n) {idx : Nat} (hidx : idx < entryCount)
    (ht : u.total.toNat + 1 < 2 ^ 64) : (u.incTotal.incUsages idx).Balanced (n + 1) := by
  have htotal := h.total
  have hsum : (u.incTotal.incUsages idx).sum = u.sum + 1 :=
    sum_incUsages (u := u.incTotal) hidx (by show u.sum + 1 < _; omega)
  refine ⟨?_, ?_, ?_⟩
  · simp only [incUsages, if_pos hidx, incTotal]
    exact h.bounds
  · rw [hsum]
    simp only [incUsages, if_pos hidx, incTotal]
    rw [toNat_inc ht]
    omega
  · rw [hsum, h.sum]
    simp only [incUsages, if_pos hidx, incTotal]
    omega

/-- A call for which the bucket has no block. -/
theorem Balanced.miss (h : u.Balanced n) {idx : Nat} (hidx : idx < entryCount)
    (ht : u.total.toNat + 1 < 2 ^ 64) : (u.incTotal.incUsages idx).incMisses.Balanced n := by
  have hserve := h.serve hidx ht
  have hsum := hserve.sum
  have hmisses : (u.incTotal.incUsages idx).misses = u.misses := by
    simp only [incUsages, if_pos hidx, incTotal]
  refine ⟨hserve.bounds, hserve.total, ?_⟩
  show (u.incTotal.incUsages idx).sum = ((u.incTotal.incUsages idx).misses + 1).toNat + n
  have htotal := h.total
  have holdsum := h.sum
  rw [hsum, hmisses, toNat_inc (by omega)]
  omega

/-- A call without bucket. -/
theorem Balanced.large (h : u.Balanced n) (ht : u.total.toNat + 1 < 2 ^ 64) :
    u.incTotal.incOversize.Balanced n := by
  have htotal := h.total
  refine ⟨h.bounds, ?_, h.sum⟩
  show (u.total + 1).toNat = u.sum + (u.oversize + 1).toNat
  rw [toNat_inc ht, toNat_inc (by omega)]
  omega

end Counters

/-! ## Calls -/

/-- `alloc` takes its block from a slot, misses, or has no bucket. -/
theorem alloc_cases (s : State) (u : Counters) (c : Nat) (e : Cache) (size : Size)
    (memory : Bool) :
    ((cacheIndex size).toNat < cacheCount ∧ e.serves size = true ∧
      alloc s u c e size memory = (some (s.alloc c e size).1, (s.alloc c e size).2,
        u.incTotal.incUsages (cacheIndex size).toNat)) ∨
    ((cacheIndex size).toNat < cacheCount ∧ e.serves size = false ∧
      s.alloc c e size = s.operatorNew (alignedSize size) ∧
      alloc s u c e size memory =
        operatorNew s (u.incTotal.incUsages (cacheIndex size).toNat).incMisses (alignedSize size)
          memory) ∨
    (¬ (cacheIndex size).toNat < cacheCount ∧ e.serves size = false ∧
      s.alloc c e size = s.operatorNew size ∧
      alloc s u c e size memory = operatorNew s u.incTotal.incOversize size memory) := by
  unfold Cache.serves alloc State.alloc
  by_cases hidx : (cacheIndex size).toNat < cacheCount
  · simp only [hidx, if_true, decide_true, Bool.true_and, true_and, not_true, false_and, or_false]
    cases hk : e.filledEntry (cacheIndex size).toNat with
    | none => exact Or.inr ⟨rfl, rfl, rfl⟩
    | some k =>
        obtain ⟨_, b, hb⟩ := Cache.filledEntry_some hk
        simp only [hb]
        exact Or.inl ⟨rfl, trivial⟩
  · simp only [hidx, if_false, decide_false, Bool.false_and, false_and, not_false_eq_true,
      true_and, false_or]

/-- Apart from the counters, `alloc` is the one of the plain build. -/
theorem alloc_plain (s : State) (u : Counters) (c : Nat) (e : Cache) (size : Size)
    (memory : Bool) :
    (alloc s u c e size memory).1 = (s.tryAlloc c e size memory).map Prod.fst ∧
      (alloc s u c e size memory).2.1 = (s.tryAlloc c e size memory).elim s Prod.snd := by
  unfold State.tryAlloc
  rcases alloc_cases s u c e size memory with ⟨_, hs, h⟩ | ⟨_, hs, hp, h⟩ | ⟨_, hs, hp, h⟩
  · rw [h, hs, Bool.or_true]
    exact ⟨rfl, rfl⟩
  · rw [h, hs, hp, operatorNew]
    cases memory <;> exact ⟨rfl, rfl⟩
  · rw [h, hs, hp, operatorNew]
    cases memory <;> exact ⟨rfl, rfl⟩

theorem free_plain (s : State) (u : Counters) (c : Nat) (e : Cache) (b : Nat) (size : Size) :
    (free s u c e b size).1 = s.free c e b size := by
  unfold free State.free
  by_cases hidx : (cacheIndex size).toNat < cacheCount
  · simp only [if_pos hidx]
    cases e.freeEntry (cacheIndex size).toNat <;> rfl
  · simp only [if_neg hidx]

/-- `free` leaves alone what the counters say about `alloc`. -/
theorem free_balanced {s : State} {u : Counters} {c : Nat} {e : Cache} {b : Nat} {size : Size}
    {n : Nat} (h : u.Balanced n) : (free s u c e b size).2.Balanced n := by
  unfold free
  by_cases hidx : (cacheIndex size).toNat < cacheCount
  · simp only [if_pos hidx]
    cases e.freeEntry (cacheIndex size).toNat with
    | none => exact ⟨h.bounds, h.total, h.sum⟩
    | some k => exact h
  · simp only [if_neg hidx]
    exact h

theorem operatorNew_counters (s : State) (u : Counters) (size : Size) (memory : Bool) :
    (operatorNew s u size memory).2.2 = u := by
  cases memory <;> rfl

/-- A call with its bucket in bounds counts right, also if it throws. -/
theorem alloc_balanced {s : State} {u : Counters} {c : Nat} {e : Cache} {size : Size}
    {memory : Bool} {n : Nat} (h : u.Balanced n) (ht : u.total.toNat + 1 < 2 ^ 64)
    (hb : (cacheIndex size).toNat < entryCount ∨ cacheCount ≤ (cacheIndex size).toNat) :
    (alloc s u c e size memory).2.2.Balanced (if e.serves size then n + 1 else n) := by
  have hin : (cacheIndex size).toNat < cacheCount → (cacheIndex size).toNat < entryCount :=
    fun hidx => hb.resolve_right (Nat.not_le_of_lt hidx)
  rcases alloc_cases s u c e size memory with ⟨hi, hs, h'⟩ | ⟨hi, hs, _, h'⟩ | ⟨_, hs, _, h'⟩
  · rw [h', hs]
    exact h.serve (hin hi) ht
  · rw [h', hs, operatorNew_counters]
    exact h.miss (hin hi) ht
  · rw [h', hs, operatorNew_counters]
    exact h.large ht

/-- A call with its bucket out of bounds updates an element that does not exist. -/
theorem alloc_fault {s : State} {u : Counters} {c : Nat} {e : Cache} {size : Size} {memory : Bool}
    (h : (alloc s u c e size memory).2.2.fault = false) :
    (cacheIndex size).toNat < entryCount ∨ cacheCount ≤ (cacheIndex size).toNat := by
  by_contra hb
  obtain ⟨hge, hlt⟩ := not_or.mp hb
  have hfault : (u.incTotal.incUsages (cacheIndex size).toNat).fault = true := by
    rw [Counters.incUsages, if_neg hge]
  rcases alloc_cases s u c e size memory with ⟨_, _, h'⟩ | ⟨_, _, _, h'⟩ | ⟨hi, _⟩
  · rw [h', hfault] at h
    cases h
  · rw [h', operatorNew_counters] at h
    exact Bool.noConfusion (hfault.symm.trans h)
  · exact hlt (Nat.le_of_not_lt hi)

/-! ## Steps -/

namespace Instrumented

variable {s : Instrumented}

/-- The invariant of runs with all updates in bounds. -/
def Balanced (s : Instrumented) : Prop := ∀ c, (s.counters c).Balanced (s.served c)

theorem Balanced.empty : Balanced empty := fun _ => Counters.Balanced.zero

theorem Balanced.exact (hs : s.Balanced) : s.Exact := fun c => (hs c).exact

/-- The counters of one cache change. -/
theorem Balanced.update (hs : s.Balanced) {s' : Instrumented} {c : Nat} {u : Counters} {n : Nat}
    (h : u.Balanced n) (hu : s'.counters = Function.update s.counters c u)
    (hn : s'.served = Function.update s.served c n) : s'.Balanced := by
  intro d
  rw [hu, hn]
  by_cases hd : d = c
  · subst hd
    simp only [Function.update_self]
    exact h
  · simp only [Function.update_of_ne hd]
    exact hs d

theorem Balanced.next (hs : s.Balanced) {a : Action} (hb : InBounds a) (ht : s.Countable a) :
    (s.next a).Balanced := by
  cases a with
  | construct c => exact hs.update Counters.Balanced.zero rfl rfl
  | alloc c size memory =>
      cases hc : s.state.cache c with
      | none =>
          simp only [Instrumented.next, hc]
          exact hs
      | some e =>
          have h : (alloc s.state (s.counters c) c e size memory).2.2.Balanced
              (if e.serves size then s.served c + 1 else s.served c) :=
            alloc_balanced (hs c) ht hb
          refine hs.update (c := c) h ?_ ?_
          · simp only [Instrumented.next, hc]
          · simp only [Instrumented.next, hc]
            split_ifs
            · rfl
            · rw [Function.update_eq_self]
  | free c b size =>
      cases hc : s.state.cache c with
      | none =>
          simp only [Instrumented.next, hc]
          exact hs
      | some e =>
          have h : (free (s.state.setLive b none) (s.counters c) c e b size).2.Balanced
              (s.served c) := free_balanced (hs c)
          refine hs.update (c := c) h ?_ ?_
          · simp only [Instrumented.next, hc]
          · simp only [Instrumented.next, hc, Function.update_eq_self]
  | destroy c => exact hs

/-- The step is the one of the plain build. -/
theorem next_state (s : Instrumented) (a : Action) : (s.next a).state = plain s.state a := by
  cases a with
  | construct c => rfl
  | alloc c size memory =>
      cases hc : s.state.cache c with
      | none => simp only [Instrumented.next, plain, hc]
      | some e =>
          obtain ⟨hb, hstate⟩ := alloc_plain s.state (s.counters c) c e size memory
          simp only [Instrumented.next, plain, hc, hb, hstate]
          cases s.state.tryAlloc c e size memory <;> rfl
  | free c b size =>
      cases hc : s.state.cache c with
      | none => simp only [Instrumented.next, plain, State.next, hc]
      | some e => simp only [Instrumented.next, plain, State.next, hc, free_plain]
  | destroy c => rfl

theorem returned_eq (s : Instrumented) (a : Action) : s.returned a = plainReturned s.state a := by
  cases a with
  | alloc c size memory =>
      simp only [returned, plainReturned]
      cases s.state.cache c with
      | none => rfl
      | some e => exact (alloc_plain s.state (s.counters c) c e size memory).1
  | construct c | free c b size | destroy c => rfl

theorem stepOk_of_inBounds (hs : s.Balanced) {a : Action} (hb : InBounds a) (ht : s.Countable a) :
    s.StepOk a :=
  ⟨(hs.next hb ht).exact, next_state s a, returned_eq s a⟩

theorem inBounds_of_stepOk {a : Action} (ha : s.Enabled a) (h : s.StepOk a) : InBounds a := by
  cases a with
  | alloc c size memory =>
      obtain ⟨e, hc⟩ := Option.isSome_iff_exists.mp ha
      have hfault := (h.1 c).bounds
      simp only [Instrumented.next, hc, Function.update_self] at hfault
      exact alloc_fault hfault
  | construct c | free c b size | destroy c => trivial

end Instrumented

/-- The caches are those of the plain build after the same calls. -/
theorem exec_state (s : Instrumented) (as : List Action) :
    (machine.exec s as).state = as.foldl plain s.state := by
  induction as generalizing s with
  | nil => rfl
  | cons a as ih =>
      show (machine.exec (s.next a) as).state = as.foldl plain (plain s.state a)
      rw [ih, Instrumented.next_state]

end Usage

/-- In a run of any caches, with any sizes, where the bucket of every `alloc` is none or one of the
    first 16 and no `total_` wraps around, all updates are in bounds, all counters are exact, and
    every step returns and leaves what it does in the plain build, and so does the whole run. And
    there is no other bucket for which the updates are in bounds. -/
theorem usage_exact {as : List Usage.Action} {s : Usage.Instrumented}
    (h : Run Usage.machine .empty as s) :
    (Along Usage.machine (fun s a => Usage.Instrumented.InBounds a ∧ s.Countable a) .empty as →
      Along Usage.machine Usage.Instrumented.StepOk .empty as ∧ s.Exact ∧
        s.state = as.foldl Usage.plain State.empty) ∧
    (Along Usage.machine Usage.Instrumented.StepOk .empty as →
      Along Usage.machine (fun _ a => Usage.Instrumented.InBounds a) .empty as) := by
  constructor
  · intro hQ
    refine ⟨h.along hQ Usage.Instrumented.Balanced.empty ?_ ?_, ?_, ?_⟩
    · exact fun s a hs _ hq => Usage.Instrumented.stepOk_of_inBounds hs hq.1 hq.2
    · exact fun s a hs _ hq => hs.next hq.1 hq.2
    · exact (h.invariant_of hQ Usage.Instrumented.Balanced.empty
        fun s a hs _ hq => hs.next hq.1 hq.2).exact
    · rw [h.eq_exec, Usage.exec_state]
      rfl
  · intro hP
    exact h.along hP trivial (J := fun _ => True)
      (fun s a _ ha hp => Usage.Instrumented.inBounds_of_stepOk ha hp) fun _ _ _ _ _ => trivial

/-- Blocks of the first bucket, of the 16th and of none, one of them served from a slot, and a call
    that throws. -/
theorem usage_exact_buckets :
    Along Usage.machine Usage.Instrumented.StepOk .empty
      [.construct 0, .alloc 0 64 true, .free 0 0 64, .alloc 0 1 false, .alloc 0 1024 true,
        .alloc 0 8193 false, .alloc 0 0 true] :=
  ((usage_exact (.of_legal (by decide))).1 (by decide)).1

/-- An allocation of 1025 bytes, whose bucket has the index 16. -/
theorem usage_out_of_bounds :
    Run Usage.machine .empty [.construct 0, .alloc 0 1025 true]
        (Usage.machine.exec .empty [.construct 0, .alloc 0 1025 true]) ∧
      ¬ Along Usage.machine Usage.Instrumented.StepOk .empty
        [.construct 0, .alloc 0 1025 true] := by
  refine ⟨.of_legal (by decide), fun h => ?_⟩
  have hbounds := (h.2.1.1 0).bounds
  revert hbounds
  decide

end WebAsio.MemoryCache
