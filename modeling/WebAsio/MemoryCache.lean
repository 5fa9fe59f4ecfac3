import WebAsio.Library.Transition
import Mathlib.Algebra.Ring.Nat
import Mathlib.Data.List.Basic
import Mathlib.Data.List.Nodup
import Mathlib.Logic.Function.Basic
import Mathlib.Logic.ExistsUnique
import Mathlib.Tactic.SplitIfs

set_option autoImplicit false

/-! # `memory_cache`: blocks of memory kept for reuse

Any number of caches, one per thread. A cache has 128 buckets of 16 entries; bucket `i` is meant for
blocks of at least `64 * (i + 1)` bytes. Sizes are words of 64 bits, so that rounding up may wrap
around, and blocks are numbered in the order in which `operator new` returned them. -/

namespace WebAsio.MemoryCache

open Transition

/-- `std::size_t` -/
abbrev Size := BitVec 64

def cacheCount : Nat := 128
def entryCount : Nat := 16
def alignment : Size := 64

def alignedSize (size : Size) : Size :=
  if size % alignment = 0 then size else size + (alignment - size % alignment)

def cacheIndex (size : Size) : Size := alignedSize size / alignment - 1

/-- The array `cache_`: bucket, entry. -/
abbrev Cache := Nat → Nat → Option Nat

namespace Cache

/-- The constructor. -/
def empty : Cache := fun _ _ => none

def set (e : Cache) (i k : Nat) (b : Option Nat) : Cache :=
  Function.update e i (Function.update (e i) k b)

/-- The entry at which the loop of `alloc` stops: the first that is not null. -/
def filledEntry (e : Cache) (i : Nat) : Option Nat :=
  (List.range entryCount).find? fun k => (e i k).isSome

/-- The entry at which the loop of `free` stops: the first that is null. -/
def freeEntry (e : Cache) (i : Nat) : Option Nat :=
  (List.range entryCount).find? fun k => (e i k).isNone

/-- `alloc` takes a block of this size out of the array, and needs no `operator new`. -/
def serves (e : Cache) (size : Size) : Bool :=
  (cacheIndex size).toNat < cacheCount && (e.filledEntry (cacheIndex size).toNat).isSome

/-- The blocks that the destructor passes to `operator delete`. -/
def blocks (e : Cache) : List Nat :=
  (List.range cacheCount).flatMap fun i => (List.range entryCount).filterMap (e i)

end Cache

/-- The caches of the running threads, and for every block its capacity, the size it was allocated
    with while it is live, and how often it was deleted. -/
structure State where
  cache : Nat → Option Cache
  count : Nat
  capacity : Nat → Size
  live : Nat → Option Size
  deleted : Nat → Nat

namespace State

def empty : State := ⟨fun _ => none, 0, fun _ => 0, fun _ => none, fun _ => 0⟩

def setCache (s : State) (c : Nat) (e : Option Cache) : State :=
  { s with cache := Function.update s.cache c e }

/-- `::operator new(size)` -/
def operatorNew (s : State) (size : Size) : Nat × State :=
  (s.count, { s with count := s.count + 1, capacity := Function.update s.capacity s.count size })

/-- `::operator delete(ptr)` -/
def operatorDelete (s : State) (b : Nat) : State :=
  { s with deleted := Function.update s.deleted b (s.deleted b + 1) }

/-- `alloc`, on the cache `c` with the array `e`. -/
def alloc (s : State) (c : Nat) (e : Cache) (size : Size) : Nat × State :=
  let idx := (cacheIndex size).toNat
  if idx < cacheCount then
    match e.filledEntry idx with
    | some k =>
      match e idx k with
      | some b => (b, s.setCache c (some (e.set idx k none)))
      | none => s.operatorNew (alignedSize size)
    | none => s.operatorNew (alignedSize size)
  else s.operatorNew size

/-- `alloc` as its caller sees it. Without `memory`, `operator new` throws if it is called. -/
def tryAlloc (s : State) (c : Nat) (e : Cache) (size : Size) (memory : Bool) :
    Option (Nat × State) :=
  if memory || e.serves size then some (s.alloc c e size) else none

/-- `free` -/
def free (s : State) (c : Nat) (e : Cache) (b : Nat) (size : Size) : State :=
  let idx := (cacheIndex size).toNat
  if idx < cacheCount then
    match e.freeEntry idx with
    | some k => s.setCache c (some (e.set idx k (some b)))
    | none => s.operatorDelete b
  else s.operatorDelete b

/-- The destructor. -/
def destroy (s : State) (c : Nat) (e : Cache) : State :=
  State.setCache (e.blocks.foldl State.operatorDelete s) c none

def setLive (s : State) (b : Nat) (size : Option Size) : State :=
  { s with live := Function.update s.live b size }

end State

/-! ## Runs -/

inductive Action
  /-- a thread uses its cache for the first time -/
  | construct (c : Nat)
  | alloc (c : Nat) (size : Size)
  | free (c b : Nat) (size : Size)
  /-- the thread ends -/
  | destroy (c : Nat)
  deriving DecidableEq

namespace State

/-- Caches are used while they exist, and a block that is freed is live and has the size given. -/
def Enabled (s : State) : Action → Prop
  | .construct c => (s.cache c).isNone = true
  | .alloc c _ => (s.cache c).isSome = true
  | .free c b size => (s.cache c).isSome = true ∧ s.live b = some size
  | .destroy c => (s.cache c).isSome = true

instance (s : State) (a : Action) : Decidable (s.Enabled a) := by
  cases a <;> unfold Enabled <;> infer_instance

/-- The blocks are live from the return of `alloc` to the call of `free`. -/
def next (s : State) : Action → State
  | .construct c => s.setCache c (some Cache.empty)
  | .alloc c size =>
    match s.cache c with
    | none => s
    | some e =>
      let (b, s) := s.alloc c e size
      s.setLive b (some size)
  | .free c b size =>
    match s.cache c with
    | none => s
    | some e => (s.setLive b none).free c e b size
  | .destroy c =>
    match s.cache c with
    | none => s
    | some e => s.destroy c e

end State

def machine : System State Action := ⟨State.Enabled, State.next⟩

instance (s : State) (a : Action) : Decidable (machine.enabled s a) :=
  inferInstanceAs (Decidable (s.Enabled a))

/-- A place in a cache: the cache, the bucket and the entry. -/
structure Place where
  cache : Nat
  bucket : Nat
  entry : Nat
  deriving DecidableEq

namespace State

/-- The block in a place. -/
def held (s : State) (p : Place) : Option Nat := (s.cache p.cache).bind fun e => e p.bucket p.entry

/-- Every block is live, in one place, or deleted, and the blocks in a bucket are large enough. -/
structure Intact (s : State) : Prop where
  exact : ∀ b < s.count,
    (s.live b ≠ none ∧ (∀ p, s.held p ≠ some b) ∧ s.deleted b = 0) ∨
      (s.live b = none ∧ (∃! p, s.held p = some b) ∧ s.deleted b = 0) ∨
      (s.live b = none ∧ (∀ p, s.held p ≠ some b) ∧ s.deleted b = 1)
  unmade : ∀ b, s.count ≤ b → s.live b = none ∧ (∀ p, s.held p ≠ some b) ∧ s.deleted b = 0
  capacity : ∀ p b, s.held p = some b → 64 * (p.bucket + 1) ≤ (s.capacity b).toNat
  entries : ∀ p b, s.held p = some b → p.bucket < cacheCount ∧ p.entry < entryCount

/-- What a step may hand out and delete: `alloc` returns a block that is large enough and neither
    live nor in any place any more, a step deletes no live block but the one that is freed, and the
    end of a cache deletes the blocks it holds. -/
def StepOk (s : State) : Action → Prop
  | .construct c => (s.next (.construct c)).deleted = s.deleted
  | .alloc c size => ∀ e, s.cache c = some e →
      size.toNat ≤ ((s.alloc c e size).2.capacity (s.alloc c e size).1).toNat ∧
        s.live (s.alloc c e size).1 = none ∧
        (∀ p, (s.alloc c e size).2.held p ≠ some (s.alloc c e size).1) ∧
        (s.alloc c e size).2.deleted = s.deleted
  | .free c b size => ∀ b' ≠ b, (s.next (.free c b size)).deleted b' = s.deleted b'
  | .destroy c => ∀ b,
      ((∃ p, p.cache = c ∧ s.held p = some b) →
        (s.next (.destroy c)).deleted b = s.deleted b + 1) ∧
      ((∀ p, p.cache = c → s.held p ≠ some b) → (s.next (.destroy c)).deleted b = s.deleted b)

end State

/-! ## Sizes -/

theorem toNat_alignment : alignment.toNat = 64 := rfl

/-- Rounding up to the alignment, and what becomes of sizes near the end of the range. -/
theorem toNat_alignedSize (size : Size) :
    (alignedSize size).toNat =
      if size.toNat % 64 = 0 then size.toNat
      else (size.toNat + (64 - size.toNat % 64)) % 2 ^ 64 := by
  have hmod : (size % alignment).toNat = size.toNat % 64 := by
    rw [BitVec.toNat_umod, toNat_alignment]
  have hzero : size % alignment = 0 ↔ size.toNat % 64 = 0 := by
    rw [← BitVec.toNat_inj, hmod]
    rfl
  unfold alignedSize
  by_cases h : size.toNat % 64 = 0
  · rw [if_pos (hzero.mpr h), if_pos h]
  · rw [if_neg (mt hzero.mp h), if_neg h, BitVec.toNat_add, BitVec.toNat_sub, hmod,
      toNat_alignment]
    omega

/-- Sizes that have a bucket, so neither 0 nor sizes that wrap around, fit into what is allocated
    for it. -/
theorem toNat_alignedSize_of_cached {size : Size} (h : (cacheIndex size).toNat < cacheCount) :
    size.toNat ≤ (alignedSize size).toNat ∧
      (alignedSize size).toNat = 64 * ((cacheIndex size).toNat + 1) := by
  have hidx : (cacheIndex size).toNat = (2 ^ 64 - 1 + (alignedSize size).toNat / 64) % 2 ^ 64 := by
    unfold cacheIndex
    rw [BitVec.toNat_sub, BitVec.toNat_udiv, toNat_alignment]
    rfl
  have ha := toNat_alignedSize size
  have hlt := size.isLt
  unfold cacheCount at h
  split_ifs at ha with hz
  · omega
  · omega

/-! ## The arrays -/

namespace Cache

theorem filledEntry_some {e : Cache} {i k : Nat} (h : e.filledEntry i = some k) :
    k < entryCount ∧ ∃ b, e i k = some b := by
  have hsome : (e i k).isSome = true := by simpa using List.find?_some h
  exact ⟨List.mem_range.mp (List.mem_of_find?_eq_some h), Option.isSome_iff_exists.mp hsome⟩

theorem freeEntry_some {e : Cache} {i k : Nat} (h : e.freeEntry i = some k) :
    k < entryCount ∧ e i k = none :=
  ⟨List.mem_range.mp (List.mem_of_find?_eq_some h), by simpa using List.find?_some h⟩

theorem set_apply (e : Cache) (i k : Nat) (b : Option Nat) (j l : Nat) :
    e.set i k b j l = if j = i ∧ l = k then b else e j l := by
  unfold set
  by_cases hj : j = i
  · subst hj
    simp only [Function.update_self, Function.update_apply, true_and]
  · rw [Function.update_of_ne hj, if_neg fun h => hj h.1]

theorem mem_blocks {e : Cache} {b : Nat} :
    b ∈ e.blocks ↔ ∃ i < cacheCount, ∃ k < entryCount, e i k = some b := by
  unfold blocks
  simp only [List.mem_flatMap, List.mem_filterMap, List.mem_range]

/-- The blocks of an array that holds none of them twice. -/
theorem nodup_blocks {e : Cache}
    (h : ∀ i k j l b, e i k = some b → e j l = some b → i = j ∧ k = l) : e.blocks.Nodup := by
  unfold blocks
  refine List.nodup_flatMap.mpr ⟨fun i _ => ?_, ?_⟩
  · refine List.Nodup.filterMap (fun k l b hk hl => ?_) List.nodup_range
    exact (h i k i l b hk hl).2
  · refine List.nodup_range.imp ?_
    intro i j hij b hbi hbj
    obtain ⟨k, _, hk⟩ := List.mem_filterMap.mp hbi
    obtain ⟨l, _, hl⟩ := List.mem_filterMap.mp hbj
    exact hij (h i k j l b hk hl).1

end Cache

namespace State

theorem held_setCache (s : State) (c : Nat) (e : Option Cache) (p : Place) :
    (s.setCache c e).held p =
      if p.cache = c then e.bind fun e => e p.bucket p.entry else s.held p := by
  unfold held setCache
  simp only [Function.update_apply]
  split_ifs <;> rfl

/-- The place of an entry of the cache `c`. -/
theorem held_of_cache {s : State} {c : Nat} {e : Cache} (hc : s.cache c = some e) (i k : Nat) :
    s.held ⟨c, i, k⟩ = e i k := by
  simp only [held, hc, Option.bind_some]

/-- Filling or emptying one entry changes one place. -/
theorem held_set {s : State} {c : Nat} {e : Cache} (hc : s.cache c = some e) (i k : Nat)
    (b : Option Nat) (p : Place) :
    (s.setCache c (some (e.set i k b))).held p = if p = ⟨c, i, k⟩ then b else s.held p := by
  obtain ⟨d, j, l⟩ := p
  rw [held_setCache]
  by_cases hd : d = c
  · subst hd
    simp only [held, hc, Option.bind_some, Cache.set_apply, Place.mk.injEq, true_and, if_true]
  · simp only [hd, Place.mk.injEq, false_and, if_false]

/-! ## The invariant -/

/-- The invariant of all runs. -/
structure Sound (s : State) : Prop where
  exclusive : ∀ p q b, s.held p = some b → s.held q = some b → p = q
  stored : ∀ p b, s.held p = some b → b < s.count ∧ s.live b = none ∧ s.deleted b = 0 ∧
    p.bucket < cacheCount ∧ p.entry < entryCount ∧ 64 * (p.bucket + 1) ≤ (s.capacity b).toNat
  alive : ∀ b size, s.live b = some size → b < s.count ∧ s.deleted b = 0 ∧
    ((cacheIndex size).toNat < cacheCount →
      64 * ((cacheIndex size).toNat + 1) ≤ (s.capacity b).toNat)
  settled : ∀ b < s.count, s.live b = none → (∀ p, s.held p ≠ some b) → s.deleted b = 1
  unmade : ∀ b, s.count ≤ b → s.deleted b = 0

theorem Sound.empty : Sound empty := by
  refine ⟨?_, ?_, ?_, ?_, fun b _ => rfl⟩
  · intro p q b h
    cases h
  · intro p b h
    cases h
  · intro b size h
    cases h
  · intro b hb
    cases hb

theorem Sound.intact {s : State} (hs : Sound s) : s.Intact := by
  refine ⟨fun b hb => ?_, fun b hb => ⟨?_, fun p hp => ?_, hs.unmade b hb⟩,
    fun p b hp => (hs.stored p b hp).2.2.2.2.2,
    fun p b hp => ⟨(hs.stored p b hp).2.2.2.1, (hs.stored p b hp).2.2.2.2.1⟩⟩
  · by_cases hp : ∃ p, s.held p = some b
    · obtain ⟨p, hp⟩ := hp
      obtain ⟨_, hlive, hdel, _⟩ := hs.stored p b hp
      exact Or.inr (Or.inl ⟨hlive, ⟨p, hp, fun q hq => hs.exclusive q p b hq hp⟩, hdel⟩)
    · have hno : ∀ p, s.held p ≠ some b := fun p h => hp ⟨p, h⟩
      cases hl : s.live b with
      | none => exact Or.inr (Or.inr ⟨rfl, hno, hs.settled b hb hl hno⟩)
      | some size =>
          exact Or.inl ⟨Option.some_ne_none _, hno, (hs.alive b size hl).2.1⟩
  · by_contra hl
    obtain ⟨size, hl⟩ := Option.ne_none_iff_exists'.mp hl
    exact absurd (hs.alive b size hl).1 (Nat.not_lt_of_le hb)
  · exact absurd (hs.stored p b hp).1 (Nat.not_lt_of_le hb)

/-- A cache with no block in it comes or goes. -/
theorem Sound.setCache {s : State} (hs : Sound s) {c : Nat} {e : Option Cache}
    (he : ∀ i k, e.bind (fun e => e i k) = none) (hc : s.cache c = none) :
    Sound (s.setCache c e) := by
  have hheld : ∀ p, (s.setCache c e).held p = s.held p := by
    intro p
    rw [held_setCache]
    split_ifs with hp
    · rw [he, held, hp, hc]
      rfl
    · rfl
  refine ⟨?_, ?_, hs.alive, ?_, hs.unmade⟩
  · intro p q b hp hq
    rw [hheld] at hp hq
    exact hs.exclusive p q b hp hq
  · intro p b hp
    rw [hheld] at hp
    exact hs.stored p b hp
  · intro b hb hl hno
    exact hs.settled b hb hl fun p hp => hno p ((hheld p).trans hp)

/-- A block leaves its place and becomes live. -/
theorem Sound.handOut {s s' : State} (hs : Sound s) {p : Place} {b : Nat} {size : Size}
    (hp : s.held p = some b)
    (hsize : (cacheIndex size).toNat < cacheCount →
      64 * ((cacheIndex size).toNat + 1) ≤ (s.capacity b).toNat)
    (hheld : ∀ q, s'.held q = if q = p then none else s.held q) (hcount : s'.count = s.count)
    (hcap : s'.capacity = s.capacity) (hdel : s'.deleted = s.deleted)
    (hlive : ∀ b', s'.live b' = if b' = b then some size else s.live b') : Sound s' := by
  have hfrom : ∀ q b', s'.held q = some b' → s.held q = some b' ∧ b' ≠ b := by
    intro q b' hq
    rw [hheld] at hq
    split_ifs at hq with hqp
    refine ⟨hq, ?_⟩
    rintro rfl
    exact hqp (hs.exclusive q p b' hq hp)
  refine ⟨?_, ?_, ?_, ?_, ?_⟩
  · intro q r b' hq hr
    exact hs.exclusive q r b' (hfrom q b' hq).1 (hfrom r b' hr).1
  · intro q b' hq
    obtain ⟨hold, hne⟩ := hfrom q b' hq
    rw [hcount, hlive, if_neg hne, hdel, hcap]
    exact hs.stored q b' hold
  · intro b' size' hl
    rw [hcount, hdel, hcap]
    rw [hlive] at hl
    split_ifs at hl with hb
    · cases hl
      rw [hb]
      exact ⟨(hs.stored p b hp).1, (hs.stored p b hp).2.2.1, hsize⟩
    · exact hs.alive b' size' hl
  · intro b' hb' hl hno
    rw [hcount] at hb'
    rw [hdel]
    rw [hlive] at hl
    split_ifs at hl with hb
    refine hs.settled b' hb' hl fun q hq => hno q ?_
    rw [hheld, if_neg, hq]
    rintro rfl
    rw [hp] at hq
    exact hb (Option.some.inj hq).symm
  · intro b' hb'
    rw [hcount] at hb'
    rw [hdel]
    exact hs.unmade b' hb'

/-- A new block becomes live. -/
theorem Sound.obtain {s s' : State} (hs : Sound s) {size capacity : Size}
    (hsize : (cacheIndex size).toNat < cacheCount →
      64 * ((cacheIndex size).toNat + 1) ≤ capacity.toNat)
    (hheld : ∀ q, s'.held q = s.held q) (hcount : s'.count = s.count + 1)
    (hcap : ∀ b, s'.capacity b = if b = s.count then capacity else s.capacity b)
    (hdel : s'.deleted = s.deleted)
    (hlive : ∀ b, s'.live b = if b = s.count then some size else s.live b) : Sound s' := by
  have hne : ∀ b, b < s.count → b ≠ s.count := fun b hb => Nat.ne_of_lt hb
  refine ⟨?_, ?_, ?_, ?_, ?_⟩
  · intro p q b hp hq
    rw [hheld] at hp hq
    exact hs.exclusive p q b hp hq
  · intro p b hp
    rw [hheld] at hp
    have h := hs.stored p b hp
    rw [hcount, hlive, hdel, hcap, if_neg (hne b h.1), if_neg (hne b h.1)]
    exact ⟨Nat.lt_succ_of_lt h.1, h.2⟩
  · intro b size' hl
    rw [hcount, hdel, hcap]
    rw [hlive] at hl
    split_ifs at hl ⊢ with hb
    · cases hl
      subst hb
      exact ⟨Nat.lt_succ_self _, hs.unmade _ (Nat.le_refl _), hsize⟩
    · have h := hs.alive b size' hl
      exact ⟨Nat.lt_succ_of_lt h.1, h.2⟩
  · intro b hb hl hno
    rw [hcount] at hb
    rw [hdel]
    rw [hlive] at hl
    split_ifs at hl with hbc
    exact hs.settled b (by omega) hl fun p hp => hno p ((hheld p).trans hp)
  · intro b hb
    rw [hcount] at hb
    rw [hdel]
    exact hs.unmade b (by omega)

/-- A live block is put into an empty place. -/
theorem Sound.takeBack {s s' : State} (hs : Sound s) {p : Place} {b : Nat} {size : Size}
    (hl : s.live b = some size) (hp : s.held p = none) (hb : p.bucket = (cacheIndex size).toNat)
    (hk : p.entry < entryCount) (hsize : (cacheIndex size).toNat < cacheCount)
    (hheld : ∀ q, s'.held q = if q = p then some b else s.held q) (hcount : s'.count = s.count)
    (hcap : s'.capacity = s.capacity) (hdel : s'.deleted = s.deleted)
    (hlive : ∀ b', s'.live b' = if b' = b then none else s.live b') : Sound s' := by
  obtain ⟨hlt, hzero, hlarge⟩ := hs.alive b size hl
  have hnot : ∀ q, s.held q ≠ some b := by
    intro q hq
    rw [(hs.stored q b hq).2.1] at hl
    cases hl
  have hfrom : ∀ q b', s'.held q = some b' →
      (q = p ∧ b' = b) ∨ (b' ≠ b ∧ s.held q = some b') := by
    intro q b' hq
    rw [hheld] at hq
    split_ifs at hq with hqp
    · exact Or.inl ⟨hqp, (Option.some.inj hq).symm⟩
    · exact Or.inr ⟨fun he => hnot q (he ▸ hq), hq⟩
  refine ⟨?_, ?_, ?_, ?_, ?_⟩
  · intro q r b' hq hr
    rcases hfrom q b' hq with ⟨rfl, rfl⟩ | ⟨hne, hq⟩ <;>
      rcases hfrom r b' hr with ⟨rfl, hb'⟩ | ⟨hne', hr⟩
    · rfl
    · exact absurd rfl hne'
    · exact absurd hb' hne
    · exact hs.exclusive q r b' hq hr
  · intro q b' hq
    rw [hcount, hlive, hdel, hcap]
    rcases hfrom q b' hq with ⟨rfl, rfl⟩ | ⟨hne, hq⟩
    · rw [if_pos rfl, hb]
      exact ⟨hlt, rfl, hzero, hsize, hk, hlarge hsize⟩
    · rw [if_neg hne]
      exact hs.stored q b' hq
  · intro b' size' hl'
    rw [hlive] at hl'
    split_ifs at hl'
    rw [hcount, hdel, hcap]
    exact hs.alive b' size' hl'
  · intro b' hb' hl' hno
    rw [hcount] at hb'
    rw [hlive] at hl'
    rw [hdel]
    split_ifs at hl' with he
    · exact absurd (by rw [hheld, if_pos rfl, he]) (hno p)
    · refine hs.settled b' hb' hl' fun q hq => hno q ?_
      rw [hheld, if_neg, hq]
      rintro rfl
      rw [hp] at hq
      cases hq
  · intro b' hb'
    rw [hcount] at hb'
    rw [hdel]
    exact hs.unmade b' hb'

/-- A live block is deleted. -/
theorem Sound.discard {s s' : State} (hs : Sound s) {b : Nat} {size : Size}
    (hl : s.live b = some size) (hheld : ∀ q, s'.held q = s.held q) (hcount : s'.count = s.count)
    (hcap : s'.capacity = s.capacity)
    (hdel : ∀ b', s'.deleted b' = if b' = b then s.deleted b' + 1 else s.deleted b')
    (hlive : ∀ b', s'.live b' = if b' = b then none else s.live b') : Sound s' := by
  obtain ⟨hlt, hzero, _⟩ := hs.alive b size hl
  refine ⟨?_, ?_, ?_, ?_, ?_⟩
  · intro p q b' hp hq
    rw [hheld] at hp hq
    exact hs.exclusive p q b' hp hq
  · intro p b' hp
    rw [hheld] at hp
    have h := hs.stored p b' hp
    have hne : b' ≠ b := by
      rintro rfl
      rw [h.2.1] at hl
      cases hl
    rw [hcount, hcap, hdel, hlive, if_neg hne, if_neg hne]
    exact h
  · intro b' size' hl'
    rw [hlive] at hl'
    split_ifs at hl' with he
    rw [hcount, hcap, hdel, if_neg he]
    exact hs.alive b' size' hl'
  · intro b' hb' hl' hno
    rw [hcount] at hb'
    rw [hlive] at hl'
    rw [hdel]
    split_ifs at hl' ⊢ with he
    · rw [he, hzero]
    · exact hs.settled b' hb' hl' fun q hq => hno q ((hheld q).trans hq)
  · intro b' hb'
    rw [hcount] at hb'
    rw [hdel, if_neg (by omega)]
    exact hs.unmade b' hb'

/-! ## The end of a cache -/

/-- Deleting a list of blocks. -/
theorem deleted_foldl (bs : List Nat) (s : State) (b : Nat) :
    (bs.foldl operatorDelete s).deleted b = s.deleted b + bs.count b := by
  induction bs generalizing s with
  | nil => rfl
  | cons b' bs ih =>
      rw [List.foldl_cons, ih, List.count_cons]
      simp only [operatorDelete, Function.update_apply, beq_iff_eq]
      split_ifs with h h' h'
      · rw [h]
        omega
      · exact absurd h.symm h'
      · exact absurd h'.symm h
      · omega

/-- and nothing else happens. -/
theorem foldl_operatorDelete (bs : List Nat) (s : State) :
    (bs.foldl operatorDelete s).cache = s.cache ∧ (bs.foldl operatorDelete s).count = s.count ∧
      (bs.foldl operatorDelete s).capacity = s.capacity ∧
      (bs.foldl operatorDelete s).live = s.live := by
  induction bs generalizing s with
  | nil => exact ⟨rfl, rfl, rfl, rfl⟩
  | cons b bs ih => exact ih (s.operatorDelete b)

theorem Sound.mem_blocks {s : State} (hs : Sound s) {c : Nat} {e : Cache} (hc : s.cache c = some e)
    {b : Nat} : b ∈ e.blocks ↔ ∃ p, p.cache = c ∧ s.held p = some b := by
  rw [Cache.mem_blocks]
  constructor
  · rintro ⟨i, _, k, _, h⟩
    exact ⟨⟨c, i, k⟩, rfl, (held_of_cache hc i k).trans h⟩
  · rintro ⟨⟨_, i, k⟩, rfl, h⟩
    obtain ⟨_, _, _, hi, hk, _⟩ := hs.stored _ b h
    rw [held_of_cache hc] at h
    exact ⟨i, hi, k, hk, h⟩

/-- The destructor deletes every block of the cache, once. -/
theorem Sound.count_blocks {s : State} (hs : Sound s) {c : Nat} {e : Cache}
    (hc : s.cache c = some e) (b : Nat) :
    ((∃ p, p.cache = c ∧ s.held p = some b) → e.blocks.count b = 1) ∧
      ((∀ p, p.cache = c → s.held p ≠ some b) → e.blocks.count b = 0) := by
  have hnodup : e.blocks.Nodup := by
    refine Cache.nodup_blocks fun i k j l b hi hj => ?_
    have := hs.exclusive ⟨c, i, k⟩ ⟨c, j, l⟩ b ((held_of_cache hc i k).trans hi)
      ((held_of_cache hc j l).trans hj)
    cases this
    exact ⟨rfl, rfl⟩
  constructor
  · intro h
    exact List.count_eq_one_of_mem hnodup ((hs.mem_blocks hc).mpr h)
  · intro h
    refine List.count_eq_zero.mpr fun hmem => ?_
    obtain ⟨p, hp, hb⟩ := (hs.mem_blocks hc).mp hmem
    exact h p hp hb

theorem destroy_deleted {s : State} (c : Nat) (e : Cache) (b : Nat) :
    (s.destroy c e).deleted b = s.deleted b + e.blocks.count b := deleted_foldl e.blocks s b

theorem destroy_held {s : State} (c : Nat) (e : Cache) (p : Place) :
    (s.destroy c e).held p = if p.cache = c then none else s.held p := by
  unfold destroy
  rw [held_setCache]
  split_ifs
  · rfl
  · simp only [held, (foldl_operatorDelete e.blocks s).1]

theorem Sound.destroy {s : State} (hs : Sound s) {c : Nat} {e : Cache} (hc : s.cache c = some e) :
    Sound (s.destroy c e) := by
  obtain ⟨_, hcount, hcap, hlive⟩ := foldl_operatorDelete e.blocks s
  have hcount : (s.destroy c e).count = s.count := hcount
  have hcap : (s.destroy c e).capacity = s.capacity := hcap
  have hlive : (s.destroy c e).live = s.live := hlive
  -- what is in a place outlives the cache
  have hfrom : ∀ p b, (s.destroy c e).held p = some b →
      s.held p = some b ∧ (s.destroy c e).deleted b = s.deleted b := by
    intro p b hp
    rw [destroy_held] at hp
    split_ifs at hp with hpc
    refine ⟨hp, ?_⟩
    rw [destroy_deleted, (hs.count_blocks hc b).2, Nat.add_zero]
    rintro q rfl hq
    exact hpc (by rw [hs.exclusive p q b hp hq])
  refine ⟨?_, ?_, ?_, ?_, ?_⟩
  · intro p q b hp hq
    exact hs.exclusive p q b (hfrom p b hp).1 (hfrom q b hq).1
  · intro p b hp
    obtain ⟨hold, hdel⟩ := hfrom p b hp
    rw [hcount, hcap, hlive, hdel]
    exact hs.stored p b hold
  · intro b size hl
    rw [hlive] at hl
    rw [hcount, hcap, destroy_deleted, (hs.count_blocks hc b).2]
    · exact hs.alive b size hl
    · intro p _ hp
      rw [(hs.stored p b hp).2.1] at hl
      cases hl
  · intro b hb hl hno
    rw [hcount] at hb
    rw [hlive] at hl
    rw [destroy_deleted]
    by_cases hp : ∃ p, p.cache = c ∧ s.held p = some b
    · rw [(hs.count_blocks hc b).1 hp]
      obtain ⟨p, _, hp⟩ := hp
      rw [(hs.stored p b hp).2.2.1]
    · have hnone : ∀ p, p.cache = c → s.held p ≠ some b := fun p hpc h => hp ⟨p, hpc, h⟩
      rw [(hs.count_blocks hc b).2 hnone, Nat.add_zero]
      refine hs.settled b hb hl fun p h => hno p ?_
      rw [destroy_held, if_neg fun hpc => hnone p hpc h, h]
  · intro b hb
    rw [hcount] at hb
    rw [destroy_deleted, hs.unmade b hb, (hs.count_blocks hc b).2]
    intro p _ hp
    exact absurd (hs.stored p b hp).1 (Nat.not_lt_of_le hb)

/-! ## Steps -/

/-- `alloc` takes a block out of the bucket or gets a new one that is large enough. -/
theorem alloc_cases (s : State) (c : Nat) (e : Cache) (size : Size) :
    (∃ k b, e (cacheIndex size).toNat k = some b ∧ (cacheIndex size).toNat < cacheCount ∧
      s.alloc c e size = (b, s.setCache c (some (e.set (cacheIndex size).toNat k none)))) ∨
    ∃ capacity : Size, size.toNat ≤ capacity.toNat ∧
      ((cacheIndex size).toNat < cacheCount →
        64 * ((cacheIndex size).toNat + 1) ≤ capacity.toNat) ∧
      s.alloc c e size = s.operatorNew capacity := by
  unfold alloc
  by_cases hidx : (cacheIndex size).toNat < cacheCount
  · have hsize := toNat_alignedSize_of_cached hidx
    have hnew : ∃ capacity : Size, size.toNat ≤ capacity.toNat ∧
        ((cacheIndex size).toNat < cacheCount →
          64 * ((cacheIndex size).toNat + 1) ≤ capacity.toNat) ∧
        s.operatorNew (alignedSize size) = s.operatorNew capacity :=
      ⟨alignedSize size, hsize.1, fun _ => Nat.le_of_eq hsize.2.symm, rfl⟩
    rw [if_pos hidx]
    cases hk : e.filledEntry (cacheIndex size).toNat with
    | none => exact Or.inr hnew
    | some k =>
        obtain ⟨_, b, hb⟩ := Cache.filledEntry_some hk
        simp only [hb]
        exact Or.inl ⟨k, b, hb, hidx, rfl⟩
  · rw [if_neg hidx]
    exact Or.inr ⟨size, Nat.le_refl _, fun h => absurd h hidx, rfl⟩

/-- `free` puts the block into the bucket or deletes it. -/
theorem free_cases (s : State) (c : Nat) (e : Cache) (b : Nat) (size : Size) :
    (∃ k < entryCount, e (cacheIndex size).toNat k = none ∧
      (cacheIndex size).toNat < cacheCount ∧
      s.free c e b size = s.setCache c (some (e.set (cacheIndex size).toNat k (some b)))) ∨
    s.free c e b size = s.operatorDelete b := by
  unfold free
  by_cases hidx : (cacheIndex size).toNat < cacheCount
  · rw [if_pos hidx]
    cases hk : e.freeEntry (cacheIndex size).toNat with
    | none => exact Or.inr rfl
    | some k =>
        obtain ⟨hlt, hnone⟩ := Cache.freeEntry_some hk
        exact Or.inl ⟨k, hlt, hnone, hidx, rfl⟩
  · rw [if_neg hidx]
    exact Or.inr rfl

/-- What `alloc` hands out. -/
theorem Sound.alloc {s : State} (hs : Sound s) {c : Nat} {e : Cache} (hc : s.cache c = some e)
    (size : Size) :
    Sound ((s.alloc c e size).2.setLive (s.alloc c e size).1 (some size)) ∧
      size.toNat ≤ ((s.alloc c e size).2.capacity (s.alloc c e size).1).toNat ∧
      s.live (s.alloc c e size).1 = none ∧
      (∀ p, (s.alloc c e size).2.held p ≠ some (s.alloc c e size).1) ∧
      (s.alloc c e size).2.deleted = s.deleted := by
  rcases alloc_cases s c e size with ⟨k, b, hb, hidx, h⟩ | ⟨capacity, hle, hlarge, h⟩
  · rw [h]
    have hp : s.held ⟨c, (cacheIndex size).toNat, k⟩ = some b := (held_of_cache hc _ k).trans hb
    obtain ⟨_, hlive, _, _, _, hcap⟩ := hs.stored _ b hp
    have hheld := held_set hc (cacheIndex size).toNat k none
    refine ⟨hs.handOut hp (fun _ => hcap) hheld rfl rfl rfl fun b' => ?_, ?_, hlive, ?_, rfl⟩
    · exact Function.update_apply ..
    · have hsize := toNat_alignedSize_of_cached hidx
      show size.toNat ≤ (s.capacity b).toNat
      have hcap : 64 * ((cacheIndex size).toNat + 1) ≤ (s.capacity b).toNat := hcap
      omega
    · intro q hq
      rw [hheld] at hq
      split_ifs at hq with hqp
      exact hqp (hs.exclusive q _ b hq hp)
  · rw [h]
    have hnew : ∀ p, s.held p ≠ some s.count := fun p hp =>
      Nat.lt_irrefl _ (hs.stored p s.count hp).1
    refine ⟨hs.obtain hlarge (fun _ => rfl) rfl (fun b => Function.update_apply ..) rfl
      fun b => Function.update_apply .., ?_, ?_, hnew, rfl⟩
    · show size.toNat ≤ (Function.update s.capacity s.count capacity s.count).toNat
      rw [Function.update_self]
      exact hle
    · by_contra hl
      obtain ⟨size', hl⟩ := Option.ne_none_iff_exists'.mp hl
      exact Nat.lt_irrefl _ (hs.alive s.count size' hl).1

theorem Sound.free {s : State} (hs : Sound s) {c : Nat} {e : Cache} (hc : s.cache c = some e)
    {b : Nat} {size : Size} (hl : s.live b = some size) :
    Sound ((s.setLive b none).free c e b size) ∧
      ∀ b' ≠ b, ((s.setLive b none).free c e b size).deleted b' = s.deleted b' := by
  have hlive : ∀ b', (s.setLive b none).live b' = if b' = b then none else s.live b' :=
    fun b' => Function.update_apply ..
  rcases free_cases (s.setLive b none) c e b size with ⟨k, hk, hnone, hidx, h⟩ | h
  · rw [h]
    have hp : s.held ⟨c, (cacheIndex size).toNat, k⟩ = none := (held_of_cache hc _ k).trans hnone
    have hheld := held_set (s := s.setLive b none) hc (cacheIndex size).toNat k (some b)
    exact ⟨hs.takeBack hl hp rfl hk hidx hheld rfl rfl rfl hlive, fun _ _ => rfl⟩
  · rw [h]
    have hdel : ∀ b', ((s.setLive b none).operatorDelete b).deleted b' =
        if b' = b then s.deleted b' + 1 else s.deleted b' := by
      intro b'
      show Function.update s.deleted b (s.deleted b + 1) b' = _
      rw [Function.update_apply]
      split_ifs with hb
      · rw [hb]
      · rfl
    refine ⟨hs.discard hl (fun _ => rfl) rfl rfl hdel hlive, fun b' hb' => ?_⟩
    rw [hdel, if_neg hb']

theorem Sound.step {s : State} (hs : Sound s) {a : Action} (ha : s.Enabled a) :
    Sound (s.next a) ∧ s.StepOk a := by
  cases a with
  | construct c =>
      have hc : s.cache c = none := Option.isNone_iff_eq_none.mp ha
      exact ⟨hs.setCache (fun _ _ => rfl) hc, rfl⟩
  | alloc c size =>
      obtain ⟨e, hc⟩ := Option.isSome_iff_exists.mp ha
      have h := hs.alloc hc size
      have hnext : s.next (.alloc c size) =
          (s.alloc c e size).2.setLive (s.alloc c e size).1 (some size) := by
        simp only [next, hc]
      refine ⟨hnext ▸ h.1, fun e' hc' => ?_⟩
      rw [hc] at hc'
      cases hc'
      exact h.2
  | free c b size =>
      obtain ⟨e, hc⟩ := Option.isSome_iff_exists.mp ha.1
      have hnext : s.next (.free c b size) = (s.setLive b none).free c e b size := by
        simp only [next, hc]
      obtain ⟨hsound, hdel⟩ := hs.free hc ha.2
      refine ⟨hnext ▸ hsound, fun b' hb' => ?_⟩
      rw [hnext]
      exact hdel b' hb'
  | destroy c =>
      obtain ⟨e, hc⟩ := Option.isSome_iff_exists.mp ha
      have hnext : s.next (.destroy c) = s.destroy c e := by simp only [next, hc]
      refine ⟨hnext ▸ hs.destroy hc, fun b => ?_⟩
      rw [hnext, destroy_deleted]
      obtain ⟨hone, hzero⟩ := hs.count_blocks hc b
      refine ⟨fun h => by rw [hone h], fun h => by rw [hzero h, Nat.add_zero]⟩

end State

/-- In every run of any number of caches, every block is live, in one place, or deleted once,
    buckets hold blocks of their size, and every step hands out and deletes what it may. -/
theorem blocks_intact {as : List Action} {s : State} (h : Run machine State.empty as s) :
    s.Intact ∧ Along machine State.StepOk State.empty as := by
  have hsound : s.Sound := h.invariant State.Sound.empty fun _ _ hs ha => (hs.step ha).1
  refine ⟨hsound.intact, ?_⟩
  exact h.along (along_true _ _) State.Sound.empty (fun _ _ hs ha _ => (hs.step ha).2)
    fun _ _ hs ha _ => (hs.step ha).1

/-- A block allocated by one thread and freed by another, a size that wraps around, and the size 0.
    -/
theorem blocks_intact_threads :
    (machine.exec State.empty [.construct 0, .construct 1, .alloc 0 65, .free 1 0 65,
      .alloc 1 128, .alloc 0 (BitVec.ofNat 64 (2 ^ 64 - 1)), .alloc 0 0, .free 1 0 128,
      .destroy 1]).Intact :=
  (blocks_intact (.of_legal (by decide))).1

end WebAsio.MemoryCache
