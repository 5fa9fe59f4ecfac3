import Mathlib.Algebra.BigOperators.Ring.Finset
import Mathlib.Algebra.Order.BigOperators.Group.Finset
import WebAsio.MemoryCache.Retention

set_option autoImplicit false

/-! # The memory that the program holds

What `operator new` gave out and `operator delete` has not got back is in use or in an entry of a
cache. In use, a block has the capacity that its size asks for, at most 63 bytes more than it, also
when it was kept for reuse in between; in an entry, the capacity that belongs to the bucket. So what
the caches keep is bounded, for each of them by the same number. -/

namespace WebAsio.MemoryCache

open Transition

theorem le_room (size : Size) : size.toNat ≤ room size := by
  unfold room
  split_ifs with hidx
  · obtain ⟨hle, heq⟩ := toNat_alignedSize_of_cached hidx
    exact heq ▸ hle
  · exact Nat.le_refl _

theorem room_le (size : Size) : room size ≤ size.toNat + 63 := by
  unfold room
  split_ifs with hidx
  · have hroom := (toNat_alignedSize_of_cached hidx).2
    rw [← hroom, toNat_alignedSize]
    split_ifs
    · omega
    · exact Nat.le_trans (Nat.mod_le _ _) (by omega)
  · omega

namespace State

/-- Blocks have the capacity that their size, or their bucket, asks for. -/
structure Fitted (s : State) : Prop where
  live : ∀ b size, s.live b = some size → (s.capacity b).toNat = room size
  held : ∀ p b, s.held p = some b → (s.capacity b).toNat = 64 * (p.bucket + 1)

theorem Fitted.empty : Fitted empty := by
  constructor
  · intro b size h
    cases h
  · intro p b h
    cases h

/-- Nothing becomes live and no entry is filled. -/
theorem Fitted.less {s s' : State} (hf : Fitted s) (hcap : s'.capacity = s.capacity)
    (hlive : ∀ b size, s'.live b = some size → s.live b = some size)
    (hheld : ∀ p b, s'.held p = some b → s.held p = some b) : Fitted s' := by
  constructor
  · intro b size h
    rw [hcap]
    exact hf.live b size (hlive b size h)
  · intro p b h
    rw [hcap]
    exact hf.held p b (hheld p b h)

theorem Fitted.alloc {s : State} (hf : Fitted s) (hs : Sound s) {c : Nat} {e : Cache}
    (hc : s.cache c = some e) (size : Size) :
    Fitted ((s.alloc c e size).2.setLive (s.alloc c e size).1 (some size)) := by
  rcases s.alloc_spec c e size with ⟨hidx, k, -, b, hb, heq⟩ | ⟨-, capacity, hcap, heq⟩
  · rw [heq]
    have hp : s.held ⟨c, (cacheIndex size).toNat, k⟩ = some b := (held_of_cache hc _ k).trans hb
    constructor
    · intro b' size' h
      change Function.update s.live b (some size) b' = some size' at h
      rw [Function.update_apply] at h
      split_ifs at h with hb'
      · cases h
        rw [hb', room, if_pos hidx]
        exact hf.held _ b hp
      · exact hf.live b' size' h
    · intro p b' h
      have h := (held_set hc (cacheIndex size).toNat k none p).symm.trans h
      split_ifs at h
      exact hf.held p b' h
  · rw [heq]
    constructor
    · intro b' size' h
      change Function.update s.live s.count (some size) b' = some size' at h
      change (Function.update s.capacity s.count capacity b').toNat = room size'
      rw [Function.update_apply] at h ⊢
      split_ifs at h ⊢
      · cases h
        exact hcap
      · exact hf.live b' size' h
    · intro p b' h
      have hlt : b' < s.count := (hs.stored p b' h).1
      change (Function.update s.capacity s.count capacity b').toNat = _
      rw [Function.update_of_ne (Nat.ne_of_lt hlt)]
      exact hf.held p b' h

theorem Fitted.free {s : State} (hf : Fitted s) {c : Nat} {e : Cache} (hc : s.cache c = some e)
    {b : Nat} {size : Size} (hl : s.live b = some size) :
    Fitted ((s.setLive b none).free c e b size) := by
  have hlive : ∀ b' size', (s.setLive b none).live b' = some size' → s.live b' = some size' := by
    intro b' size' h
    change Function.update s.live b none b' = some size' at h
    rw [Function.update_apply] at h
    split_ifs at h
    exact h
  rcases (s.setLive b none).free_spec c e b size with ⟨hidx, k, -, -, heq⟩ | ⟨-, heq⟩
  · rw [heq]
    constructor
    · exact fun b' size' h => hf.live b' size' (hlive b' size' h)
    · intro p b' h
      have h := (held_set (s := s.setLive b none) hc (cacheIndex size).toNat k (some b) p).symm.trans h
      split_ifs at h with hp
      · cases h
        have hcap := hf.live b size hl
        rw [room, if_pos hidx] at hcap
        rw [hp]
        exact hcap
      · exact hf.held p b' h
  · rw [heq]
    exact hf.less rfl hlive fun p b' h => h

theorem Fitted.step {s : State} (hf : Fitted s) (hs : Sound s) {a : Action} (ha : s.Enabled a) :
    Fitted (s.next a) := by
  cases a with
  | construct c =>
      refine hf.less rfl (fun b size h => h) fun p b h => ?_
      have h := (held_setCache s c (some Cache.empty) p).symm.trans h
      split_ifs at h
      · cases h
      · exact h
  | alloc c size =>
      obtain ⟨e, hc⟩ := Option.isSome_iff_exists.mp ha
      have hnext : s.next (.alloc c size) =
          (s.alloc c e size).2.setLive (s.alloc c e size).1 (some size) := by
        simp only [next, hc]
      rw [hnext]
      exact hf.alloc hs hc size
  | free c b size =>
      obtain ⟨e, hc⟩ := Option.isSome_iff_exists.mp ha.1
      have hnext : s.next (.free c b size) = (s.setLive b none).free c e b size := by
        simp only [next, hc]
      rw [hnext]
      exact hf.free hc ha.2
  | destroy c =>
      obtain ⟨e, hc⟩ := Option.isSome_iff_exists.mp ha
      have hnext : s.next (.destroy c) = s.destroy c e := by simp only [next, hc]
      rw [hnext]
      obtain ⟨-, -, hcap, hlive⟩ := foldl_operatorDelete e.blocks s
      refine hf.less hcap (fun b size h => (congrFun hlive b).symm.trans h) fun p b h => ?_
      rw [destroy_held] at h
      split_ifs at h
      exact h

/-! ## Bytes -/

/-- The bytes that were not given back to the system. -/
def footprint (s : State) : Nat :=
  ∑ b ∈ Finset.range s.count, if s.deleted b = 0 then (s.capacity b).toNat else 0

/-- The bytes of the blocks in use. -/
def liveBytes (s : State) : Nat :=
  ∑ b ∈ Finset.range s.count, (s.live b).elim 0 fun _ => (s.capacity b).toNat

/-- The bytes that were asked for, and 63 for each block. -/
def requested (s : State) : Nat :=
  ∑ b ∈ Finset.range s.count, (s.live b).elim 0 fun size => size.toNat + 63

/-- The places of a cache. -/
def places (c : Nat) : Finset Place :=
  ((Finset.range cacheCount) ×ˢ (Finset.range entryCount)).image fun p => ⟨c, p.1, p.2⟩

theorem mem_places {c : Nat} {p : Place} :
    p ∈ places c ↔ p.cache = c ∧ p.bucket < cacheCount ∧ p.entry < entryCount := by
  obtain ⟨d, i, k⟩ := p
  simp only [places, Finset.mem_image, Finset.mem_product, Finset.mem_range, Place.mk.injEq,
    Prod.exists]
  constructor
  · rintro ⟨i', k', ⟨hi, hk⟩, rfl, rfl, rfl⟩
    exact ⟨rfl, hi, hk⟩
  · rintro ⟨rfl, hi, hk⟩
    exact ⟨i, k, ⟨hi, hk⟩, rfl, rfl, rfl⟩

theorem sum_places (c : Nat) (f : Place → Nat) : ∑ p ∈ places c, f p =
    ∑ i ∈ Finset.range cacheCount, ∑ k ∈ Finset.range entryCount, f ⟨c, i, k⟩ := by
  have hinj : Function.Injective fun p : Nat × Nat => Place.mk c p.1 p.2 := by
    rintro ⟨i, k⟩ ⟨i', k'⟩ h
    cases h
    rfl
  rw [places, Finset.sum_image fun p _ q _ h => hinj h, Finset.sum_product]

-- there are 2048 of them, which nothing should enumerate from here on
attribute [irreducible] places

/-- The bytes of the block in a place. -/
def placeBytes (s : State) (p : Place) : Nat :=
  (s.held p).elim 0 fun b => (s.capacity b).toNat

/-- The bytes that a cache keeps. -/
def retained (s : State) (c : Nat) : Nat := ∑ p ∈ places c, s.placeBytes p

/-- The 16 entries of every bucket, full. -/
theorem Fitted.retained_le {s : State} (hf : Fitted s) (c : Nat) : s.retained c ≤ 8454144 := by
  have hplace : ∀ p, s.placeBytes p ≤ 64 * (p.bucket + 1) := by
    intro p
    unfold placeBytes
    cases hp : s.held p with
    | none => exact Nat.zero_le _
    | some b => exact Nat.le_of_eq (hf.held p b hp)
  calc s.retained c ≤ ∑ p ∈ places c, 64 * (p.bucket + 1) :=
        Finset.sum_le_sum fun p _ => hplace p
    _ = ∑ i ∈ Finset.range cacheCount, ∑ _k ∈ Finset.range entryCount, 64 * (i + 1) := by
        rw [sum_places]
    _ = 8454144 := by decide +kernel

/-- A block that was not given back is in use or in one place. -/
theorem Sound.block_bytes {s : State} (hs : Sound s) {ps : Finset Place}
    (hps : ∀ p b, s.held p = some b → p ∈ ps) {b : Nat} (hb : b < s.count) :
    (if s.deleted b = 0 then (s.capacity b).toNat else 0) =
      ((s.live b).elim 0 fun _ => (s.capacity b).toNat) +
        ∑ p ∈ ps, if s.held p = some b then (s.capacity b).toNat else 0 := by
  have hnowhere : (∀ p, s.held p ≠ some b) →
      ∑ p ∈ ps, (if s.held p = some b then (s.capacity b).toNat else 0) = 0 :=
    fun h => Finset.sum_eq_zero fun p _ => if_neg (h p)
  rcases hs.intact.exact b hb with ⟨hl, hno, hdel⟩ | ⟨hl, ⟨p, hp, honly⟩, hdel⟩ | ⟨hl, hno, hdel⟩
  · obtain ⟨size, hl⟩ := Option.ne_none_iff_exists'.mp hl
    rw [if_pos hdel, hl, hnowhere hno]
    rfl
  · have hplace : ∑ q ∈ ps, (if s.held q = some b then (s.capacity b).toNat else 0) =
        (s.capacity b).toNat := by
      rw [Finset.sum_eq_single p (fun q _ hqp => if_neg fun hq => hqp (honly q hq))
        (fun h => absurd (hps p b hp) h), if_pos hp]
    rw [if_pos hdel, hl, hplace]
    exact (Nat.zero_add _).symm
  · rw [if_neg (by omega), hl, hnowhere hno]
    rfl

/-- What a place holds, block by block. -/
theorem Sound.placeBytes_eq {s : State} (hs : Sound s) (p : Place) :
    s.placeBytes p =
      ∑ b ∈ Finset.range s.count, if s.held p = some b then (s.capacity b).toNat else 0 := by
  unfold placeBytes
  cases hp : s.held p with
  | none => simp
  | some b =>
      have hb : b ∈ Finset.range s.count := Finset.mem_range.mpr (hs.stored p b hp).1
      rw [Finset.sum_eq_single_of_mem b hb fun b' _ hne => if_neg fun h => hne (by cases h; rfl),
        if_pos rfl]
      rfl

theorem Sound.footprint_eq {s : State} (hs : Sound s) {caches : Finset Nat}
    (hcaches : ∀ c, s.cache c ≠ none → c ∈ caches) :
    s.footprint = s.liveBytes + ∑ c ∈ caches, s.retained c := by
  have hps : ∀ p b, s.held p = some b → p ∈ caches.biUnion places := by
    intro p b hp
    obtain ⟨-, -, -, hi, hk, -⟩ := hs.stored p b hp
    have hplace : p ∈ places p.cache := by
      rw [mem_places]
      exact ⟨rfl, hi, hk⟩
    have hrunning : p.cache ∈ caches := by
      refine hcaches _ fun h => ?_
      rw [held, h] at hp
      cases hp
    rw [Finset.mem_biUnion]
    exact ⟨p.cache, hrunning, hplace⟩
  have hdisjoint : ∀ c ∈ caches, ∀ d ∈ caches, c ≠ d → Disjoint (places c) (places d) := by
    intro c _ d _ hne
    refine Finset.disjoint_left.mpr fun p hc hd => hne ?_
    rw [mem_places] at hc hd
    exact hc.1.symm.trans hd.1
  have hkept : ∑ c ∈ caches, s.retained c = ∑ b ∈ Finset.range s.count,
      ∑ p ∈ caches.biUnion places, if s.held p = some b then (s.capacity b).toNat else 0 := by
    rw [Finset.sum_comm, Finset.sum_biUnion hdisjoint]
    exact Finset.sum_congr rfl fun c _ => Finset.sum_congr rfl fun p _ => hs.placeBytes_eq p
  rw [hkept, liveBytes, ← Finset.sum_add_distrib]
  exact Finset.sum_congr rfl fun b hb => hs.block_bytes hps (Finset.mem_range.mp hb)

/-- A block in use has what was asked for, and at most 63 bytes more. -/
theorem Fitted.capacity_le {s : State} (hf : Fitted s) {b : Nat} {size : Size}
    (hl : s.live b = some size) :
    size.toNat ≤ (s.capacity b).toNat ∧ (s.capacity b).toNat ≤ size.toNat + 63 := by
  rw [hf.live b size hl]
  exact ⟨le_room size, room_le size⟩

theorem Fitted.liveBytes_le {s : State} (hf : Fitted s) : s.liveBytes ≤ s.requested := by
  refine Finset.sum_le_sum fun b _ => ?_
  cases hl : s.live b with
  | none => exact Nat.le_refl 0
  | some size => exact (hf.capacity_le hl).2

end State

/-- **The memory that the program holds** is that of the blocks in use, each of which has what was
    asked for and at most 63 bytes more, and what the running threads keep, at most 8454144 bytes
    each. So all of it has been given back once no block is in use and no thread runs. -/
theorem footprint_bounded {as : List Action} {s : State} (h : Run machine State.empty as s)
    {caches : Finset Nat} (hcaches : ∀ c, s.cache c ≠ none → c ∈ caches) :
    s.footprint = s.liveBytes + ∑ c ∈ caches, s.retained c ∧ s.liveBytes ≤ s.requested ∧
      (∀ b size, s.live b = some size →
        size.toNat ≤ (s.capacity b).toNat ∧ (s.capacity b).toNat ≤ size.toNat + 63) ∧
      ∀ c, s.retained c ≤ 8454144 := by
  have hinv : s.Sound ∧ s.Fitted :=
    h.invariant (I := fun s => s.Sound ∧ s.Fitted) ⟨State.Sound.empty, State.Fitted.empty⟩
      fun _ _ hs ha => ⟨(hs.1.step ha).1, hs.2.step hs.1 ha⟩
  exact ⟨hinv.1.footprint_eq hcaches, hinv.2.liveBytes_le, fun _ _ hl => hinv.2.capacity_le hl,
    hinv.2.retained_le⟩

/-- One block of 65 bytes is in use, and one of 128 bytes kept. -/
theorem footprint_bounded_kept :
    let s := machine.exec State.empty [.construct 0, .alloc 0 65, .alloc 0 100, .free 0 1 100]
    s.footprint = s.liveBytes + ∑ c ∈ {0}, s.retained c ∧ s.liveBytes ≤ s.requested ∧
      (∀ b size, s.live b = some size →
        size.toNat ≤ (s.capacity b).toNat ∧ (s.capacity b).toNat ≤ size.toNat + 63) ∧
      ∀ c, s.retained c ≤ 8454144 := by
  have hcache : (machine.exec State.empty
      [.construct 0, .alloc 0 65, .alloc 0 100, .free 0 1 100]).cache =
        Function.update (Function.update (fun _ => none) 0 (some Cache.empty)) 0
          (some (Cache.empty.set 1 0 (some 1))) := rfl
  refine footprint_bounded (.of_legal (by decide)) fun c hc => ?_
  by_contra hne
  have hne : c ≠ 0 := by simpa using hne
  rw [hcache, Function.update_of_ne hne, Function.update_of_ne hne] at hc
  exact hc rfl

end WebAsio.MemoryCache
