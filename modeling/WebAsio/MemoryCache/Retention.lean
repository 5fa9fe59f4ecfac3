import Mathlib.Algebra.BigOperators.Group.Finset.Basic
import Mathlib.Data.Finset.Card
import WebAsio.Library.Pool
import WebAsio.MemoryCache

set_option autoImplicit false

/-! # What a cache keeps and what it saves

Every bucket is a pool of at most 16 spare blocks. What allocating and freeing blocks of its size
costs therefore follows from the general results on pools, whichever threads free the blocks. The
second part bounds the memory that all caches keep. -/

namespace WebAsio.MemoryCache

open Transition

namespace Cache

/-- The number of blocks in a bucket. -/
def kept (e : Cache) (i : Nat) : Nat :=
  ((Finset.range entryCount).filter fun k => (e i k).isSome).card

theorem kept_le (e : Cache) (i : Nat) : e.kept i ≤ entryCount := by
  have h := Finset.card_filter_le (Finset.range entryCount) fun k => (e i k).isSome = true
  rwa [Finset.card_range] at h

theorem kept_of_filledEntry {e : Cache} {i : Nat} (h : e.filledEntry i = none) :
    e.kept i = 0 := by
  refine Finset.card_eq_zero.mpr (Finset.filter_eq_empty_iff.mpr fun k hk => ?_)
  exact List.find?_eq_none.mp h k (List.mem_range.mpr (Finset.mem_range.mp hk))

theorem kept_of_freeEntry {e : Cache} {i : Nat} (h : e.freeEntry i = none) :
    e.kept i = entryCount := by
  have hall : ((Finset.range entryCount).filter fun k => (e i k).isSome = true) =
      Finset.range entryCount := by
    refine Finset.filter_true_of_mem fun k hk => ?_
    have hfull := List.find?_eq_none.mp h k (List.mem_range.mpr (Finset.mem_range.mp hk))
    simpa [Option.isSome_iff_ne_none] using hfull
  rw [kept, hall, Finset.card_range]

theorem kept_set_of_ne (e : Cache) {i j : Nat} (h : j ≠ i) (k : Nat) (b : Option Nat) :
    (e.set i k b).kept j = e.kept j := by
  unfold kept
  simp only [set_apply, h, false_and, if_false]

/-- Taking a block out. -/
theorem kept_set_none {e : Cache} {i k b : Nat} (hk : k < entryCount) (hb : e i k = some b) :
    (e.set i k none).kept i + 1 = e.kept i := by
  have herase : ((Finset.range entryCount).filter fun l => ((e.set i k none) i l).isSome = true) =
      ((Finset.range entryCount).filter fun l => (e i l).isSome = true).erase k := by
    ext l
    by_cases hl : l = k <;> simp [set_apply, hl]
  have hmem : k ∈ (Finset.range entryCount).filter fun l => (e i l).isSome = true := by
    simp [hk, hb]
  rw [kept, herase, Finset.card_erase_add_one hmem, kept]

/-- Putting a block in. -/
theorem kept_set_some {e : Cache} {i k : Nat} (hk : k < entryCount) (hfree : e i k = none)
    (b : Nat) : (e.set i k (some b)).kept i = e.kept i + 1 := by
  have hinsert :
      ((Finset.range entryCount).filter fun l => ((e.set i k (some b)) i l).isSome = true) =
        insert k ((Finset.range entryCount).filter fun l => (e i l).isSome = true) := by
    ext l
    by_cases hl : l = k <;> simp [set_apply, hl, hk]
  have hnotMem : k ∉ (Finset.range entryCount).filter fun l => (e i l).isSome = true := by
    simp [hfree]
  rw [kept, hinsert, Finset.card_insert_of_notMem hnotMem, kept]

end Cache

/-- The capacity of the blocks that serve a size. -/
def room (size : Size) : Nat :=
  if (cacheIndex size).toNat < cacheCount then 64 * ((cacheIndex size).toNat + 1) else size.toNat

namespace State

/-- `alloc` gets a new block only when the bucket is empty. -/
theorem alloc_spec (s : State) (c : Nat) (e : Cache) (size : Size) :
    ((cacheIndex size).toNat < cacheCount ∧ ∃ k < entryCount, ∃ b,
      e (cacheIndex size).toNat k = some b ∧
      s.alloc c e size = (b, s.setCache c (some (e.set (cacheIndex size).toNat k none)))) ∨
    ((cacheIndex size).toNat < cacheCount → e.kept (cacheIndex size).toNat = 0) ∧
      ∃ capacity : Size, capacity.toNat = room size ∧
        s.alloc c e size = s.operatorNew capacity := by
  unfold alloc room
  by_cases hidx : (cacheIndex size).toNat < cacheCount
  · simp only [if_pos hidx]
    cases hk : e.filledEntry (cacheIndex size).toNat with
    | none =>
        exact Or.inr ⟨fun _ => Cache.kept_of_filledEntry hk, alignedSize size,
          (toNat_alignedSize_of_cached hidx).2, rfl⟩
    | some k =>
        obtain ⟨hlt, b, hb⟩ := Cache.filledEntry_some hk
        simp only [hb]
        exact Or.inl ⟨hidx, k, hlt, b, hb, rfl⟩
  · simp only [if_neg hidx]
    exact Or.inr ⟨fun h => absurd h hidx, size, rfl, rfl⟩

/-- `free` deletes a block only when the bucket is full. -/
theorem free_spec (s : State) (c : Nat) (e : Cache) (b : Nat) (size : Size) :
    ((cacheIndex size).toNat < cacheCount ∧ ∃ k < entryCount,
      e (cacheIndex size).toNat k = none ∧
      s.free c e b size = s.setCache c (some (e.set (cacheIndex size).toNat k (some b)))) ∨
    ((cacheIndex size).toNat < cacheCount → e.kept (cacheIndex size).toNat = entryCount) ∧
      s.free c e b size = s.operatorDelete b := by
  unfold free
  by_cases hidx : (cacheIndex size).toNat < cacheCount
  · rw [if_pos hidx]
    cases hk : e.freeEntry (cacheIndex size).toNat with
    | none => exact Or.inr ⟨fun _ => Cache.kept_of_freeEntry hk, rfl⟩
    | some k =>
        obtain ⟨hlt, hnone⟩ := Cache.freeEntry_some hk
        exact Or.inl ⟨hidx, k, hlt, hnone, rfl⟩
  · rw [if_neg hidx]
    exact Or.inr ⟨fun h => absurd h hidx, rfl⟩

end State

/-! ## A bucket as a pool -/

/-- What a step asks of bucket `i` of cache `c`. -/
def Action.asks (c i : Nat) : Action → Option Pool.Move
  | .alloc d size => if d = c ∧ (cacheIndex size).toNat = i then some .take else none
  | .free d _ size => if d = c ∧ (cacheIndex size).toNat = i then some .give else none
  | _ => none

/-- The moves that a run makes in bucket `i` of cache `c`. -/
def moves (c i : Nat) (as : List Action) : List Pool.Move := as.filterMap (Action.asks c i)

namespace State

/-- How often a step calls `operator new`. -/
def news (s : State) (a : Action) : Nat := (s.next a).count - s.count

/-- How often a step calls `operator delete` on the block that it frees. -/
def deletes (s : State) : Action → Nat
  | .free c b size => (s.next (.free c b size)).deleted b - s.deleted b
  | _ => 0

/-- How often a run calls `operator new` for bucket `i` of cache `c`. -/
def bucketNews (c i : Nat) : State → List Action → Nat
  | _, [] => 0
  | s, a :: as => (if (a.asks c i).isSome then s.news a else 0) + bucketNews c i (s.next a) as

/-- How often a run calls `operator delete` for bucket `i` of cache `c` while the thread runs. -/
def bucketDeletes (c i : Nat) : State → List Action → Nat
  | _, [] => 0
  | s, a :: as => (if (a.asks c i).isSome then s.deletes a else 0) + bucketDeletes c i (s.next a) as

/-- What `alloc` does to a bucket of its cache. -/
theorem alloc_bucket {s : State} {c i : Nat} {e : Cache} (hc : s.cache c = some e)
    (hi : i < cacheCount) (size : Size) : ∃ e', (s.next (.alloc c size)).cache c = some e' ∧
      ((cacheIndex size).toNat ≠ i → e'.kept i = e.kept i) ∧
      ((cacheIndex size).toNat = i → ∀ n d, Pool.Stock.next entryCount ⟨e.kept i, n, d⟩ .take =
        ⟨e'.kept i, n + s.news (.alloc c size), d⟩) := by
  rcases s.alloc_spec c e size with ⟨-, k, hk, b, hb, heq⟩ | ⟨hempty, capacity, -, heq⟩
  · have hnext : s.next (.alloc c size) =
        (s.setCache c (some (e.set (cacheIndex size).toNat k none))).setLive b (some size) := by
      simp only [next, hc, heq]
    refine ⟨e.set (cacheIndex size).toNat k none, ?_, fun hne => ?_, fun hidx n d => ?_⟩
    · rw [hnext]
      exact Function.update_self ..
    · exact Cache.kept_set_of_ne e hne.symm k none
    · subst hidx
      have hkept := Cache.kept_set_none hk hb
      have hnews : s.news (.alloc c size) = 0 := by
        simp only [news, hnext, setLive, setCache, Nat.sub_self]
      have hpos : e.kept (cacheIndex size).toNat ≠ 0 := by omega
      rw [hnews, Pool.Stock.next, if_neg hpos, Nat.add_zero, Pool.Stock.mk.injEq]
      exact ⟨(Nat.eq_sub_of_add_eq hkept).symm, rfl, rfl⟩
  · have hnext : s.next (.alloc c size) =
        (s.operatorNew capacity).2.setLive (s.operatorNew capacity).1 (some size) := by
      simp only [next, hc, heq]
    refine ⟨e, ?_, fun _ => rfl, fun hidx n d => ?_⟩
    · rw [hnext]
      exact hc
    · subst hidx
      have hnews : s.news (.alloc c size) = 1 := by
        simp only [news, hnext, setLive, operatorNew, Nat.add_sub_cancel_left]
      rw [hnews, hempty hi, Pool.Stock.next, if_pos rfl]

/-- What `free` does to a bucket of its cache. -/
theorem free_bucket {s : State} {c i : Nat} {e : Cache} (hc : s.cache c = some e)
    (hi : i < cacheCount) (b : Nat) (size : Size) :
    ∃ e', (s.next (.free c b size)).cache c = some e' ∧
      ((cacheIndex size).toNat ≠ i → e'.kept i = e.kept i) ∧
      ((cacheIndex size).toNat = i → ∀ n d, Pool.Stock.next entryCount ⟨e.kept i, n, d⟩ .give =
        ⟨e'.kept i, n, d + s.deletes (.free c b size)⟩) := by
  have hstep : s.next (.free c b size) = (s.setLive b none).free c e b size := by
    simp only [next, hc]
  rcases (s.setLive b none).free_spec c e b size with ⟨-, k, hk, hnone, heq⟩ | ⟨hfull, heq⟩
  · have hnext := hstep.trans heq
    refine ⟨e.set (cacheIndex size).toNat k (some b), ?_, fun hne => ?_, fun hidx n d => ?_⟩
    · rw [hnext]
      exact Function.update_self ..
    · exact Cache.kept_set_of_ne e hne.symm k (some b)
    · subst hidx
      have hkept := Cache.kept_set_some hk hnone b
      have hroom := (e.set (cacheIndex size).toNat k (some b)).kept_le (cacheIndex size).toNat
      have hdeletes : s.deletes (.free c b size) = 0 := by
        simp only [deletes, hnext, setLive, setCache, Nat.sub_self]
      have hlt : e.kept (cacheIndex size).toNat < entryCount := by omega
      rw [hdeletes, Pool.Stock.next, if_pos hlt, hkept, Nat.add_zero, Pool.Stock.mk.injEq]
      exact ⟨rfl, rfl, rfl⟩
  · have hnext := hstep.trans heq
    refine ⟨e, ?_, fun _ => rfl, fun hidx n d => ?_⟩
    · rw [hnext]
      exact hc
    · subst hidx
      have hdeletes : s.deletes (.free c b size) = 1 := by
        simp only [deletes, hnext, setLive, operatorDelete, Function.update_self,
          Nat.add_sub_cancel_left]
      rw [hdeletes, hfull hi, Pool.Stock.next, if_neg (Nat.lt_irrefl _)]

/-- A step on another cache leaves a cache alone. -/
theorem next_cache_of_ne {s : State} {c : Nat} {e : Cache} (hc : s.cache c = some e) {a : Action}
    (ha : s.Enabled a) (hne : ∀ i, a.asks c i = none) (hd : a ≠ .destroy c) :
    (s.next a).cache c = some e := by
  cases a with
  | construct d =>
      have hdc : c ≠ d := by
        rintro rfl
        simp only [Enabled, hc, Option.isNone_some, Bool.false_eq_true] at ha
      exact (Function.update_of_ne hdc _ _).trans hc
  | alloc d size =>
      have hdc : d ≠ c := by simpa [Action.asks] using hne
      obtain ⟨e', he⟩ := Option.isSome_iff_exists.mp ha
      simp only [next, he]
      rcases s.alloc_spec d e' size with ⟨-, k, -, b, -, heq⟩ | ⟨-, capacity, -, heq⟩
      · rw [heq]
        exact (Function.update_of_ne hdc.symm _ _).trans hc
      · rw [heq]
        exact hc
  | free d b size =>
      have hdc : d ≠ c := by simpa [Action.asks] using hne
      obtain ⟨e', he⟩ := Option.isSome_iff_exists.mp ha.1
      simp only [next, he]
      rcases (s.setLive b none).free_spec d e' b size with ⟨-, k, -, -, heq⟩ | ⟨-, heq⟩
      · rw [heq]
        exact (Function.update_of_ne hdc.symm _ _).trans hc
      · rw [heq]
        exact hc
  | destroy d =>
      have hdc : c ≠ d := by
        rintro rfl
        exact hd rfl
      obtain ⟨e', he⟩ := Option.isSome_iff_exists.mp ha
      simp only [next, he, destroy]
      exact (Function.update_of_ne hdc _ _).trans
        ((congrFun (foldl_operatorDelete e'.blocks s).1 c).trans hc)

/-- One step on a bucket is one move of a pool, or none. -/
theorem next_bucket {s : State} {c i : Nat} {e : Cache} (hc : s.cache c = some e)
    (hi : i < cacheCount) {a : Action} (ha : s.Enabled a) (hd : a ≠ .destroy c) :
    ∃ e', (s.next a).cache c = some e' ∧
      ((a.asks c i = none ∧ e'.kept i = e.kept i) ∨ ∃ m, a.asks c i = some m ∧
        ∀ n d, Pool.Stock.next entryCount ⟨e.kept i, n, d⟩ m =
          ⟨e'.kept i, n + s.news a, d + s.deletes a⟩) := by
  by_cases hne : ∀ i, a.asks c i = none
  · exact ⟨e, next_cache_of_ne hc ha hne hd, Or.inl ⟨hne i, rfl⟩⟩
  cases a with
  | construct d => exact absurd (fun _ => rfl) hne
  | destroy d => exact absurd (fun _ => rfl) hne
  | alloc d size =>
      have hdc : d = c := by
        by_contra h
        exact hne fun j => if_neg fun hj => h hj.1
      subst hdc
      obtain ⟨e', he', hother, hsame⟩ := alloc_bucket hc hi size
      refine ⟨e', he', ?_⟩
      by_cases hidx : (cacheIndex size).toNat = i
      · exact Or.inr ⟨.take, if_pos ⟨rfl, hidx⟩, hsame hidx⟩
      · exact Or.inl ⟨if_neg fun h => hidx h.2, hother hidx⟩
  | free d b size =>
      have hdc : d = c := by
        by_contra h
        exact hne fun j => if_neg fun hj => h hj.1
      subst hdc
      obtain ⟨e', he', hother, hsame⟩ := free_bucket hc hi b size
      have hnews : s.news (.free d b size) = 0 := by
        simp only [news, next, hc]
        rcases (s.setLive b none).free_spec d e b size with ⟨-, k, -, -, heq⟩ | ⟨-, heq⟩
        · rw [heq]
          exact Nat.sub_self _
        · rw [heq]
          exact Nat.sub_self _
      refine ⟨e', he', ?_⟩
      by_cases hidx : (cacheIndex size).toNat = i
      · refine Or.inr ⟨.give, if_pos ⟨rfl, hidx⟩, fun n d' => ?_⟩
        rw [hsame hidx, hnews, Nat.add_zero]
      · exact Or.inl ⟨if_neg fun h => hidx h.2, hother hidx⟩

/-- A run on a bucket is a history of a pool. -/
theorem exec_bucket {s s' : State} {as : List Action} (h : Run machine s as s') {c i : Nat}
    {e : Cache} (hc : s.cache c = some e) (hi : i < cacheCount) (hd : .destroy c ∉ as) (n d : Nat) :
    ∃ e', s'.cache c = some e' ∧
      Pool.Stock.exec entryCount ⟨e.kept i, n, d⟩ (moves c i as) =
        ⟨e'.kept i, n + s.bucketNews c i as, d + s.bucketDeletes c i as⟩ := by
  induction h generalizing e n d with
  | nil s => exact ⟨e, hc, rfl⟩
  | @cons s s' a as ha _ ih =>
      obtain ⟨hda, hdas⟩ := not_or.mp (mt List.mem_cons.mpr hd)
      obtain ⟨e₁, hc₁, hstep⟩ := next_bucket hc hi ha (Ne.symm hda)
      rcases hstep with ⟨hasks, hkept⟩ | ⟨m, hasks, hmove⟩
      · obtain ⟨e', hc', hexec⟩ := ih hc₁ hdas n d
        refine ⟨e', hc', ?_⟩
        have hmoves : moves c i (a :: as) = moves c i as := List.filterMap_cons_none hasks
        simp only [hmoves, bucketNews, bucketDeletes, hasks, Option.isSome_none, Bool.false_eq_true,
          if_false, Nat.zero_add]
        rwa [hkept] at hexec
      · obtain ⟨e', hc', hexec⟩ := ih hc₁ hdas (n + s.news a) (d + s.deletes a)
        refine ⟨e', hc', ?_⟩
        have hmoves : moves c i (a :: as) = m :: moves c i as :=
          List.filterMap_cons_some hasks
        simp only [hmoves, bucketNews, bucketDeletes, hasks, Option.isSome_some, if_true,
          Pool.Stock.exec_cons, hmove, ← Nat.add_assoc]
        exact hexec

end State

/-- **What a cache saves.** While the number of blocks of a size that are in use, counted as the
    blocks that a thread allocates less those that it frees, varies by at most 16, `operator new` is
    called only to reach the peak and `operator delete` only to reach the trough, however long the
    run and whatever else happens in it. -/
theorem bucket_cost {s s' : State} {as : List Action} (h : Run machine s as s') {c i : Nat}
    {e : Cache} (hc : s.cache c = some e) (hi : i < cacheCount) (hd : .destroy c ∉ as)
    (hvary : Pool.peak (moves c i as) - Pool.trough (moves c i as) ≤ entryCount) :
    (s.bucketNews c i as : ℤ) = max 0 (Pool.peak (moves c i as) - e.kept i) ∧
      (s.bucketDeletes c i as : ℤ) =
        max 0 (e.kept i - (Pool.trough (moves c i as) + entryCount)) := by
  obtain ⟨e', -, hexec⟩ := State.exec_bucket h hc hi hd 0 0
  obtain ⟨hmade, hscrapped⟩ := Pool.exact_cost (p := ⟨e.kept i, 0, 0⟩) (e.kept_le i) hvary
  rw [hexec] at hmade hscrapped
  simp only [Nat.cast_zero, zero_add] at hmade hscrapped
  exact ⟨hmade, hscrapped⟩

/-- Blocks of two sizes, one of which another thread frees. -/
def sharedRun : List Action :=
  [.alloc 0 65, .alloc 0 128, .alloc 0 64, .free 1 0 65, .free 0 1 128, .alloc 0 100, .free 0 1 100]

/-- Three requests for blocks of bucket 1, two of them at the same time. -/
theorem bucket_cost_shared :
    let s := machine.exec State.empty [.construct 0, .construct 1]
    (s.bucketNews 0 1 sharedRun : ℤ) = max 0 (Pool.peak (moves 0 1 sharedRun) - Cache.empty.kept 1) ∧
      (s.bucketDeletes 0 1 sharedRun : ℤ) =
        max 0 (Cache.empty.kept 1 - (Pool.trough (moves 0 1 sharedRun) + entryCount)) :=
  bucket_cost (.of_legal (by decide)) rfl (by decide) (by decide) (by decide)

/-- **No way to keep 16 blocks for a size saves more.** Whoever keeps at most 16 blocks, starts with
    as many and serves the same requests calls `operator new` and `operator delete` at least as
    often, even if it knows the requests beforehand. -/
theorem bucket_cheapest {s s' : State} {as : List Action} (h : Run machine s as s') {c i : Nat}
    {e : Cache} (hc : s.cache c = some e) (hi : i < cacheCount) (hd : .destroy c ∉ as)
    {q : Pool.Stock} (hq : Pool.ServesAll entryCount ⟨e.kept i, 0, 0⟩ (moves c i as) q) :
    s.bucketNews c i as ≤ q.made ∧ s.bucketDeletes c i as ≤ q.scrapped := by
  obtain ⟨e', -, hexec⟩ := State.exec_bucket h hc hi hd 0 0
  have hcheap := Pool.cheapest hq (e.kept_le i)
  rw [hexec] at hcheap
  simpa using hcheap

/-- A keeper that reuses nothing calls `operator new` three times. -/
theorem bucket_cheapest_shared :
    let s := machine.exec State.empty [.construct 0, .construct 1]
    s.bucketNews 0 1 sharedRun ≤ 3 ∧ s.bucketDeletes 0 1 sharedRun ≤ 2 :=
  bucket_cheapest (q := ⟨0, 3, 2⟩) (i := 1) (.of_legal (by decide)) rfl (by decide) (by decide)
    (.cons (.make _) (.cons (.make _) (.cons (.scrap _) (.cons (.make _) (.cons (.scrap _)
      (.nil _))))))

end WebAsio.MemoryCache
