import WebAsio.MemoryCache

set_option autoImplicit false

/-! # `cached_tls_allocator`: arrays in cached memory

The allocators have no state of their own: all of a thread use the cache of the thread, whatever
their element type is, and they ask it for `sizeof(T) * n` bytes. The product is one of words, like
the computations of the cache, and nothing checks that it did not wrap around. -/

namespace WebAsio.MemoryCache

open Transition

namespace State

/-- The bytes that `allocate` and `deallocate` of an allocator for elements of the size `elem` ask
    for. -/
def bytes (elem n : Size) : Size := elem * n

/-- `allocate(n)` -/
def allocate (s : State) (c : Nat) (e : Cache) (elem n : Size) (memory : Bool) :
    Option (Nat × State) :=
  s.tryAlloc c e (bytes elem n) memory

/-- `deallocate(p, n)` -/
def deallocate (s : State) (c : Nat) (e : Cache) (b : Nat) (elem n : Size) : State :=
  s.free c e b (bytes elem n)

end State

namespace Allocator

/-- What the threads do. -/
inductive Action
  | construct (c : Nat)
  | allocate (c : Nat) (elem n : Size) (memory : Bool)
  | deallocate (c b : Nat) (elem n : Size)
  | destroy (c : Nat)
  deriving DecidableEq

/-- An array is deallocated by an allocator of any thread, for elements of the same size and with
    the same `n`. -/
def Enabled (s : State) : Action → Prop
  | .construct c => s.Enabled (.construct c)
  | .allocate c elem _ _ => (s.cache c).isSome = true ∧ elem ≠ 0
  | .deallocate c b elem n => s.Enabled (.free c b (State.bytes elem n)) ∧ elem ≠ 0
  | .destroy c => s.Enabled (.destroy c)

instance (s : State) (a : Action) : Decidable (Enabled s a) :=
  match a with
  | .construct c => inferInstanceAs (Decidable (s.Enabled (.construct c)))
  | .allocate c elem _ _ => inferInstanceAs (Decidable ((s.cache c).isSome = true ∧ elem ≠ 0))
  | .deallocate c b elem n =>
    inferInstanceAs (Decidable (s.Enabled (.free c b (State.bytes elem n)) ∧ elem ≠ 0))
  | .destroy c => inferInstanceAs (Decidable (s.Enabled (.destroy c)))

def next (s : State) : Action → State
  | .construct c => s.next (.construct c)
  | .allocate c elem n memory =>
    match s.cache c with
    | none => s
    | some e =>
      match s.allocate c e elem n memory with
      | none => s
      | some (b, s) => s.setLive b (some (State.bytes elem n))
  | .deallocate c b elem n =>
    match s.cache c with
    | none => s
    | some e => (s.setLive b none).deallocate c e b elem n
  | .destroy c => s.next (.destroy c)

def machine : System State Action := ⟨Enabled, next⟩

instance (s : State) (a : Action) : Decidable (machine.enabled s a) :=
  inferInstanceAs (Decidable (Enabled s a))

/-- Whatever `operator new` does, `allocate` throws or returns a block that has room for `n`
    elements; and `deallocate` puts the block into a bucket that is meant for blocks of its
    capacity, or deletes it. -/
def StepOk (s : State) : Action → Prop
  | .allocate c elem n _ => ∀ e, s.cache c = some e → ∀ memory b s',
      s.allocate c e elem n memory = some (b, s') → elem.toNat * n.toNat ≤ (s'.capacity b).toNat
  | .deallocate c b elem n =>
      let s' := next s (.deallocate c b elem n)
      (∃ p, s'.held p = some b ∧ 64 * (p.bucket + 1) ≤ (s'.capacity b).toNat) ∨
        s'.deleted b = s.deleted b + 1
  | _ => True

/-- The bytes of an array that is allocated can be counted in a word. -/
def Countable : Action → Prop
  | .allocate _ elem n _ => elem.toNat * n.toNat < 2 ^ 64
  | _ => True

instance (a : Action) : Decidable (Countable a) :=
  match a with
  | .allocate _ elem n _ => inferInstanceAs (Decidable (elem.toNat * n.toNat < 2 ^ 64))
  | .construct _ | .deallocate .. | .destroy _ => .isTrue trivial

/-! ## Steps -/

variable {s : State}

/-- Every step is one of the cache, or an allocation that throws. -/
theorem next_eq (s : State) (a : Action) : next s a = s ∨ ∃ a', next s a = s.next a' ∧
    (Enabled s a → s.Enabled a') := by
  cases a with
  | construct c => exact Or.inr ⟨.construct c, rfl, fun h => h⟩
  | allocate c elem n memory =>
      cases hc : s.cache c with
      | none =>
          left
          simp only [next, hc]
      | some e =>
          by_cases h : (memory || e.serves (State.bytes elem n)) = true
          · refine Or.inr ⟨.alloc c (State.bytes elem n), ?_, fun ha => ha.1⟩
            simp only [next, hc, State.allocate, State.tryAlloc, h, if_true, State.next]
          · left
            simp only [next, hc, State.allocate, State.tryAlloc, h, Bool.false_eq_true, if_false]
  | deallocate c b elem n =>
      refine Or.inr ⟨.free c b (State.bytes elem n), ?_, fun ha => ha.1⟩
      unfold next State.next
      cases s.cache c <;> rfl
  | destroy c => exact Or.inr ⟨.destroy c, rfl, fun h => h⟩

theorem sound_step (hs : s.Sound) {a : Action} (ha : Enabled s a) : (next s a).Sound := by
  rcases next_eq s a with h | ⟨a', h, he⟩
  · rw [h]
    exact hs
  · rw [h]
    exact (hs.step (he ha)).1

theorem toNat_bytes {elem n : Size} (h : elem.toNat * n.toNat < 2 ^ 64) :
    (State.bytes elem n).toNat = elem.toNat * n.toNat := by
  rw [State.bytes, BitVec.toNat_mul, Nat.mod_eq_of_lt h]

/-- An array gets the room that the product of words says, and that is too little when the product
    wraps around. -/
theorem allocate_iff (hs : s.Sound) {c : Nat} {e : Cache} (hc : s.cache c = some e)
    (elem n : Size) :
    (∀ memory b s', s.allocate c e elem n memory = some (b, s') →
      elem.toNat * n.toNat ≤ (s'.capacity b).toNat) ↔ elem.toNat * n.toNat < 2 ^ 64 := by
  constructor
  · intro h
    have hroom := h true (s.alloc c e (State.bytes elem n)).1 (s.alloc c e (State.bytes elem n)).2
      (by simp [State.allocate, State.tryAlloc])
    exact Nat.lt_of_le_of_lt hroom (BitVec.isLt _)
  · intro h memory b s' hb
    have hroom := (hs.alloc hc (State.bytes elem n)).2.1
    unfold State.allocate State.tryAlloc at hb
    split_ifs at hb
    obtain ⟨rfl, rfl⟩ := Prod.mk.inj (Option.some.inj hb)
    rw [toNat_bytes h] at hroom
    exact hroom

/-- A block goes back to a bucket of its capacity. -/
theorem deallocate_ok (hs : s.Sound) {c b : Nat} {elem n : Size}
    (ha : Enabled s (.deallocate c b elem n)) : StepOk s (.deallocate c b elem n) := by
  obtain ⟨e, hc⟩ := Option.isSome_iff_exists.mp ha.1.1
  have hlive : s.live b = some (State.bytes elem n) := ha.1.2
  have hnext : next s (.deallocate c b elem n) =
      (s.setLive b none).free c e b (State.bytes elem n) := by
    simp only [next, hc, State.deallocate]
  show (∃ p, (next s (.deallocate c b elem n)).held p = some b ∧
      64 * (p.bucket + 1) ≤ ((next s (.deallocate c b elem n)).capacity b).toNat) ∨
    (next s (.deallocate c b elem n)).deleted b = s.deleted b + 1
  rw [hnext]
  rcases State.free_cases (s.setLive b none) c e b (State.bytes elem n) with
    ⟨k, -, -, hidx, h⟩ | h
  · left
    have hheld := State.held_set (s := s.setLive b none) hc
      (cacheIndex (State.bytes elem n)).toNat k (some b)
    refine ⟨⟨c, (cacheIndex (State.bytes elem n)).toNat, k⟩, ?_, ?_⟩
    · rw [h, hheld, if_pos rfl]
    · rw [h]
      exact (hs.alive b _ hlive).2.2 hidx
  · right
    rw [h]
    simp [State.operatorDelete, State.setLive]

theorem stepOk_iff (hs : s.Sound) {a : Action} (ha : Enabled s a) :
    StepOk s a ↔ Countable a := by
  cases a with
  | allocate c elem n memory =>
      obtain ⟨e, hc⟩ := Option.isSome_iff_exists.mp ha.1
      have h := allocate_iff hs hc elem n
      constructor
      · exact fun hok => h.mp (hok e hc)
      · intro hn e' hc'
        obtain rfl : e = e' := Option.some.inj (hc.symm.trans hc')
        exact h.mpr hn
  | deallocate c b elem n => exact iff_of_true (deallocate_ok hs ha) trivial
  | construct c => exact Iff.rfl
  | destroy c => exact Iff.rfl

end Allocator

/-- In a run of any threads and allocators every array has room for its elements, and every block
    goes back to a bucket of its capacity or is deleted, exactly when the bytes of every array that
    is allocated can be counted in a word. -/
theorem allocator_exact_iff {as : List Allocator.Action} {s : State}
    (h : Run Allocator.machine State.empty as s) :
    Along Allocator.machine Allocator.StepOk State.empty as ↔
      Along Allocator.machine (fun _ a => Allocator.Countable a) State.empty as :=
  h.along_iff State.Sound.empty (fun _ _ hs ha => Allocator.stepOk_iff hs ha)
    fun _ _ hs ha _ => Allocator.sound_step hs ha

/-- Arrays of 24 bytes, too large for the cache, and of no elements; one changes its thread, and one
    allocation throws. -/
theorem allocator_exact_iff_threads :
    Along Allocator.machine Allocator.StepOk State.empty
      [.construct 0, .construct 1, .allocate 0 8 3 true, .deallocate 1 0 8 3,
        .allocate 1 24 1 false, .allocate 0 8 (BitVec.ofNat 64 (2 ^ 60)) false,
        .allocate 0 16 0 true] :=
  (allocator_exact_iff (.of_legal (by decide))).mpr (by decide)

/-- 2⁶⁰ elements of 16 bytes: the product is 0, and so is the capacity of the block returned. -/
theorem array_without_room :
    Run Allocator.machine State.empty
        [.construct 0, .allocate 0 16 (BitVec.ofNat 64 (2 ^ 60)) true]
        (Allocator.machine.exec State.empty
          [.construct 0, .allocate 0 16 (BitVec.ofNat 64 (2 ^ 60)) true]) ∧
      ¬ Along Allocator.machine Allocator.StepOk State.empty
        [.construct 0, .allocate 0 16 (BitVec.ofNat 64 (2 ^ 60)) true] := by
  refine ⟨.of_legal (by decide), fun h => ?_⟩
  have hroom := h.2.1 Cache.empty (by simp [Allocator.machine, Allocator.next, State.next,
    State.setCache]) true _ _ rfl
  revert hroom
  decide

end WebAsio.MemoryCache
