import WebAsio.Coro.Cancellation

set_option autoImplicit false

/-! # Cancellation reaches the innermost operation

In every run the states of a chain are linked: each is in the cell of the slot that its coroutine
was given, whatever finished children and operations left in the cells before. -/

namespace WebAsio.Coro.Cancellation

open Asio.Signals Asio.Signals.Memory Relay Transition

variable {m m' : Memory} {fr : Frame} {fs : List Frame}

/-! ## Linked frames -/

/-- The state of the frame is in the cell of its slot. -/
def Holds (m : Memory) (fr : Frame) : Prop :=
  ∀ k, fr.cancellationState = some k →
    ∃ c, fr.cancellationSlot = some c ∧ m.cell c = some (.state k)

/-- The frames of a chain, innermost first: the slot of the root is that of a user's signal, and
    every other frame has the slot of its caller. -/
inductive Chain (m : Memory) : List Frame → Prop
  | nil : Chain m []
  | root {fr : Frame} : (∀ c, fr.cancellationSlot = some c → c.number = 0) → Holds m fr →
      Chain m [fr]
  | call {fr caller : Frame} {rest : List Frame} :
      fr.cancellationSlot = caller.getCancellationSlot → Holds m fr → Chain m (caller :: rest) →
      Chain m (fr :: caller :: rest)

/-- The signal at the root of the frames. -/
def signalOf (fs : List Frame) : Option Nat :=
  fs.getLast?.bind fun fr => fr.cancellationSlot.map Cell.signal

theorem Holds.signal (w : m.Wf) (h : Holds m fr) :
    fr.getCancellationSlot.map Cell.signal = fr.cancellationSlot.map Cell.signal := by
  unfold Frame.getCancellationSlot
  cases hs : fr.cancellationState with
  | none => rfl
  | some k =>
      obtain ⟨c, hc, hk⟩ := h k hs
      simp [hc, (w.holds hk).1]

/-- All slots of a chain belong to the signal at its root. -/
theorem Chain.signal (w : m.Wf) (h : Chain m fs) :
    ∀ fr ∈ fs, fr.cancellationSlot.map Cell.signal = signalOf fs := by
  induction h with
  | nil => simp
  | root => simp [signalOf]
  | @call fr caller rest hslot hheld hrest ih =>
      have hsame : signalOf (fr :: caller :: rest) = signalOf (caller :: rest) := by
        simp [signalOf]
      rw [hsame]
      have hcaller := ih caller (by simp)
      have hholds : Holds m caller := by
        cases hrest <;> assumption
      intro x hx
      rcases List.mem_cons.mp hx with rfl | hx
      · rw [hslot, hholds.signal w, hcaller]
      · exact ih x hx

theorem Chain.holds (h : Chain m fs) : ∀ fr ∈ fs, Holds m fr := by
  induction h with
  | nil => simp
  | root _ hheld => simpa using hheld
  | call _ hheld _ ih =>
      intro x hx
      rcases List.mem_cons.mp hx with rfl | hx
      · exact hheld
      · exact ih x hx

theorem Chain.tail (h : Chain m fs) : Chain m fs.tail := by
  cases h with
  | nil => exact .nil
  | root => exact .nil
  | call _ _ hrest => exact hrest

theorem Holds.live (w : m.Wf) (h : Holds m fr)
    (hslot : ∀ c, fr.cancellationSlot = some c → m.Live c) :
    ∀ c, fr.getCancellationSlot = some c → m.Live c := by
  unfold Frame.getCancellationSlot
  cases hs : fr.cancellationState with
  | none => exact hslot
  | some k =>
      rintro c hc
      obtain rfl : k = c := by simpa using hc
      obtain ⟨d, -, hk⟩ := h k hs
      obtain ⟨-, -, hlt, hsome⟩ := w.holds hk
      exact ⟨hlt, Or.inr hsome⟩

/-- The slots of a chain may be used. -/
theorem Chain.live (w : m.Wf) (hpos : 0 < m.count) (h : Chain m fs) :
    ∀ fr ∈ fs, ∀ c, fr.cancellationSlot = some c → m.Live c := by
  induction h with
  | nil => simp
  | @root fr hroot hheld =>
      intro x hx c hc
      obtain rfl : x = fr := by simpa using hx
      have h0 := hroot c hc
      exact ⟨by omega, Or.inl h0⟩
  | @call fr caller rest hslot hheld hrest ih =>
      intro x hx c hc
      rcases List.mem_cons.mp hx with rfl | hx
      · rw [hslot] at hc
        exact (hrest.holds caller (by simp)).live w (ih caller (by simp)) c hc
      · exact ih x hx c hc

/-- The states of the outer frames are not younger than the slot of the innermost one. -/
theorem Chain.older (w : m.Wf) (h : Chain m (fr :: fs)) {c : Cell}
    (hc : fr.cancellationSlot = some c) :
    ∀ x ∈ fs, ∀ k, x.cancellationState = some k → k.number ≤ c.number := by
  generalize hall : fr :: fs = all at h
  induction h generalizing fr fs c with
  | nil => cases hall
  | root =>
      cases hall
      simp
  | @call fr' caller rest hslot hheld hrest ih =>
      cases hall
      intro x hx k hk
      rw [hslot] at hc
      have hcaller := hrest.holds caller (by simp)
      unfold Frame.getCancellationSlot at hc
      -- the slot is the signal of the state of the caller, or the slot that the caller was given
      rcases List.mem_cons.mp hx with rfl | hx
      · rw [hk] at hc
        obtain rfl : k = c := by simpa using hc
        exact Nat.le_refl _
      · cases hs : caller.cancellationState with
        | none =>
            rw [hs] at hc
            exact ih hc rfl x hx k hk
        | some j =>
            rw [hs] at hc
            obtain rfl : j = c := by simpa using hc
            obtain ⟨d, hd, hj⟩ := hcaller j hs
            exact Nat.le_of_lt (Nat.lt_of_le_of_lt (ih hd rfl x hx k hk) (w.holds hj).2.1)

/-- A chain stays linked when the cells that its states are in stay as they are. -/
theorem Chain.congr (h : Chain m fs)
    (hcell : ∀ x ∈ fs, ∀ k c, x.cancellationState = some k → x.cancellationSlot = some c →
      m'.cell c = m.cell c) : Chain m' fs := by
  have hholds : ∀ x ∈ fs, Holds m x → Holds m' x := by
    intro x hx hheld k hk
    obtain ⟨c, hc, hm⟩ := hheld k hk
    exact ⟨c, hc, (hcell x hx k c hk hc).trans hm⟩
  induction h with
  | nil => exact .nil
  | root hroot hheld => exact .root hroot (hholds _ (by simp) hheld)
  | call hslot hheld _ ih =>
      refine .call hslot (hholds _ (by simp) hheld) (ih ?_ ?_)
      · exact fun x hx => hcell x (List.mem_cons_of_mem _ hx)
      · exact fun x hx => hholds x (List.mem_cons_of_mem _ hx)

/-- Changes at a cell of another signal do not concern a chain. -/
theorem Chain.of_other (h : Chain m fs) (w : m.Wf) {c : Cell} (t : Touches m m' c)
    (hsig : signalOf fs ≠ some c.signal) : Chain m' fs := by
  refine h.congr fun x hx k d hk hd => t.cell d (Or.inl ?_)
  rintro he
  have hs := h.signal w x hx
  rw [hd] at hs
  exact hsig (by rw [← hs]; simp [he])

/-- Changes at the slot of the innermost frame, or at the signal of its state, do not concern the
    outer frames. -/
theorem Chain.of_outer (w : m.Wf) (h : Chain m (fr :: fs)) {c : Cell} (t : Touches m m' c)
    (hc : fr.cancellationSlot = some c) : Chain m' fs := by
  refine h.tail.congr fun x hx k d hk hd => t.cell d (Or.inr ?_)
  obtain ⟨d', hd', hm⟩ := h.holds x (List.mem_cons_of_mem _ hx) k hk
  obtain rfl : d = d' := by simpa [hd] using hd'
  exact Nat.lt_of_lt_of_le (w.holds hm).2.1 (h.older w hc x hx k hk)

/-- An operation's handler in the slot of the innermost frame leaves the whole chain linked. -/
theorem Chain.of_operation (w : m.Wf) (h : Chain m (fr :: fs)) {c : Cell} (t : Touches m m' c)
    (hc : fr.getCancellationSlot = some c) : Chain m' (fr :: fs) := by
  refine h.congr fun x hx k d hk hd => t.cell d (Or.inr ?_)
  obtain ⟨d', hd', hm⟩ := h.holds x hx k hk
  obtain rfl : d = d' := by simpa [hd] using hd'
  have hlt := (w.holds hm).2.1
  unfold Frame.getCancellationSlot at hc
  rcases List.mem_cons.mp hx with rfl | hx
  · rw [hk] at hc
    obtain rfl : k = c := by simpa using hc
    exact hlt
  · cases hs : fr.cancellationState with
    | none =>
        rw [hs] at hc
        exact Nat.lt_of_lt_of_le hlt (h.older w hc x hx k hk)
    | some j =>
        rw [hs] at hc
        obtain rfl : j = c := by simpa using hc
        obtain ⟨e, he, hj⟩ := h.holds fr (by simp) j hs
        have := h.older w he x hx k hk
        have := (w.holds hj).2.1
        omega

/-- The slot of the root is that of the user's signal. -/
theorem Chain.root_slot (h : Chain m fs) {g : Nat} (hg : signalOf fs = some g) :
    fs.getLast?.bind Frame.cancellationSlot = some ⟨g, 0⟩ := by
  induction h with
  | nil => cases hg
  | @root x hroot _ =>
      obtain ⟨c, hc, hs⟩ : ∃ c, x.cancellationSlot = some c ∧ c.signal = g := by
        simpa [signalOf] using hg
      have h0 := hroot c hc
      cases c
      simp only at h0 hs
      simp [hc, h0, hs]
  | call _ _ _ ih =>
      have := ih (by simpa [signalOf] using hg)
      simpa using this

/-- **A chain is linked**, from the slot of the root through all its states to the slot that the
    innermost coroutine hands on. -/
theorem Chain.link (h : Chain m (fr :: fs)) {g : Cell}
    (hroot : (fr :: fs).getLast?.bind Frame.cancellationSlot = some g) :
    ∃ c, fr.getCancellationSlot = some c ∧
      Link m g ((fr :: fs).reverse.filterMap Frame.cancellationState) c := by
  generalize hall : fr :: fs = all at h hroot
  induction h generalizing fr fs with
  | nil => cases hall
  | @root x _ hheld =>
      cases hall
      have hslot : x.cancellationSlot = some g := by simpa using hroot
      cases hs : x.cancellationState with
      | none => exact ⟨g, by simp [Frame.getCancellationSlot, hs, hslot], by simpa [hs] using .here⟩
      | some k =>
          obtain ⟨c, hc, hk⟩ := hheld k hs
          obtain rfl : g = c := by simpa [hslot] using hc
          exact ⟨k, by simp [Frame.getCancellationSlot, hs], by simpa [hs] using .next hk .here⟩
  | @call x caller rest hslot hheld hrest ih =>
      cases hall
      obtain ⟨c, hc, p⟩ := ih rfl (by simpa using hroot)
      rw [List.reverse_cons, List.filterMap_append]
      cases hs : x.cancellationState with
      | none =>
          have hx : [x].filterMap Frame.cancellationState = [] := by simp [hs]
          rw [hx, List.append_nil]
          exact ⟨c, by rw [Frame.getCancellationSlot, hs, hslot, hc], p⟩
      | some k =>
          have hx : [x].filterMap Frame.cancellationState = [k] := by simp [hs]
          obtain ⟨d, hd, hk⟩ := hheld k hs
          obtain rfl : c = d := by
            rw [hslot, hc] at hd
            simpa using hd
          rw [hx]
          exact ⟨k, by rw [Frame.getCancellationSlot, hs], p.snoc hk⟩

/-- A frame without its state. -/
theorem Chain.without_state (h : Chain m (fr :: fs)) :
    Chain m (⟨fr.cancellationSlot, none⟩ :: fs) := by
  cases h with
  | root hroot _ => exact .root hroot (by simp [Holds])
  | call hslot _ hrest => exact .call hslot (by simp [Holds]) hrest

/-- A new innermost frame with the slot of the old one. -/
theorem Chain.with_head (hrest : Chain m' fs) (h : Chain m (fr :: fs)) {state : Option Cell}
    (hheld : Holds m' ⟨fr.cancellationSlot, state⟩) :
    Chain m' (⟨fr.cancellationSlot, state⟩ :: fs) := by
  cases h with
  | root hroot _ => exact .root hroot hheld
  | call hslot _ _ => exact .call hslot hheld hrest

/-- The slot that the innermost frame hands on may be used, and is of the signal of the chain. -/
theorem Chain.slot (w : m.Wf) (hpos : 0 < m.count) (h : Chain m (fr :: fs)) {c : Cell}
    (hc : fr.getCancellationSlot = some c) :
    m.Live c ∧ signalOf (fr :: fs) = some c.signal := by
  have hheld := h.holds fr (by simp)
  refine ⟨hheld.live w (h.live w hpos fr (by simp)) c hc, ?_⟩
  rw [← h.signal w fr (by simp), ← hheld.signal w, hc]
  rfl

/-! ## The invariant -/

structure Sound (s : State) : Prop where
  wf : s.memory.Wf
  pos : 0 < s.memory.count
  safe : s.memory.dangling = false
  chain : ∀ i, Chain s.memory (s.frames i)
  /-- two chains do not share a signal -/
  apart : ∀ i j g, i ≠ j → signalOf (s.frames i) = some g → signalOf (s.frames j) ≠ some g
  idle : ∀ i, s.roots ≤ i → s.frames i = []
  /-- the handler of the operation is in the slot of the coroutine that waits for it -/
  pending : ∀ i o, s.pending i = some o → ∃ fr fs, s.frames i = fr :: fs ∧
    ∀ c, fr.getCancellationSlot = some c → s.memory.cell c = some (.op o)

theorem Sound.empty : Sound State.empty := by
  refine ⟨Wf.empty, Nat.one_pos, rfl, fun _ => .nil, ?_, fun _ _ => rfl, ?_⟩
  · intro i j g _ h
    cases h
  · intro i o h
    cases h

/-- The memory is as before, or was changed at a cell of the signal of the frames `fs`. -/
def Within (m m' : Memory) (fs : List Frame) : Prop :=
  m' = m ∨ ∃ c : Cell, Touches m m' c ∧ signalOf fs = some c.signal

/-- What every step keeps that is not an emission: the states that are not destroyed stay as they
    are. -/
structure Keeps (s s' : State) : Prop where
  sound : Sound s'
  impl : ∀ k : Cell, k.number < s.memory.count →
    s'.memory.impl k = s.memory.impl k ∨ s'.memory.impl k = none

/-- What a step of one chain has to keep; the other chains are as before. -/
theorem Sound.change {s s' : State} (h : Sound s) {i : Nat}
    (hframes : ∀ j, j ≠ i → s'.frames j = s.frames j)
    (hpending : ∀ j, j ≠ i → s'.pending j = s.pending j)
    (hidle : ∀ j, s'.roots ≤ j → s'.frames j = [])
    (hmem : Within s.memory s'.memory (s'.frames i))
    (hchain : Chain s'.memory (s'.frames i))
    (hapart : ∀ j g, j ≠ i → signalOf (s'.frames i) = some g → signalOf (s.frames j) ≠ some g)
    (hpend : ∀ o, s'.pending i = some o → ∃ fr fs, s'.frames i = fr :: fs ∧
      ∀ c, fr.getCancellationSlot = some c → s'.memory.cell c = some (.op o)) : Keeps s s' := by
  have hkept : ∀ k : Cell, k.number < s.memory.count →
      s'.memory.impl k = s.memory.impl k ∨ s'.memory.impl k = none := by
    intro k hk
    rcases hmem with hm | ⟨c, t, -⟩
    · exact Or.inl (by rw [hm])
    · exact t.impl k hk
  obtain ⟨hwf, hpos, hsafe⟩ :
      s'.memory.Wf ∧ 0 < s'.memory.count ∧ s'.memory.dangling = false := by
    rcases hmem with hm | ⟨c, t, -⟩
    · rw [hm]
      exact ⟨h.wf, h.pos, h.safe⟩
    · exact ⟨t.wf, Nat.lt_of_lt_of_le h.pos t.count, t.dangling.trans h.safe⟩
  refine ⟨⟨hwf, hpos, hsafe, ?_, ?_, hidle, ?_⟩, hkept⟩
  · intro j
    by_cases hj : j = i
    · exact hj ▸ hchain
    · rw [hframes j hj]
      rcases hmem with hm | ⟨c, t, hc⟩
      · rw [hm]
        exact h.chain j
      · exact (h.chain j).of_other h.wf t (hapart j _ hj hc)
  · intro j k g hjk hj hk
    by_cases hji : j = i
    · subst hji
      rw [hframes k (Ne.symm hjk)] at hk
      exact hapart k g (Ne.symm hjk) hj hk
    by_cases hki : k = i
    · subst hki
      rw [hframes j hjk] at hj
      exact hapart j g hjk hk hj
    · rw [hframes j hji] at hj
      rw [hframes k hki] at hk
      exact h.apart j k g hjk hj hk
  · intro j o ho
    by_cases hj : j = i
    · subst hj
      exact hpend o ho
    · rw [hpending j hj] at ho
      obtain ⟨fr, fs, hfs, hop⟩ := h.pending j o ho
      refine ⟨fr, fs, (hframes j hj).trans hfs, fun c hc => ?_⟩
      rcases hmem with hm | ⟨d, t, hd⟩
      · rw [hm]
        exact hop c hc
      · rw [t.cell c (Or.inl ?_)]
        · exact hop c hc
        · rintro he
          -- the slot of the other chain belongs to another signal
          have hsig := (h.chain j).signal h.wf fr (by simp [hfs])
          rw [← ((h.chain j).holds fr (by simp [hfs])).signal h.wf, hc] at hsig
          exact hapart j _ hj hd (by rw [← hsig]; simp [he])

section Steps

variable {s : State} {i : Nat}

theorem Sound.lt_roots (h : Sound s) (hi : s.frames i ≠ []) : i < s.roots := by
  by_contra hn
  exact hi (h.idle i (Nat.le_of_not_lt hn))

/-- The other chains have other signals. -/
theorem Sound.apart_of_same (h : Sound s) {fs' : List Frame}
    (hsame : signalOf fs' = signalOf (s.frames i)) (j g : Nat) (hj : j ≠ i)
    (hg : signalOf fs' = some g) : signalOf (s.frames j) ≠ some g :=
  h.apart i j g (Ne.symm hj) (hsame ▸ hg)

theorem Sound.start (h : Sound s) : Keeps s (s.next .start) := by
  have hnone : s.pending s.roots = none := by
    by_contra hne
    obtain ⟨o, ho⟩ := Option.ne_none_iff_exists'.mp hne
    obtain ⟨fr, fs, hfs, -⟩ := h.pending s.roots o ho
    rw [h.idle s.roots (Nat.le_refl _)] at hfs
    cases hfs
  refine h.change (i := s.roots) ?_ (fun _ _ => rfl) ?_ (Or.inl rfl) ?_ ?_ ?_
  · intro j hj
    simp [State.next, State.setFrames, hj]
  · intro j hj
    simp only [State.next] at hj
    have hne : j ≠ s.roots := by omega
    simpa [State.next, State.setFrames, hne] using h.idle j (by omega)
  · have hroot : Chain s.memory [{}] := .root (by simp) (by simp [Holds])
    simpa [State.next, State.setFrames] using hroot
  · intro j g hj hg
    simp [State.next, State.setFrames, signalOf] at hg
  · intro o ho
    have ho' : s.pending s.roots = some o := ho
    rw [hnone] at ho'
    cases ho'

theorem Sound.finish (h : Sound s) (hi : s.Runs i) : Keeps s (s.next (.finish i)) := by
  refine h.change (i := i) ?_ (fun _ _ => rfl) ?_ (Or.inl rfl) ?_ ?_ ?_
  · intro j hj
    simp [State.next, State.finish, State.setFrames, hj]
  · intro j hj
    have hlt := h.lt_roots hi.1
    have hroots : s.roots ≤ j := hj
    have hne : j ≠ i := by omega
    simpa [State.next, State.finish, State.setFrames, hne] using h.idle j hroots
  · simpa [State.next, State.finish, State.setFrames] using (h.chain i).tail
  · intro j g hj hg
    refine h.apart i j g (Ne.symm hj) ?_
    have hg' : signalOf (s.frames i).tail = some g := by
      simpa [State.next, State.finish, State.setFrames] using hg
    cases hfs : s.frames i with
    | nil => exact absurd hfs hi.1
    | cons fr fs =>
        rw [hfs] at hg'
        cases fs with
        | nil => simp [signalOf] at hg'
        | cons x rest => simpa [signalOf] using hg'
  · intro o ho
    have ho' : s.pending i = some o := ho
    rw [hi.2] at ho'
    cases ho'

theorem Sound.awaitPromise (h : Sound s) (hi : s.Runs i) : Keeps s (s.next (.awaitPromise i)) := by
  obtain ⟨fr, fs, hfs⟩ := List.exists_cons_of_ne_nil hi.1
  have hnext : s.next (.awaitPromise i) =
      s.setFrames i (⟨fr.getCancellationSlot, none⟩ :: fr :: fs) := by
    simp [State.next, State.awaitPromise, hfs]
  rw [hnext]
  have hchain := h.chain i
  rw [hfs] at hchain
  refine h.change (i := i) ?_ (fun _ _ => rfl) ?_ (Or.inl rfl) ?_ ?_ ?_
  · intro j hj
    simp [State.setFrames, hj]
  · intro j hj
    have hlt := h.lt_roots hi.1
    have hroots : s.roots ≤ j := hj
    have hne : j ≠ i := by omega
    simpa [State.setFrames, hne] using h.idle j hroots
  · have hcall : Chain s.memory (⟨fr.getCancellationSlot, none⟩ :: fr :: fs) :=
      .call rfl (by simp [Holds]) hchain
    simpa [State.setFrames] using hcall
  · refine h.apart_of_same ?_
    simp [State.setFrames, signalOf, hfs]
  · intro o ho
    have ho' : s.pending i = some o := ho
    rw [hi.2] at ho'
    cases ho'

theorem Sound.setCancellationSlot (h : Sound s) {g : Nat}
    (hi : s.Enabled (.setCancellationSlot i g)) : Keeps s (s.next (.setCancellationSlot i g)) := by
  obtain ⟨hruns, hlen, hfree⟩ := hi
  obtain ⟨fr, hfs⟩ := List.length_eq_one_iff.mp hlen
  have hnext : s.next (.setCancellationSlot i g) = s.setFrames i [⟨some ⟨g, 0⟩, none⟩] := by
    simp [State.next, State.setCancellationSlot, hfs]
  rw [hnext]
  refine h.change (i := i) ?_ (fun _ _ => rfl) ?_ (Or.inl rfl) ?_ ?_ ?_
  · intro j hj
    simp [State.setFrames, hj]
  · intro j hj
    have hlt := h.lt_roots hruns.1
    have hroots : s.roots ≤ j := hj
    have hne : j ≠ i := by omega
    simpa [State.setFrames, hne] using h.idle j hroots
  · have hroot : Chain s.memory [⟨some ⟨g, 0⟩, none⟩] :=
      .root (by rintro c hc; cases hc; rfl) (by simp [Holds])
    simpa [State.setFrames] using hroot
  · intro j k hj hk
    obtain rfl : g = k := by simpa [State.setFrames, signalOf] using hk
    by_cases hlt : j < s.roots
    · exact hfree j hlt hj
    · rw [h.idle j (Nat.le_of_not_lt hlt)]
      simp [signalOf]
  · intro o ho
    have ho' : s.pending i = some o := ho
    rw [hruns.2] at ho'
    cases ho'

/-- A coroutine that runs is the innermost one of its chain. -/
theorem Sound.innermost (h : Sound s) (hi : s.Runs i) : ∃ fr fs, s.frames i = fr :: fs ∧
    Chain s.memory (fr :: fs) ∧ i < s.roots := by
  obtain ⟨fr, fs, hfs⟩ := List.exists_cons_of_ne_nil hi.1
  exact ⟨fr, fs, hfs, hfs ▸ h.chain i, h.lt_roots hi.1⟩

/-- The innermost coroutine of the chain replaces its state by one that is built on `slot`. -/
theorem Sound.construct (h : Sound s) (hi : s.Runs i) {slot : Option Cell} {fs : List Frame}
    (hchain : Chain s.memory (⟨slot, none⟩ :: fs))
    (hapart : ∀ j g, j ≠ i → signalOf (⟨slot, none⟩ :: fs) = some g →
      signalOf (s.frames j) ≠ some g) (f : Station CancellationType) :
    Keeps s ({ s with memory := (s.memory.construct slot f).1 }.setFrames i
      (⟨slot, (s.memory.construct slot f).2⟩ :: fs)) := by
  have hlt := h.lt_roots hi.1
  have hsignal : ∀ st, signalOf (⟨slot, st⟩ :: fs) = signalOf (⟨slot, none⟩ :: fs) := by
    intro st
    cases fs <;> simp [signalOf]
  have hbuilt : Within s.memory (s.memory.construct slot f).1 (⟨slot, none⟩ :: fs) ∧
      Chain (s.memory.construct slot f).1 (⟨slot, (s.memory.construct slot f).2⟩ :: fs) := by
    cases hslot : slot with
    | none =>
        rw [hslot] at hchain
        exact ⟨Or.inl rfl, hchain⟩
    | some c =>
        rw [hslot] at hchain
        have hlive := hchain.live h.wf h.pos ⟨some c, none⟩ (by simp) c rfl
        obtain ⟨hk, t, hcell, -, -⟩ := h.wf.construct hlive f
        have hsig := hchain.signal h.wf ⟨some c, none⟩ (by simp)
        refine ⟨Or.inr ⟨c, t, hsig.symm⟩, ?_⟩
        rw [hk]
        exact (hchain.of_outer h.wf t rfl).with_head hchain fun k hst => ⟨c, rfl, by
          obtain rfl : _ = k := by simpa using hst
          exact hcell⟩
  refine h.change (i := i) ?_ (fun _ _ => rfl) ?_ ?_ ?_ ?_ ?_
  · intro j hj
    simp [State.setFrames, hj]
  · intro j hj
    have hroots : s.roots ≤ j := hj
    have hne : j ≠ i := by omega
    simpa [State.setFrames, hne] using h.idle j hroots
  · rcases hbuilt.1 with hm | ⟨c, t, hc⟩
    · exact Or.inl hm
    · exact Or.inr ⟨c, t, by simpa [State.setFrames, hsignal] using hc⟩
  · simpa [State.setFrames] using hbuilt.2
  · intro j g hj hg
    exact hapart j g hj (by simpa [State.setFrames, hsignal] using hg)
  · intro o ho
    have ho' : s.pending i = some o := ho
    rw [hi.2] at ho'
    cases ho'

theorem Sound.resetCancellationState (h : Sound s) (hi : s.Runs i)
    (f : Station CancellationType) : Keeps s (s.next (.resetCancellationState i f)) := by
  obtain ⟨fr, fs, hfs, hchain, -⟩ := h.innermost hi
  have hnext : s.next (.resetCancellationState i f) =
      { s with memory := (s.memory.construct fr.cancellationSlot f).1 }.setFrames i
        (⟨fr.cancellationSlot, (s.memory.construct fr.cancellationSlot f).2⟩ :: fs) := by
    simp [State.next, State.resetCancellationState, hfs]
  rw [hnext]
  refine h.construct hi hchain.without_state (h.apart_of_same ?_) f
  rw [hfs]
  cases fs <;> simp [signalOf]

theorem Sound.resetCancellationSlot (h : Sound s) {g : Nat} {f : Station CancellationType}
    (hi : s.Enabled (.resetCancellationSlot i g f)) :
    Keeps s (s.next (.resetCancellationSlot i g f)) := by
  obtain ⟨hruns, hlen, hfree⟩ := hi
  obtain ⟨fr, hfs⟩ := List.length_eq_one_iff.mp hlen
  have hnext : s.next (.resetCancellationSlot i g f) =
      { s with memory := (s.memory.construct (some ⟨g, 0⟩) f).1 }.setFrames i
        [⟨some ⟨g, 0⟩, (s.memory.construct (some ⟨g, 0⟩) f).2⟩] := by
    simp [State.next, State.resetCancellationSlot, State.resetCancellationState, State.setFrames,
      hfs]
  rw [hnext]
  refine h.construct hruns (.root (by simp) (by simp [Holds])) ?_ f
  intro j k hj hk
  obtain rfl : g = k := by simpa [signalOf] using hk
  by_cases hlt : j < s.roots
  · exact hfree j hlt hj
  · rw [h.idle j (Nat.le_of_not_lt hlt)]
    simp [signalOf]

theorem Sound.initiate (h : Sound s) (hi : s.Runs i) : Keeps s (s.next (.initiate i)) := by
  obtain ⟨fr, fs, hfs, hchain, hlt⟩ := h.innermost hi
  have hframes : (s.next (.initiate i)).frames = s.frames := by
    simp [State.next, State.initiate, hfs]
  have hmemory : (s.next (.initiate i)).memory =
      fr.getCancellationSlot.elim s.memory fun c => s.memory.emplace c (.op s.ops) := by
    simp only [State.next, State.initiate, hfs]
    cases fr.getCancellationSlot <;> rfl
  have hpending : (s.next (.initiate i)).pending =
      Function.update s.pending i (some s.ops) := by
    simp [State.next, State.initiate, hfs]
  have hroots : (s.next (.initiate i)).roots = s.roots := by
    simp [State.next, State.initiate, hfs]
  obtain ⟨hwithin, hlinked, hop⟩ : Within s.memory (s.next (.initiate i)).memory (fr :: fs) ∧
      Chain (s.next (.initiate i)).memory (fr :: fs) ∧ ∀ c, fr.getCancellationSlot = some c →
        (s.next (.initiate i)).memory.cell c = some (.op s.ops) := by
    rw [hmemory]
    cases hslot : fr.getCancellationSlot with
    | none => exact ⟨Or.inl rfl, hchain, by simp⟩
    | some c =>
        obtain ⟨hlive, hsig⟩ := hchain.slot h.wf h.pos hslot
        obtain ⟨t, hcell⟩ := h.wf.emplace_op hlive s.ops
        refine ⟨Or.inr ⟨c, t, hsig⟩, hchain.of_operation h.wf t hslot, ?_⟩
        rintro d hd
        obtain rfl : c = d := by simpa using hd
        exact hcell
  refine h.change (i := i) ?_ ?_ ?_ ?_ ?_ ?_ ?_
  · exact fun j _ => congrFun hframes j
  · intro j hj
    rw [hpending]
    simp [hj]
  · intro j hj
    rw [hroots] at hj
    rw [hframes]
    exact h.idle j hj
  · rw [hframes, hfs]
    exact hwithin
  · rw [hframes, hfs]
    exact hlinked
  · rw [hframes]
    exact h.apart_of_same rfl
  · intro o ho
    rw [hpending] at ho
    obtain rfl : s.ops = o := by simpa using ho
    exact ⟨fr, fs, by rw [hframes, hfs], hop⟩

theorem Sound.complete (h : Sound s) (hi : (s.pending i).isSome = true) (clears : Bool) :
    Keeps s (s.next (.complete i clears)) := by
  obtain ⟨o, ho⟩ := Option.isSome_iff_exists.mp hi
  obtain ⟨fr, fs, hfs, -⟩ := h.pending i o ho
  have hchain : Chain s.memory (fr :: fs) := hfs ▸ h.chain i
  have hmemory : (s.next (.complete i clears)).memory = fr.getCancellationSlot.elim s.memory
      fun c => if clears then (s.memory.touch c).clear s.memory.count c else s.memory := by
    simp only [State.next, State.complete, hfs, List.head?_cons, Option.bind_some]
    cases fr.getCancellationSlot <;> rfl
  obtain ⟨hwithin, hlinked⟩ : Within s.memory (s.next (.complete i clears)).memory (fr :: fs) ∧
      Chain (s.next (.complete i clears)).memory (fr :: fs) := by
    rw [hmemory]
    cases hslot : fr.getCancellationSlot with
    | none => exact ⟨Or.inl rfl, hchain⟩
    | some c =>
        obtain ⟨hlive, hsig⟩ := hchain.slot h.wf h.pos hslot
        cases clears with
        | false => exact ⟨Or.inl rfl, hchain⟩
        | true =>
            have t := h.wf.touches_clear hlive
            simp only [Option.elim_some, if_true, hlive.touch]
            exact ⟨Or.inr ⟨c, t, hsig⟩, hchain.of_operation h.wf t hslot⟩
  refine h.change (i := i) (fun _ _ => rfl) ?_ h.idle ?_ ?_ (h.apart_of_same rfl) ?_
  · intro j hj
    simp [State.next, State.complete, hj]
  · change Within _ _ (s.frames i)
    rw [hfs]
    exact hwithin
  · change Chain _ (s.frames i)
    rw [hfs]
    exact hlinked
  · intro o' ho'
    simp [State.next, State.complete] at ho'

theorem Sound.emit (h : Sound s) (g : Nat) (t : CancellationType) :
    Sound (s.next (.emit g t)) := by
  have e := h.wf.emit s.memory.count ⟨g, 0⟩ t
  refine ⟨e.wf h.wf, ?_, e.dangling.trans h.safe, ?_, h.apart, h.idle, ?_⟩
  · rw [show (s.next (.emit g t)).memory.count = s.memory.count from e.count]
    exact h.pos
  · exact fun i => (h.chain i).congr fun _ _ _ c _ _ => congrFun e.cell c
  · intro i o ho
    obtain ⟨fr, fs, hfs, hop⟩ := h.pending i o ho
    exact ⟨fr, fs, hfs, fun c hc => (congrFun e.cell c).trans (hop c hc)⟩

theorem Sound.keeps (h : Sound s) {a : Action} (ha : s.Enabled a) (hne : ∀ g t, a ≠ .emit g t) :
    Keeps s (s.next a) := by
  cases a with
  | start => exact h.start
  | setCancellationSlot i g => exact h.setCancellationSlot ha
  | resetCancellationSlot i g f => exact h.resetCancellationSlot ha
  | resetCancellationState i f => exact h.resetCancellationState ha f
  | awaitPromise i => exact h.awaitPromise ha
  | finish i => exact h.finish ha
  | initiate i => exact h.initiate ha
  | complete i clears => exact h.complete ha clears
  | emit g t => exact absurd rfl (hne g t)

/-- Every action keeps the chains linked. -/
theorem Sound.step (h : Sound s) {a : Action} (ha : s.Enabled a) : Sound (s.next a) := by
  by_cases he : ∃ g t, a = .emit g t
  · obtain ⟨g, t, rfl⟩ := he
    exact h.emit g t
  · exact (h.keeps ha fun g t hgt => he ⟨g, t, hgt⟩).sound

end Steps

theorem Reachable.sound {s : State} (hs : Reachable s) : Sound s :=
  hs.invariant Sound.empty fun _ _ h ha => h.step ha

end WebAsio.Coro.Cancellation
