import WebAsio.Library.Relay
import Mathlib.Logic.Function.Basic
import Mathlib.Tactic.SplitIfs

set_option autoImplicit false

/-! # Cancellation signals and states

A `cancellation_slot` is a reference to the handler cell of a signal. A `cancellation_state` that is
built on a slot lives in that cell, as its only handler, and has a signal of its own; an emission
makes it record the type and go on to that signal. What is put into a cell destroys the handler that
was there, and with a state everything in the cell of its signal. -/

namespace WebAsio.Asio.Signals

open Relay

/-- `cancellation_type`, a set of flags. -/
abbrev CancellationType := BitVec 32

def CancellationType.terminal : CancellationType := 1

/-- `enable_terminal_cancellation`, the default filter. -/
def enableTerminal : Station CancellationType where
  input t := t &&& .terminal
  output t := t &&& .terminal

/-- The handler cell of a signal: number 0 is that of a user's `signal`, the other numbers are those
    of the states that were built, directly or not, on its slot. -/
structure Cell where
  signal : Nat
  number : Nat
  deriving DecidableEq, Repr

/-- What a cell can hold: the handler of an operation, or the state with the signal `k`. -/
inductive Handler
  | op (o : Nat)
  | state (k : Cell)
  deriving DecidableEq, Repr

/-- `cancellation_state::impl`. Its signal is the cell it is known by. -/
structure Impl where
  filters : Station CancellationType
  cancelled : CancellationType

/-- The cells and states that exist. `count` numbers the states, and `dangling` says that one was
    used after it was destroyed. -/
structure Memory where
  cell : Cell → Option Handler
  impl : Cell → Option Impl
  count : Nat
  dangling : Bool

namespace Memory

def empty : Memory := ⟨fun _ => none, fun _ => none, 1, false⟩

/-- A cell is used: it is that of a user's signal, or its state has to exist. -/
def touch (m : Memory) (c : Cell) : Memory :=
  if c.number ≠ 0 ∧ (m.impl c).isNone then { m with dangling := true } else m

/-- `cancellation_slot::clear`. The destructor of a state clears the cell of its signal; `n` bounds
    how deep the states are nested. -/
def clear : Nat → Memory → Cell → Memory
  | 0, m, _ => m
  | n + 1, m, c =>
    match m.cell c with
    | none => m
    | some (.op _) => { m with cell := Function.update m.cell c none }
    | some (.state k) =>
      let m := clear n m k
      { m with cell := Function.update m.cell c none, impl := Function.update m.impl k none }

/-- `cancellation_slot::emplace`. -/
def emplace (m : Memory) (c : Cell) (h : Handler) : Memory :=
  let m := (m.touch c).clear m.count c
  { m with cell := Function.update m.cell c (some h) }

/-- The constructor of `cancellation_state` from a slot: without a connected slot the state is
    empty. -/
def construct (m : Memory) (slot : Option Cell) (f : Station CancellationType) :
    Memory × Option Cell :=
  match slot with
  | none => (m, none)
  | some c =>
    let k : Cell := ⟨c.signal, m.count⟩
    let m := m.emplace c (.state k)
    ({ m with impl := Function.update m.impl k (some ⟨f, 0⟩), count := m.count + 1 }, some k)

/-- A state records a type. -/
def setCancelled (m : Memory) (k : Cell) (u : CancellationType) : Memory :=
  { m with impl := Function.update m.impl k ((m.impl k).map fun i => { i with cancelled := u }) }

/-- `cancellation_signal::emit`, and the operations whose handlers it calls. -/
def emit : Nat → Memory → Cell → CancellationType → Memory × List (Nat × CancellationType)
  | 0, m, _, _ => (m, [])
  | n + 1, m, c, t =>
    match m.cell c with
    | none => (m, [])
    | some (.op o) => (m, [(o, t)])
    | some (.state k) =>
      match m.impl k with
      | none => ({ m with dangling := true }, [])
      | some i =>
        let m := m.setCancelled k (i.filters.input t)
        if i.filters.through t = 0 then (m, []) else emit n m k (i.filters.through t)

/-- `cancellation_state::cancelled`. -/
def cancelled (m : Memory) (k : Cell) : CancellationType := ((m.impl k).map Impl.cancelled).getD 0

/-! ## Well-formed memory -/

/-- A cell holds states that exist, of its own signal and younger, and no state is in two cells. -/
structure Wf (m : Memory) : Prop where
  holds : ∀ {c k}, m.cell c = some (.state k) →
    k.signal = c.signal ∧ c.number < k.number ∧ k.number < m.count ∧ (m.impl k).isSome = true
  parent : ∀ {c d k}, m.cell c = some (.state k) → m.cell d = some (.state k) → c = d
  fresh : ∀ {k : Cell}, m.count ≤ k.number → m.impl k = none ∧ m.cell k = none

theorem Wf.empty : Wf empty := by
  constructor <;> simp [Memory.empty]

/-- What clearing a cell does: below it everything is destroyed, nothing else changes. -/
structure Cleared (m m' : Memory) (c : Cell) : Prop where
  wf : m'.Wf
  count : m'.count = m.count
  dangling : m'.dangling = m.dangling
  here : m'.cell c = none
  implHere : m'.impl c = m.impl c
  other : ∀ d, d ≠ c → m'.cell d = m.cell d ∧ m'.impl d = m.impl d ∨
    d.signal = c.signal ∧ c.number < d.number ∧ m'.cell d = none ∧ m'.impl d = none

variable {m : Memory}

theorem Wf.cleared (w : m.Wf) {n : Nat} {c : Cell} (hn : m.count - c.number ≤ n)
    (hc : c.number < m.count) : Cleared m (m.clear n c) c := by
  induction n generalizing c with
  | zero => omega
  | succ n ih =>
      unfold clear
      cases hcell : m.cell c with
      | none => exact ⟨w, rfl, rfl, hcell, rfl, fun _ _ => Or.inl ⟨rfl, rfl⟩⟩
      | some h =>
          cases h with
          | op o =>
              refine ⟨⟨?_, ?_, ?_⟩, rfl, rfl, by simp, rfl, fun d hd => Or.inl ⟨by simp [hd], rfl⟩⟩
              · intro d k hd
                by_cases hdc : d = c
                · simp [hdc] at hd
                · exact w.holds (by simpa [hdc] using hd)
              · intro d e k hd he
                by_cases hdc : d = c
                · simp [hdc] at hd
                by_cases hec : e = c
                · simp [hec] at he
                · exact w.parent (by simpa [hdc] using hd) (by simpa [hec] using he)
              · intro k hk
                refine ⟨(w.fresh hk).1, ?_⟩
                by_cases hkc : k = c
                · simp [hkc]
                · simpa [hkc] using (w.fresh hk).2
          | state k =>
              dsimp only
              obtain ⟨hsig, hlt, hk, himpl⟩ := w.holds hcell
              have i := ih (c := k) (by omega) hk
              have hck : c ≠ k := by
                rintro rfl
                exact Nat.lt_irrefl _ hlt
              -- the cell itself is not below the state it holds
              have hkeep : (m.clear n k).cell c = m.cell c ∧ (m.clear n k).impl c = m.impl c := by
                rcases i.other c hck with h | ⟨-, hkc, -⟩
                · exact h
                · omega
              have hparent : ∀ {d}, (m.clear n k).cell d = some (.state k) → d = c := fun hd =>
                i.wf.parent hd (hkeep.1.trans hcell)
              refine ⟨⟨?_, ?_, ?_⟩, i.count, i.dangling, by simp, ?_, ?_⟩
              · intro d j hd
                by_cases hdc : d = c
                · simp [hdc] at hd
                have hd' : (m.clear n k).cell d = some (.state j) := by simpa [hdc] using hd
                have hjk : j ≠ k := by
                  rintro rfl
                  exact hdc (hparent hd')
                simpa [hjk] using i.wf.holds hd'
              · intro d e j hd he
                by_cases hdc : d = c
                · simp [hdc] at hd
                by_cases hec : e = c
                · simp [hec] at he
                · exact i.wf.parent (by simpa [hdc] using hd) (by simpa [hec] using he)
              · intro j hj
                have hfresh := i.wf.fresh hj
                by_cases hjc : j = c <;> by_cases hjk : j = k <;> simp [hjc, hjk, hfresh] <;>
                  simp_all
              · simpa [hck] using hkeep.2
              · intro d hd
                by_cases hdk : d = k
                · subst hdk
                  exact Or.inr ⟨hsig, hlt, by simpa [hd] using i.here, by simp⟩
                · rcases i.other d hdk with h | ⟨hs, hl, hcell', himpl'⟩
                  · exact Or.inl (by simpa [hd, hdk] using h)
                  · exact Or.inr ⟨hs.trans hsig, by omega, by simpa [hd] using hcell',
                      by simpa [hdk] using himpl'⟩

/-- A cell that may be used. -/
def Live (m : Memory) (c : Cell) : Prop :=
  c.number < m.count ∧ (c.number = 0 ∨ (m.impl c).isSome = true)

theorem Live.touch {c : Cell} (h : m.Live c) : m.touch c = m := by
  unfold Memory.touch
  rw [if_neg]
  rintro ⟨hne, hnone⟩
  rcases h.2 with h0 | hsome
  · exact hne h0
  · rw [Option.isNone_iff_eq_none] at hnone
    rw [hnone] at hsome
    cases hsome

/-- Only the cell `c`, what is below it and new states have changed. -/
structure Touches (m m' : Memory) (c : Cell) : Prop where
  wf : m'.Wf
  count : m.count ≤ m'.count
  dangling : m'.dangling = m.dangling
  cell : ∀ d, d.signal ≠ c.signal ∨ d.number < c.number → m'.cell d = m.cell d
  impl : ∀ d, d.number < m.count → m'.impl d = m.impl d ∨ m'.impl d = none

theorem Cleared.cell_eq {m' : Memory} {c d : Cell} (h : Cleared m m' c)
    (hd : d.signal ≠ c.signal ∨ d.number < c.number) : m'.cell d = m.cell d := by
  have hne : d ≠ c := by
    rintro rfl
    rcases hd with hd | hd
    · exact hd rfl
    · exact Nat.lt_irrefl _ hd
  rcases h.other d hne with ⟨hcell, -⟩ | ⟨hs, hl, -⟩
  · exact hcell
  · rcases hd with hd | hd
    · exact absurd hs hd
    · omega

theorem Cleared.impl_eq {m' : Memory} {c : Cell} (h : Cleared m m' c) (d : Cell) :
    m'.impl d = m.impl d ∨ m'.impl d = none := by
  by_cases hd : d = c
  · exact Or.inl (hd ▸ h.implHere)
  · rcases h.other d hd with ⟨-, himpl⟩ | ⟨-, -, -, himpl⟩
    · exact Or.inl himpl
    · exact Or.inr himpl

theorem Wf.clear (w : m.Wf) {c : Cell} (hc : m.Live c) : Cleared m (m.clear m.count c) c :=
  w.cleared (Nat.sub_le _ _) hc.1

theorem Wf.touches_clear (w : m.Wf) {c : Cell} (hc : m.Live c) :
    Touches m (m.clear m.count c) c := by
  have h := w.clear hc
  exact ⟨h.wf, Nat.le_of_eq h.count.symm, h.dangling, fun d hd => h.cell_eq hd,
    fun d _ => h.impl_eq d⟩

/-- An operation puts its handler into the cell `c`. -/
theorem Wf.emplace_op (w : m.Wf) {c : Cell} (hc : m.Live c) (o : Nat) :
    Touches m (m.emplace c (.op o)) c ∧ (m.emplace c (.op o)).cell c = some (.op o) := by
  have h := w.clear hc
  unfold emplace
  rw [hc.touch]
  refine ⟨⟨⟨?_, ?_, ?_⟩, Nat.le_of_eq h.count.symm, h.dangling, ?_, fun d _ => h.impl_eq d⟩,
    by simp⟩
  · intro d k hd
    by_cases hdc : d = c
    · simp [hdc] at hd
    · exact h.wf.holds (by simpa [hdc] using hd)
  · intro d e k hd he
    by_cases hdc : d = c
    · simp [hdc] at hd
    by_cases hec : e = c
    · simp [hec] at he
    · exact h.wf.parent (by simpa [hdc] using hd) (by simpa [hec] using he)
  · intro k hk
    have hkc : k ≠ c := by
      rintro rfl
      have hlt := hc.1
      have hcount := h.count
      simp only at hk
      omega
    simpa [hkc] using h.wf.fresh hk
  · intro d hd
    have hdc : d ≠ c := by
      rintro rfl
      rcases hd with hd | hd
      · exact hd rfl
      · exact Nat.lt_irrefl _ hd
    simpa [hdc] using h.cell_eq hd

/-- A state is built on the slot that refers to the cell `c`. -/
theorem Wf.construct (w : m.Wf) {c : Cell} (hc : m.Live c) (f : Station CancellationType) :
    let m' := (m.construct (some c) f).1
    let k : Cell := ⟨c.signal, m.count⟩
    (m.construct (some c) f).2 = some k ∧ Touches m m' c ∧ m'.cell c = some (.state k) ∧
      m'.impl k = some ⟨f, 0⟩ ∧ m'.count = m.count + 1 := by
  have h := w.clear hc
  have hlt : c.number < m.count := hc.1
  have hck : c ≠ ⟨c.signal, m.count⟩ := by
    intro he
    have hn : c.number = m.count := congrArg Cell.number he
    omega
  have hold : ∀ {d j}, (m.clear m.count c).cell d = some (.state j) → j ≠ ⟨c.signal, m.count⟩ := by
    rintro d j hd rfl
    have hj := (h.wf.holds hd).2.2.1
    rw [h.count] at hj
    exact Nat.lt_irrefl _ hj
  simp only [Memory.construct, emplace, hc.touch]
  refine ⟨trivial, ⟨⟨?_, ?_, ?_⟩, ?_, h.dangling, ?_, ?_⟩, by simp, by simp, by simp [h.count]⟩
  · intro d j hd
    by_cases hdc : d = c
    · subst hdc
      obtain rfl : ⟨d.signal, m.count⟩ = j := by simpa using hd
      exact ⟨rfl, hlt, by simp [h.count], by simp⟩
    · have hd' : (m.clear m.count c).cell d = some (.state j) := by simpa [hdc] using hd
      obtain ⟨hs, hl, hj, hsome⟩ := h.wf.holds hd'
      refine ⟨hs, hl, ?_, by simpa [hold hd'] using hsome⟩
      simp only
      omega
  · intro d e j hd he
    by_cases hdc : d = c
    · subst hdc
      obtain rfl : ⟨d.signal, m.count⟩ = j := by simpa using hd
      by_contra hne
      exact hold (by simpa [Ne.symm hne] using he) rfl
    by_cases hec : e = c
    · subst hec
      obtain rfl : ⟨e.signal, m.count⟩ = j := by simpa using he
      exact absurd rfl (hold (by simpa [hdc] using hd))
    · exact h.wf.parent (by simpa [hdc] using hd) (by simpa [hec] using he)
  · intro j hj
    simp only at hj
    have hjk : j ≠ ⟨c.signal, m.count⟩ := by
      rintro rfl
      simp only [h.count] at hj
      omega
    have hjc : j ≠ c := by
      rintro rfl
      rw [h.count] at hj
      omega
    have hfresh := h.wf.fresh (k := j) (by omega)
    simpa [hjk, hjc] using hfresh
  · simp [h.count]
  · intro d hd
    have hdc : d ≠ c := by
      rintro rfl
      rcases hd with hd | hd
      · exact hd rfl
      · exact Nat.lt_irrefl _ hd
    simpa [hdc] using h.cell_eq hd
  · intro d hd
    have hdk : d ≠ ⟨c.signal, m.count⟩ := by
      rintro rfl
      exact Nat.lt_irrefl _ hd
    simpa [hdk] using h.impl_eq d

/-! ## Emissions -/

/-- What an emission on a signal leaves as it was, and what it may change. -/
structure Emitted (m m' : Memory) (signal : Nat) : Prop where
  cell : m'.cell = m.cell
  count : m'.count = m.count
  dangling : m'.dangling = m.dangling
  isSome : ∀ k, (m'.impl k).isSome = (m.impl k).isSome
  filters : ∀ k, (m'.impl k).map Impl.filters = (m.impl k).map Impl.filters
  other : ∀ k : Cell, k.signal ≠ signal → m'.impl k = m.impl k

theorem Emitted.wf {m' : Memory} {g : Nat} (h : Emitted m m' g) (w : m.Wf) : m'.Wf := by
  refine ⟨?_, ?_, ?_⟩
  · intro c k hk
    rw [h.cell] at hk
    rw [h.count, h.isSome]
    exact w.holds hk
  · intro c d k hc hd
    rw [h.cell] at hc hd
    exact w.parent hc hd
  · intro k hk
    rw [h.count] at hk
    have hnone := h.isSome k
    rw [(w.fresh hk).1] at hnone
    exact ⟨by simpa using hnone, by rw [h.cell]; exact (w.fresh hk).2⟩

/-- One state records a type. -/
theorem Emitted.recorded (m : Memory) (k : Cell) (u : CancellationType) :
    Emitted m (m.setCancelled k u) k.signal := by
  refine ⟨rfl, rfl, rfl, ?_, ?_, ?_⟩
  · intro j
    by_cases hj : j = k <;> simp [setCancelled, hj]
  · intro j
    by_cases hj : j = k
    · subst hj
      cases hi : m.impl j <;> simp [setCancelled, hi]
    · simp [setCancelled, hj]
  · intro j hj
    have hjk : j ≠ k := by
      rintro rfl
      exact hj rfl
    simp [setCancelled, hjk]

theorem Emitted.trans {m' m'' : Memory} {g : Nat} (h : Emitted m m' g) (h' : Emitted m' m'' g) :
    Emitted m m'' g :=
  ⟨h'.cell.trans h.cell, h'.count.trans h.count, h'.dangling.trans h.dangling,
    fun k => (h'.isSome k).trans (h.isSome k), fun k => (h'.filters k).trans (h.filters k),
    fun k hk => (h'.other k hk).trans (h.other k hk)⟩

theorem Emitted.refl (m : Memory) (g : Nat) : Emitted m m g :=
  ⟨rfl, rfl, rfl, fun _ => rfl, fun _ => rfl, fun _ _ => rfl⟩

theorem Wf.emit (w : m.Wf) (n : Nat) (c : Cell) (t : CancellationType) :
    Emitted m (m.emit n c t).1 c.signal := by
  induction n generalizing m c t with
  | zero => exact .refl m _
  | succ n ih =>
      unfold Memory.emit
      cases hcell : m.cell c with
      | none => exact .refl m _
      | some h =>
          cases h with
          | op o => exact .refl m _
          | state k =>
              obtain ⟨hsig, -, -, hsome⟩ := w.holds hcell
              obtain ⟨i, hi⟩ := Option.isSome_iff_exists.mp hsome
              have hrec := Emitted.recorded m k (i.filters.input t)
              rw [hsig] at hrec
              simp only [hi]
              split
              · exact hrec
              · have hrest := ih (hrec.wf w) k (i.filters.through t)
                rw [hsig] at hrest
                exact hrec.trans hrest

/-- An emission concerns only states younger than its cell. -/
theorem Wf.emit_above (w : m.Wf) (n : Nat) {c j : Cell} (hj : j.number ≤ c.number)
    (t : CancellationType) : (m.emit n c t).1.impl j = m.impl j := by
  induction n generalizing m c t with
  | zero => rfl
  | succ n ih =>
      unfold Memory.emit
      cases hcell : m.cell c with
      | none => rfl
      | some h =>
          cases h with
          | op o => rfl
          | state k =>
              obtain ⟨-, hlt, -, hsome⟩ := w.holds hcell
              obtain ⟨i, hi⟩ := Option.isSome_iff_exists.mp hsome
              have hrec := Emitted.recorded m k (i.filters.input t)
              have hjk : j ≠ k := by
                rintro rfl
                omega
              have hkeep : (m.setCancelled k (i.filters.input t)).impl j = m.impl j := by
                simp [setCancelled, hjk]
              simp only [hi]
              split
              · exact hkeep
              · exact (ih (hrec.wf w) (by omega) (i.filters.through t)).trans hkeep

/-- The states `ks` are linked, from the cell `c` to the cell `d`. -/
inductive Link (m : Memory) : Cell → List Cell → Cell → Prop
  | here {c : Cell} : Link m c [] c
  | next {c k d : Cell} {ks : List Cell} : m.cell c = some (.state k) → Link m k ks d →
      Link m c (k :: ks) d

theorem Emitted.link {m' : Memory} {g : Nat} (h : Emitted m m' g) {c d : Cell} {ks : List Cell}
    (p : Link m c ks d) : Link m' c ks d := by
  induction p with
  | here => exact .here
  | next hc _ ih => exact .next (by rw [h.cell]; exact hc) ih

theorem Link.snoc {c d k : Cell} {ks : List Cell} (p : Link m c ks d)
    (hd : m.cell d = some (.state k)) : Link m c (ks ++ [k]) k := by
  induction p with
  | here => exact .next hd .here
  | next hc _ ih => exact .next hc (ih hd)

/-- Linked states are younger than the first cell. -/
theorem Link.younger (w : m.Wf) {c d : Cell} {ks : List Cell} (p : Link m c ks d) :
    ∀ k ∈ ks, c.number < k.number := by
  induction p with
  | here => exact fun k hk => by cases hk
  | next hc _ ih =>
      intro k hk
      have hlt := (w.holds hc).2.1
      rcases List.mem_cons.mp hk with rfl | hk
      · exact hlt
      · exact Nat.lt_trans hlt (ih k hk)

/-- There are not more linked states than states. -/
theorem Link.length_lt (w : m.Wf) {c d : Cell} {ks : List Cell} (p : Link m c ks d)
    (hc : c.number < m.count) : c.number + ks.length < m.count := by
  induction p with
  | here => exact hc
  | @next c k d ks hcell _ ih =>
      obtain ⟨-, hlt, hk, -⟩ := w.holds hcell
      have := ih hk
      simp only [List.length_cons]
      omega

/-- A state as a station that a message can reach. -/
def post (m : Memory) (k : Cell) : Option (Post CancellationType) :=
  (m.impl k).map fun i => ⟨i.filters, i.cancelled⟩

/-- A state that records a type is the only one to change. -/
theorem post_setCancelled (m : Memory) {k j : Cell} (h : j ≠ k) (u : CancellationType) :
    (m.setCancelled k u).post j = m.post j := by
  simp [post, setCancelled, h]

/-- **An emission follows the link**: the states that it reaches record what they make of it, and an
    operation at the end is called with what they hand on. -/
theorem Link.emit (w : m.Wf) {n : Nat} {c d : Cell} {ks : List Cell} (p : Link m c ks d)
    (hn : ks.length < n) (t : CancellationType) :
    ks.map (m.emit n c t).1.post = receive 0 (ks.map m.post) t ∧
      ∀ o, m.cell d = some (.op o) →
        (m.emit n c t).2 = ((relayed 0 (ks.map m.post) t).map (o, ·)).toList := by
  induction n generalizing m c ks t with
  | zero => omega
  | succ n ih =>
      cases p with
      | here =>
          refine ⟨rfl, fun o ho => ?_⟩
          simp [Memory.emit, ho, relayed]
      | @next _ k _ ks hc p =>
          obtain ⟨-, hlt, -, hsome⟩ := w.holds hc
          obtain ⟨i, hi⟩ := Option.isSome_iff_exists.mp hsome
          have hrec := Emitted.recorded m k (i.filters.input t)
          have hnot : k ∉ ks := fun hk => Nat.lt_irrefl _ (p.younger w k hk)
          have hpost : m.post k = some ⟨i.filters, i.cancelled⟩ := by simp [post, hi]
          have hown : (m.setCancelled k (i.filters.input t)).post k =
              some ⟨i.filters, i.filters.input t⟩ := by
            simp [post, setCancelled, hi]
          have hothers :
              ks.map (m.setCancelled k (i.filters.input t)).post = ks.map m.post := by
            refine List.map_congr_left fun j hj => m.post_setCancelled ?_ _
            rintro rfl
            exact hnot hj
          unfold Memory.emit
          simp only [hc, hi, List.map_cons, hpost, receive, relayed]
          by_cases hstop : i.filters.through t = 0
          · simp only [if_pos hstop, hown, hothers]
            exact ⟨trivial, fun _ _ => rfl⟩
          · simp only [if_neg hstop]
            obtain ⟨hreads, hcalls⟩ := ih (hrec.wf w) (hrec.link p)
              (by simpa using hn) (i.filters.through t)
            rw [hothers] at hreads hcalls
            refine ⟨?_, fun o ho => hcalls o (by rw [hrec.cell]; exact ho)⟩
            -- the rest of the emission concerns younger states only
            have hkeep := (hrec.wf w).emit_above n (Nat.le_refl k.number) (i.filters.through t)
            rw [hreads, Memory.post, hkeep, ← Memory.post, hown]

end Memory

end WebAsio.Asio.Signals
