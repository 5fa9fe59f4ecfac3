import WebAsio.Library.Transition
import Mathlib.Data.List.Basic
import Mathlib.Data.List.Nodup
import Mathlib.Logic.Function.Basic
import Mathlib.Order.Basic

set_option autoImplicit false

/-! # `multicast_cancellation`: emitting to a registry that changes meanwhile

A group keeps pointers to its signals in a `std::vector`; signals register on construction and
deregister on destruction. `emit` walks the vector with a range-based `for`, whose iterators are
fixed before the first handler is called, while the handlers may construct and destroy signals.

The vector is modelled with its storage: an iterator is a position in one allocated block, erasing
shifts the elements behind the erased one and leaves the old values beyond the new end, and
`push_back` moves to another block when there is no spare room. `grow n` is the capacity of the
block that is allocated when one of `n` elements is full. Signals are numbered in the order of their
construction. -/

namespace WebAsio.Coro.Multicast

open Transition

variable {T : Type}

/-- A `std::vector<signal*>`: the block allocated, the elements, and what is in the room behind
    them. -/
structure Vec where
  block : Nat
  elements : List Nat
  spare : List Nat
  deriving DecidableEq, Repr

namespace Vec

/-- `push_back`; `fresh` is the block to be allocated next. -/
def pushBack (grow : Nat → Nat) (fresh : Nat) (v : Vec) (x : Nat) : Vec :=
  match v.spare with
  | _ :: rest => ⟨v.block, v.elements ++ [x], rest⟩
  | [] =>
    ⟨fresh, v.elements ++ [x], List.replicate (grow v.elements.length - v.elements.length - 1) 0⟩

/-- `std::erase`: the elements that are kept are moved to the front, and those beyond the new end
    keep their values. -/
def erase (v : Vec) (x : Nat) : Vec :=
  let kept := v.elements.filter (· ≠ x)
  ⟨v.block, kept, v.elements.drop kept.length ++ v.spare⟩

/-- Dereferencing the iterator at position `k`. -/
def read (v : Vec) (k : Nat) : Option Nat := (v.elements ++ v.spare)[k]?

end Vec

/-- A `multicast_cancellation::signal` that was constructed. -/
structure Signal where
  group : Nat
  alive : Bool
  deriving DecidableEq, Repr

/-- A dispatched `emit_signal`: the type and whether `signals_` was non-null when it was copied. The
    signals registered at that moment are recorded beside it. -/
structure Task (T : Type) where
  group : Nat
  type : T
  captured : Bool
  registered : List Nat
  deriving DecidableEq

/-- The groups' `signals_`, the signals made so far, and the emissions dispatched but not run. -/
structure State (T : Type) where
  registry : Nat → Option Vec
  signal : Nat → Option Signal
  count : Nat
  blocks : Nat
  pending : List (Task T)

/-- What a handler may do while it is called. -/
inductive Op
  | construct (g : Nat)
  | destroy (x : Nat)
  deriving DecidableEq, Repr

/-- What an emission did: the signals that received it, the destroyed ones whose memory it used, and
    whether it read storage that had been freed. -/
structure Report (T : Type) where
  hits : List (Nat × T)
  dead : List Nat
  fault : Bool
  deriving DecidableEq

namespace State

def empty : State T := ⟨fun _ => none, fun _ => none, 0, 1, []⟩

/-- The vector of a group; `get` makes an empty one, without storage, when there is none. -/
def vec (s : State T) (g : Nat) : Vec := (s.registry g).getD ⟨0, [], []⟩

def setVec (s : State T) (g : Nat) (v : Vec) : State T :=
  { s with registry := Function.update s.registry g (some v) }

/-- The signal is registered with the group `g` and was not destroyed. -/
def Live (s : State T) (g x : Nat) : Prop := s.signal x = some ⟨g, true⟩

instance (s : State T) (g x : Nat) : Decidable (s.Live g x) := by
  unfold Live
  infer_instance

variable (grow : Nat → Nat)

/-- The constructor of a signal: `signals_->push_back(this)`. -/
def construct (s : State T) (g : Nat) : State T :=
  { s.setVec g ((s.vec g).pushBack grow s.blocks s.count) with
    signal := Function.update s.signal s.count (some ⟨g, true⟩)
    count := s.count + 1
    blocks := s.blocks + 1 }

/-- The destructor of a signal: `std::erase(*signals_, this)`. -/
def destroy (s : State T) (x : Nat) : State T :=
  match s.signal x with
  | some ⟨g, true⟩ =>
    { s.setVec g ((s.vec g).erase x) with
      signal := Function.update s.signal x (some ⟨g, false⟩) }
  | _ => s

def perform (s : State T) : Op → State T
  | .construct g => s.construct grow g
  | .destroy x => s.destroy x

def performAll (s : State T) : List Op → State T := List.foldl (State.perform grow) s

/-- The loop `for (auto& sig : *signals_) sig->emit(type)` from position `k` on, over `m` more
    positions of the block `b`. The handler called at position `k` performs `script k`. -/
def loop (g b : Nat) (t : T) (script : Nat → List Op) :
    Nat → Nat → State T → Report T → State T × Report T
  | _, 0, s, r => (s, r)
  | k, m + 1, s, r =>
    if (s.vec g).block ≠ b then (s, { r with fault := true })
    else match (s.vec g).read k with
    | none => (s, { r with fault := true })
    | some x =>
      if s.Live g x then
        loop g b t script (k + 1) m (s.performAll grow (script k))
          { r with hits := r.hits ++ [(x, t)] }
      else loop g b t script (k + 1) m s { r with dead := r.dead ++ [x] }

/-- `emit`, and the body of `emit_signal`. -/
def emit (s : State T) (g : Nat) (t : T) (script : Nat → List Op) : State T × Report T :=
  match s.registry g with
  | none => (s, ⟨[], [], false⟩)
  | some v => State.loop grow g v.block t script 0 v.elements.length s ⟨[], [], false⟩

/-- The overload of `emit` that takes an executor. -/
def emitVia (s : State T) (g : Nat) (t : T) : State T :=
  { s with pending := s.pending ++ [⟨g, t, (s.registry g).isSome, (s.vec g).elements⟩] }

/-- `emit_signal::operator()`: `if (!signals_) return`. -/
def serve (s : State T) (k : Task T) (script : Nat → List Op) : State T × Report T :=
  if k.captured then s.emit grow k.group k.type script else (s, ⟨[], [], false⟩)

end State

/-! ## Runs -/

inductive Action (T : Type)
  | construct (g : Nat)
  | destroy (x : Nat)
  | emit (g : Nat) (t : T) (script : Nat → List Op)
  | emitVia (g : Nat) (t : T)
  /-- an executor runs the dispatched emission at position `n` -/
  | serve (n : Nat) (script : Nat → List Op)

namespace State

def Enabled (s : State T) : Action T → Prop
  | .destroy x => ∃ σ ∈ s.signal x, σ.alive = true
  | .serve n _ => n < s.pending.length
  | _ => True

instance (s : State T) (a : Action T) : Decidable (s.Enabled a) := by
  cases a <;> unfold Enabled <;> infer_instance

/-- The dispatched emission leaves the queue of its executor. -/
def take (s : State T) (n : Nat) : State T := { s with pending := s.pending.eraseIdx n }

variable (grow : Nat → Nat)

def next (s : State T) : Action T → State T
  | .construct g => s.construct grow g
  | .destroy x => s.destroy x
  | .emit g t script => (s.emit grow g t script).1
  | .emitVia g t => s.emitVia g t
  | .serve n script =>
    match s.pending[n]? with
    | none => s
    | some k => ((s.take n).serve grow k script).1

end State

def machine (grow : Nat → Nat) : System (State T) (Action T) :=
  ⟨State.Enabled, State.next grow⟩

instance (grow : Nat → Nat) (s : State T) (a : Action T) :
    Decidable ((machine grow).enabled s a) :=
  inferInstanceAs (Decidable (s.Enabled a))

namespace State

/-- Every registry lists the living signals of its group in the order of their construction. -/
structure Registered (s : State T) : Prop where
  ordered : ∀ g, (s.vec g).elements.Pairwise (· < ·)
  listed : ∀ g x, x ∈ (s.vec g).elements ↔ s.Live g x

/-- The emission of `t` on group `g`, from `s` to `s'`, was complete and exact for the signals in
    `xs`. -/
structure Exact (s' : State T) (g : Nat) (t : T) (xs : List Nat) (r : Report T) : Prop where
  complete : ∀ x ∈ xs, s'.Live g x → (r.hits.map Prod.fst).count x = 1
  typed : ∀ h ∈ r.hits, h.2 = t
  dead : r.dead = []
  fault : r.fault = false

variable (grow : Nat → Nat)

/-- An emission reaches every signal that is registered from its beginning to its end exactly once;
    one that is dispatched begins when it is dispatched. -/
def EmitsExactly (s : State T) : Action T → Prop
  | .emit g t script =>
      (s.next grow (.emit g t script)).Exact g t (s.vec g).elements (s.emit grow g t script).2
  | .serve n script => ∀ k ∈ s.pending[n]?,
      (s.next grow (.serve n script)).Exact k.group k.type k.registered
        ((s.take n).serve grow k script).2
  | _ => True

/-- What the handlers do at all positions but the last one. -/
def early (s : State T) (g : Nat) (script : Nat → List Op) : List Op :=
  (List.range ((s.vec g).elements.length - 1)).flatMap script

/-- No handler but the last one called destroys a signal that was registered when the loop began,
    or registers so many that the vector is reallocated. -/
def Steady (s : State T) (g : Nat) (script : Nat → List Op) : Prop :=
  (∀ x ∈ (s.vec g).elements, Op.destroy x ∉ s.early g script) ∧
    ((s.performAll grow (s.early g script)).vec g).block = (s.vec g).block

instance (s : State T) (g : Nat) (script : Nat → List Op) : Decidable (s.Steady grow g script) := by
  unfold Steady
  infer_instance

/-- The emissions of a step are steady. -/
def EmitsSteadily (s : State T) : Action T → Prop
  | .emit g _ script => s.Steady grow g script
  | .serve n script => ∀ k ∈ s.pending[n]?, k.captured = true →
    (s.take n).Steady grow k.group script
  | _ => True

instance (s : State T) (a : Action T) : Decidable (s.EmitsSteadily grow a) := by
  cases a <;> unfold EmitsSteadily <;> infer_instance

/-! ## The registry -/

theorem setVec_vec (s : State T) (g h : Nat) (v : Vec) :
    (s.setVec g v).vec h = if h = g then v else s.vec h := by
  unfold vec setVec
  simp only [Function.update_apply]
  split_ifs <;> rfl

theorem pushBack_elements (grow : Nat → Nat) (fresh : Nat) (v : Vec) (x : Nat) :
    (v.pushBack grow fresh x).elements = v.elements ++ [x] := by
  unfold Vec.pushBack
  cases v.spare <;> rfl

theorem pushBack_block (grow : Nat → Nat) (fresh : Nat) (v : Vec) (x : Nat) :
    (v.pushBack grow fresh x).block = v.block ∨ (v.pushBack grow fresh x).block = fresh := by
  unfold Vec.pushBack
  cases v.spare
  · exact Or.inr rfl
  · exact Or.inl rfl

theorem construct_elements (s : State T) (g h : Nat) :
    ((s.construct grow g).vec h).elements =
      if h = g then (s.vec g).elements ++ [s.count] else (s.vec h).elements := by
  show ((s.setVec g _).vec h).elements = _
  rw [setVec_vec]
  split_ifs
  · exact pushBack_elements ..
  · rfl

theorem destroy_eq {s : State T} {g x : Nat} (hx : s.Live g x) :
    s.destroy x = { s.setVec g ((s.vec g).erase x) with
      signal := Function.update s.signal x (some ⟨g, false⟩) } := by
  unfold destroy
  rw [show s.signal x = some ⟨g, true⟩ from hx]

theorem destroy_dead {s : State T} {x : Nat} (hx : ∀ g, ¬ s.Live g x) : s.destroy x = s := by
  unfold destroy
  split
  · next g h => exact absurd h (hx g)
  · rfl

theorem destroy_elements {s : State T} {g x : Nat} (hx : s.Live g x) (h : Nat) :
    ((s.destroy x).vec h).elements =
      if h = g then (s.vec g).elements.filter (· ≠ x) else (s.vec h).elements := by
  rw [destroy_eq hx]
  show ((s.setVec g _).vec h).elements = _
  rw [setVec_vec]
  split_ifs <;> rfl

/-- The invariant of all runs. -/
structure Sound (s : State T) : Prop where
  registered : s.Registered
  numbered : ∀ x g, s.Live g x → x < s.count
  allocated : ∀ g, (s.vec g).block < s.blocks
  recorded : ∀ k ∈ s.pending, ∀ x ∈ k.registered, x < s.count
  captured : ∀ k ∈ s.pending, k.captured = false → k.registered = []

theorem Sound.empty : Sound (empty : State T) := by
  refine ⟨⟨fun g => List.Pairwise.nil, fun g x => ?_⟩, ?_, fun g => Nat.zero_lt_one, ?_, ?_⟩
  · constructor
    · intro h
      cases h
    · intro h
      cases h
  · intro x g h
    cases h
  · intro k hk
    cases hk
  · intro k hk
    cases hk

theorem Sound.mem_lt {s : State T} (hs : Sound s) {g x : Nat} (hx : x ∈ (s.vec g).elements) :
    x < s.count :=
  hs.numbered x g ((hs.registered.listed g x).mp hx)

theorem construct_live {s : State T} (g h x : Nat) :
    (s.construct grow g).Live h x ↔ if x = s.count then h = g else s.Live h x := by
  unfold Live construct
  simp only [Function.update_apply]
  split_ifs
  · simp only [Option.some.injEq, Signal.mk.injEq, and_true, eq_comm]
  · rfl

theorem Sound.construct {s : State T} (hs : Sound s) (g : Nat) : Sound (s.construct grow g) := by
  have hnew : ∀ h, ¬ s.Live h s.count := fun h hl => Nat.lt_irrefl _ (hs.numbered _ h hl)
  refine ⟨⟨fun h => ?_, fun h x => ?_⟩, fun x h hx => ?_, fun h => ?_, fun k hk x hx => ?_,
    hs.captured⟩
  · rw [construct_elements]
    split_ifs with hg
    · refine List.pairwise_append.mpr ⟨hs.registered.ordered g, List.pairwise_singleton _ _, ?_⟩
      intro a ha b hb
      rw [List.mem_singleton.mp hb]
      exact hs.mem_lt ha
    · exact hs.registered.ordered h
  · rw [construct_elements, construct_live]
    split_ifs with hg hx hx
    · simp [hg, hx]
    · subst hg
      rw [List.mem_append, List.mem_singleton, or_iff_left hx]
      exact hs.registered.listed h x
    · subst hx
      exact iff_of_false (fun h' => hnew h ((hs.registered.listed h _).mp h')) hg
    · exact hs.registered.listed h x
  · show x < s.count + 1
    rw [construct_live] at hx
    split_ifs at hx with hc
    · omega
    · exact Nat.lt_succ_of_lt (hs.numbered x h hx)
  · show ((s.setVec g _).vec h).block < s.blocks + 1
    rw [setVec_vec]
    split_ifs
    · rcases pushBack_block grow s.blocks (s.vec g) s.count with hb | hb
      · have := hs.allocated g
        omega
      · omega
    · exact Nat.lt_succ_of_lt (hs.allocated h)
  · exact Nat.lt_succ_of_lt (hs.recorded k hk x hx)

theorem destroy_live {s : State T} {g x : Nat} (hx : s.Live g x) (h y : Nat) :
    (s.destroy x).Live h y ↔ y ≠ x ∧ s.Live h y := by
  rw [destroy_eq hx]
  unfold Live
  simp only [Function.update_apply]
  split_ifs with hy
  · simp [hy]
  · exact ⟨fun h => ⟨hy, h⟩, fun h => h.2⟩

theorem Sound.destroy {s : State T} (hs : Sound s) (x : Nat) : Sound (s.destroy x) := by
  by_cases hx : ∃ g, s.Live g x
  · obtain ⟨g, hx⟩ := hx
    have hcount : (s.destroy x).count = s.count := by rw [destroy_eq hx]; rfl
    have hpending : (s.destroy x).pending = s.pending := by rw [destroy_eq hx]; rfl
    refine ⟨⟨fun h => ?_, fun h y => ?_⟩, fun y h hy => ?_, fun h => ?_, ?_, ?_⟩
    · rw [destroy_elements hx]
      split_ifs
      · exact (hs.registered.ordered g).filter _
      · exact hs.registered.ordered h
    · rw [destroy_elements hx, destroy_live hx]
      split_ifs with hg
      · subst hg
        rw [List.mem_filter, hs.registered.listed h y, decide_eq_true_iff, and_comm]
      · rw [hs.registered.listed h y]
        refine ⟨fun hy => ⟨?_, hy⟩, fun hy => hy.2⟩
        rintro rfl
        have hgh : some (⟨h, true⟩ : Signal) = some ⟨g, true⟩ := hy.symm.trans hx
        cases hgh
        exact hg rfl
    · rw [hcount]
      exact hs.numbered y h ((destroy_live hx h y).mp hy).2
    · rw [destroy_eq hx]
      show ((s.setVec g _).vec h).block < s.blocks
      rw [setVec_vec]
      split_ifs
      · exact hs.allocated g
      · exact hs.allocated h
    · rw [hcount, hpending]
      exact hs.recorded
    · rw [hpending]
      exact hs.captured
  · rw [destroy_dead fun g hg => hx ⟨g, hg⟩]
    exact hs

theorem Sound.perform {s : State T} (hs : Sound s) (op : Op) : Sound (s.perform grow op) := by
  cases op with
  | construct g => exact hs.construct grow g
  | destroy x => exact hs.destroy x

theorem Sound.performAll {s : State T} (hs : Sound s) (ops : List Op) :
    Sound (s.performAll grow ops) := by
  induction ops generalizing s with
  | nil => exact hs
  | cons op ops ih => exact ih (hs.perform grow op)

/-! ## What the handlers do to the vector under the loop -/

theorem performAll_append (s : State T) (as bs : List Op) :
    s.performAll grow (as ++ bs) = (s.performAll grow as).performAll grow bs :=
  List.foldl_append ..

theorem loop_state (g b : Nat) (t : T) (script : Nat → List Op) (m : Nat) :
    ∀ (k : Nat) (s : State T) (r : Report T),
      ∃ ops, (State.loop grow g b t script k m s r).1 = s.performAll grow ops := by
  induction m with
  | zero => exact fun k s r => ⟨[], rfl⟩
  | succ m ih =>
      intro k s r
      unfold State.loop
      split_ifs
      · exact ⟨[], rfl⟩
      · cases (s.vec g).read k with
        | none => exact ⟨[], rfl⟩
        | some x =>
            simp only
            split_ifs
            · obtain ⟨ops, h⟩ := ih (k + 1) (s.performAll grow (script k))
                { r with hits := r.hits ++ [(x, t)] }
              exact ⟨script k ++ ops, by rw [h, performAll_append]⟩
            · exact ih (k + 1) s _

theorem emit_state (s : State T) (g : Nat) (t : T) (script : Nat → List Op) :
    ∃ ops, (s.emit grow g t script).1 = s.performAll grow ops := by
  unfold emit
  cases s.registry g with
  | none => exact ⟨[], rfl⟩
  | some v => exact loop_state grow g v.block t script _ 0 s _

theorem serve_state (s : State T) (k : Task T) (script : Nat → List Op) :
    ∃ ops, (s.serve grow k script).1 = s.performAll grow ops := by
  unfold serve
  split_ifs
  · exact emit_state grow s k.group k.type script
  · exact ⟨[], rfl⟩

/-- A signal that is alive after some operations, and was constructed before them, was alive. -/
theorem Sound.live_of_performAll {s : State T} (hs : Sound s) {ops : List Op} {g x : Nat}
    (hx : x < s.count) (h : (s.performAll grow ops).Live g x) : s.Live g x := by
  induction ops generalizing s with
  | nil => exact h
  | cons op ops ih =>
      cases op with
      | construct g' =>
          have hlive := ih (hs.construct grow g') (Nat.lt_succ_of_lt hx) h
          rwa [construct_live, if_neg (Nat.ne_of_lt hx)] at hlive
      | destroy y =>
          by_cases hy : ∃ g', s.Live g' y
          · obtain ⟨g', hy⟩ := hy
            have hcount : (s.destroy y).count = s.count := by rw [destroy_eq hy]; rfl
            exact ((destroy_live hy g x).mp (ih (hs.destroy y) (hcount ▸ hx) h)).2
          · have hdead := destroy_dead fun g' hg => hy ⟨g', hg⟩
            exact ih hs hx (by rwa [← hdead])

/-- Unless one of them is destroyed, the first elements of a vector stay where they are. -/
theorem prefix_performAll {g : Nat} {xs : List Nat} {ops : List Op}
    (hops : ∀ x ∈ xs, Op.destroy x ∉ ops) {s : State T} (h : xs <+: (s.vec g).elements) :
    xs <+: ((s.performAll grow ops).vec g).elements := by
  induction ops generalizing s with
  | nil => exact h
  | cons op ops ih =>
      refine ih (fun x hx hmem => hops x hx (List.mem_cons_of_mem _ hmem)) ?_
      cases op with
      | construct g' =>
          rw [show (s.perform grow (.construct g')).vec g = (s.construct grow g').vec g from rfl,
            construct_elements]
          split_ifs with hg
          · subst hg
            exact h.trans (List.prefix_append _ _)
          · exact h
      | destroy y =>
          show xs <+: ((s.destroy y).vec g).elements
          by_cases hy : ∃ g', s.Live g' y
          · obtain ⟨g', hy⟩ := hy
            rw [destroy_elements hy]
            split_ifs with hg
            · subst hg
              have hne : ∀ x ∈ xs, x ≠ y := fun x hx hxy =>
                hops x hx (hxy ▸ List.mem_cons_self)
              have := h.filter (· ≠ y)
              rwa [List.filter_eq_self.mpr fun x hx => decide_eq_true (hne x hx)] at this
            · exact h
          · rw [destroy_dead fun g' hg => hy ⟨g', hg⟩]
            exact h

/-- Operations leave a vector in its block or move it to one allocated meanwhile. -/
theorem block_performAll (g : Nat) (ops : List Op) :
    ∀ s : State T, s.blocks ≤ (s.performAll grow ops).blocks ∧
      (((s.performAll grow ops).vec g).block = (s.vec g).block ∨
        s.blocks ≤ ((s.performAll grow ops).vec g).block) := by
  induction ops with
  | nil => exact fun s => ⟨Nat.le_refl _, Or.inl rfl⟩
  | cons op ops ih =>
      intro s
      obtain ⟨hblocks, hblock⟩ := ih (s.perform grow op)
      have hop : s.blocks ≤ (s.perform grow op).blocks ∧
          (((s.perform grow op).vec g).block = (s.vec g).block ∨
            s.blocks ≤ ((s.perform grow op).vec g).block) := by
        cases op with
        | construct g' =>
            refine ⟨Nat.le_succ _, ?_⟩
            show ((s.setVec g' _).vec g).block = _ ∨ s.blocks ≤ ((s.setVec g' _).vec g).block
            rw [setVec_vec]
            split_ifs with hg
            · rw [hg]
              exact (pushBack_block grow s.blocks (s.vec g') s.count).imp_right
                fun h => Nat.le_of_eq h.symm
            · exact Or.inl rfl
        | destroy y =>
            show s.blocks ≤ (s.destroy y).blocks ∧ _
            by_cases hy : ∃ g', s.Live g' y
            · obtain ⟨g', hy⟩ := hy
              rw [show s.perform grow (.destroy y) = s.destroy y from rfl, destroy_eq hy]
              refine ⟨Nat.le_refl _, Or.inl ?_⟩
              show ((s.setVec g' _).vec g).block = _
              rw [setVec_vec]
              split_ifs with hg
              · rw [hg]
                rfl
              · rfl
            · rw [show s.perform grow (.destroy y) = s.destroy y from rfl,
                destroy_dead fun g' hg => hy ⟨g', hg⟩]
              exact ⟨Nat.le_refl _, Or.inl rfl⟩
      refine ⟨Nat.le_trans hop.1 hblocks, ?_⟩
      show ((State.performAll grow (s.perform grow op) ops).vec g).block = _ ∨
        _ ≤ ((State.performAll grow (s.perform grow op) ops).vec g).block
      omega

/-- A vector that is still in its block was never moved. -/
theorem Sound.block_eq {s : State T} (hs : Sound s) {g : Nat} {as bs : List Op}
    (h : ((s.performAll grow (as ++ bs)).vec g).block = (s.vec g).block) :
    ((s.performAll grow as).vec g).block = (s.vec g).block := by
  rw [performAll_append] at h
  have hlt := hs.allocated g
  obtain ⟨hle, ha⟩ := block_performAll grow g as s
  obtain ⟨_, hb⟩ := block_performAll grow g bs (s.performAll grow as)
  have := (hs.performAll grow as).allocated g
  omega

/-! ## Steady emissions -/

/-- The state in which the loop is at position `k`. -/
def before (s : State T) (script : Nat → List Op) (k : Nat) : State T :=
  s.performAll grow ((List.range k).flatMap script)

theorem before_succ (s : State T) (script : Nat → List Op) (k : Nat) :
    s.before grow script (k + 1) = (s.before grow script k).performAll grow (script k) := by
  unfold before
  rw [List.range_succ, List.flatMap_append, performAll_append]
  simp

theorem range_prefix {k n : Nat} (h : k ≤ n) : List.range k <+: List.range n := by
  obtain ⟨m, rfl⟩ := Nat.exists_eq_add_of_le h
  rw [List.range_add]
  exact List.prefix_append _ _

/-- While the loop has not passed the last position, its iterators are valid and what they refer to
    is in its place. -/
theorem Steady.at_position {s : State T} (hs : Sound s) {g : Nat} {script : Nat → List Op}
    (h : s.Steady grow g script) {k : Nat} (hk : k < (s.vec g).elements.length) :
    ((s.before grow script k).vec g).block = (s.vec g).block ∧
      (s.vec g).elements <+: ((s.before grow script k).vec g).elements := by
  obtain ⟨rest, hrest⟩ := range_prefix (show k ≤ (s.vec g).elements.length - 1 by omega)
  have hearly : s.early g script = (List.range k).flatMap script ++ rest.flatMap script := by
    unfold early
    rw [← hrest, List.flatMap_append]
  have hblock := h.2
  rw [hearly] at hblock
  refine ⟨hs.block_eq grow hblock, prefix_performAll grow (fun x hx hmem => h.1 x hx ?_)
    (List.prefix_refl _)⟩
  rw [hearly]
  exact List.mem_append_left _ hmem

theorem Steady.loop {s : State T} (hs : Sound s) {g : Nat} {script : Nat → List Op} (t : T)
    (h : s.Steady grow g script) (m : Nat) :
    ∀ (k : Nat) (r : Report T), k + m = (s.vec g).elements.length →
      (State.loop grow g (s.vec g).block t script k m (s.before grow script k) r).2 =
        { r with hits := r.hits ++ ((s.vec g).elements.drop k).map (·, t) } := by
  induction m with
  | zero =>
      intro k r hk
      rw [List.drop_eq_nil_of_le (by omega)]
      simp [State.loop]
  | succ m ih =>
      intro k r hk
      have hlt : k < (s.vec g).elements.length := by omega
      obtain ⟨hblock, hpre⟩ := h.at_position grow hs hlt
      have hsound : Sound (s.before grow script k) := hs.performAll grow _
      -- the iterator refers to the signal that was there when the loop began
      have hread : ((s.before grow script k).vec g).read k = some (s.vec g).elements[k] := by
        obtain ⟨more, hmore⟩ := hpre
        rw [Vec.read, ← hmore, List.append_assoc, List.getElem?_append_left hlt,
          List.getElem?_eq_getElem hlt]
      have hlive : (s.before grow script k).Live g (s.vec g).elements[k] :=
        (hsound.registered.listed g _).mp (hpre.subset (List.getElem_mem hlt))
      unfold State.loop
      rw [if_neg (not_not_intro hblock), hread]
      simp only [if_pos hlive]
      rw [← before_succ, ih (k + 1) _ (by omega), List.drop_eq_getElem_cons hlt]
      simp only [List.map_cons, List.append_assoc, List.singleton_append]

theorem Steady.emit {s : State T} (hs : Sound s) {g : Nat} {script : Nat → List Op} (t : T)
    (h : s.Steady grow g script) :
    (s.emit grow g t script).2 = ⟨(s.vec g).elements.map (·, t), [], false⟩ := by
  unfold State.emit
  cases hg : s.registry g with
  | none => simp [vec, hg]
  | some v =>
      have hv : s.vec g = v := by rw [vec, hg]; rfl
      have := h.loop grow hs t (s.vec g).elements.length 0 ⟨[], [], false⟩ (Nat.zero_add _)
      rw [hv] at this ⊢
      rw [show s.before grow script 0 = s from rfl] at this
      rw [this]
      simp

/-- A steady emission is exact for the signals registered at any time before it. -/
theorem Steady.exact {s : State T} (hs : Sound s) {g : Nat} {script : Nat → List Op} {t : T}
    (h : s.Steady grow g script) {xs : List Nat} (hxs : ∀ x ∈ xs, x < s.count) :
    (s.emit grow g t script).1.Exact g t xs (s.emit grow g t script).2 := by
  rw [h.emit grow hs]
  refine ⟨fun x hx hlive => ?_, fun p hp => ?_, rfl, rfl⟩
  · obtain ⟨ops, hops⟩ := emit_state grow s g t script
    rw [hops] at hlive
    have hmem := (hs.registered.listed g x).mpr (hs.live_of_performAll grow (hxs x hx) hlive)
    have hmap : ((s.vec g).elements.map (·, t)).map Prod.fst = (s.vec g).elements := by
      rw [List.map_map]
      exact List.map_id _
    rw [hmap]
    exact List.count_eq_one_of_mem
      ((hs.registered.ordered g).imp fun hab => Nat.ne_of_lt hab) hmem
  · obtain ⟨x, _, rfl⟩ := List.mem_map.mp hp
    rfl

/-! ## Runs -/

theorem Sound.take {s : State T} (hs : Sound s) (n : Nat) : Sound (s.take n) :=
  ⟨⟨hs.registered.ordered, hs.registered.listed⟩, hs.numbered, hs.allocated,
    fun k hk => hs.recorded k (List.mem_of_mem_eraseIdx hk),
    fun k hk => hs.captured k (List.mem_of_mem_eraseIdx hk)⟩

theorem Sound.emitVia {s : State T} (hs : Sound s) (g : Nat) (t : T) : Sound (s.emitVia g t) := by
  refine ⟨⟨hs.registered.ordered, hs.registered.listed⟩, hs.numbered, hs.allocated, ?_, ?_⟩
  · intro k hk x hx
    rcases List.mem_append.mp hk with hk | hk
    · exact hs.recorded k hk x hx
    · rw [List.mem_singleton.mp hk] at hx
      exact hs.mem_lt hx
  · intro k hk hc
    rcases List.mem_append.mp hk with hk | hk
    · exact hs.captured k hk hc
    · rw [List.mem_singleton.mp hk] at hc ⊢
      have hnone : s.registry g = none :=
        Option.isSome_eq_false_iff.mp hc |> Option.isNone_iff_eq_none.mp
      show (s.vec g).elements = []
      rw [vec, hnone]
      rfl

theorem next_serve {s : State T} {n : Nat} {k : Task T} (hk : s.pending[n]? = some k)
    (script : Nat → List Op) :
    s.next grow (.serve n script) = ((s.take n).serve grow k script).1 := by
  simp only [next, hk]

theorem next_serve_none {s : State T} {n : Nat} (hn : s.pending[n]? = none)
    (script : Nat → List Op) : s.next grow (.serve n script) = s := by
  simp only [next, hn]

theorem Sound.step {s : State T} (hs : Sound s) (a : Action T) : Sound (s.next grow a) := by
  cases a with
  | construct g => exact hs.construct grow g
  | destroy x => exact hs.destroy x
  | emit g t script =>
      obtain ⟨ops, h⟩ := emit_state grow s g t script
      rw [show s.next grow (.emit g t script) = _ from h]
      exact hs.performAll grow ops
  | emitVia g t => exact hs.emitVia g t
  | serve n script =>
      cases hk : s.pending[n]? with
      | none =>
          rw [next_serve_none grow hk]
          exact hs
      | some k =>
          obtain ⟨ops, h⟩ := serve_state grow (s.take n) k script
          rw [next_serve grow hk, h]
          exact (hs.take n).performAll grow ops

theorem Sound.emitsExactly {s : State T} (hs : Sound s) {a : Action T}
    (h : s.EmitsSteadily grow a) : s.EmitsExactly grow a := by
  cases a with
  | emit g t script => exact h.exact grow hs fun x hx => hs.mem_lt hx
  | serve n script =>
      intro k hk
      have hmem : k ∈ s.pending := List.mem_of_getElem? hk
      rw [next_serve grow hk]
      unfold serve
      split_ifs with hc
      · exact (h k hk hc).exact grow (hs.take n) (hs.recorded k hmem)
      · rw [hs.captured k hmem (by simpa using hc)]
        exact ⟨nofun, nofun, rfl, rfl⟩
  | construct g => trivial
  | destroy x => trivial
  | emitVia g t => trivial

end State

/-- In a run whose emissions are steady, every emission is complete and exact, and after every step
    the registries list the living signals in the order of their construction. -/
theorem emission_exact (grow : Nat → Nat) {as : List (Action T)} {s : State T}
    (h : Run (machine grow) State.empty as s)
    (hp : Along (machine grow) (State.EmitsSteadily grow) State.empty as) :
    Along (machine grow) (fun s a => s.EmitsExactly grow a ∧ (s.next grow a).Registered)
      State.empty as := by
  refine h.along hp State.Sound.empty (fun s a hs _ ha => ?_) fun s a hs _ _ => hs.step grow a
  exact ⟨hs.emitsExactly grow ha, (hs.step grow a).registered⟩

/-- Handlers that register signals while there is room, and a last one that destroys all it finds.
    -/
theorem emission_exact_busy :
    Along (machine (2 * · + 2) : System (State Nat) (Action Nat))
      (fun s a => s.EmitsExactly (2 * · + 2) a ∧ (s.next (2 * · + 2) a).Registered) State.empty
      [.construct 0, .construct 0, .construct 0, .emitVia 0 1,
        .serve 0 fun k => if k = 0 then [.construct 0] else if k = 2 then
          [.destroy 2, .destroy 0, .construct 0] else []] :=
  emission_exact _ (.of_legal (by decide)) (by decide)

/-- The first handler destroys its own signal: the second signal is skipped, and the third one
    receives the emission twice. -/
theorem emission_skips_and_repeats :
    Run (machine (2 * · + 2) : System (State Nat) (Action Nat)) State.empty
        [.construct 0, .construct 0, .construct 0,
          .emit 0 1 fun k => if k = 0 then [.destroy 0] else []]
        ((machine (2 * · + 2)).exec State.empty
          [.construct 0, .construct 0, .construct 0,
            .emit 0 1 fun k => if k = 0 then [.destroy 0] else []]) ∧
      (((machine (2 * · + 2) : System (State Nat) (Action Nat)).exec State.empty
          [.construct 0, .construct 0, .construct 0]).emit (2 * · + 2) 0 1
            fun k => if k = 0 then [.destroy 0] else []).2.hits = [(0, 1), (2, 1), (2, 1)] ∧
      ¬ ((machine (2 * · + 2) : System (State Nat) (Action Nat)).exec State.empty
          [.construct 0, .construct 0, .construct 0]).EmitsExactly (2 * · + 2)
            (.emit 0 1 fun k => if k = 0 then [.destroy 0] else []) := by
  refine ⟨.of_legal (by decide), by decide, fun h => ?_⟩
  have := h.complete 1 (by decide) (by decide)
  revert this
  decide

end WebAsio.Coro.Multicast
