import WebAsio.Coro.Multicast
import Mathlib.Data.Set.Insert

set_option autoImplicit false

/-! # Queued multicast emissions and the past of their group

Two runs lead to the same living signals of a group by different ways. From the call of
`emit(ex, type)` on the same signals are registered and deregistered in both, until an executor runs
the emission. Signals are numbered by their runs, so those of two runs are told apart by names. -/

namespace WebAsio.Coro.Multicast

open Transition

variable {N T : Type}

/-- What is done to the group between the call and the emission. -/
inductive Change (N : Type)
  | register (n : N)
  | deregister (n : N)
  deriving DecidableEq

/-- A run up to the call: any state, and names for the living signals of the group `g`. -/
structure Call (N T : Type) (grow : Nat → Nat) (g : Nat) where
  state : State T
  reachable : Reachable (machine grow) State.empty state
  name : Nat → N
  distinct : ∀ x y, state.Live g x → state.Live g y → name x = name y → x = y

/-- A state with names for signals. -/
structure Scene (N T : Type) where
  state : State T
  name : Nat → N

namespace Scene

/-- The names of the living signals of a group. -/
def live (c : Scene N T) (g : Nat) : Set N := {n | ∃ x, c.state.Live g x ∧ c.name x = n}

variable [DecidableEq N] (grow : Nat → Nat) (g : Nat)

def change (c : Scene N T) : Change N → Scene N T
  | .register n => ⟨c.state.construct grow g, Function.update c.name c.state.count n⟩
  | .deregister n =>
    match (c.state.vec g).elements.find? fun x => c.name x = n with
    | none => c
    | some x => ⟨c.state.destroy x, c.name⟩

end Scene

/-- New signals have names of their own, and only living signals are destroyed. -/
def Valid : Set N → List (Change N) → Prop
  | _, [] => True
  | live, .register n :: cs => n ∉ live ∧ Valid (insert n live) cs
  | live, .deregister n :: cs => n ∈ live ∧ Valid (live \ {n}) cs

/-- The living signals after the changes. -/
def survivors : Set N → List (Change N) → Set N
  | live, [] => live
  | live, .register n :: cs => survivors (insert n live) cs
  | live, .deregister n :: cs => survivors (live \ {n}) cs

/-- The names of the signals that an emission reached. -/
def Report.names (r : Report T) (name : Nat → N) : Set N := {n | ∃ p ∈ r.hits, name p.1 = n}

namespace Call

variable {grow : Nat → Nat} {g : Nat}

/-- The names of the living signals at the call. -/
def live (c : Call N T grow g) : Set N := Scene.live ⟨c.state, c.name⟩ g

/-- The group had a signal before the call. -/
def Used (c : Call N T grow g) : Prop := ∃ x, ∃ σ ∈ c.state.signal x, σ.group = g

variable [DecidableEq N]

/-- The call of `emit(ex, type)`, and the changes up to the moment when an executor takes the
    emission out of its queue. -/
def scene (c : Call N T grow g) (t : T) (cs : List (Change N)) : Scene N T :=
  cs.foldl (Scene.change grow g) ⟨c.state.emitVia g t, c.name⟩

/-- The place of the emission in the queue. -/
def position (c : Call N T grow g) : Nat := c.state.pending.length

/-- The state in which the emission is run. -/
def service (c : Call N T grow g) (t : T) (cs : List (Change N)) : State T :=
  (c.scene t cs).state.take c.position

/-- The signals that receive the type from the queued emission; `script` is what their handlers do.
    -/
def receivers (c : Call N T grow g) (t : T) (cs : List (Change N)) (script : Nat → List Op) :
    Set N :=
  {n | ∃ k ∈ (c.scene t cs).state.pending[c.position]?,
    n ∈ ((c.service t cs).serve grow k script).2.names (c.scene t cs).name}

/-- The signals that `emit(type)` reaches at that moment. -/
def reached (c : Call N T grow g) (t : T) (cs : List (Change N)) (script : Nat → List Op) : Set N :=
  ((c.service t cs).emit grow g t script).2.names (c.scene t cs).name

end Call

/-! ## Registries and the past -/

namespace State

/-- A group has a registry once it had a signal. -/
structure Remembers (s : State T) : Prop where
  unmade : ∀ x, s.count ≤ x → s.signal x = none
  registry : ∀ g, (s.registry g).isSome = true ↔ ∃ x, ∃ σ ∈ s.signal x, σ.group = g

theorem Remembers.empty : Remembers (empty : State T) := by
  refine ⟨fun _ _ => rfl, fun g => iff_of_false Bool.false_ne_true ?_⟩
  rintro ⟨x, σ, hσ, -⟩
  cases hσ

variable {s : State T} (grow : Nat → Nat)

theorem setVec_isSome (s : State T) (g h : Nat) (v : Vec) :
    ((s.setVec g v).registry h).isSome = true ↔ h = g ∨ (s.registry h).isSome = true := by
  unfold setVec
  simp only [Function.update_apply]
  split_ifs with hg
  · exact iff_of_true rfl (Or.inl hg)
  · exact (or_iff_right hg).symm

theorem Remembers.construct (hs : s.Remembers) (g : Nat) : (s.construct grow g).Remembers := by
  refine ⟨fun x hx => ?_, fun h => ?_⟩
  · have hlt : s.count < x := hx
    show Function.update s.signal s.count _ x = none
    rw [Function.update_of_ne (Nat.ne_of_gt hlt)]
    exact hs.unmade x (Nat.le_of_lt hlt)
  · show ((s.setVec g _).registry h).isSome = true ↔
      ∃ x, ∃ σ ∈ Function.update s.signal s.count (some ⟨g, true⟩) x, σ.group = h
    rw [setVec_isSome, hs.registry]
    constructor
    · rintro (rfl | ⟨x, σ, hσ, hg⟩)
      · exact ⟨s.count, ⟨h, true⟩, by rw [Function.update_self]; rfl, rfl⟩
      · have hx : x ≠ s.count := by
          rintro rfl
          rw [hs.unmade _ (Nat.le_refl _)] at hσ
          cases hσ
        exact ⟨x, σ, by rw [Function.update_of_ne hx]; exact hσ, hg⟩
    · rintro ⟨x, σ, hσ, hg⟩
      by_cases hx : x = s.count
      · rw [hx, Function.update_self] at hσ
        cases hσ
        exact Or.inl hg.symm
      · rw [Function.update_of_ne hx] at hσ
        exact Or.inr ⟨x, σ, hσ, hg⟩

theorem Remembers.destroy (hs : s.Remembers) (y : Nat) : (s.destroy y).Remembers := by
  by_cases hy : ∃ g, s.Live g y
  · obtain ⟨g, hy⟩ := hy
    rw [destroy_eq hy]
    refine ⟨fun x hx => ?_, fun h => ?_⟩
    · have hne : x ≠ y := by
        rintro rfl
        cases (hs.unmade x hx).symm.trans hy
      show Function.update s.signal y _ x = none
      rw [Function.update_of_ne hne]
      exact hs.unmade x hx
    · show ((s.setVec g _).registry h).isSome = true ↔
        ∃ x, ∃ σ ∈ Function.update s.signal y (some ⟨g, false⟩) x, σ.group = h
      rw [setVec_isSome, hs.registry]
      constructor
      · rintro (rfl | ⟨x, σ, hσ, hg⟩)
        · exact ⟨y, ⟨h, false⟩, by rw [Function.update_self]; rfl, rfl⟩
        · by_cases hx : x = y
          · subst hx
            rw [show s.signal x = some ⟨g, true⟩ from hy] at hσ
            cases hσ
            exact ⟨x, ⟨g, false⟩, by rw [Function.update_self]; rfl, hg⟩
          · exact ⟨x, σ, by rw [Function.update_of_ne hx]; exact hσ, hg⟩
      · rintro ⟨x, σ, hσ, hg⟩
        by_cases hx : x = y
        · rw [hx, Function.update_self] at hσ
          cases hσ
          exact Or.inl hg.symm
        · rw [Function.update_of_ne hx] at hσ
          exact Or.inr ⟨x, σ, hσ, hg⟩
  · rw [destroy_dead fun g hg => hy ⟨g, hg⟩]
    exact hs

theorem Remembers.performAll (hs : s.Remembers) (ops : List Op) :
    (s.performAll grow ops).Remembers := by
  induction ops generalizing s with
  | nil => exact hs
  | cons op ops ih =>
      cases op with
      | construct g => exact ih (hs.construct grow g)
      | destroy x => exact ih (hs.destroy x)

theorem Remembers.step (hs : s.Remembers) (a : Action T) : (s.next grow a).Remembers := by
  cases a with
  | construct g => exact hs.construct grow g
  | destroy x => exact hs.destroy x
  | emit g t script =>
      obtain ⟨ops, h⟩ := emit_state grow s g t script
      rw [show s.next grow (.emit g t script) = _ from h]
      exact hs.performAll grow ops
  | emitVia g t => exact ⟨hs.unmade, hs.registry⟩
  | serve n script =>
      cases hk : s.pending[n]? with
      | none =>
          rw [next_serve_none grow hk]
          exact hs
      | some k =>
          obtain ⟨ops, h⟩ := serve_state grow (s.take n) k script
          rw [next_serve grow hk, h]
          have htake : (s.take n).Remembers := ⟨hs.unmade, hs.registry⟩
          exact htake.performAll grow ops

end State

/-! ## Between the call and the emission -/

namespace Scene

/-- The scene is a sound state whose living signals of the group are told apart by their names. -/
structure Named (c : Scene N T) (g : Nat) (live : Set N) : Prop where
  sound : State.Sound c.state
  distinct : ∀ x y, c.state.Live g x → c.state.Live g y → c.name x = c.name y → x = y
  names : c.live g = live

variable [DecidableEq N] {c : Scene N T} {g : Nat} {live : Set N} (grow : Nat → Nat)

theorem Named.register (hc : c.Named g live) {n : N} (hn : n ∉ live) :
    (c.change grow g (.register n)).Named g (insert n live) := by
  have hold : ∀ x, c.state.Live g x → x ≠ c.state.count := fun x hx =>
    Nat.ne_of_lt (hc.sound.numbered x g hx)
  have hlive : ∀ x, (c.state.construct grow g).Live g x ↔ x = c.state.count ∨ c.state.Live g x := by
    intro x
    rw [State.construct_live]
    split_ifs with hx
    · exact iff_of_true rfl (Or.inl hx)
    · exact (or_iff_right hx).symm
  have hname : ∀ x, c.state.Live g x → Function.update c.name c.state.count n x = c.name x :=
    fun x hx => Function.update_of_ne (hold x hx) _ _
  have hfresh : ∀ x, c.state.Live g x → c.name x ≠ n := fun x hx he =>
    hn (hc.names ▸ ⟨x, hx, he⟩)
  refine ⟨hc.sound.construct grow g, fun x y hx hy he => ?_, ?_⟩
  · simp only [change] at he
    rcases (hlive x).mp hx with rfl | hx
    · rcases (hlive y).mp hy with rfl | hy
      · rfl
      · rw [Function.update_self, hname y hy] at he
        exact absurd he.symm (hfresh y hy)
    · rcases (hlive y).mp hy with rfl | hy
      · rw [Function.update_self, hname x hx] at he
        exact absurd he (hfresh x hx)
      · rw [hname x hx, hname y hy] at he
        exact hc.distinct x y hx hy he
  · rw [← hc.names]
    ext m
    rw [Set.mem_insert_iff]
    constructor
    · rintro ⟨x, hx, rfl⟩
      rcases (hlive x).mp hx with rfl | hx
      · exact Or.inl (Function.update_self ..)
      · exact Or.inr ⟨x, hx, (hname x hx).symm⟩
    · rintro (rfl | ⟨x, hx, rfl⟩)
      · exact ⟨c.state.count, (hlive _).mpr (Or.inl rfl), Function.update_self ..⟩
      · exact ⟨x, (hlive x).mpr (Or.inr hx), hname x hx⟩

theorem Named.deregister (hc : c.Named g live) {n : N} (hn : n ∈ live) :
    (c.change grow g (.deregister n)).Named g (live \ {n}) := by
  rw [← hc.names] at hn
  obtain ⟨x, hx, hxn⟩ := hn
  -- the signal that is found is the one of that name
  have hfind : (c.state.vec g).elements.find? (fun y => c.name y = n) = some x := by
    have hmem := (hc.sound.registered.listed g x).mpr hx
    cases hf : (c.state.vec g).elements.find? (fun y => c.name y = n) with
    | none => exact absurd hxn (by simpa using List.find?_eq_none.mp hf x hmem)
    | some y =>
        have hy := (hc.sound.registered.listed g y).mp (List.mem_of_find?_eq_some hf)
        have hyn : c.name y = n := by simpa using List.find?_some hf
        rw [hc.distinct y x hy hx (hyn.trans hxn.symm)]
  have hlive : ∀ y, (c.state.destroy x).Live g y ↔ y ≠ x ∧ c.state.Live g y :=
    State.destroy_live hx g
  simp only [change, hfind]
  refine ⟨hc.sound.destroy x, fun y z hy hz he => ?_, ?_⟩
  · exact hc.distinct y z ((hlive y).mp hy).2 ((hlive z).mp hz).2 he
  · rw [← hc.names]
    ext m
    constructor
    · rintro ⟨y, hy, rfl⟩
      obtain ⟨hyx, hy⟩ := (hlive y).mp hy
      exact ⟨⟨y, hy, rfl⟩, fun he => hyx (hc.distinct y x hy hx (he.trans hxn.symm))⟩
    · rintro ⟨⟨y, hy, rfl⟩, hne⟩
      refine ⟨y, (hlive y).mpr ⟨?_, hy⟩, rfl⟩
      rintro rfl
      exact hne hxn

theorem change_pending (a : Change N) : (c.change grow g a).state.pending = c.state.pending := by
  cases a with
  | register n => rfl
  | deregister n =>
      simp only [change]
      cases (c.state.vec g).elements.find? fun x => c.name x = n with
      | none => rfl
      | some x =>
          show (c.state.destroy x).pending = c.state.pending
          by_cases hx : ∃ g', c.state.Live g' x
          · obtain ⟨g', hx⟩ := hx
            rw [State.destroy_eq hx]
            rfl
          · rw [State.destroy_dead fun g' hg => hx ⟨g', hg⟩]

/-- Valid changes lead to the survivors and leave the queues alone. -/
theorem Named.run {cs : List (Change N)} (hcs : Valid live cs) (hc : c.Named g live) :
    (cs.foldl (change grow g) c).Named g (survivors live cs) ∧
      (cs.foldl (change grow g) c).state.pending = c.state.pending := by
  induction cs generalizing c live with
  | nil => exact ⟨hc, rfl⟩
  | cons a cs ih =>
      have hpending := change_pending (c := c) (g := g) grow a
      cases a with
      | register n =>
          obtain ⟨hnamed, hrest⟩ := ih hcs.2 (hc.register grow hcs.1)
          exact ⟨hnamed, hrest.trans hpending⟩
      | deregister n =>
          obtain ⟨hnamed, hrest⟩ := ih hcs.2 (hc.deregister grow hcs.1)
          exact ⟨hnamed, hrest.trans hpending⟩

end Scene

/-! ## The emission -/

namespace Call

variable {grow : Nat → Nat} {g : Nat} (c : Call N T grow g)

theorem sound : State.Sound c.state :=
  c.reachable.invariant State.Sound.empty fun _ a hs _ => hs.step grow a

/-- The closure has a registry to go through if the group was used. -/
theorem captured_iff : (c.state.registry g).isSome = true ↔ c.Used :=
  (c.reachable.invariant State.Remembers.empty fun _ a hs _ => hs.step grow a).registry g

/-- The names of the living signals are those of the registered ones. -/
theorem live_eq : c.live = {n | n ∈ (c.state.vec g).elements.map c.name} := by
  ext n
  constructor
  · rintro ⟨x, hx, rfl⟩
    exact List.mem_map.mpr ⟨x, (c.sound.registered.listed g x).mpr hx, rfl⟩
  · intro hn
    obtain ⟨x, hx, rfl⟩ := List.mem_map.mp hn
    exact ⟨x, (c.sound.registered.listed g x).mp hx, rfl⟩

variable [DecidableEq N]

theorem named (t : T) {cs : List (Change N)} (hcs : Valid c.live cs) :
    (c.scene t cs).Named g (survivors c.live cs) ∧
      (c.scene t cs).state.pending[c.position]? =
        some ⟨g, t, (c.state.registry g).isSome, (c.state.vec g).elements⟩ := by
  have hstart : Scene.Named (⟨c.state.emitVia g t, c.name⟩ : Scene N T) g c.live :=
    ⟨c.sound.emitVia g t, c.distinct, rfl⟩
  obtain ⟨hnamed, hpending⟩ := hstart.run grow hcs
  refine ⟨hnamed, ?_⟩
  show (cs.foldl (Scene.change grow g) _).state.pending[c.position]? = _
  rw [hpending]
  exact List.getElem?_concat_length

/-- A closure that captured the registry does what `emit` does, and one that did not, nothing. -/
theorem receivers_eq (t : T) {cs : List (Change N)} (hcs : Valid c.live cs)
    (script : Nat → List Op) [Decidable c.Used] :
    c.receivers t cs script = if c.Used then c.reached t cs script else ∅ := by
  ext n
  unfold receivers
  rw [(c.named t hcs).2]
  simp only [Option.mem_def, Option.some.injEq, exists_eq_left', Set.mem_ofPred_eq, State.serve,
    c.captured_iff]
  split_ifs with hu
  · rfl
  · refine iff_of_false ?_ (Set.notMem_empty n)
    rintro ⟨p, hp, -⟩
    exact absurd hp List.not_mem_nil

/-- A steady emission reaches the living signals. -/
theorem reached_eq (t : T) {cs : List (Change N)} (hcs : Valid c.live cs) {script : Nat → List Op}
    (h : (c.service t cs).Steady grow g script) : c.reached t cs script = survivors c.live cs := by
  obtain ⟨hnamed, -⟩ := c.named t hcs
  have hemit : ((c.service t cs).emit grow g t script).2 =
      ⟨((c.scene t cs).state.vec g).elements.map (·, t), [], false⟩ :=
    h.emit grow (hnamed.sound.take c.position) t
  rw [← hnamed.names]
  unfold reached
  rw [hemit]
  ext n
  constructor
  · rintro ⟨p, hp, rfl⟩
    obtain ⟨x, hx, rfl⟩ := List.mem_map.mp hp
    exact ⟨x, (hnamed.sound.registered.listed g x).mp hx, rfl⟩
  · rintro ⟨x, hx, rfl⟩
    exact ⟨(x, t), List.mem_map.mpr ⟨x, (hnamed.sound.registered.listed g x).mpr hx, rfl⟩, rfl⟩

end Call

/-- For any two runs that lead to the same living signals of a group, and the same changes from the
    call on: when the emissions are steady, the queued ones reach the same signals, those that
    `emit(type)` would reach, exactly when the group had a signal before the call in both runs or
    has none when the emission is run. -/
theorem queued_emission_iff [DecidableEq N] {grow : Nat → Nat} {g : Nat} (c₁ c₂ : Call N T grow g)
    (hlive : c₁.live = c₂.live) (t : T) {cs : List (Change N)} (hcs : Valid c₁.live cs)
    {script₁ script₂ : Nat → List Op} (h₁ : (c₁.service t cs).Steady grow g script₁)
    (h₂ : (c₂.service t cs).Steady grow g script₂) :
    (c₁.receivers t cs script₁ = c₂.receivers t cs script₂ ∧
      c₁.receivers t cs script₁ = c₁.reached t cs script₁ ∧
      c₂.receivers t cs script₂ = c₂.reached t cs script₂) ↔
    (c₁.Used ∧ c₂.Used) ∨ survivors c₁.live cs = ∅ := by
  classical
  have hcs₂ : Valid c₂.live cs := hlive ▸ hcs
  have hr₁ := c₁.reached_eq t hcs h₁
  have hr₂ := c₂.reached_eq t hcs₂ h₂
  rw [← hlive] at hr₂
  rw [c₁.receivers_eq t hcs, c₂.receivers_eq t hcs₂, hr₁, hr₂]
  constructor
  · rintro ⟨-, he₁, he₂⟩
    by_cases hempty : survivors c₁.live cs = ∅
    · exact Or.inr hempty
    · refine Or.inl ⟨?_, ?_⟩
      · by_contra hu
        rw [if_neg hu] at he₁
        exact hempty he₁.symm
      · by_contra hu
        rw [if_neg hu] at he₂
        exact hempty he₂.symm
  · rintro (⟨hu₁, hu₂⟩ | hempty)
    · rw [if_pos hu₁, if_pos hu₂]
      exact ⟨rfl, rfl, rfl⟩
    · rw [hempty, ite_self, ite_self]
      exact ⟨rfl, rfl, rfl⟩

/-- The call after a run from the beginning, with names that tell all signals apart. -/
def callAfter (grow : Nat → Nat) (g : Nat) (as : List (Action T))
    (h : (machine grow).Legal State.empty as) (name : Nat → N) (hname : Function.Injective name) :
    Call N T grow g where
  state := (machine grow).exec State.empty as
  reachable := .of_legal h
  name := name
  distinct := fun _ _ _ _ he => hname he

/-- Two signals, of which the first one was destroyed. -/
def secondLeft : Call Nat Unit (2 * · + 2) 0 :=
  callAfter _ 0 [.construct 0, .construct 0, .destroy 0] (by decide) id Function.injective_id

/-- Two signals, of which the second one was destroyed. -/
def firstLeft : Call Nat Unit (2 * · + 2) 0 :=
  callAfter _ 0 [.construct 0, .construct 0, .destroy 1] (by decide) Nat.succ Nat.succ_injective

theorem queued_emission_iff_churn :
    secondLeft.receivers () [.register 7, .deregister 1] (fun _ => []) =
      firstLeft.receivers () [.register 7, .deregister 1] fun _ => [] := by
  have hlive : secondLeft.live = firstLeft.live := by
    rw [Call.live_eq, Call.live_eq]
    exact congrArg (fun l : List Nat => {n | n ∈ l})
      (show (secondLeft.state.vec 0).elements.map secondLeft.name =
        (firstLeft.state.vec 0).elements.map firstLeft.name by decide)
  have hvalid : Valid secondLeft.live [.register 7, .deregister 1] := by
    have hone : secondLeft.live = {n | n ∈ [1]} := secondLeft.live_eq
    rw [hone]
    exact ⟨by simp, Or.inr (by simp), trivial⟩
  exact ((queued_emission_iff secondLeft firstLeft hlive () hvalid (by decide) (by decide)).mpr
    (Or.inl ⟨⟨0, ⟨0, false⟩, by decide, rfl⟩, ⟨0, ⟨0, true⟩, by decide, rfl⟩⟩)).1

/-- A group that never had a signal. -/
def neverUsed : Call Nat Unit (2 * · + 2) 0 :=
  callAfter _ 0 [] trivial id Function.injective_id

/-- A group whose only signal was destroyed. -/
def allDead : Call Nat Unit (2 * · + 2) 0 :=
  callAfter _ 0 [.construct 0, .destroy 0] (by decide) id Function.injective_id

/-- After the same registration, the emission reaches nothing in the first run, and the signal in
    the second one. -/
theorem queued_emission_forgets :
    neverUsed.live = allDead.live ∧ Valid neverUsed.live [.register 7] ∧
      neverUsed.receivers () [.register 7] (fun _ => []) ≠
        allDead.receivers () [.register 7] fun _ => [] := by
  have hnever : neverUsed.live = {n | n ∈ []} := neverUsed.live_eq
  have hdead : allDead.live = {n | n ∈ []} := allDead.live_eq
  have hvalid : Valid neverUsed.live [.register 7] := by
    rw [hnever]
    exact ⟨by simp, trivial⟩
  refine ⟨hnever.trans hdead.symm, hvalid, fun he => ?_⟩
  have hseven : 7 ∈ allDead.receivers () [.register 7] fun _ => [] :=
    ⟨_, rfl, (1, ()), by decide, by decide⟩
  rw [← he] at hseven
  obtain ⟨k, hk, p, hp, -⟩ := hseven
  cases hk
  cases hp

end WebAsio.Coro.Multicast
